import CurlLoop.LifeRuns
import CurlLoop.Stranded

/-!
# No request ends in silence

The protocol of `CurlLoop.LifeCycle` says what may be heard of a request. It does not say that
anything is heard: a request that is destroyed before it was started has a story that the protocol
reads, and so has one that was destroyed while its transfer was under way. There are six places where
a request is destroyed before the loop is. Two are for requests that were cancelled, and these are told
nothing. A request that waits for a failed resource is told before, and so is one that was injected.
A request that was completed has been told of its last attempt. The last place is
`curl_event_loop_request_start`, which destroys a request that `setup_curl_handle` refuses, and does
not say so (`silent_of_refused`).

So it is to be assumed that `setup_curl_handle` does not refuse. Then a request with both callbacks
that was destroyed and not cancelled was told of each of its attempts, and at least once.

The invariant is about the row of the request. Whatever a row is told makes up for the attempt that
may be under way (`Told.heard`), and a row that has been told enough may be destroyed (`Heard.told`).

## Main definitions

* `Env.Welcomes` — `setup_curl_handle` does not refuse the request
* `Row.Told` — the invariant

## Main results

* `silent_of_refused` — a request that `setup_curl_handle` refuses is told nothing
* `Path.told` — the invariant along a path
* `answered_of_orderly` — every run before the loop is destroyed
-/

namespace CurlLoop

/-- `setup_curl_handle` does not refuse the request: its `on_prepare` agrees, and there is always an
easy handle. -/
structure Env.Welcomes {ω : Type} (env : Env ω) (r : ReqId) : Prop where
  onPrepare : ∀ w, (env.onPrepare r w).1 = true
  curlEasyInit : ∀ w, (env.curlEasyInit w).1 = true

/-! ### Rows -/

namespace Row

variable {w w' : Row} {r : ReqId} {e : Event}

/-- How often the request was started. -/
def starts (w : Row) (r : ReqId) : ℕ := w.story.count (.started r)

/-- How often its user was told how it ended. -/
def reports (w : Row) : ℕ := w.story.countP Event.isReport

/-- Both callbacks are set. -/
def Listens (w : Row) : Prop := w.terms.onComplete = true ∧ w.terms.onFailure = true

/-- The loop owns the request. -/
def Owned (w : Row) : Prop := w.accepted ∧ ¬ w.destroyed

/-- Its user was told of every attempt, and at least once. -/
structure Heard (r : ReqId) (w : Row) : Prop where
  attempts : w.starts r ≤ w.reports
  once : 1 ≤ w.reports

/-- **The invariant.** Of the attempts of a request at most the one that is under way was not
reported, and a request that is destroyed and not cancelled was told enough. -/
structure Told (r : ReqId) (w : Row) : Prop where
  fresh : ¬ w.accepted → w.story = [] ∧ ¬ w.destroyed
  waits : w.Listens → w.Owned → ¬ w.active → w.starts r ≤ w.reports
  runs : w.Listens → w.Owned → w.starts r ≤ w.reports + 1
  gone : w.Listens → w.destroyed → w.terms.isCancelled = false → w.Heard r

theorem reports_cons (he : e.isReport = true) (hs : w'.story = e :: w.story) :
    w'.reports = w.reports + 1 := by
  rw [reports, hs, List.countP_cons_of_pos he, reports]

theorem starts_cons (he : e ≠ .started r) (hs : w'.story = e :: w.story) :
    w'.starts r = w.starts r := by
  rw [starts, hs, List.count_cons_of_ne he, starts]

theorem Heard.of_story (h : w.Heard r) (hs : w'.story = w.story) : w'.Heard r := by
  refine ⟨?_, ?_⟩
  · rw [starts, reports, hs]
    exact h.attempts
  · rw [reports, hs]
    exact h.once

/-- A `NULL` call is no report and no start. -/
theorem Heard.nullCall (h : w.Heard r) {b : ReqId} (hs : w'.story = .nullCall b :: w.story) :
    w'.Heard r := by
  have hreports : w'.reports = w.reports := by
    rw [reports, hs, List.countP_cons_of_neg (by simp [Event.isReport]), reports]
  refine ⟨?_, ?_⟩
  · rw [starts_cons (by simp) hs, hreports]
    exact h.attempts
  · rw [hreports]
    exact h.once

/-- A request that was told enough may be destroyed, and whatever else. -/
theorem Heard.told (h : w.Listens → w.Heard r) (ha : w.accepted) : w.Told r where
  fresh hno := absurd ha hno
  waits hl _ _ := (h hl).attempts
  runs hl _ := Nat.le_succ_of_le (h hl).attempts
  gone hl _ _ := h hl

/-- A request that was just handed over has not been started. -/
theorem Told.entered (ha : w.accepted) (hd : ¬ w.destroyed) (hs : w.story = []) : w.Told r := by
  have hnone : w.starts r = 0 := by
    rw [starts, hs]
    rfl
  refine ⟨fun hno => absurd ha hno, fun _ _ _ => ?_, fun _ _ => ?_, fun _ hgone => absurd hgone hd⟩
  · rw [hnone]
    exact Nat.zero_le _
  · rw [hnone]
    exact Nat.zero_le _

/-- Nothing is promised to a request that was cancelled, once it is destroyed. -/
theorem Told.cancelled (ha : w.accepted) (hd : w.destroyed) (hc : w.terms.isCancelled = true) :
    w.Told r where
  fresh hno := absurd ha hno
  waits _ ho _ := absurd hd ho.2
  runs _ ho := absurd hd ho.2
  gone _ _ hno := absurd (hc.symm.trans hno) (by decide)

/-- **A report makes up for the attempt** that may be under way. -/
theorem Told.heard (h : w.Told r) (hl : w.Listens) (ho : w.Owned) (he : e.isReport = true)
    (hs : w'.story = e :: w.story) : w'.Heard r := by
  have hne : e ≠ .started r := by
    rintro rfl
    exact absurd he (by simp [Event.isReport])
  have hreports := reports_cons he hs
  refine ⟨?_, ?_⟩
  · rw [starts_cons hne hs, hreports]
    exact h.runs hl ho
  · rw [hreports]
    exact Nat.succ_le_succ (Nat.zero_le _)

/-- A request that is not active is started. -/
theorem Told.started (h : w.Told r) (ho : w.Owned) (hidle : ¬ w.active) :
    Told r { w with active := True, story := .started r :: w.story } := by
  refine ⟨fun hno => absurd ho.1 hno, fun _ _ hno => absurd trivial hno, fun hl _ => ?_,
    fun _ hgone => absurd hgone ho.2⟩
  have hstarts : starts { w with active := True, story := .started r :: w.story } r =
      w.starts r + 1 := List.count_cons_self
  have hreports : reports { w with active := True, story := .started r :: w.story } = w.reports :=
    List.countP_cons_of_neg (by simp [Event.isReport])
  rw [hstarts, hreports]
  exact Nat.succ_le_succ (h.waits hl ho hidle)

/-- The mark is no part of the story, nor of the callbacks. -/
theorem story_of_unmarked (hu : w'.unmarked = w.unmarked) : w'.story = w.story := by
  have hstory := congrArg Row.story hu
  exact hstory

theorem Listens.of_unmarked (h : w'.Listens) (hu : w'.unmarked = w.unmarked) : w.Listens := by
  have hcomplete := congrArg (fun v : Row => v.terms.onComplete) hu
  have hfailure := congrArg (fun v : Row => v.terms.onFailure) hu
  exact ⟨hcomplete.symm.trans h.1, hfailure.symm.trans h.2⟩

/-- A request that the loop owns is marked as cancelled. -/
theorem Told.marked (h : w.Told r) (ho : w.Owned) (hu : w'.unmarked = w.unmarked) : w'.Told r := by
  obtain ⟨haccepted, hdestroyed, hactive, -, hstory⟩ := Row.mk.inj hu
  have hcounts : w'.starts r = w.starts r ∧ w'.reports = w.reports := by
    rw [starts, starts, reports, reports, hstory]
    exact ⟨rfl, rfl⟩
  refine ⟨fun hno => absurd ho.1 (haccepted ▸ hno), fun hl _ hidle => ?_, fun hl _ => ?_,
    fun _ hgone => absurd (hdestroyed ▸ hgone) ho.2⟩
  · rw [hcounts.1, hcounts.2]
    exact h.waits (hl.of_unmarked hu) ho (hactive ▸ hidle)
  · rw [hcounts.1, hcounts.2]
    exact h.runs (hl.of_unmarked hu) ho

end Row

namespace Loop

variable {ω : Type} {s t u : Loop ω} {r b : ReqId} {env : Env ω} {calls : ApiCall → Prop}
  {busy : ReqId → Prop} {held : Option ReqId} {W : Regime ω}

theorem Live.owned (h : s.Live r) : (s.row r).Owned := h

/-! ### Calls -/

/-- A request that arrives has no story, and calls otherwise mark it at most. -/
theorem Errands.told (he : Errands env calls busy s t) (h : (s.row r).Told r) :
    (t.row r).Told r := by
  induction he with
  | refl => exact h
  | calm _ ha ih =>
    rw [ha.row r]
    exact ih
  | @cancel t b _ hlive _ ih =>
    rcases eq_or_ne r b with rfl | hne
    · exact ih.marked hlive.owned (unmarked_cancel t r r)
    · rw [beside_cancel t b r hne]
      exact ih
  | @arrives t u b _ _ ha _ _ _ _ ih =>
    rcases eq_or_ne r b with rfl | hne
    · obtain ⟨hstory, hkept⟩ := ih.fresh ha.fresh
      have haccepted : r ∈ u.accepted := by
        rw [show u.accepted = r :: t.accepted from congrArg Traffic.accepted ha.traffic]
        exact List.mem_cons_self
      have hdestroyed : u.destroyed = t.destroyed := congrArg Traffic.destroyed ha.traffic
      have hsilent : (u.row r).story = (t.row r).story :=
        congrArg (List.filter fun e : Event => e.subject = r) ha.trace
      refine Row.Told.entered haccepted ?_ (hsilent.trans hstory)
      rw [Loop.row, hdestroyed]
      exact hkept
    · rw [ha.row hne]
      exact ih

/-- The row of a request that is told of a failed resource. -/
theorem story_callOnAborted (env : Env ω) (s : Loop ω) (r : ReqId) (hf : (s.req r).onFailure = true) :
    (s.callOnAborted env r).2.story r = .onFailure r .abortedByCallback 0 :: s.story r := by
  rw [callOnAborted, if_pos hf]
  exact (story_emit s (.onFailure r .abortedByCallback 0) r).trans (if_pos rfl)

/-- It is told enough. -/
theorem heard_callOnAborted (h : (s.row r).Told r) (hlive : s.Live r)
    (hl : ((s.callOnAborted env r).2.row r).Listens) :
    ((s.callOnAborted env r).2.row r).Heard r := by
  obtain ⟨w, tr, heq⟩ := callOnAborted_eq env s r
  have hl' : (s.row r).Listens := by
    rw [heq] at hl
    exact hl
  exact h.heard hl' hlive.owned (e := .onFailure r .abortedByCallback 0) rfl
    (story_callOnAborted env s r hl'.2)

/-- A request that was told enough is destroyed, after calls that leave it alone but for the mark. -/
theorem told_destroy (hlive : u.Live r) (hu : (u.row r).unmarked = (t.row r).unmarked)
    (h : (t.row r).Listens → (t.row r).Heard r) :
    ((u.curlEventRequestDestroy r).row r).Told r := by
  refine Row.Heard.told (fun hl => ?_) hlive.1
  have hterms : ((u.curlEventRequestDestroy r).row r).terms = (u.row r).terms :=
    terms_destroy u r r
  have hl' : (u.row r).Listens := by
    rw [Row.Listens, hterms] at hl
    exact hl
  have hstory : (u.row r).story = (t.row r).story := Row.story_of_unmarked hu
  exact (h (hl'.of_unmarked hu)).of_story hstory

/-- Whoever is failed while calls come in is told of it. -/
theorem Interlude.told (hi : Interlude env calls held s t) (h : (s.row r).Told r) :
    (t.row r).Told r := by
  induction hi with
  | refl => exact h
  | errands _ he ih => exact he.told ih
  | @abort t u b _ ht _ he hu ih =>
    rcases eq_or_ne r b with rfl | hne
    · have hmark := he.unmarked (r := r) (by exact .inr rfl)
      exact told_destroy hu.live hmark fun hl => heard_callOnAborted ih ht.live hl
    · have hheard : ((t.callOnAborted env b).2.row r).Told r := by
        rw [beside_callOnAborted env t b r hne]
        exact ih
      rw [beside_destroy u b r hne]
      exact he.told hheard

/-! ### Starts -/

/-- `setup_curl_handle` succeeds. -/
theorem setupCurlHandle_of_welcomes (hw : env.Welcomes r) (s : Loop ω) :
    (s.setupCurlHandle env r).1 = true := by
  have hprepared : ∀ t : Loop ω,
      (if (t.req r).onPrepare then t.ask (env.onPrepare r) else (true, t)).1 = true := by
    intro t
    split
    · exact hw.onPrepare t.world
    · rfl
  rw [setupCurlHandle]
  dsimp only
  rw [if_pos (hprepared _)]
  exact congrArg Prod.fst (if_pos (hw.curlEasyInit _))

/-- A request that is welcome is parked or started. -/
theorem row_start (hw : env.Welcomes r) (s : Loop ω) :
    (s.curlEventLoopRequestStart env r).row r = s.row r ∨
      (s.curlEventLoopRequestStart env r).row r =
        { s.row r with active := True, story := .started r :: s.story r } := by
  obtain ⟨k, w, hask⟩ := admission_eq env s r
  rw [start_eq, hask]
  split
  · exact .inl (row_parkRateLimited ({ s with world := w } : Loop ω) r _)
  · have hok := setupCurlHandle_of_welcomes hw ({ s with world := w } : Loop ω)
    rw [if_pos hok]
    obtain ⟨w', hfail | hset⟩ := setupCurlHandle_eq env ({ s with world := w } : Loop ω) r
    · rw [hfail] at hok
      exact absurd hok (by simp)
    · rw [hset]
      exact .inr (row_started env s w' r)

/-- **A request that is refused** is destroyed without a word: neither `on_complete` nor `on_failure`
is called, and it is not marked as cancelled. -/
theorem silent_of_refused (s : Loop ω) (hgo : (s.admission env r).1 = 0)
    (hrefused : ((s.admission env r).2.setupCurlHandle env r).1 = false) :
    (s.curlEventLoopRequestStart env r).destroyed = r :: s.destroyed ∧
      (s.curlEventLoopRequestStart env r).trace = s.trace ∧
      ((s.curlEventLoopRequestStart env r).req r).isCancelled = (s.req r).isCancelled := by
  obtain ⟨k, w, hask⟩ := admission_eq env s r
  rw [hask] at hgo hrefused
  rw [start_eq, hask, if_neg (not_not.mpr hgo)]
  obtain ⟨w', hfail | hset⟩ := setupCurlHandle_eq env ({ s with world := w } : Loop ω) r
  · rw [hfail, if_neg Bool.false_ne_true]
    refine ⟨rfl, rfl, ?_⟩
    rw [req_destroy, Function.update_self]
    change (Function.update s.req r _ r).isCancelled = (s.req r).isCancelled
    rw [Function.update_self]
    rfl
  · rw [hset] at hrefused
    exact absurd hrefused.symm Bool.false_ne_true

/-- A request that gets no easy handle is destroyed, and its user is told nothing. -/
example :
    let env : Env Unit := { Env.uneventful with curlEasyInit := fun _ => (false, ()) }
    let s := Guarded.run (Loop.act env) (curlEventLoopInit (Memory.plain fun _ => []) ())
      [.call (.api (.submit 1 0)), .processCancelledAndPendingRequests]
    s.destroyed = [1] ∧ (s.req 1).isCancelled = false ∧ s.story 1 = [] := by
  decide +kernel

/-! ### Completions -/

/-- A request whose transfer is over is told so. -/
theorem heard_hear (h : (s.row r).Told r) (hlive : s.Live r) (m : Message)
    (hl : ((s.hear env m r).2.2.row r).Listens) : ((s.hear env m r).2.2.row r).Heard r := by
  obtain ⟨w, tr, heq⟩ := hear_eq env s m r
  have hl' : (s.row r).Listens := by
    rw [heq] at hl
    exact hl
  rw [hear]
  split
  · rw [tellComplete, if_pos (by exact hl'.1)]
    exact h.heard hl' hlive.owned (e := .onComplete r) rfl
      ((story_emit (s.pickUp m.easy r) (.onComplete r) r).trans (if_pos rfl))
  · rw [tellFailure, if_pos (by exact hl'.2)]
    exact h.heard hl' hlive.owned (e := .onFailure r m.result m.httpCode) rfl
      ((story_emit (s.pickUp m.easy r) (.onFailure r m.result m.httpCode) r).trans (if_pos rfl))

/-- A request that was injected is told that it is complete. -/
theorem heard_injected (h : (s.row r).Told r) (hlive : s.Live r)
    (hl : ((if (s.req r).onComplete then (s.tellComplete env r).2.2 else s).row r).Listens) :
    ((if (s.req r).onComplete then (s.tellComplete env r).2.2 else s).row r).Heard r := by
  rcases Bool.eq_false_or_eq_true (s.req r).onComplete with hset | hset
  · obtain ⟨w, tr, heq⟩ := tellComplete_eq env s r
    have hl' : (s.row r).Listens := by
      rw [if_pos hset, heq] at hl
      exact hl
    rw [if_pos hset, tellComplete, if_pos hset]
    exact h.heard hl' hlive.owned (e := .onComplete r) rfl
      ((story_emit s (.onComplete r) r).trans (if_pos rfl))
  · rw [if_neg (by rw [hset]; decide)] at hl
    exact absurd (hset.symm.trans hl.1) (by decide)

/-- What is added to a story by `settle`. -/
theorem TraceNull.story {tr : List Event} (h : TraceNull r s tr) {t : Loop ω} (ht : t.trace = tr) :
    (t.row r).story = (s.row r).story ∨ (t.row r).story = .nullCall r :: (s.row r).story := by
  have hstory : (t.row r).story = tr.filter fun e => e.subject = r :=
    congrArg (List.filter fun e : Event => e.subject = r) ht
  rw [hstory]
  rcases h with rfl | rfl
  · exact .inl rfl
  · exact .inr (List.filter_cons_of_pos (by simp [Event.subject]))

/-- A request that was told enough may be settled in any way. -/
theorem told_settle (h : (s.row r).Listens → (s.row r).Heard r) (hlive : s.Live r) (httpCode : ℤ)
    (success : Bool) (retryIn : ℤ) : ((s.settle env r httpCode success retryIn).row r).Told r := by
  have hnoted : ∀ {tr : List Event} {t : Loop ω}, TraceNull r s tr → t.trace = tr → r ∈ t.accepted →
      ((t.row r).Listens → (s.row r).Listens) → (t.row r).Told r := by
    intro tr t htr ht ha hl
    refine Row.Heard.told (fun hlistens => ?_) ha
    rcases htr.story ht with hs | hs
    · exact (h (hl hlistens)).of_story hs
    · exact (h (hl hlistens)).nullCall hs
  have hout := settle_outcome env s r httpCode success retryIn
  generalize s.settle env r httpCode success retryIn = t at hout ⊢
  cases hout with
  | parked w due =>
    rw [row_parkRateLimited ({ s with world := w } : Loop ω) r due]
    exact Row.Heard.told h hlive.1
  | again w tr n f hf htr =>
    refine hnoted htr rfl hlive.1 fun hl => ?_
    have hreq : (((({ s with world := w, trace := tr, metrics := n } : Loop ω).modifyReq r
        f).curlEventLoopRequestCleanup r).enqueueRequest r).req r = (f (s.req r)).cleaned := by
      change Function.update (Function.update s.req r (f (s.req r))) r
        (Function.update s.req r (f (s.req r)) r).cleaned r = _
      rw [Function.update_self, Function.update_self]
    have hcomplete : (f (s.req r)).onComplete = (s.req r).onComplete :=
      congrArg Terms.onComplete hf
    have hfailure : (f (s.req r)).onFailure = (s.req r).onFailure := congrArg Terms.onFailure hf
    rw [Row.Listens, Loop.row, hreq] at hl
    exact ⟨hcomplete.symm.trans hl.1, hfailure.symm.trans hl.2⟩
  | ended w tr n f hf htr =>
    refine hnoted htr rfl hlive.1 fun hl => ?_
    have hreq : (({ s with world := w, trace := tr, metrics := n } : Loop ω).modifyReq r f).req r =
        f (s.req r) := Function.update_self ..
    have hterms := terms_destroy
      (({ s with world := w, trace := tr, metrics := n } : Loop ω).modifyReq r f) r r
    rw [hreq, hf] at hterms
    rw [Row.Listens, Loop.row, hterms] at hl
    exact hl

/-! ### Along a path -/

/-- **The invariant along a path.** -/
theorem Path.told (hw : env.Welcomes r) (hp : Path env W s t) (h : (s.row r).Told r) :
    (t.row r).Told r := by
  induction hp with
  | refl => exact h
  | interlude _ hi ih => exact hi.told ih
  | @drop t b _ hlive _ _ hmark _ ih =>
    rcases eq_or_ne r b with rfl | hne
    · have haccepted : r ∈ (t.cancelledRound r).accepted := by
        rw [accepted_cancelledRound]
        exact hlive.1
      have hdestroyed : r ∈ (t.cancelledRound r).destroyed := by
        rw [destroyed_cancelledRound]
        exact List.mem_cons_self
      exact Row.Told.cancelled haccepted hdestroyed
        ((congrArg Terms.isCancelled (terms_cancelledRound t r r)).trans hmark)
    · rw [beside_cancelledRound t b r hne]
      exact ih
  | @discard t b _ hb hmark ih =>
    rcases eq_or_ne r b with rfl | hne
    · exact Row.Told.cancelled hb.live.1 List.mem_cons_self
        ((congrArg Terms.isCancelled (terms_destroy t r r)).trans hmark)
    · rw [beside_destroy t b r hne]
      exact ih
  | @start t b _ hb _ _ ih =>
    rcases eq_or_ne r b with rfl | hne
    · rcases row_start hw t with hrow | hrow
      · rw [hrow]
        exact ih
      · rw [hrow]
        exact ih.started hb.live.owned hb.queued
    · rw [beside_start env t b r hne]
      exact ih
  | @complete t u m a _ _ _ hlive _ hi hu ih =>
    rcases eq_or_ne r a.priv with rfl | hne
    · refine told_settle (fun hl => ?_) hu.live _ _ _
      have hheard := heard_hear ih hlive m (hl.of_unmarked hi.unmarked)
      exact hheard.of_story (Row.story_of_unmarked hi.unmarked)
    · rw [beside_settle env u a.priv _ _ _ r hne]
      refine hi.told ?_
      rw [beside_hear env t m a.priv r hne]
      exact ih
  | @injected t u b _ hb hi hu ih =>
    rcases eq_or_ne r b with rfl | hne
    · exact told_destroy hu.live hi.unmarked fun hl => heard_injected ih hb.live hl
    · rw [beside_destroy u b r hne]
      refine hi.told ?_
      split
      · rw [beside_tellComplete env t b r hne]
        exact ih
      · exact ih

/-! ### Runs -/

/-- A request that was told without having been started is not started. -/
theorem never_started {q : Manner} {es : List Event} (h : q.Life r es .dismissed) :
    es.count (.started r) = 0 := by
  cases h <;> rfl

theorem Orderly.abandonsAtMost {a : Action} (h : Orderly env a s) : AbandonsAtMost env a s := by
  rw [AbandonsAtMost, if_neg h.1]
  exact h.2

/-- The protocol leaves no choice to a request that was told enough. -/
theorem reports_eq_of_heard {q : Manner} {ph : Phase} (hlife : q.Life r (s.story r) ph)
    (hc : q.onComplete = true) (hf : q.onFailure = true) (h : (s.row r).Heard r) :
    (s.story r).countP Event.isReport = max 1 ((s.story r).count (.started r)) := by
  have hbalance := hlife.balanced hc hf
  have hattempts : (s.story r).count (.started r) ≤ (s.story r).countP Event.isReport := h.attempts
  have honce : 1 ≤ (s.story r).countP Event.isReport := h.once
  cases ph with
  | fresh | resting | active =>
    simp only [reduceCtorEq, if_true, if_false] at hbalance
    omega
  | dismissed =>
    have hnever : (s.story r).count (.started r) = 0 := never_started hlife
    simp only [reduceCtorEq, if_true, if_false] at hbalance
    omega

/-- **No request ends in silence.** A request with both callbacks that is welcome, and is destroyed
without having been cancelled, was told exactly once of each attempt, and exactly once if it was never
started. -/
theorem answered_of_orderly (env : Env ω) (mem : Memory) (world : ω) (r : ReqId)
    (hw : env.Welcomes r) (as : List Action)
    (has : Guarded.Allowed (Loop.act env) (Orderly env) (curlEventLoopInit mem world) as) :
    let s := Guarded.run (Loop.act env) (curlEventLoopInit mem world) as
    r ∈ s.destroyed → (s.req r).isCancelled = false →
      (s.req r).onComplete = true → (s.req r).onFailure = true →
      (s.story r).countP Event.isReport = max 1 ((s.story r).count (.started r)) := by
  intro s hgone hkept hcomplete hfailure
  have hstart : ((curlEventLoopInit mem world).row r).Told r :=
    ⟨fun _ => ⟨rfl, List.not_mem_nil⟩, fun _ ho => absurd ho.1 List.not_mem_nil,
      fun _ ho => absurd ho.1 List.not_mem_nil, fun _ hd => absurd hd List.not_mem_nil⟩
  have hrun : s.AtRest False ∧ (s.row r).Told r ∧ s.LawfulRunInvariant := by
    refine has.invariant (P := fun s => s.AtRest False ∧ (s.row r).Told r ∧ s.LawfulRunInvariant) ?_
      ⟨(runInvariant_init mem world).atRest, hstart, lawfulRunInvariant_init mem world⟩
    rintro a s ⟨hatRest, htold, hinv⟩ ha
    have hpath := hatRest.path_act (watched_anything ha.1) ha.spared
    exact ⟨ha.atRest hatRest, hpath.told hw htold, hinv.act ha.abandonsAtMost⟩
  obtain ⟨-, htold, hinv⟩ := hrun
  obtain ⟨v, C, hlaw, -⟩ := hinv.atRest
  obtain ⟨ph, hlife, -⟩ := (hlaw.conforms r).lives id
  exact reports_eq_of_heard hlife hcomplete hfailure (htold.gone ⟨hcomplete, hfailure⟩ hgone hkept)

/-- One request fails, is tried again and succeeds, and another waits for a resource that fails. -/
theorem answered_of_orderly_two :
    let s := Guarded.run (Loop.act Env.insistent) (curlEventLoopInit Memory.waiting ())
      [.call (.api (.submit 1 0)), .call (.api (.submit 3 0)), .processCancelledAndPendingRequests,
        .processCompletedRequests [⟨0, .other 7, 0⟩], .moveInactiveRequestsToQueue,
        .call (.publish 7 none false), .processCompletedRequests [⟨1, .ok, 200⟩]]
    (s.story 1).countP Event.isReport = max 1 ((s.story 1).count (.started 1)) ∧
      (s.story 3).countP Event.isReport = max 1 ((s.story 3).count (.started 3)) :=
  ⟨answered_of_orderly Env.insistent Memory.waiting () 1 ⟨fun _ => rfl, fun _ => rfl⟩ _
      (by decide +kernel) (by decide +kernel) (by decide +kernel) (by decide +kernel)
      (by decide +kernel),
    answered_of_orderly Env.insistent Memory.waiting () 3 ⟨fun _ => rfl, fun _ => rfl⟩ _
      (by decide +kernel) (by decide +kernel) (by decide +kernel) (by decide +kernel)
      (by decide +kernel)⟩

end Loop

end CurlLoop
