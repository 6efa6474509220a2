import CurlLoop.LifeCycle

/-!
# Every request lives by the protocol

The rounds of the passes, one after the other: a round about a request moves it along one edge of the
protocol of `CurlLoop.LifeCycle`, and passes by all others. A request that may be started is fresh or
resting and was not injected (`Startable`), and that is what is left of the invariant once the request
has been taken out of the map it was in.

The destruction of the loop, and whole runs, are treated in `CurlLoop.LifeRuns`.

## Main definitions

* `Loop.Startable` — nothing has happened to the request, or its last attempt has ended
* `Loop.LawfulAtRest` — the invariant between two passes

## Main results

* `Startable.conforms_start`, `life_hear`, `conforms_settle` — a request is started, told, and put down
* `LawfulAtRest.processCancelledAndPendingRequests`, `LawfulAtRest.moveInactiveRequestsToQueue`,
  `LawfulAtRest.processCompletedRequests` — the passes
-/

namespace CurlLoop

open Function (update)

namespace Loop

variable {ω : Type} {s t u : Loop ω} {v v' : View} {C C' A l root : List ReqId} {b r : ReqId}
  {m : MapId} {env : Env ω} {strict : Prop} {busy : ReqId → Prop} {p p' : List ReqId × Loop ω}

/-! ### A request that may be started -/

/-- Nothing has happened to the request, or its last attempt has ended. -/
def Startable (s : Loop ω) (r : ReqId) : Prop :=
  (s.req r).isInjected = false ∧ ∃ ph, (s.req r).terms.manner.Life r (s.story r) ph ∧
    (ph = .fresh ∨ ph = .resting)

theorem Startable.of_row (h : s.Startable r) (hrow : t.row r = s.row r) : t.Startable r := by
  obtain ⟨hinj, ph, hlife, hph⟩ := h
  have hterms : (t.req r).terms = (s.req r).terms := congrArg Row.terms hrow
  have hstory : t.story r = s.story r := congrArg Row.story hrow
  refine ⟨(congrArg Terms.isInjected hterms).trans hinj, ph, ?_, hph⟩
  rw [hterms, hstory]
  exact hlife

/-- It waits in a map. -/
theorem Startable.lives (h : s.Startable r) (hq : r ∉ s.maps .queued) (hm : m ≠ .queued)
    (hr : r ∈ s.maps m) : s.Lives r := by
  obtain ⟨-, ph, hlife, rfl | rfl⟩ := h
  · exact ⟨.fresh, hlife, fun _ => hq⟩
  · exact ⟨.resting, hlife, fun _ => ⟨m, hm, hr⟩⟩

/-- It is destroyed. -/
theorem Startable.destroy (h : s.Startable r) : (s.curlEventRequestDestroy r).Lives r := by
  obtain ⟨-, ph, hlife, -⟩ := h
  refine .of_destroyed ph ?_ List.mem_cons_self
  rw [terms_destroy]
  exact hlife

/-- A request that was not injected and is not on the list. -/
theorem Conforms.of_lives (hr : r ∈ s.accepted) (hlives : s.Lives r)
    (hinj : (s.req r).isInjected = false) (hA : r ∉ A) : Conforms busy A s r :=
  ⟨fun h => absurd hr h, fun _ => hlives, fun _ _ =>
    iff_of_false (fun htrue => Bool.false_ne_true (hinj.symm.trans htrue)) hA⟩

/-- The request waits in a map and may be started. -/
theorem Startable.conforms (h : s.Startable r) (hr : r ∈ s.accepted) (hA : r ∉ A)
    (hq : r ∉ s.maps .queued) (hm : m ≠ .queued) (hmem : r ∈ s.maps m) : Conforms busy A s r :=
  .of_lives hr (h.lives hq hm hmem) h.1 hA

theorem mem_requestInsert (s : Loop ω) (r : ReqId) (map : List ReqId) :
    r ∈ s.requestInsert r map := by
  rw [requestInsert, OrderedMap.mem_insertMulti]
  exact .inl rfl

/-- The request goes into the rate-limited map. -/
theorem Startable.conforms_park (h : s.Startable r) (hr : r ∈ s.accepted) (hA : r ∉ A)
    (hq : r ∉ s.maps .queued) (due : ℕ) : Conforms busy A (s.parkRateLimited r due) r := by
  have hmaps : (s.parkRateLimited r due).maps = update s.maps .rateLimited
      ((s.modifyReq r fun q => q.dueAt due).requestInsert r (s.maps .rateLimited)) := rfl
  refine (h.of_row (row_parkRateLimited s r due)).conforms (m := .rateLimited) hr hA ?_ (by decide) ?_
  · rwa [hmaps, Function.update_of_ne (by decide)]
  · rw [hmaps, Function.update_self]
    exact mem_requestInsert ..

/-- The request goes into the map of those that wait. -/
theorem Startable.conforms_enqueue (h : s.Startable r) (hr : r ∈ s.accepted) (hA : r ∉ A)
    (hq : r ∉ s.maps .queued) : Conforms busy A (s.enqueueRequest r) r := by
  have hne := waitingMap_ne_queued (s.req r)
  have hrow : (s.enqueueRequest r).row r = s.row r := row_setMap s hne _ r
  refine (h.of_row hrow).conforms (m := waitingMap (s.req r)) hr hA ?_ hne ?_
  · change r ∉ update s.maps (waitingMap (s.req r)) _ .queued
    rwa [Function.update_of_ne hne.symm]
  · change r ∈ update s.maps (waitingMap (s.req r)) _ (waitingMap (s.req r))
    rw [Function.update_self]
    exact mem_requestInsert ..

/-- **The request is started**, or parked, or refused. -/
theorem Startable.conforms_start (h : s.Startable r) (env : Env ω) (hr : r ∈ s.accepted) (hA : r ∉ A)
    (hq : r ∉ s.maps .queued) : Conforms busy A (s.curlEventLoopRequestStart env r) r := by
  have hworld : ∀ w : ω, ({ s with world := w } : Loop ω).Startable r := fun w => h.of_row rfl
  have hout := start_outcome env s r
  generalize s.curlEventLoopRequestStart env r = t at hout ⊢
  cases hout with
  | parked w due => exact (hworld w).conforms_park hr hA hq due
  | refused w =>
    have hreset := (hworld w).of_row (row_modifyReq ({ s with world := w } : Loop ω) r
      (f := Request.reset) rfl)
    exact .of_destroyed hr List.mem_cons_self hreset.destroy
  | active w =>
    obtain ⟨hinj, ph, hlife, hph⟩ := h
    have hrow := row_started env s w r
    have hin : r ∈ (((({ s with world := w } : Loop ω).modifyReq r Request.reset).newHandle r).activate
        env r).accepted := hr
    have hnew := hlife.started hph hinj
    generalize ((({ s with world := w } : Loop ω).modifyReq r Request.reset).newHandle r).activate env
      r = t at hrow hin ⊢
    have hterms : (t.req r).terms = (s.req r).terms := congrArg Row.terms hrow
    have hstory : t.story r = .started r :: s.story r := congrArg Row.story hrow
    have hactive : (r ∈ t.maps .queued) = True := congrArg Row.active hrow
    refine .of_lives hin ⟨.active, ?_, fun _ => of_eq_true hactive⟩
      ((congrArg Terms.isInjected hterms).trans hinj) hA
    rw [hterms, hstory]
    exact hnew

/-! ### A request whose attempt has ended -/

/-- A request in the active map is active. -/
theorem WF.active (h : s.WF v C) (hr : r ∈ v (.map .queued)) (hlives : s.Lives r) :
    (s.req r).terms.manner.Life r (s.story r) .active := by
  obtain ⟨ph, hlife, hstands⟩ := hlives
  have hwhere := hstands (h.located.live_of_mem hr)
  cases ph with
  | fresh =>
    refine absurd ?_ hwhere
    rw [h.located.maps]
    exact hr
  | active => exact hlife
  | resting =>
    obtain ⟨m, hm, hmem⟩ := hwhere
    exact absurd hmem (h.notMem_map hr fun heq => hm (Place.map.inj heq).symm)
  | dismissed => exact hwhere.elim

theorem story_told (s : Loop ω) (e : Event) : (s.emit e).story e.subject = e :: s.story e.subject :=
  (story_emit s e e.subject).trans (if_pos rfl)

/-- **The request is told** how the attempt ended. -/
theorem life_hear (env : Env ω) (msg : Message)
    (hlife : (s.req r).terms.manner.Life r (s.story r) .active) :
    (s.req r).terms.manner.Life r ((s.hear env msg r).2.2.story r) .resting := by
  have htold : ∀ e, e.subject = r →
      ((s.pickUp msg.easy r).emit e).story r = e :: s.story r := by
    rintro e rfl
    exact story_told _ e
  rw [hear]
  split
  · rw [tellComplete]
    split
    · rename_i hset
      have hcalled := Manner.Life.completed hset hlife
      rw [← htold (.onComplete r) rfl] at hcalled
      exact hcalled
    · rename_i hset
      rw [htold (.nullCall r) rfl]
      exact .uncalled (Bool.eq_false_iff.mpr hset) hlife
  · rename_i hfail
    rw [tellFailure]
    split
    · rename_i hset
      have hbad : ¬ (msg.result = .ok ∧ msg.httpCode = 200) := fun hok =>
        hfail (by simpa [Message.success] using hok)
      have hcalled := Manner.Life.failed hset hbad hlife
      rw [← htold (.onFailure r msg.result msg.httpCode) rfl] at hcalled
      exact hcalled
    · rename_i hset
      exact .unheard (Bool.eq_false_iff.mpr hset) hlife

theorem trace_callOnRetry (env : Env ω) (h : (s.req r).onRetry ≠ none) :
    (s.callOnRetry env r).2.trace = s.trace := by
  rw [callOnRetry]
  split
  · rename_i hnone
    exact absurd hnone h
  · rw [defaultCalculateRetryEnhanced]
    dsimp only
    split <;> rfl
  · rfl

theorem trace_finish (s : Loop ω) (r : ReqId) (success : Bool) :
    (s.finish r success).trace = s.trace := by
  have hput : ∀ t : Loop ω, (if (t.req r).shouldRefresh then ((t.modifyReq r fun q =>
      { q with currentRetries := 0 }).curlEventLoopRequestCleanup r).enqueueRequest r
      else t.curlEventRequestDestroy r).trace = t.trace := fun t => by split <;> rfl
  cases success with
  | true => exact hput s.countCompleted
  | false => exact hput s

/-- The policy for failures is asked only if it is set. -/
theorem trace_reschedule (env : Env ω) (h : (s.req r).onRetry ≠ none) (success : Bool) (retryIn : ℤ) :
    (s.reschedule env r success retryIn).trace = s.trace := by
  rw [reschedule]
  split
  · rfl
  · have hask : (if retryIn < 0 then s.callOnRetry env r else (false, s)).2.trace = s.trace := by
      split
      · exact trace_callOnRetry env h
      · rfl
    generalize (if retryIn < 0 then s.callOnRetry env r else (false, s)) = asked at hask ⊢
    dsimp only
    split
    · exact hask
    · exact (trace_finish _ r success).trans hask

theorem trace_settle (env : Env ω) (h : (s.req r).onRetry ≠ none) (httpCode : ℤ) (success : Bool)
    (retryIn : ℤ) : (s.settle env r httpCode success retryIn).trace = s.trace := by
  rw [settle]
  split
  · split
    · rfl
    · exact trace_reschedule (s := { s with world := env.rateManagerRequestDone _ s.world }) env h
        success retryIn
  · exact trace_reschedule env h success retryIn

/-- The `NULL` call of a request that is to be tried again. -/
theorem life_traceNull {tr : List Event} (htr : TraceNull r s tr)
    (hnull : (s.req r).onRetry ≠ none → tr = s.trace)
    (hlife : (s.req r).terms.manner.Life r (s.story r) .resting) :
    (s.req r).terms.manner.Life r (tr.filter fun e => e.subject = r) .resting := by
  rcases htr with rfl | rfl
  · exact hlife
  · have hnone : (s.req r).onRetry = none := by
      by_contra hset
      exact List.cons_ne_self _ _ (hnull hset)
    rw [List.filter_cons_of_pos (by simp [Event.subject])]
    exact .unretried hnone hlife

theorem row_cleanup (s : Loop ω) (r : ReqId) : (s.curlEventLoopRequestCleanup r).row r = s.row r := by
  rw [curlEventLoopRequestCleanup]
  exact row_modifyReq _ r rfl

/-- **The request is put down** after it was told. -/
theorem conforms_settle (env : Env ω) (hlife : (s.req r).terms.manner.Life r (s.story r) .resting)
    (hinj : (s.req r).isInjected = false) (hr : r ∈ s.accepted) (hA : r ∉ A)
    (hq : r ∉ s.maps .queued) (httpCode : ℤ) (success : Bool) (retryIn : ℤ) :
    Conforms busy A (s.settle env r httpCode success retryIn) r := by
  have hnull := fun h => trace_settle (s := s) (r := r) env h httpCode success retryIn
  have hout := settle_outcome env s r httpCode success retryIn
  generalize s.settle env r httpCode success retryIn = t at hout hnull ⊢
  have htold : ∀ (w : ω) (tr : List Event) (n : Metrics) (f : Request → Request),
      (f (s.req r)).terms = { (s.req r).terms with currentRetries := (f (s.req r)).currentRetries } →
      TraceNull r s tr → ((s.req r).onRetry ≠ none → tr = s.trace) →
      (({ s with world := w, trace := tr, metrics := n } : Loop ω).modifyReq r f).Startable r := by
    intro w tr n f hf htr hnull
    have hreq : (({ s with world := w, trace := tr, metrics := n } : Loop ω).modifyReq r f).req r =
        f (s.req r) := Function.update_self ..
    rw [Startable, hreq]
    refine ⟨(congrArg Terms.isInjected hf).trans hinj, .resting, ?_, .inr rfl⟩
    rw [hf]
    exact life_traceNull htr hnull hlife
  cases hout with
  | parked w due =>
    have hstart : ({ s with world := w } : Loop ω).Startable r := ⟨hinj, .resting, hlife, .inr rfl⟩
    exact hstart.conforms_park hr hA hq due
  | again w tr n f hf htr _ =>
    exact ((htold w tr n f hf htr hnull).of_row (row_cleanup _ r)).conforms_enqueue hr hA hq
  | ended w tr n f hf htr _ =>
    have hkeep : (f (s.req r)).terms =
        { (s.req r).terms with currentRetries := (f (s.req r)).currentRetries } := by
      rw [hf, show (f (s.req r)).currentRetries = (s.req r).currentRetries from
        congrArg Terms.currentRetries hf]
      rfl
    exact .of_destroyed hr List.mem_cons_self (htold w tr n f hkeep htr hnull).destroy

/-! ### A request that is scheduled -/

/-- What a round over the pending list does to its request: it is discarded, started, or still waits. -/
theorem WF.pendingRound_eq (env : Env ω) (h : s.WF v C) (hh : v .hand = r :: l) : ∃ u, Calm env s u ∧
      u.ledger = s.ledger ∧ (s.pendingRound env r = u.curlEventRequestDestroy r ∨
        s.pendingRound env r = u.curlEventLoopRequestStart env r ∨ s.pendingRound env r = u) := by
  have hr : r ∈ v .hand := hh ▸ List.mem_cons_self
  have hmark : Calm env s ((s.modifyReq r fun q => q.setPending false).setNextPending r none) :=
    (calm_modifyReq s r rfl rfl rfl fun hr => hr).trans (calm_setNextPending _ r none)
  have hlive : r ∈ ((s.modifyReq r fun q => q.setPending false).setNextPending r none).accepted :=
    h.located.accepted_of_mem hr
  have hledger : ((s.modifyReq r fun q => q.setPending false).setNextPending r none).ledger =
      s.ledger := rfl
  rw [Loop.pendingRound]
  split
  · exact ⟨_, hmark, hledger, .inl rfl⟩
  · generalize (s.modifyReq r fun q => q.setPending false).setNextPending r none = t
      at hmark hlive hledger ⊢
    have hblock : Calm env s ((t.retainDepsOnce r).requestWaitingOnDependencies r).2 :=
      (hmark.trans (calm_retainDepsOnce t r)).trans (calm_checkAndBlockList _ fun _ hid =>
        retains_retainDepsOnce hlive hid)
    have hledger' : ((t.retainDepsOnce r).requestWaitingOnDependencies r).2.ledger = s.ledger := by
      rw [requestWaitingOnDependencies, ledger_checkAndBlockList, ledger_retainDepsOnce, hledger]
    rw [Loop.schedulePending]
    dsimp only
    split
    · exact ⟨_, hblock, hledger', .inr (.inr rfl)⟩
    · have hready := hblock.trans (calm_requestReady env _ r)
      have hledger'' := (ledger_requestReady env _ r).trans hledger'
      split
      · exact ⟨_, hready, hledger'', .inr (.inl rfl)⟩
      · exact ⟨_, hready.trans (calm_enqueueRequest _ r), (ledger_enqueueRequest _ r).trans hledger'',
          .inr (.inr rfl)⟩

/-- A round takes nobody in, and puts nobody on the injected list. -/
theorem accepted_start (env : Env ω) (s : Loop ω) (r : ReqId) :
    (s.curlEventLoopRequestStart env r).accepted = s.accepted := by
  have hout := start_outcome env s r
  generalize s.curlEventLoopRequestStart env r = t at hout ⊢
  cases hout <;> rfl

theorem WF.board_pendingRound (env : Env ω) (h : s.WF v C) (hh : v .hand = r :: l) :
    (s.pendingRound env r).accepted = s.accepted ∧
      (s.pendingRound env r).injectedRequests = s.injectedRequests := by
  obtain ⟨u, -, hledger, hcases⟩ := h.pendingRound_eq env hh
  have haccepted := congrArg Ledger.accepted hledger
  have hhead := congrArg Ledger.injectedRequests hledger
  rcases hcases with heq | heq | heq
  · rw [heq]
    exact ⟨haccepted, hhead⟩
  · rw [heq]
    exact ⟨(accepted_start env u r).trans haccepted, (linkKept_start (b := r) env u r).head.trans hhead⟩
  · rw [heq]
    exact ⟨haccepted, hhead⟩

/-- **The request is scheduled.** -/
theorem WF.conforms_pendingRound (h : s.WF v C) (hh : v .hand = r :: l)
    (hstory : s.story r = []) (hinj : (s.req r).isInjected = false) (hA : r ∉ A) :
    Conforms busy A (s.pendingRound env r) r := by
  have hr : r ∈ v .hand := hh ▸ List.mem_cons_self
  have hq : r ∉ s.maps .queued := h.notMem_map hr (by simp)
  obtain ⟨u, hcalm, -, hcases⟩ := h.pendingRound_eq env hh
  have hrow := hcalm.row r
  have hstart : u.Startable r := by
    refine Startable.of_row (s := s) ⟨hinj, .fresh, ?_, .inl rfl⟩ hrow
    rw [hstory]
    exact .fresh
  obtain ⟨haccepted, -, hactive, -, -⟩ := Row.mk.inj hrow
  have hr' : r ∈ u.accepted := haccepted.mpr (h.located.accepted_of_mem hr)
  have hq' : r ∉ u.maps .queued := fun hmem => hq (hactive.mp hmem)
  rcases hcases with heq | heq | heq
  · rw [heq]
    exact .of_destroyed hr' List.mem_cons_self hstart.destroy
  · rw [heq]
    exact hstart.conforms_start env hr' hA hq'
  · rw [heq]
    refine .of_lives hr' (.of_nil ?_ hq') hstart.1 hA
    exact (congrArg Row.story hrow).trans hstory

/-! ### The first pass -/

/-- The invariant between two passes, when nobody is busy. -/
def LawfulAtRest (strict : Prop) (s : Loop ω) : Prop :=
  ∃ v C, s.Lawful (fun _ => False) v C ∧ v.Slack strict

theorem LawfulAtRest.atRest (h : s.LawfulAtRest strict) : s.AtRest strict := by
  obtain ⟨v, C, hlaw, hv⟩ := h
  exact ⟨v, C, hlaw.wf, hv⟩

/-- A step that writes no link. -/
theorem LawfulAtRest.of_atRest (h : s.LawfulAtRest strict) (ht : t.AtRest strict)
    (hlink : ∀ b, LinkKept b s t)
    (hconf : ∀ v C, s.Lawful (fun _ => False) v C → v.Slack strict →
      ∀ b, Conforms (fun _ => False) v.injectees t b) : t.LawfulAtRest strict := by
  obtain ⟨v, C, hlaw, hv⟩ := h
  obtain ⟨v', C', hwf', hv'⟩ := ht
  have hinjectees : v'.injectees = v.injectees := by
    rw [View.injectees, View.injectees, hv'.detached .injected (.inr (by simp)),
      hv.detached .injected (.inr (by simp)),
      hlaw.wf.injected_eq hwf' (hlink 0).head fun b _ => (hlink b).link]
  exact ⟨v', C', ⟨hwf', fun _ hb => hb.elim, hinjectees ▸ hconf v C hlaw hv⟩, hv'⟩

theorem holds_nobody (v : View) : v.Holds fun _ => False := fun _ h => h.elim

/-- A round that passes by a request, and whatever it does to the others. -/
theorem Keeps.of_passesBy (h : PassesBy b s t) (haccepted : t.accepted = s.accepted)
    (hev : Evolves False s t) : Keeps b s t :=
  ⟨by rw [haccepted], fun hb => hev.destroyed.subset hb, by rw [h.req], h.story, h.maps⟩

theorem keeps_follow (s : Loop ω) (r b : ReqId) : Keeps b s (s.follow r) := by
  obtain ⟨f, hf⟩ := follow_eq s r
  rw [hf]
  exact .of_row rfl fun _ => .rfl

/-- The request is gone, and was told nothing. -/
theorem Conforms.gone (h : Conforms busy A s r) (haccepted : t.accepted = s.accepted)
    (hd : r ∈ t.destroyed) (hterms : (t.req r).terms = (s.req r).terms)
    (hstory : t.story r = s.story r) : Conforms busy A t r := by
  refine ⟨fun hno => ?_, fun hbusy => ?_, fun hlive => absurd hd hlive.2⟩
  · rw [hstory]
    exact h.fresh (haccepted ▸ hno)
  · obtain ⟨ph, hlife, -⟩ := h.lives hbusy
    refine .of_destroyed ph ?_ hd
    rw [hterms, hstory]
    exact hlife

/-- A round over the cancelled list. Whoever it is about is gone. -/
theorem conforms_cancelledRound (hc : ∀ b, Conforms busy A s b) (r b : ReqId) :
    Conforms busy A (s.cancelledRound r) b := by
  rcases eq_or_ne b r with rfl | hb
  · exact (hc b).gone rfl List.mem_cons_self (terms_cancelledRound s b b) rfl
  · have herase := passesBy_eraseMap s (cancelledMap (s.req r)) hb
    have hdrop : PassesBy b s (s.dropFromMap (cancelledMap (s.req r)) r) :=
      ⟨herase.req, herase.story, herase.maps⟩
    have hround : PassesBy b s (s.cancelledRound r) := hdrop.trans (passesBy_destroy _ hb)
    exact (hc b).keeps (.of_passesBy hround rfl (evolves_cancelledRound r s)) .rfl

/-- **A round over the pending list.** -/
theorem Lawful.pendingRound (h : s.Lawful (fun _ => False) v C)
    (hp : v (.detached .pending) = r :: l) (hz : (s.pendingRound env r).Spared strict) :
    ∃ v', (s.pendingRound env r).Lawful (fun _ => False) v' C ∧
      Handled strict .pending r l v v' s (s.pendingRound env r) := by
  have hr : r ∈ v (.detached .pending) := hp ▸ List.mem_cons_self
  obtain ⟨v', hwf, hh, -, -⟩ := h.wf.walkPending_round hp hz
  obtain ⟨hstory, hinj⟩ := h.idle hr (by simp) (by simp) (by simp)
  have hinjectees : ∀ b ∈ v .injected, b ≠ r := by
    rintro b hb rfl
    exact absurd (h.wf.located.placed.inj hb hr) (by simp)
  have hA : r ∉ v.injectees := by
    intro hmem
    rcases List.mem_append.mp hmem with hmem | hmem
    · exact hinjectees r hmem rfl
    · exact absurd (h.wf.located.placed.inj hmem hr) (by simp)
  obtain ⟨haccepted, hhead⟩ :=
    (h.wf.takeUp hp).board_pendingRound env (Function.update_self ..)
  have hlist : v' .injected = v .injected := h.wf.injected_eq hwf hhead fun b hb =>
    (linkKept_pendingRound env (hinjectees b hb) (h.wf.tail_ne_of_injected hb)).link
  refine ⟨v', h.round (r := r) hwf hh.hand (hh.injectees (by simp) hlist) (fun b hb => ?_) ?_, hh⟩
  · exact .of_passesBy (passesBy_pendingRound env s hb) haccepted (evolves_pendingRound env r s)
  · exact (h.wf.takeUp hp).conforms_pendingRound (Function.update_self ..) hstory hinj hA

/-- **The first pass.** -/
theorem LawfulAtRest.processCancelledAndPendingRequests (h : s.LawfulAtRest strict)
    (hz : (s.processCancelledAndPendingRequests env).Spared strict) :
    (s.processCancelledAndPendingRequests env).LawfulAtRest strict := by
  obtain ⟨v, C, hlaw, hv⟩ := h
  have hempty := hv.detached .pending (.inr (by simp))
  obtain ⟨v₁, hwalk, -, hchain⟩ := hlaw.wf.sweepCancelled hempty (hlaw.wf.mapped_cancelled hempty hz)
  rw [Loop.processCancelledAndPendingRequests] at hz ⊢
  rw [hlaw.wf.marked.chain.head_eq] at hz ⊢
  have hslack : v₁.SlackBut strict .pending := by
    have hv₁ := hv.detach (p := .pending) (by simp) (by simp)
    refine ⟨(hwalk.elsewhere _ (by simp)).trans hv₁.hand, fun p hk hp => ?_⟩
    exact (hwalk.elsewhere _ (by simp)).trans (hv₁.detached p hk hp)
  have hinjectees : v₁.injectees = v.injectees := by
    rw [View.injectees, View.injectees, hwalk.elsewhere _ (by simp), hwalk.elsewhere _ (by simp)]
    rfl
  have hsweep : ∀ b, Conforms (fun _ => False) v₁.injectees
      (s.detachCancelled.detachPending.forEachCancelled C.head? Loop.cancelledRound) b := by
    rw [hinjectees]
    refine Intrusive.forEach_invariant
      (P := fun t : Loop ω => ∀ b, Conforms (fun _ => False) v.injectees t b) (fun r t ht => ?_)
      fun b => (hlaw.conforms b).keeps (.of_row rfl fun _ => .rfl) .rfl
    exact conforms_cancelledRound (fun b => (ht b).keeps (keeps_follow t r b) .rfl) r
  obtain ⟨v₂, C₂, hwf₂, hrest, hv₂, hconf₂⟩ := hwalk.wf.forEachHandled (p := .pending)
    (f := Loop.pendingRound env) (P := fun v t => v.SlackBut strict .pending ∧
      ∀ b, Conforms (fun _ => False) v.injectees t b) (.inr (by simp))
    (fun r t ht => (evolves_pendingRound (q := False) env r t).spared ht)
    (fun r l v C t ht hp hinv hz => by
      obtain ⟨hv, hconf⟩ := hinv
      obtain ⟨v', hlaw', hh⟩ := Lawful.pendingRound ⟨ht, holds_nobody v, hconf⟩ hp hz
      exact ⟨v', C, hlaw'.wf, hh, hh.slackBut hv, hlaw'.conforms⟩)
    hchain ⟨hslack, hsweep⟩ hz
  exact ⟨v₂, C₂, ⟨hwf₂, holds_nobody v₂, hconf₂⟩, hv₂.slack hrest⟩

/-! ### The second pass -/

/-- A request that is neither active nor on the injected list. -/
theorem Conforms.startable (h : Conforms (fun _ => False) A s r) (hlive : s.Live r) (hA : r ∉ A)
    (hq : r ∉ s.maps .queued) : s.Startable r := by
  refine ⟨Bool.eq_false_iff.mpr fun htrue => hA ((h.injectees hlive id).mp htrue), ?_⟩
  obtain ⟨ph, hlife, hstands⟩ := h.lives id
  refine ⟨ph, hlife, ?_⟩
  have hwhere := hstands hlive
  cases ph with
  | fresh => exact .inl rfl
  | active => exact absurd hwhere hq
  | resting => exact .inr rfl
  | dismissed => exact hwhere.elim

theorem row_attached (p : List ReqId × Loop ω) (b : ReqId) : (attached p).row b = p.2.row b :=
  row_setMap p.2 (by decide) _ b

/-- Putting a map back takes nobody out of a map. -/
theorem Conforms.attached (h : Conforms busy A p.2 b) : Conforms busy A (attached p) b := by
  refine ⟨h.fresh, fun hb => ?_, h.injectees⟩
  obtain ⟨ph, hlife, hstands⟩ := h.lives hb
  refine ⟨ph, hlife, fun hlive => ?_⟩
  have hwhere := hstands hlive
  cases ph with
  | fresh => exact fun hmem => hwhere ((mem_attached.mp hmem).resolve_right (by simp))
  | active => exact mem_attached.mpr (.inl hwhere)
  | resting =>
    obtain ⟨m, hm, hmem⟩ := hwhere
    exact ⟨m, hm, mem_attached.mpr (.inl hmem)⟩
  | dismissed => exact hwhere

/-- What a round over the detached rate-limited map leaves alone. -/
theorem frame_rateLimitedRound {now : ℕ} (hp : rateLimitedRound env now r p = .done p' ∨
    rateLimitedRound env now r p = .yield p') :
    p'.2.accepted = p.2.accepted ∧ ∀ b, LinkKept b p.2 p'.2 := by
  obtain ⟨root, s⟩ := p
  have hask : ∀ (w : ω) b, LinkKept b s { s.follow r with world := w } := fun w b =>
    ⟨(linkKept_follow s r (b := b)).head, (linkKept_follow s r (b := b)).link⟩
  have haccepted : (s.follow r).accepted = s.accepted := congrArg Ledger.accepted (ledger_follow s r)
  obtain ⟨w, hw⟩ | ⟨w, due, hw⟩ | ⟨w, hw⟩ := rateLimitedRound_cases env now r root s
  · obtain rfl : p' = _ := by simpa [hw, eq_comm] using hp
    exact ⟨haccepted, hask w⟩
  · obtain rfl : p' = _ := by
      simpa only [hw, reduceCtorEq, false_or, ForInStep.yield.injEq, eq_comm] using hp
    exact ⟨haccepted, fun b => ⟨(hask w b).head, (hask w b).link⟩⟩
  · obtain rfl : p' = _ := by
      simpa only [hw, reduceCtorEq, false_or, ForInStep.yield.injEq, eq_comm] using hp
    exact ⟨(accepted_start env _ r).trans haccepted, fun b =>
      (hask w b).trans (linkKept_start env _ r)⟩

/-- **A round over the detached rate-limited map.** -/
theorem WF.conforms_rateLimitedRound {now : ℕ} (h : p.2.WF v C)
    (hp : v (.detached (.map .rateLimited)) = p.1)
    (hc : ∀ b, Conforms (fun _ => False) v.injectees (attached p) b) (hr : p.1.head? = some r)
    (hround : rateLimitedRound env now r p = .done p' ∨ rateLimitedRound env now r p = .yield p')
    (b : ReqId) : Conforms (fun _ => False) v.injectees (attached p') b := by
  obtain ⟨haccepted, -⟩ := frame_rateLimitedRound hround
  by_cases hb : b = r
  · subst hb
    obtain ⟨root, s⟩ := p
    have hmem : b ∈ v (.detached (.map .rateLimited)) := hp ▸ List.mem_of_head? hr
    have hlive : s.Live b := h.located.live_of_mem hmem
    have hA : b ∉ v.injectees := by
      intro hinjectees
      rcases List.mem_append.mp hinjectees with hinjectees | hinjectees <;>
        exact absurd (h.located.placed.inj hinjectees hmem) (by simp)
    have hq : b ∉ s.maps .queued := h.notMem_map hmem (by simp)
    have hq' : b ∉ (attached (root, s)).maps .queued := fun hin =>
      hq ((mem_attached.mp hin).resolve_right (by simp))
    have hstart : s.Startable b := ((hc b).startable hlive hA hq').of_row (row_attached (root, s) b).symm
    have hworld : ∀ w : ω, ({ s with world := w } : Loop ω).Startable b := fun w => hstart.of_row rfl
    have hcases := rateLimitedRound_cases env now b root s
    rw [h.located.follow hmem] at hcases
    obtain ⟨w, hw⟩ | ⟨w, due, hw⟩ | ⟨w, hw⟩ := hcases
    · obtain rfl : p' = _ := by simpa [hw, eq_comm] using hround
      exact (hc b).keeps (.of_row rfl fun _ => .rfl) .rfl
    · obtain rfl : p' = _ := by
        simpa only [hw, reduceCtorEq, false_or, ForInStep.yield.injEq, eq_comm] using hround
      exact ((hworld w).conforms_park hlive.1 hA hq due).attached
    · obtain rfl : p' = _ := by
        simpa only [hw, reduceCtorEq, false_or, ForInStep.yield.injEq, eq_comm] using hround
      exact ((hworld w).conforms_start env hlive.1 hA hq).attached
  · obtain ⟨hpass, hroot⟩ := passesBy_rateLimitedRound hb hround
    have hev := evolves_rateLimitedRound (q := False) env now r p p' hround
    exact (hc b).keeps (.of_passesBy (hpass.attached hroot) haccepted
      ⟨hev.inbox, hev.applied, hev.accepted, hev.destroyed, hev.hazards, hev.once, False.elim⟩) .rfl

/-- When the map is put back only maps are written. -/
theorem frame_putBack (p : List ReqId × Loop ω) :
    (putBack p).ledger = p.2.ledger ∧ (putBack p).nextPending = p.2.nextPending := by
  have hmerge := OrderedMap.whileFirst_rule
    (g := fun p : List ReqId × Loop ω => (p.2.maps .rateLimited).head?) (f := mergeRound)
    (P := fun q => q.2.ledger = p.2.ledger ∧ q.2.nextPending = p.2.nextPending)
    (n := (p.2.maps .rateLimited).length) (fun b q q' _ _ hb => by simp [mergeRound] at hb)
    (fun b q q' hq _ hq' => by
      obtain rfl := ForInStep.yield.inj hq'
      refine ⟨(ledger_follow q.2 b).trans hq.1, ?_⟩
      obtain ⟨f, hf⟩ := follow_eq q.2 b
      change (q.2.follow b).nextPending = _
      rw [hf]
      exact hq.2)
    ⟨rfl, rfl⟩
  exact hmerge

/-- The loop over the detached map keeps the links, and every request lives on. -/
theorem Lawful.moveRateLimited (h : s.Lawful (fun _ => False) v C) (hv : v.Slack strict)
    (hz : (s.moveRateLimited env).Spared strict) : (∀ b, LinkKept b s (s.moveRateLimited env)) ∧
      ∀ b, Conforms (fun _ => False) v.injectees (s.moveRateLimited env) b := by
  let p₀ : List ReqId × Loop ω :=
    (s.maps .rateLimited, ((s.setMap .rateLimited []).ask env.macroNow).2)
  have hdetach : Sorting strict p₀ := by
    have hdet := h.wf.located.detachMap (m := .rateLimited) (by simp)
      (hv.detached _ (.inr (by simp)))
    refine ⟨_, C, ⟨hdet, h.wf.marked⟩, ?_, hv.detach (by simp) (by simp)⟩
    rw [Function.update_self]
    exact (h.wf.located.maps .rateLimited).symm
  have hstep : ∀ r p p', (p.2.Spared strict → Sorting strict p ∧ (∀ b, LinkKept b s p.2) ∧
        ∀ b, Conforms (fun _ => False) v.injectees (attached p) b) → p.1.head? = some r →
      (rateLimitedRound env (s.now env) r p = .done p' ∨
        rateLimitedRound env (s.now env) r p = .yield p') →
      p'.2.Spared strict → Sorting strict p' ∧ (∀ b, LinkKept b s p'.2) ∧
        ∀ b, Conforms (fun _ => False) v.injectees (attached p') b := by
    intro r p p' hP hr hround hz'
    obtain ⟨hsort, hlink, hconf⟩ :=
      hP ((evolves_rateLimitedRound (q := False) env _ r p p' hround).spared hz')
    refine ⟨hsort.round hr hround hz', fun b =>
      (hlink b).trans ((frame_rateLimitedRound hround).2 b), ?_⟩
    obtain ⟨v₁, C₁, hwf₁, hp₁, hv₁⟩ := hsort
    have hinjectees : v₁.injectees = v.injectees := by
      rw [View.injectees, View.injectees, hv₁.detached .injected (.inr (by simp)) (by simp),
        hv.detached .injected (.inr (by simp)),
        h.wf.injected_eq hwf₁ (hlink r).head fun b _ => (hlink b).link]
    rw [← hinjectees] at hconf ⊢
    exact hwf₁.conforms_rateLimitedRound hp₁ hconf hr hround
  have hsorted := OrderedMap.whileFirst_rule
    (g := fun p : List ReqId × Loop ω => p.1.head?) (f := rateLimitedRound env (s.now env))
    (P := fun p => p.2.Spared strict → Sorting strict p ∧ (∀ b, LinkKept b s p.2) ∧
      ∀ b, Conforms (fun _ => False) v.injectees (attached p) b)
    (fun r p p' hP hr hb => hstep r p p' hP hr (.inl hb))
    (fun r p p' hP hr hb => hstep r p p' hP hr (.inr hb)) (n := (s.maps .rateLimited).length)
    (s := p₀) (fun _ => ⟨hdetach, fun _ => ⟨rfl, rfl⟩, fun b =>
      (h.conforms b).keeps (.of_passesBy (passesBy_detach env s) rfl (.of_ledger rfl)) .rfl⟩)
  rw [moveRateLimited_eq] at hz ⊢
  generalize OrderedMap.whileFirst _ _ _ p₀ = q at hsorted hz ⊢
  obtain ⟨hledger, hlinks⟩ := frame_putBack q
  have hhazards : (putBack q).hazards = q.2.hazards := congrArg Ledger.hazards hledger
  obtain ⟨-, hlink, hconf⟩ := hsorted (hz.of_suffix (hhazards ▸ List.suffix_rfl))
  refine ⟨fun b => ⟨(congrArg Ledger.injectedRequests hledger).trans (hlink b).head,
    (congrFun hlinks b).trans (hlink b).link⟩, fun b => ?_⟩
  exact (hconf b).keeps (.of_passesBy (passesBy_putBack q) (congrArg Ledger.accepted hledger)
    (.of_ledger hledger)) .rfl

theorem LawfulAtRest.moveRateLimited (h : s.LawfulAtRest strict)
    (hz : (s.moveRateLimited env).Spared strict) :
    (s.moveRateLimited env).LawfulAtRest strict := by
  have hlink : ∀ b, LinkKept b s (s.moveRateLimited env) := by
    obtain ⟨v, C, hlaw, hv⟩ := h
    exact (hlaw.moveRateLimited hv hz).1
  exact h.of_atRest (h.atRest.moveRateLimited hz) hlink fun v C hlaw hv =>
    (hlaw.moveRateLimited hv hz).2

/-- What a round over `refresh_requests` or `inactive_requests` leaves alone. -/
theorem frame_waitingRound (hm : m ≠ .rateLimited)
    (ht : waitingRound env m r s = .done t ∨ waitingRound env m r s = .yield t) :
    t.accepted = s.accepted ∧ ∀ b, LinkKept b s t := by
  have hask : ∀ (w : ω) b, LinkKept b s { s.follow r with world := w } := fun w b =>
    ⟨(linkKept_follow s r (b := b)).head, (linkKept_follow s r (b := b)).link⟩
  have haccepted : (s.follow r).accepted = s.accepted := congrArg Ledger.accepted (ledger_follow s r)
  obtain ⟨w, hw⟩ | ⟨w, due, hw⟩ | ⟨w, hw⟩ := waitingRound_cases env hm r s
  · obtain rfl : t = _ := by simpa [hw, eq_comm] using ht
    exact ⟨haccepted, hask w⟩
  · obtain rfl : t = _ := by
      simpa only [hw, reduceCtorEq, false_or, ForInStep.yield.injEq, eq_comm] using ht
    exact ⟨haccepted, fun b => ⟨(hask w b).head, (hask w b).link⟩⟩
  · obtain rfl : t = _ := by
      simpa only [hw, reduceCtorEq, false_or, ForInStep.yield.injEq, eq_comm] using ht
    have hstart := fun b => linkKept_start (b := b) env
      ((({ s.follow r with world := w } : Loop ω).eraseMap m r).addNum m (-1)) r
    exact ⟨(accepted_start env _ r).trans haccepted, fun b =>
      ⟨(hstart b).head.trans (hask w b).head, (hstart b).link.trans (hask w b).link⟩⟩

/-- **A round over `refresh_requests` or `inactive_requests`.** -/
theorem LawfulAtRest.waitingRound (h : s.LawfulAtRest strict) (hm : m = .refresh ∨ m = .inactive)
    (hr : (s.maps m).head? = some r)
    (ht : Loop.waitingRound env m r s = .done t ∨ Loop.waitingRound env m r s = .yield t)
    (hz : t.Spared strict) : t.LawfulAtRest strict := by
  have hlim : m ≠ .rateLimited := by rcases hm with rfl | rfl <;> decide
  have hqueued : m ≠ .queued := by rcases hm with rfl | rfl <;> decide
  obtain ⟨haccepted, hlink⟩ := frame_waitingRound hlim ht
  refine h.of_atRest (h.atRest.waitingRound hm hr ht hz) hlink fun v C hlaw hv b => ?_
  have hmem : r ∈ v (.map m) := by
    rw [← hlaw.wf.located.maps]
    exact List.mem_of_head? hr
  have hlive := hlaw.wf.located.live_of_mem hmem
  have hA : r ∉ v.injectees := by
    intro hin
    rcases List.mem_append.mp hin with hin | hin <;>
      exact absurd (hlaw.wf.located.placed.inj hin hmem) (by simp)
  have hq : r ∉ s.maps .queued := hlaw.wf.notMem_map hmem fun heq => hqueued (Place.map.inj heq)
  have hstart := (hlaw.conforms r).startable hlive hA hq
  rcases eq_or_ne b r with rfl | hb
  · have hworld : ∀ w : ω, (({ s with world := w } : Loop ω).eraseMap m b).Startable b := fun w =>
      hstart.of_row (row_setMap ({ s with world := w } : Loop ω) hqueued _ b)
    have hq' : ∀ w : ω, b ∉ (({ s with world := w } : Loop ω).eraseMap m b).maps .queued := fun w => by
      rwa [maps_eraseMap, Function.update_of_ne hqueued.symm]
    have hcases := waitingRound_cases env hlim b s
    rw [hlaw.wf.located.follow hmem] at hcases
    obtain ⟨w, hw⟩ | ⟨w, due, hw⟩ | ⟨w, hw⟩ := hcases
    · obtain rfl : t = _ := by simpa [hw, eq_comm] using ht
      exact (hlaw.conforms b).keeps (.of_row rfl fun _ => .rfl) .rfl
    · obtain rfl : t = _ := by
        simpa only [hw, reduceCtorEq, false_or, ForInStep.yield.injEq, eq_comm] using ht
      have hparked : Conforms (fun _ => False) _ _ b :=
        (hworld w).conforms_park hlive.1 hA (hq' w) due
      exact hparked.keeps (.of_row rfl fun _ => .rfl) .rfl
    · obtain rfl : t = _ := by
        simpa only [hw, reduceCtorEq, false_or, ForInStep.yield.injEq, eq_comm] using ht
      have hnum : ((({ s with world := w } : Loop ω).eraseMap m b).addNum m (-1)).Startable b :=
        (hworld w).of_row rfl
      exact hnum.conforms_start env hlive.1 hA (hq' w)
  · exact (hlaw.conforms b).keeps (.of_passesBy (passesBy_waitingRound hlim hb ht) haccepted
      (evolves_waitingRound env m r s t ht)) .rfl

theorem LawfulAtRest.moveWaiting (h : s.LawfulAtRest strict) (hm : m = .refresh ∨ m = .inactive)
    (hz : (s.moveWaiting env m).Spared strict) : (s.moveWaiting env m).LawfulAtRest strict :=
  OrderedMap.whileFirst_rule (g := fun t : Loop ω => (t.maps m).head?)
    (f := Loop.waitingRound env m)
    (P := fun t : Loop ω => t.Spared strict → t.LawfulAtRest strict)
    (fun r t t' hP hr hb hz' => (hP ((evolves_waitingRound (q := False) env m r t t'
      (.inl hb)).spared hz')).waitingRound hm hr (.inl hb) hz')
    (fun r t t' hP hr hb hz' => (hP ((evolves_waitingRound (q := False) env m r t t'
      (.inr hb)).spared hz')).waitingRound hm hr (.inr hb) hz') (fun _ => h) hz

/-- **The second pass.** -/
theorem LawfulAtRest.moveInactiveRequestsToQueue (h : s.LawfulAtRest strict)
    (hz : (s.moveInactiveRequestsToQueue env).Spared strict) :
    (s.moveInactiveRequestsToQueue env).LawfulAtRest strict := by
  have hz₂ := (evolves_moveWaiting (q := False) env .inactive _).spared hz
  have hz₁ := (evolves_moveWaiting (q := False) env .refresh _).spared hz₂
  exact ((h.moveRateLimited hz₁).moveWaiting (.inl rfl) hz₂).moveWaiting (.inr rfl) hz

/-! ### The third pass -/

/-- The request of a message is taken into hand, and told. -/
theorem Lawful.hear (h : s.Lawful busy v C) (env : Env ω) {msg : Message} {a : Transfer}
    (ha : s.transferOf msg = some a) :
    (s.hear env msg a.priv).2.2.Lawful (fun b => busy b ∨ b = a.priv)
      (update (update v (.map .queued) ((v (.map .queued)).erase a.priv)) .hand (a.priv :: v .hand)) C := by
  have hqueued := h.wf.mem_queued_of_transferOf ha
  obtain ⟨hwf, -⟩ := h.wf.heard env ha
  obtain ⟨w, tr, heq⟩ := hear_eq env s msg a.priv
  refine ⟨hwf, fun b hb => ?_, fun b => ?_⟩
  · rw [Function.update_self, List.mem_cons]
    exact hb.symm.imp_right (h.holds b)
  · by_cases hb : b = a.priv
    · subst hb
      refine .of_busy ?_ (.inr rfl)
      rw [heq]
      exact h.wf.located.accepted_of_mem hqueued
    · have hkeep : Keeps b s (s.hear env msg a.priv).2.2 := by
        have hrow := beside_hear env s msg a.priv b hb
        refine .of_row (congrArg Row.unmarked hrow) fun m => ?_
        rw [heq]
        exact (passesBy_eraseMap (s.reportMessage msg.easy) .queued hb).maps m
      have hconf : Conforms busy (View.injectees (update (update v (.map .queued)
          ((v (.map .queued)).erase a.priv)) .hand (a.priv :: v .hand)))
          (s.hear env msg a.priv).2.2 b := (h.conforms b).keeps hkeep .rfl
      exact hconf.mono .inl

/-- Calls come in while the request is held. -/
theorem life_unmarked {ph : Phase} {q : Manner} (hlife : q.Life r (s.story r) ph)
    (hq : (s.req r).terms.manner = q) (hrow : (t.row r).unmarked = (s.row r).unmarked) :
    (t.req r).terms.manner.Life r (t.story r) ph := by
  have hmanner : (t.req r).terms.manner = (s.req r).terms.manner :=
    congrArg (fun w : Row => w.terms.manner) hrow
  rw [hmanner, hq, show t.story r = s.story r from congrArg Row.story hrow]
  exact hlife

/-- **A round over the messages of the multi handle.** -/
theorem LawfulAtRest.completedRound (h : s.LawfulAtRest strict) (msg : Message)
    (hz : (s.completedRound env msg).Spared strict) :
    (s.completedRound env msg).LawfulAtRest strict := by
  obtain ⟨v, C, hlaw, hv⟩ := h
  rw [Loop.completedRound] at hz ⊢
  cases ha : s.transferOf msg with
  | none => exact ⟨v, C, hlaw, hv⟩
  | some a =>
    rw [ha] at hz
    dsimp only at hz ⊢
    have hqueued := hlaw.wf.mem_queued_of_transferOf ha
    have hfit := hlaw.wf.located.fits _ _ hqueued
    have hz' := (evolves_settle (q := False) env (s.receive env msg a.priv).2 a.priv msg.httpCode
      (Message.success msg) (s.receive env msg a.priv).1).spared hz
    have hheard := hlaw.hear env ha
    obtain ⟨-, hrow⟩ := hlaw.wf.interlude_receive env.makes_anything hv.noneWoken ha hz'
    obtain ⟨hhand, hdet⟩ := hv.erase .queued a.priv
    obtain ⟨v₁, C₁, hlaw₁, hund⟩ : ∃ v₁ C₁,
        (s.receive env msg a.priv).2.Lawful (fun b => False ∨ b = a.priv) v₁ C₁ ∧
          Undisturbed strict (update (update v (.map .queued) ((v (.map .queued)).erase a.priv)) .hand
            (a.priv :: v .hand)) v₁ (s.hear env msg a.priv).2.2 (s.receive env msg a.priv).2 := by
      rw [(hlaw.wf.heard env ha).2] at hz' ⊢
      exact hheard.calls (hv.noneWoken.hold (by simp) _ _) _ hz'
    obtain ⟨w, tr, heq⟩ := hear_eq env s msg a.priv
    have hreq : (s.hear env msg a.priv).2.2.req = s.req := by
      rw [heq]
      rfl
    have hactive := hlaw.wf.active hqueued ((hlaw.conforms a.priv).lives id)
    have hlife := life_unmarked (life_hear env msg hactive) (by rw [hreq]) hrow.unmarked
    have hin₁ : a.priv ∈ v₁ .hand := hund.hand.trans hhand ▸ List.mem_cons_self
    have hA : a.priv ∉ v₁.injectees := by
      intro hmem
      rcases List.mem_append.mp hmem with hmem | hmem <;>
        exact absurd (hlaw₁.wf.located.placed.inj hmem hin₁) (by simp)
    have hinj : ((s.receive env msg a.priv).2.req a.priv).isInjected = false := by
      have hsame : ((s.receive env msg a.priv).2.req a.priv).isInjected =
          ((s.hear env msg a.priv).2.2.req a.priv).isInjected :=
        congrArg (fun w : Row => w.terms.isInjected) hrow.unmarked
      rw [hsame, hreq]
      refine Bool.eq_false_iff.mpr fun htrue => ?_
      have hinjectees := ((hlaw.conforms a.priv).injectees (hlaw.wf.located.live_of_mem hqueued)
        id).mp htrue
      rcases List.mem_append.mp hinjectees with hmem | hmem <;>
        exact absurd (hlaw.wf.located.placed.inj hmem hqueued) (by simp)
    have hfin : ((s.receive env msg a.priv).2.req a.priv).Finished :=
      Request.Finished.congr ⟨hfit.2.1, hfit.2.2⟩ (by
        have hsame := hund.reqs a.priv (hhand ▸ List.mem_singleton_self a.priv)
        rwa [hreq] at hsame)
    generalize (s.receive env msg a.priv).2 = u at *
    generalize (s.receive env msg a.priv).1 = retryIn at *
    obtain ⟨v₂, hwf₂, hput⟩ := hlaw₁.wf.settle (hund.hand.trans hhand) hfin hz
    have hlink := fun b => linkKept_settle (b := b) env u a.priv msg.httpCode (Message.success msg) retryIn
    have hinjectees : v₂.injectees = v₁.injectees :=
      hput.injectees (hlaw₁.wf.injected_eq hwf₂ (hlink 0).head fun b _ => (hlink b).link)
    refine ⟨v₂, C₁, hlaw₁.putDown hwf₂ (holds_nobody v₂) hinjectees (fun b hb => ?_) ?_,
      hput.slack fun p hk => (hund.detached p hk).trans (hdet p hk)⟩
    · exact .of_beside (beside_settle env u a.priv _ _ _) (passesBy_settle env u hb _ _ _) hb
    · rw [hinjectees]
      exact conforms_settle env hlife hinj (hlaw₁.wf.located.accepted_of_mem hin₁) hA
        (hlaw₁.wf.notMem_map hin₁ (by simp)) _ _ _

/-- **A round over the injected list.** -/
theorem Lawful.injectedRound (h : s.Lawful (fun _ => False) v C) (hv : v.SlackBut strict .injected)
    (hp : v (.detached .injected) = r :: l) (hz : (s.injectedRound env r).Spared strict) :
    ∃ v' C', (s.injectedRound env r).Lawful (fun _ => False) v' C' ∧
      Handled strict .injected r l v v' s (s.injectedRound env r) := by
  have hr : r ∈ v (.detached .injected) := hp ▸ List.mem_cons_self
  have hlive := h.wf.located.live_of_mem hr
  have hinj : (s.req r).isInjected = true :=
    ((h.conforms r).injectees hlive id).mpr (List.mem_append_right _ hr)
  have hstory : s.story r = [] :=
    ((h.conforms r).lives id).fresh hlive fun m => h.wf.notMem_map hr (by simp)
  have hhand : update (update v (.detached .injected) l) .hand (r :: v .hand) .hand =
      r :: v .hand := Function.update_self ..
  have hnone := (hv.noneWoken (by simp)).hold (p := .detached .injected) (by simp) l (r :: v .hand)
  have htaken := h.takeUp hp
  unfold Loop.injectedRound at hz ⊢
  dsimp only at hz ⊢
  split
  · rename_i hset
    rw [if_pos hset] at hz
    have hz' := (evolves_destroy (q := False) _ r).spared hz
    rw [callOnComplete_eq_told] at hz hz' ⊢
    obtain ⟨w, tr, heq⟩ := tellComplete_eq env s r
    have htold : (s.tellComplete env r).2.2.Lawful (fun b => False ∨ b = r)
        (update (update v (.detached .injected) l) .hand (r :: v .hand)) C := by
      refine htaken.round (r := r) ?_ rfl rfl (fun b hb => ?_) (.of_busy ?_ (.inr rfl))
      · rw [heq]
        exact ⟨htaken.wf.located, htaken.wf.marked⟩
      · refine .of_row (congrArg Row.unmarked (beside_tellComplete env s r b hb)) fun m => ?_
        rw [heq]
      · rw [heq]
        exact hlive.1
    have hlife : (s.req r).terms.manner.Life r ((s.tellComplete env r).2.2.story r) .dismissed := by
      have hcalled : (s.req r).terms.manner.Life r ((s.emit (.onComplete r)).story r) .dismissed := by
        rw [show (s.emit (.onComplete r)).story r = .onComplete r :: s.story r from story_told s _,
          hstory]
        exact .told hset hinj
      rw [tellComplete, if_pos hset]
      exact hcalled
    have hheld : View.Holds (update (update v (.detached .injected) l) .hand (r :: v .hand))
        (some r = some ·) := by
      rintro b ⟨⟩
      rw [Function.update_self]
      exact List.mem_cons_self
    have hrow := (htold.wf.interlude_calls hheld env.makes_anything hnone _
      (among_tellComplete env.makes_anything s r) hz').unmarked
    have hreq : (s.tellComplete env r).2.2.req = s.req := by rw [heq]
    have hlife' := life_unmarked hlife (by rw [hreq]) hrow
    obtain ⟨v₁, C₁, hlaw, hund⟩ := htold.calls hnone _ hz'
    have hund' : Undisturbed strict (update (update v (.detached .injected) l) .hand (r :: v .hand)) v₁
        s ((s.tellComplete env r).2.2.calls env (s.tellComplete env r).2.1) := by
      refine hund.after ?_ hreq
      rw [heq]
    obtain ⟨v₂, hwf, hput⟩ := hlaw.wf.destroy (hund.hand.trans hhand) hz
    have hin := hlaw.wf.located.accepted_of_mem (r := r) (p := .hand)
      ((hund.hand.trans hhand) ▸ List.mem_cons_self)
    refine ⟨v₂, C₁, hlaw.putDown hwf (holds_nobody v₂)
      (hput.injectees (hlaw.wf.injected_eq hwf rfl fun _ _ => rfl)) (fun b hb => keeps_destroy _ hb)
      (.of_destroyed hin List.mem_cons_self (.of_destroyed .dismissed ?_ List.mem_cons_self)),
      .of_putDown h.wf hp (.refl s) hund' hput⟩
    rw [terms_destroy]
    exact hlife'
  · rename_i hset
    rw [if_neg hset] at hz
    obtain ⟨v₂, hwf, hput⟩ := htaken.wf.destroy hhand hz
    refine ⟨v₂, C, htaken.putDown hwf (holds_nobody v₂)
      (hput.injectees (htaken.wf.injected_eq hwf rfl fun _ _ => rfl))
      (fun b hb => keeps_destroy _ hb)
      (.of_destroyed hlive.1 List.mem_cons_self ((h.conforms r).lives id).destroy),
      .of_putDown h.wf hp (.refl s) (.refl _ _) hput⟩

theorem LawfulAtRest.processInjected (h : s.LawfulAtRest strict)
    (hz : (s.processInjected env).Spared strict) :
    (s.processInjected env).LawfulAtRest strict := by
  obtain ⟨v, C, hlaw, hv⟩ := h
  have hempty := hv.detached .injected (.inr (by simp))
  have hdet : s.detachInjected.WF
      (update (update v .injected []) (.detached .injected) (v .injected)) C :=
    ⟨hlaw.wf.located.detachInjected hempty, hlaw.wf.marked⟩
  have hinjectees :
      View.injectees (update (update v .injected []) (.detached .injected) (v .injected)) =
      v.injectees := by
    rw [View.injectees, View.injectees, Function.update_self, Function.update_of_ne (by simp),
      Function.update_self, hempty, List.append_nil, List.nil_append]
  have hstart := hlaw.keep hdet rfl hinjectees fun b => .of_row rfl fun _ => .rfl
  obtain ⟨v₂, C₂, hwf₂, hrest, hv₂, hconf₂⟩ := hdet.forEachHandled (p := .injected)
    (f := Loop.injectedRound env) (P := fun v t => v.SlackBut strict .injected ∧
      ∀ b, Conforms (fun _ => False) v.injectees t b) (.inr (by simp))
    (fun r t ht => (evolves_injectedRound env r t).spared ht)
    (fun r l v C t ht hp hinv hz => by
      obtain ⟨hv, hconf⟩ := hinv
      obtain ⟨v', C', hlaw', hh⟩ := Lawful.injectedRound ⟨ht, holds_nobody v, hconf⟩ hv hp hz
      exact ⟨v', C', hlaw'.wf, hh, hh.slackBut hv, hlaw'.conforms⟩)
    (a := s.injectedRequests) (by
      rw [Function.update_self]
      exact hlaw.wf.located.linked.injected) ⟨hv.detach (by simp) (by simp), hstart.conforms⟩ hz
  exact ⟨v₂, C₂, ⟨hwf₂, holds_nobody v₂, hconf₂⟩, hv₂.slack hrest⟩

/-- **The third pass.** -/
theorem LawfulAtRest.processCompletedRequests (h : s.LawfulAtRest strict) {msgs : List Message}
    (hz : (s.processCompletedRequests env msgs).Spared strict) :
    (s.processCompletedRequests env msgs).LawfulAtRest strict := by
  have hrounds : ∀ {t : Loop ω}, t.LawfulAtRest strict →
      (msgs.foldl (fun s m => s.completedRound env m) t).Spared strict →
      (msgs.foldl (fun s m => s.completedRound env m) t).LawfulAtRest strict := by
    clear h hz
    induction msgs with
    | nil => exact fun ht _ => ht
    | cons msg msgs ih =>
      intro t ht hz
      have hmono := (evolves_foldl (fun s m => evolves_completedRound env s m) msgs
        (t.completedRound env msg)).spared hz
      exact ih (ht.completedRound msg hmono) hz
  exact (hrounds h ((evolves_processInjected env _).spared hz)).processInjected hz

end Loop

end CurlLoop
