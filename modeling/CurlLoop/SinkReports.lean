import CurlLoop.Teardown
import CurlLoop.MemorySink

/-!
# How often a sink reports the end of its request

A sink tells its user of the end of the request through one callback, and both `default_on_complete`
and `default_on_failure` end there. Both return 0, which asks for no further attempt, so that a
request that is told is destroyed right after. The exception is a `429`: under a rate limit the
request is told of a failure like any other, and only then parked for another attempt.

Where no message of a request with a rate limit has the code `429`, the report is the last thing that
happens to the request. That it is told by a pass, by the publication of a `NULL`, or when the loop is
destroyed makes no difference.

## Main definitions

* `SinkKind` — the sinks of the library and their callback
* `Loop.ReportsOnce` — what is claimed of a request
* `Loop.reporting` — the runs in which the request meets no `429` under its limit
* `Loop.Reports` — the invariant

## Main results

* `reportsOnce_of_unlimited`
* `not_reportsOnce_after_429`
-/

namespace CurlLoop

open Function (update)

/-! ### The callback of a sink -/

/-- The sinks of the library. A file sink may have no callback. -/
inductive SinkKind
  | memory
  | file (callback : Bool)
deriving DecidableEq, Repr

/-- How often `memory_complete` and `memory_failure`, or `file_complete` and `file_failure`, call
the callback. -/
def SinkKind.calls : SinkKind → ℕ
  | .memory => 1
  | .file callback => if callback then 1 else 0

theorem SinkKind.calls_le_one (k : SinkKind) : k.calls ≤ 1 := by
  cases k with
  | memory => exact Nat.le_refl 1
  | file callback => cases callback <;> decide

/-- How often a memory sink called its callback. -/
def SinkRequest.callbacks {β : Type} (s : SinkRequest β) : ℕ :=
  s.log.countP fun
    | .callback .. => true
    | _ => false

theorem SinkRequest.callbacks_defaultOnComplete {β : Type} (s : SinkRequest β) (known : ℤ) :
    (s.defaultOnComplete known).1 = 0 ∧
      (s.defaultOnComplete known).2.callbacks = s.callbacks + SinkKind.memory.calls := by
  refine ⟨rfl, ?_⟩
  rw [callbacks, callbacks, ← log_initOnce s known]
  exact List.countP_cons_of_pos rfl

theorem SinkRequest.callbacks_defaultOnFailure {β : Type} (s : SinkRequest β) (known : ℤ)
    (result : CurlCode) (httpCode : ℤ) : (s.defaultOnFailure known result httpCode).1 = 0 ∧
      (s.defaultOnFailure known result httpCode).2.callbacks =
        s.callbacks + SinkKind.memory.calls := by
  refine ⟨rfl, ?_⟩
  rw [callbacks, callbacks, ← log_initOnce s known]
  exact List.countP_cons_of_pos rfl

/-- The callback of the request is called. -/
def Event.isReport : Event → Bool
  | .onComplete _ | .onFailure .. => true
  | .started _ | .nullCall _ => false

/-- The default callbacks pass it on to the sink. -/
def Event.sinkCalls (k : SinkKind) (e : Event) : ℕ := if e.isReport then k.calls else 0

/-- `on_complete` and `on_failure` are set, and the request is not refreshed. -/
structure Terms.Reporting (q : Terms) : Prop where
  onComplete : q.onComplete = true
  onFailure : q.onFailure = true
  shouldRefresh : q.shouldRefresh = false

/-- The callbacks of the request return what the default ones do. What the callback of the sink calls
is left open. -/
structure Env.DefaultAt {ω : Type} (env : Env ω) (r : ReqId) : Prop where
  onComplete : ∀ w, (env.onComplete r w).1.ret = 0
  onFailure : ∀ easy code httpCode w, (env.onFailure r easy code httpCode w).1.ret = 0

/-- The request is not injected, and not copied into one that is. -/
def ApiCall.NotInjecting (r : ReqId) : ApiCall → Prop
  | .inject w b => w ≠ r ∧ b ≠ r
  | _ => True

namespace Loop

variable {ω : Type} {s t u : Loop ω} {r : ReqId} {env : Env ω} {held held' : Option ReqId}
  {k : SinkKind}

/-! ### What is claimed of a run -/

/-- How often the callback of the sink was called for the request. -/
def sinkCalls (k : SinkKind) (s : Loop ω) (r : ReqId) : ℕ :=
  ((s.story r).map (Event.sinkCalls k)).sum

/-- The callback of the sink is called at most once, and the request is not started afterwards. -/
def ReportsOnce (k : SinkKind) (r : ReqId) (s : Loop ω) : Prop :=
  s.sinkCalls k r ≤ 1 ∧ ∀ later e earlier, s.story r = later ++ e :: earlier →
    0 < e.sinkCalls k → .started r ∉ later

/-- A message about the request has the code `429` only if the request has no rate limit. -/
def Unlimited (r : ReqId) (s : Loop ω) (m : Message) : Prop :=
  ∀ a ∈ s.transferOf m, a.priv = r → m.httpCode = 429 → (s.req r).rateLimit = none

/-- The request is not injected, and meets no `429` under its rate limit. -/
def reporting (r : ReqId) : Regime ω := ⟨ApiCall.NotInjecting r, fun _ => True, Unlimited r⟩

/-! ### The invariant -/

/-- The last thing that happens to a request may be a report, and if it is the request is held or
gone. -/
structure Reports (r : ReqId) (held : Option ReqId) (s : Loop ω) : Prop where
  fresh : r ∉ s.accepted → (s.req r).terms.Reporting ∧ s.story r = []
  terms : s.Live r → (s.req r).terms.Reporting
  silent : s.Live r → held ≠ some r → ∀ e ∈ s.story r, e.isReport = false
  last : ∀ e ∈ (s.story r).tail, e.isReport = false

theorem Reports.of_row (h : Reports r held s) (ht : (t.row r).unmarked = (s.row r).unmarked) :
    Reports r held t := by
  obtain ⟨haccepted, hdestroyed, -, hterms, hstory⟩ := Row.mk.inj ht
  have haccepted' : (r ∈ t.accepted) = (r ∈ s.accepted) := haccepted
  have hdestroyed' : (r ∈ t.destroyed) = (r ∈ s.destroyed) := hdestroyed
  have hstory' : t.story r = s.story r := hstory
  have hreporting : (s.req r).terms.Reporting → (t.req r).terms.Reporting := fun hq =>
    ⟨(congrArg Terms.onComplete hterms).trans hq.onComplete,
      (congrArg Terms.onFailure hterms).trans hq.onFailure,
      (congrArg Terms.shouldRefresh hterms).trans hq.shouldRefresh⟩
  refine ⟨?_, ?_, ?_, ?_⟩
  · rw [haccepted', hstory']
    exact fun hno => ⟨hreporting (h.fresh hno).1, (h.fresh hno).2⟩
  · rw [Live, haccepted', hdestroyed']
    exact fun hlive => hreporting (h.terms hlive)
  · rw [Live, haccepted', hdestroyed', hstory']
    exact h.silent
  · rw [hstory']
    exact h.last

theorem Reports.rehold (h : Reports r held s) (hheld : held = some r ↔ held' = some r) :
    Reports r held' s :=
  ⟨h.fresh, h.terms, fun hlive hno => h.silent hlive fun heq => hno (hheld.mp heq), h.last⟩

/-- Nothing more is asked of a request that is gone. -/
theorem Reports.destroy (h : Reports r held s) : Reports r held' (s.curlEventRequestDestroy r) := by
  refine ⟨fun hno => ?_, fun hlive => absurd List.mem_cons_self hlive.2,
    fun hlive => absurd List.mem_cons_self hlive.2, h.last⟩
  obtain ⟨hterms, hstory⟩ := h.fresh hno
  rw [terms_destroy]
  exact ⟨hterms, hstory⟩

theorem Reports.dropped (h : Reports r held s) : Reports r held (s.cancelledRound r) := by
  have hgone := not_live_cancelledRound s r
  have hstory := story_cancelledRound s r r
  refine ⟨?_, fun hlive => absurd hlive hgone, fun hlive => absurd hlive hgone, ?_⟩
  · rw [accepted_cancelledRound, terms_cancelledRound, hstory]
    exact h.fresh
  · rw [hstory]
    exact h.last

/-- A request that is told is held. -/
theorem Reports.tell (h : Reports r held s) (hlive : s.Live r) (hheld : held ≠ some r) {e : Event}
    (he : e.subject = r) : Reports r (some r) (s.emit e) := by
  have hstory : (s.emit e).story r = e :: s.story r := (story_emit s e r).trans (if_pos he)
  refine ⟨fun hno => absurd hlive.1 hno, fun _ => h.terms hlive, fun _ hno => absurd rfl hno, ?_⟩
  rw [hstory]
  exact h.silent hlive hheld

/-! ### Calls -/

theorem Reports.errands {busy : ReqId → Prop} (h : Reports r held s)
    (he : Errands env (ApiCall.NotInjecting r) busy s t) : Reports r held t := by
  induction he with
  | refl => exact h
  | calm _ ha ih => exact ih.of_row (congrArg Row.unmarked (ha.row r))
  | @cancel t b _ _ _ ih => exact ih.of_row (unmarked_cancel t b r)
  | @arrives t u b c _ ha he hc _ _ ih =>
    rcases eq_or_ne r b with rfl | hne
    · obtain ⟨hold, hstory⟩ := ih.fresh ha.fresh
      have hstory' : u.story r = [] := by
        rw [story, ha.trace]
        exact hstory
      have hterms : (u.req r).terms.Reporting := by
        cases he with
        | submit priority _ hterms =>
          rw [hterms]
          exact ⟨hold.onComplete, hold.onFailure, hold.shouldRefresh⟩
        | loopSubmit priority _ hterms =>
          rw [hterms]
          exact hold
        | inject => exact absurd rfl hc.1
      refine ⟨fun _ => ⟨hterms, hstory'⟩, fun _ => hterms, fun _ _ => ?_, ?_⟩
      · rw [hstory']
        exact fun e he => absurd he List.not_mem_nil
      · rw [hstory']
        exact fun e he => absurd he List.not_mem_nil
    · exact ih.of_row (congrArg Row.unmarked (ha.row hne))

theorem Reports.interlude (h : Reports r held s)
    (hi : Interlude env (ApiCall.NotInjecting r) held s t) : Reports r held t := by
  induction hi with
  | refl => exact h
  | errands _ he ih => exact ih.errands he
  | @abort t u b _ ht hb he _ ih =>
    rcases eq_or_ne r b with rfl | hne
    · have htold : Reports r (some r) (t.callOnAborted env r).2 := by
        rw [callOnAborted]
        split
        · exact (ih.tell ht.live hb (e := .onFailure r .abortedByCallback 0) rfl).of_row rfl
        · exact ⟨ih.fresh, ih.terms, fun _ hno => absurd rfl hno, ih.last⟩
      exact (htold.errands he).destroy
    · have htold : Reports r held (t.callOnAborted env b).2 :=
        ih.of_row (congrArg Row.unmarked (beside_callOnAborted env t b r hne))
      exact (htold.errands he).of_row (congrArg Row.unmarked (beside_destroy u b r hne))

/-! ### Starts and completions -/

theorem Reports.start (h : Reports r none s) (hlive : s.Live r) :
    Reports r none (s.curlEventLoopRequestStart env r) := by
  have hout := start_outcome env s r
  generalize s.curlEventLoopRequestStart env r = t at hout ⊢
  cases hout with
  | parked w due =>
    have hrow := row_parkRateLimited ({ s with world := w } : Loop ω) r due
    exact h.of_row (congrArg Row.unmarked hrow)
  | refused w =>
    have hreset : Reports r none (({ s with world := w } : Loop ω).modifyReq r Request.reset) :=
      h.of_row (congrArg Row.unmarked (row_modifyReq ({ s with world := w } : Loop ω) r rfl))
    exact hreset.destroy
  | active w =>
    have hrow := row_started env s w r
    generalize ((({ s with world := w } : Loop ω).modifyReq r Request.reset).newHandle r).activate
      env r = p at hrow ⊢
    obtain ⟨haccepted, -, -, hterms, hstory⟩ := Row.mk.inj hrow
    refine ⟨fun hno => absurd (haccepted ▸ hlive.1) hno, fun _ => ?_, fun _ hno => ?_, ?_⟩
    · exact hterms ▸ h.terms hlive
    · rw [hstory]
      exact List.forall_mem_cons.mpr ⟨rfl, h.silent hlive hno⟩
    · rw [hstory]
      exact h.silent hlive nofun

theorem finish_single (hrefresh : (s.req r).shouldRefresh = false) (success : Bool) :
    ∃ m, s.finish r success = ({ s with metrics := m } : Loop ω).curlEventRequestDestroy r := by
  have hno : ¬ (s.req r).shouldRefresh = true := by
    rw [hrefresh]
    decide
  rw [finish]
  cases success with
  | true => exact ⟨_, if_neg (c := (s.countCompleted.req r).shouldRefresh = true) hno⟩
  | false => exact ⟨_, if_neg (c := (s.req r).shouldRefresh = true) hno⟩

/-- A callback that returns 0 asks for no further attempt. -/
theorem settle_zero (env : Env ω) (hrefresh : (s.req r).shouldRefresh = false) {httpCode : ℤ}
    (hcode : httpCode = 429 → (s.req r).rateLimit = none) (success : Bool) :
    ∃ w m, s.settle env r httpCode success 0 =
      ({ s with world := w, metrics := m } : Loop ω).curlEventRequestDestroy r := by
  have hfinish : ∀ t : Loop ω, t.reschedule env r success 0 = t.finish r success := by
    intro t
    rw [reschedule, if_neg (by decide)]
    rfl
  rw [settle]
  cases hkey : (s.req r).rateLimit with
  | none =>
    obtain ⟨m, hm⟩ := finish_single hrefresh success
    exact ⟨s.world, m, (hfinish s).trans hm⟩
  | some key =>
    have hother : httpCode ≠ 429 := fun heq => by
      rw [hcode heq] at hkey
      cases hkey
    dsimp only
    rw [if_neg hother]
    obtain ⟨m, hm⟩ := finish_single
      (s := (s.ask fun w => ((), env.rateManagerRequestDone key w)).2) hrefresh success
    exact ⟨_, m, (hfinish _).trans hm⟩

/-- The request is told of the end of its transfer. -/
theorem Reports.hear (h : Reports r none s) (hd : env.DefaultAt r) (hlive : s.Live r)
    (m : Message) : (s.hear env m r).1 = 0 ∧ Reports r (some r) (s.hear env m r).2.2 := by
  have hpick : Reports r none (s.pickUp m.easy r) := ⟨h.fresh, h.terms, h.silent, h.last⟩
  have hterms := h.terms hlive
  rw [Loop.hear]
  split
  · have hset : ((s.pickUp m.easy r).req r).onComplete = true := hterms.onComplete
    rw [tellComplete, if_pos hset]
    exact ⟨hd.onComplete _, (hpick.tell hlive (Option.some_ne_none r).symm (e := .onComplete r) rfl).of_row rfl⟩
  · have hset : ((s.pickUp m.easy r).req r).onFailure = true := hterms.onFailure
    rw [tellFailure, if_pos hset]
    refine ⟨hd.onFailure _ _ _ _, ?_⟩
    exact (hpick.tell hlive (Option.some_ne_none r).symm (e := .onFailure r m.result m.httpCode) rfl).of_row rfl

/-- **A completion**: the request is told, and gone. -/
theorem Reports.complete (h : Reports r none s) (hd : env.DefaultAt r) {m : Message}
    (hlive : s.Live r) (hcode : m.httpCode = 429 → (s.req r).rateLimit = none)
    (hi : Interlude env (ApiCall.NotInjecting r) (some r) (s.hear env m r).2.2 u)
    (hu : u.Aloof r) : Reports r none (u.settle env r m.httpCode (Message.success m)
      (s.hear env m r).1) := by
  obtain ⟨hret, hheard⟩ := h.hear hd hlive m
  have hrow := hi.unmarked
  have hcalled : Reports r (some r) u := hheard.of_row hrow
  obtain ⟨w, tr, hask⟩ := hear_eq env s m r
  have hkey : (u.req r).rateLimit = (s.req r).rateLimit := by
    have hkey' : (u.req r).rateLimit = ((s.hear env m r).2.2.req r).rateLimit :=
      congrArg (fun w => w.terms.rateLimit) hrow
    rw [hkey', hask]
    rfl
  obtain ⟨w, x, heq⟩ := settle_zero env (hcalled.terms hu.live).shouldRefresh
    (fun h429 => hkey.trans (hcode h429)) (Message.success m)
  rw [hret, heq]
  have hended : Reports r (some r) ({ u with world := w, metrics := x } : Loop ω) :=
    hcalled.of_row rfl
  exact hended.destroy

/-! ### Along a path -/

theorem Reports.path (h : Reports r none s) (hd : env.DefaultAt r)
    (hp : Path env (reporting r) s t) : Reports r none t := by
  induction hp with
  | refl => exact h
  | interlude _ hi ih => exact ih.interlude hi
  | @drop t b _ _ _ _ _ _ ih =>
    rcases eq_or_ne r b with rfl | hne
    · exact ih.dropped
    · exact ih.of_row (congrArg Row.unmarked (beside_cancelledRound t b r hne))
  | @discard t b _ _ _ ih =>
    rcases eq_or_ne r b with rfl | hne
    · exact ih.destroy
    · exact ih.of_row (congrArg Row.unmarked (beside_destroy t b r hne))
  | @start t b _ hb _ _ ih =>
    rcases eq_or_ne r b with rfl | hne
    · exact ih.start hb.live
    · exact ih.of_row (congrArg Row.unmarked (beside_start env t b r hne))
  | @complete t u m a _ ha _ hlive hw hi hu ih =>
    rcases eq_or_ne r a.priv with rfl | hne
    · exact ih.complete hd hlive (hw a ha rfl) hi hu
    · have hother : ∀ c : ReqId, c ≠ r → (some c = some r ↔ (none : Option ReqId) = some r) :=
        fun c hc => iff_of_false (fun heq => hc (Option.some.inj heq)) nofun
      have hheard : Reports r none (t.hear env m a.priv).2.2 :=
        ih.of_row (congrArg Row.unmarked (beside_hear env t m a.priv r hne))
      have hcalled := ((hheard.rehold (hother a.priv hne.symm).symm).interlude hi).rehold
        (hother a.priv hne.symm)
      exact hcalled.of_row (congrArg Row.unmarked (beside_settle env u a.priv _ _ _ r hne))
  | @injected t u b _ hb hi hu ih =>
    rcases eq_or_ne r b with rfl | hne
    · have htold : Reports r (some r) (if (t.req r).onComplete then (t.tellComplete env r).2.2
          else t) := by
        split
        · rename_i hset
          rw [tellComplete, if_pos hset]
          exact (ih.tell hb.live nofun (e := .onComplete r) rfl).of_row rfl
        · exact ⟨ih.fresh, ih.terms, fun _ hno => absurd rfl hno, ih.last⟩
      exact (htold.interlude hi).destroy
    · have htold : Reports r none (if (t.req b).onComplete then (t.tellComplete env b).2.2
          else t) := by
        split
        · exact ih.of_row (congrArg Row.unmarked (beside_tellComplete env t b r hne))
        · exact ih
      exact (htold.interlude hi.free).of_row (congrArg Row.unmarked (beside_destroy u b r hne))

/-- When the loop is destroyed, a request that waits for a resource is told. -/
theorem Reports.torn (h : Reports r none s) (ht : Torn r s t) : Reports r none t := by
  rcases ht with hrow | hended
  · exact h.of_row (congrArg Row.unmarked hrow)
  · refine ⟨fun hno => absurd hended.accepted hno, fun hlive => absurd hended.destroyed hlive.2,
      fun hlive => absurd hended.destroyed hlive.2, ?_⟩
    rcases hended.story with heq | heq
    · rw [heq]
      exact h.last
    · rw [heq]
      exact h.silent hended.live nofun

/-! ### Runs -/

/-- If nothing but the last event is a report, there is one report and nothing after it. -/
theorem Reports.once (h : Reports r held s) (k : SinkKind) : ReportsOnce k r s := by
  have hlast := h.last
  rw [ReportsOnce, sinkCalls]
  generalize s.story r = l at hlast ⊢
  have hzero : ∀ e : Event, e.isReport = false → e.sinkCalls k = 0 := fun e he => by
    rw [Event.sinkCalls, if_neg (by rw [he]; decide)]
  cases l with
  | nil => exact ⟨Nat.zero_le 1, fun later e earlier heq => by simp at heq⟩
  | cons e l =>
    have htail : (l.map (Event.sinkCalls k)).sum = 0 := by
      refine List.sum_eq_zero_iff_forall_eq_nat.mpr fun n hn => ?_
      obtain ⟨e', he', rfl⟩ := List.mem_map.mp hn
      exact hzero e' (hlast e' he')
    refine ⟨?_, fun later e' earlier heq hpos => ?_⟩
    · rw [List.map_cons, List.sum_cons, htail, Event.sinkCalls]
      split
      · exact k.calls_le_one
      · exact Nat.zero_le 1
    · cases later with
      | nil => exact List.not_mem_nil
      | cons b later =>
        obtain ⟨rfl, rfl⟩ := List.cons.inj heq
        have hno := hlast e' (List.mem_append_right later List.mem_cons_self)
        exact absurd (hzero e' hno) (Nat.ne_of_gt hpos)

/-- **A sink reports the end of its request at most once** in every run in which no message of the
request has the code `429` while the request has a rate limit. -/
theorem reportsOnce_of_unlimited (env : Env ω) (mem : Memory) (world : ω) (r : ReqId)
    (k : SinkKind) (hq : (mem.req r).terms.Reporting) (hd : env.DefaultAt r)
    (hm : env.Makes (ApiCall.NotInjecting r)) (as : List Action)
    (has : Guarded.Allowed (Loop.act env) (Undergoes env (reporting r))
      (curlEventLoopInit mem world) as) :
    ∀ pre, pre <+: as →
      ReportsOnce k r (Guarded.run (Loop.act env) (curlEventLoopInit mem world) pre) := by
  have hstart : Reports r none (curlEventLoopInit mem world) :=
    ⟨fun _ => ⟨hq, rfl⟩, fun hlive => (nomatch hlive.1), fun hlive => (nomatch hlive.1),
      fun e he => (nomatch he)⟩
  have hact : ∀ (a : Action) (s : Loop ω), s.RunInvariant ∧ Reports r none s →
      Undergoes env (reporting r) a s →
      (Loop.act env a s).RunInvariant ∧ Reports r none (Loop.act env a s) := by
    rintro a s ⟨hsea, hreports⟩ ha
    obtain ⟨hsea', hpath | htorn⟩ := hsea.undergoes hm ha
    · exact ⟨hsea', hreports.path hd hpath⟩
    · exact ⟨hsea', hreports.torn (htorn r)⟩
  rintro pre ⟨post, rfl⟩
  have hrun := (Guarded.allowed_append.mp has).1.invariant hact
    ⟨runInvariant_init mem world, hstart⟩
  exact hrun.2.once k

/-- A request is told of a success, and nothing more happens to it. -/
theorem reportsOnce_of_unlimited_200 :
    ReportsOnce .memory 1 (Guarded.run (Loop.act Env.uneventful)
      (curlEventLoopInit (Memory.keyed fun _ => some "k") ()) [.call (.api (.submit 1 0)),
        .processCancelledAndPendingRequests, .processCompletedRequests [⟨0, .ok, 200⟩],
        .moveInactiveRequestsToQueue]) := by
  refine reportsOnce_of_unlimited Env.uneventful (Memory.keyed fun _ => some "k") () 1 .memory
    ⟨rfl, rfl, rfl⟩ ⟨fun _ => rfl, fun _ _ _ _ => rfl⟩ ⟨nofun, nofun, nofun⟩ _ ?_ _
    (List.prefix_refl _)
  refine ⟨⟨trivial, ?_⟩, ⟨fun _ _ => trivial, ?_⟩, ⟨⟨?_, trivial⟩, ?_⟩, ⟨trivial, ?_⟩, trivial⟩
  · decide
  · decide
  · exact fun _ _ _ h => absurd h (by decide)
  · decide
  · decide

/-- **A `429` under a key without a limit.** `rate_manager_handle_429` answers 0, and the request is
due at once. It was told of a failure already; it is started again, and told of a success. -/
theorem not_reportsOnce_after_429 :
    let s := Guarded.run
      (Loop.act { Env.uneventful with rateManagerHandle429 := fun _ _ => (0, ()) })
      (curlEventLoopInit (Memory.keyed fun _ => some "k") ())
      [.call (.api (.submit 1 0)), .processCancelledAndPendingRequests,
        .processCompletedRequests [⟨0, .ok, 429⟩], .moveInactiveRequestsToQueue,
        .processCompletedRequests [⟨1, .ok, 200⟩]]
    s.hazards = [] ∧ s.story 1 = [.onComplete 1, .started 1, .onFailure 1 .ok 429, .started 1] ∧
      ¬ ReportsOnce .memory 1 s := by
  refine ⟨by decide, by decide, fun h => ?_⟩
  exact absurd h.1 (by decide)

end Loop

end CurlLoop
