import CurlLoop.Teardown

/-!
# The retry budget

A request with `max_retries = n` is to be started at most `n + 1` times: each of its first `n`
failures reschedules it, and the next destroys it. The policy that counts,
`default_calculate_retry_enhanced`, is installed by `curl_event_request_submit`, and only if
`max_retries` is not 0. `process_completed_requests` calls `on_retry` whenever a callback answers with
a negative number, so a request that was handed over by `curl_event_loop_submit`, or that has no
retries, makes it call a `NULL` pointer.

Where the policy is installed the budget is exact. While the request waits it has been started as
often as it was retried, and once more while it is active.

## Main definitions

* `Terms.Budgeted` — the request as its user leaves it
* `Loop.KeepsBudget` — what is claimed of a run
* `Loop.failing` — the runs in which each transfer of the request fails
* `Loop.Budget` — the invariant

## Main results

* `Budget.path` — the invariant along a path
* `keepsBudget_of_submitted` — every run in which `curl_event_request_submit` takes a request with
  retries
* `not_keepsBudget` — the two ways to have no policy
-/

namespace CurlLoop

open Function (update)

/-- `max_retries` is set to a number, and `on_retry` is not set. -/
structure Terms.Budgeted (n : ℕ) (q : Terms) : Prop where
  maxRetries : q.maxRetries = n
  currentRetries : q.currentRetries = 0
  onRetry : q.onRetry = none
  shouldRefresh : q.shouldRefresh = false
  rateLimit : q.rateLimit = none

/-- The call does not hand over the request, but by `curl_event_request_submit`, and does not cancel
it. -/
def ApiCall.SubmitsOnly (r : ReqId) : ApiCall → Prop
  | .loopSubmit b _ | .cancel b | .inject b _ => b ≠ r
  | _ => True

/-- The terms of a request that was retried a number of times. -/
def Terms.retried (q : Terms) (k : ℕ) : Terms := { q.submitted with currentRetries := k }

/-- Requests without callbacks of their own that are to be retried a number of times. -/
def Memory.retrying (n : ℕ) : Memory where
  req _ := { Request.init with url := some "u", maxRetries := n, onFailure := false }
  unsubmitted _ := ⟨rfl, rfl, rfl, rfl, rfl, rfl⟩

namespace Loop

variable {ω : Type} {s t u : Loop ω} {r : ReqId} {env : Env ω} {n : ℕ} {q : Terms}
  {held held' : Option ReqId}

/-! ### What is claimed of a run -/

/-- The message is about a failed transfer, if it is about the request. -/
def OnlyFails (r : ReqId) (s : Loop ω) (m : Message) : Prop :=
  ∀ a ∈ s.transferOf m, a.priv = r → Message.success m = false

/-- A failure of the request reschedules it, as long as it was started at most `n` times, and
destroys it otherwise. -/
def DealsWith (env : Env ω) (n : ℕ) (r : ReqId) (m : Message) (s : Loop ω) : Prop :=
  ∀ a ∈ s.transferOf m, a.priv = r →
    (s.trace.count (.started r) ≤ n → (s.completedRound env m).Live r ∧
      r ∈ (s.completedRound env m).maps .inactive ∧
      (s.completedRound env m).metrics.retriedRequests = s.metrics.retriedRequests + 1) ∧
    (n < s.trace.count (.started r) → r ∈ (s.completedRound env m).destroyed ∧
      (s.completedRound env m).metrics.retriedRequests = s.metrics.retriedRequests)

/-- So does each message of a pass. -/
def DealtWith (env : Env ω) (n : ℕ) (r : ReqId) : Action → Loop ω → Prop
  | .processCompletedRequests msgs, s =>
    Guarded.Allowed (fun m s => s.completedRound env m) (DealsWith env n r) s msgs
  | _, _ => True

/-- The budget is exact: the first `n` failures reschedule the request and the next destroys it, it
is started at most `n + 1` times, and no callback pointer of it that is `NULL` is called. -/
def KeepsBudget (env : Env ω) (n : ℕ) (r : ReqId) (s : Loop ω) (as : List Action) : Prop :=
  Guarded.Allowed (Loop.act env) (DealtWith env n r) s as ∧
    ∀ pre, pre <+: as →
      (Guarded.run (Loop.act env) s pre).trace.count (.started r) ≤ n + 1 ∧
        .nullCall r ∉ (Guarded.run (Loop.act env) s pre).trace

/-- The request is taken by `curl_event_request_submit`, is not cancelled, and its transfers fail. -/
def failing (r : ReqId) : Regime ω := ⟨ApiCall.SubmitsOnly r, fun _ => True, OnlyFails r⟩

/-! ### Steps about the request -/

/-- The retries of a request and its starts, while a request may be held. -/
structure Budget (n : ℕ) (r : ReqId) (q : Terms) (held : Option ReqId) (s : Loop ω) : Prop where
  fresh : r ∉ s.accepted → (s.req r).terms = q ∧ s.story r = []
  policy : s.Live r → ∃ k : ℕ, k ≤ n ∧ (s.req r).terms = q.retried k ∧
    (r ∈ s.maps .queued ∨ held = some r → (s.story r).count (.started r) = k + 1) ∧
    (¬ (r ∈ s.maps .queued ∨ held = some r) → (s.story r).count (.started r) = k)
  spent : (s.story r).count (.started r) ≤ n + 1
  silent : .nullCall r ∉ s.story r

/-- The invariant is about the row of the request. -/
theorem Budget.of_row (h : Budget n r q held s) (ht : t.row r = s.row r) : Budget n r q held t := by
  obtain ⟨haccepted, hdestroyed, hactive, hterms, hstory⟩ := Row.mk.inj ht
  refine ⟨?_, ?_, ?_, ?_⟩
  · rw [haccepted, hterms, hstory]
    exact h.fresh
  · rw [Live, haccepted, hdestroyed, hactive, hterms, hstory]
    exact h.policy
  · rw [hstory]
    exact h.spent
  · rw [hstory]
    exact h.silent

/-- It does not matter who else is held. -/
theorem Budget.rehold (h : Budget n r q held s) (hheld : held = some r ↔ held' = some r) :
    Budget n r q held' s := by
  refine ⟨h.fresh, fun hlive => ?_, h.spent, h.silent⟩
  obtain ⟨k, hk, hterms, hactive, hwait⟩ := h.policy hlive
  rw [hheld] at hactive hwait
  exact ⟨k, hk, hterms, hactive, hwait⟩

/-- The request is destroyed, which may not be owned yet. -/
theorem Budget.destroy (h : Budget n r q held s) :
    Budget n r q none (s.curlEventRequestDestroy r) := by
  refine ⟨fun hno => ?_, fun hlive => absurd List.mem_cons_self hlive.2, h.spent, h.silent⟩
  obtain ⟨hterms, hstory⟩ := h.fresh hno
  exact ⟨(terms_destroy s r r).trans hterms, hstory⟩

theorem Budget.dropped (h : Budget n r q held s) : Budget n r q none (s.cancelledRound r) := by
  have hstory := story_cancelledRound s r r
  refine ⟨?_, fun hlive => absurd hlive (not_live_cancelledRound s r), ?_, ?_⟩
  · rw [accepted_cancelledRound, terms_cancelledRound, hstory]
    exact h.fresh
  · rw [hstory]
    exact h.spent
  · rw [hstory]
    exact h.silent

/-- The request is told of something. -/
theorem Budget.emit (h : Budget n r q held s) (ha : r ∈ s.accepted) {e : Event}
    (he : e.subject = r) (hstart : e ≠ .started r) (hnull : e ≠ .nullCall r) :
    Budget n r q held (s.emit e) := by
  have hstory : (s.emit e).story r = e :: s.story r := (story_emit s e r).trans (if_pos he)
  have hcount : ((s.emit e).story r).count (.started r) = (s.story r).count (.started r) := by
    rw [hstory, List.count_cons_of_ne hstart]
  refine ⟨fun hno => absurd ha hno, fun hlive => ?_, ?_, fun hmem => ?_⟩
  · rw [hcount]
    exact h.policy hlive
  · rw [hcount]
    exact h.spent
  · rw [hstory] at hmem
    exact h.silent ((List.mem_cons.mp hmem).resolve_left hnull.symm)

theorem Budget.callOnAborted (h : Budget n r q held s) (ha : r ∈ s.accepted) :
    Budget n r q held (s.callOnAborted env r).2 := by
  rw [Loop.callOnAborted]
  split
  · exact (h.emit ha (e := .onFailure r .abortedByCallback 0) rfl (by simp) (by simp)).of_row rfl
  · exact h

/-! ### Calls -/

theorem retried_zero (hq : q.currentRetries = 0) : q.retried 0 = q.submitted := by
  have hsubmitted : q.submitted.currentRetries = 0 := hq
  rw [Terms.retried, Nat.cast_zero, ← hsubmitted]

/-- Only `curl_event_request_submit` hands the request over. -/
theorem Budget.errands {busy : ReqId → Prop} (h : Budget n r q held s)
    (hq : q.currentRetries = 0) (hheld : held = some r → busy r)
    (he : Errands env (ApiCall.SubmitsOnly r) busy s t) : Budget n r q held t := by
  induction he with
  | refl => exact h
  | calm _ ha ih => exact ih.of_row (ha.row r)
  | @cancel t b _ _ hb ih => exact ih.of_row (beside_cancel t b r (Ne.symm hb))
  | @arrives t u b c _ ha he hc hm hb ih =>
    rcases eq_or_ne r b with rfl | hne
    · cases he with
      | submit priority _ hterms =>
        obtain ⟨hold, hstory⟩ := ih.fresh ha.fresh
        have hstory' : u.story r = [] := by
          rw [story, ha.trace]
          exact hstory
        have hidle : ¬ (r ∈ u.maps .queued ∨ held = some r) := by
          rw [ha.maps]
          exact not_or.mpr ⟨hm .queued, fun hx => hb (hheld hx)⟩
        have haccepted : r ∈ u.accepted := by
          rw [show u.accepted = r :: t.accepted from congrArg Traffic.accepted ha.traffic]
          exact List.mem_cons_self
        refine ⟨fun hno => absurd haccepted hno, fun _ => ⟨0, Nat.zero_le n, ?_,
          fun hx => absurd hx hidle, fun _ => ?_⟩, ?_, ?_⟩
        · rw [retried_zero hq, hterms, hold]
        · rw [hstory']
          rfl
        · rw [hstory']
          exact Nat.zero_le _
        · rw [hstory']
          exact List.not_mem_nil
      | loopSubmit => exact absurd rfl hc
      | inject => exact absurd rfl hc
    · exact ih.of_row (ha.row hne)

theorem Budget.interlude (h : Budget n r q held s) (hq : q.currentRetries = 0)
    (hi : Interlude env (ApiCall.SubmitsOnly r) held s t) : Budget n r q held t := by
  induction hi with
  | refl => exact h
  | errands _ he ih => exact ih.errands hq (fun hx => hx) he
  | @abort t u b _ ht hb he _ ih =>
    rcases eq_or_ne r b with rfl | hne
    · have htold : Budget n r q held (t.callOnAborted env r).2 := ih.callOnAborted ht.live.1
      exact (htold.errands hq (fun hx => .inl hx) he).destroy.rehold (iff_of_false nofun hb)
    · have htold : Budget n r q held (t.callOnAborted env b).2 :=
        ih.of_row (beside_callOnAborted env t b r hne)
      exact (htold.errands hq (fun hx => .inl hx) he).of_row (beside_destroy u b r hne)

/-! ### Starts -/

/-- **A start spends one of the budget.** -/
theorem Budget.start (h : Budget n r q none s) (hr : s.Aloof r) :
    Budget n r q none (s.curlEventLoopRequestStart env r) := by
  have hout := start_outcome env s r
  generalize s.curlEventLoopRequestStart env r = t at hout ⊢
  cases hout with
  | parked w due => exact h.of_row (row_parkRateLimited ({ s with world := w } : Loop ω) r due)
  | refused w =>
    have hreset : Budget n r q none (({ s with world := w } : Loop ω).modifyReq r Request.reset) :=
      h.of_row (row_modifyReq ({ s with world := w } : Loop ω) r rfl)
    exact hreset.destroy
  | active w =>
    obtain ⟨k, hk, hterms, -, hwait⟩ := h.policy hr.live
    have hcount := hwait (not_or.mpr ⟨hr.queued, nofun⟩)
    have hrow := row_started env s w r
    generalize ((({ s with world := w } : Loop ω).modifyReq r Request.reset).newHandle r).activate
      env r = p at hrow ⊢
    obtain ⟨haccepted, -, hactive, hterms', hstory⟩ := Row.mk.inj hrow
    refine ⟨fun hno => absurd (haccepted ▸ hr.live.1) hno, fun _ => ⟨k, hk, hterms'.trans hterms,
      fun _ => ?_, fun hx => absurd (.inl (of_eq_true hactive)) hx⟩, ?_, ?_⟩
    · rw [hstory, List.count_cons_self, hcount]
    · rw [hstory, List.count_cons_self, hcount]
      exact Nat.succ_le_succ hk
    · rw [hstory]
      exact fun hmem => h.silent ((List.mem_cons.mp hmem).resolve_left nofun)

/-! ### Failures -/

/-- There are retries left. -/
theorem settle_retried (env : Env ω) {k : ℕ} (hk : k < n) (hmax : (s.req r).maxRetries = n)
    (hcur : (s.req r).currentRetries = k) (hpolicy : (s.req r).onRetry = some .defaultEnhanced)
    (hkey : (s.req r).rateLimit = none) (httpCode : ℤ) :
    ∃ w due, s.settle env r httpCode false (-1) =
      ((({ s with world := w } : Loop ω).modifyReq r fun q => { q with
        currentRetries := (k : ℤ) + 1, nextRetryAt := due }).curlEventLoopRequestCleanup
          r).countRetried.enqueueRequest r := by
  have hleft : (s.req r).maxRetries = -1 ∨ (s.req r).currentRetries < (s.req r).maxRetries := by
    rw [hmax, hcur]
    exact .inr (by exact_mod_cast hk)
  rw [settle, hkey]
  dsimp only
  rw [reschedule, if_neg (by decide), if_pos (by decide), callOnRetry, hpolicy]
  dsimp only
  rw [defaultCalculateRetryEnhanced, if_pos hleft]
  dsimp only
  rw [if_pos rfl, hcur]
  exact ⟨_, _, rfl⟩

/-- There are none. -/
theorem settle_exhausted (hmax : (s.req r).maxRetries = n) (hcur : (s.req r).currentRetries = n)
    (hpolicy : (s.req r).onRetry = some .defaultEnhanced)
    (hrefresh : (s.req r).shouldRefresh = false) (hkey : (s.req r).rateLimit = none)
    (httpCode : ℤ) : s.settle env r httpCode false (-1) = s.curlEventRequestDestroy r := by
  have hleft : ¬ ((s.req r).maxRetries = -1 ∨ (s.req r).currentRetries < (s.req r).maxRetries) := by
    rw [hmax, hcur]
    omega
  rw [settle, hkey]
  dsimp only
  rw [reschedule, if_neg (by decide), if_pos (by decide), callOnRetry, hpolicy]
  dsimp only
  rw [defaultCalculateRetryEnhanced, if_neg hleft]
  dsimp only
  rw [if_neg (by decide), finish]
  exact if_neg (c := (s.req r).shouldRefresh = true) (by rw [hrefresh]; decide)

/-- **A failure** reschedules the request while there are retries left, and then destroys it. -/
theorem Budget.fail (h : Budget n r q (some r) s) (hn : 1 ≤ n) (hq : q.Budgeted n) (hr : s.Aloof r)
    (httpCode : ℤ) :
    Budget n r q none (s.settle env r httpCode false (-1)) ∧
      ((s.story r).count (.started r) ≤ n → (s.settle env r httpCode false (-1)).Live r ∧
        r ∈ (s.settle env r httpCode false (-1)).maps .inactive ∧
        (s.settle env r httpCode false (-1)).metrics.retriedRequests =
          s.metrics.retriedRequests + 1) ∧
      (n < (s.story r).count (.started r) → r ∈ (s.settle env r httpCode false (-1)).destroyed ∧
        (s.settle env r httpCode false (-1)).metrics.retriedRequests =
          s.metrics.retriedRequests) := by
  obtain ⟨k, hk, hterms, hheld, -⟩ := h.policy hr.live
  have hcount := hheld (.inr rfl)
  have hmax : (s.req r).maxRetries = n := (congrArg Terms.maxRetries hterms).trans hq.maxRetries
  have hcur : (s.req r).currentRetries = k := congrArg Terms.currentRetries hterms
  have hrefresh : (s.req r).shouldRefresh = false :=
    (congrArg Terms.shouldRefresh hterms).trans hq.shouldRefresh
  have hkey : (s.req r).rateLimit = none := (congrArg Terms.rateLimit hterms).trans hq.rateLimit
  have hpolicy : (s.req r).onRetry = some .defaultEnhanced := by
    refine (congrArg Terms.onRetry hterms).trans (if_pos ⟨hq.onRetry, ?_⟩)
    rw [hq.maxRetries]
    omega
  rcases Nat.lt_or_eq_of_le hk with hlt | rfl
  · obtain ⟨w, due, heq⟩ := settle_retried env hlt hmax hcur hpolicy hkey httpCode
    rw [heq]
    let f : Request → Request := fun p => { p with
      currentRetries := (k : ℤ) + 1, nextRetryAt := due }
    let p : Loop ω := ((({ s with world := w } : Loop ω).modifyReq r f).curlEventLoopRequestCleanup
      r).countRetried
    let t : Loop ω := p.enqueueRequest r
    change Budget n r q none t ∧ (_ → t.Live r ∧ r ∈ t.maps .inactive ∧ _) ∧ (_ → r ∈ t.destroyed ∧ _)
    have hreq : t.req r = (f (s.req r)).cleaned := by
      change update (update s.req r (f (s.req r))) r (update s.req r (f (s.req r)) r).cleaned r = _
      rw [Function.update_self, Function.update_self]
    have hself : (t.req r).terms = q.retried (k + 1) := by
      have hnext : (t.req r).terms = { (s.req r).terms with currentRetries := (k : ℤ) + 1 } := by
        rw [hreq]
        rfl
      rw [hnext, hterms, Terms.retried, Terms.retried, Nat.cast_succ]
    have hwaits : r ∈ t.maps .inactive := by
      have hmap : waitingMap (p.req r) = .inactive := by
        rw [show p.req r = t.req r from rfl, hreq, waitingMap]
        exact if_neg (c := (s.req r).shouldRefresh = true) (by rw [hrefresh]; decide)
      exact hmap ▸ mem_enqueueRequest p r
    have hidle : ¬ (r ∈ t.maps .queued ∨ (none : Option ReqId) = some r) := by
      rw [show t.maps .queued = s.maps .queued from congrArg Traffic.queued
        (traffic_enqueueRequest p r)]
      exact not_or.mpr ⟨hr.queued, (Option.some_ne_none r).symm⟩
    refine ⟨⟨fun hno => absurd hr.live.1 hno, fun _ => ⟨k + 1, hlt, hself,
      fun hx => absurd hx hidle, fun _ => hcount⟩, h.spent, h.silent⟩,
      fun _ => ⟨hr.live, hwaits, rfl⟩, fun hlt' => ?_⟩
    rw [hcount] at hlt'
    omega
  · rw [settle_exhausted hmax hcur hpolicy hrefresh hkey]
    have hspent : k < (s.story r).count (.started r) := hcount ▸ Nat.lt_succ_self k
    exact ⟨h.destroy, fun hle => absurd hspent (Nat.not_lt.mpr hle),
      fun _ => ⟨List.mem_cons_self, rfl⟩⟩

/-- The callback of a failed transfer answers with a negative number, and the request is held. -/
theorem Budget.hear (h : Budget n r q none s)
    (hrefuse : q.onFailure = true → ∀ easy code httpCode w,
      (env.onFailure r easy code httpCode w).1.ret = -1)
    {m : Message} (hactive : r ∈ s.maps .queued) (hlive : s.Live r)
    (hfail : Message.success m = false) :
    (s.hear env m r).1 = -1 ∧ Budget n r q (some r) (s.hear env m r).2.2 ∧
      ((s.hear env m r).2.2.story r).count (.started r) = (s.story r).count (.started r) := by
  have hpick : Budget n r q (some r) (s.pickUp m.easy r) := by
    obtain ⟨k, hk, hterms, hcount, -⟩ := h.policy hlive
    exact ⟨fun hno => absurd hlive.1 hno, fun _ => ⟨k, hk, hterms, fun _ => hcount (.inl hactive),
      fun hx => absurd (.inr rfl) hx⟩, h.spent, h.silent⟩
  have hterms : (s.req r).onFailure = q.onFailure := by
    obtain ⟨k, -, hterms, -⟩ := h.policy hlive
    exact congrArg Terms.onFailure hterms
  rw [Loop.hear, if_neg (by rw [hfail]; decide), tellFailure]
  split
  · have htold := hpick.emit hlive.1 (e := .onFailure r m.result m.httpCode) rfl (by simp)
      (by simp)
    refine ⟨hrefuse ?_ _ _ _ _, htold.of_row rfl, ?_⟩
    · exact hterms ▸ ‹_›
    have hstory := (story_emit (s.pickUp m.easy r) (.onFailure r m.result m.httpCode) r).trans
      (if_pos rfl)
    have hsame := congrArg (List.count (.started r)) hstory
    have hne : Event.onFailure r m.result m.httpCode ≠ .started r := by simp
    exact hsame.trans (List.count_cons_of_ne hne)
  · exact ⟨rfl, hpick, rfl⟩

/-- Calls retry nothing. -/
theorem Errands.retried {calls : ApiCall → Prop} {busy : ReqId → Prop}
    (h : Errands env calls busy s t) :
    t.metrics.retriedRequests = s.metrics.retriedRequests := by
  induction h with
  | refl => rfl
  | calm _ ha ih =>
    exact (congrArg (fun c => c.metrics.retriedRequests) ha.chronicle).trans ih
  | @cancel t r _ _ _ ih =>
    refine Eq.trans ?_ ih
    rw [curlEventLoopCancel]
    dsimp only
    split
    · rfl
    · split <;> rfl
  | arrives r c _ _ he _ _ _ ih =>
    refine Eq.trans ?_ ih
    cases he with
    | submit _ hmetrics => rw [hmetrics]
    | loopSubmit _ hmetrics => rw [hmetrics]
    | inject _ hmetrics => rw [hmetrics]

theorem Interlude.retried {calls : ApiCall → Prop} (h : Interlude env calls held s t) :
    t.metrics.retriedRequests = s.metrics.retriedRequests := by
  induction h with
  | refl => rfl
  | errands _ he ih => exact he.retried.trans ih
  | @abort t u r _ _ _ he _ ih =>
    obtain ⟨w, tr, heq⟩ := callOnAborted_eq env t r
    rw [heq] at he
    exact he.retried.trans ih

/-- **A failed transfer of the request**, with what its callback does. -/
theorem Budget.complete (h : Budget n r q none s) (hn : 1 ≤ n) (hq : q.Budgeted n)
    (hrefuse : q.onFailure = true → ∀ easy code httpCode w,
      (env.onFailure r easy code httpCode w).1.ret = -1)
    {m : Message} (hactive : r ∈ s.maps .queued) (hlive : s.Live r)
    (hfail : Message.success m = false)
    (hi : Interlude env (ApiCall.SubmitsOnly r) (some r) (s.hear env m r).2.2 u) (hu : u.Aloof r)
    (ht : t = u.settle env r m.httpCode (Message.success m) (s.hear env m r).1) :
    Budget n r q none t ∧
      ((s.story r).count (.started r) ≤ n → t.Live r ∧ r ∈ t.maps .inactive ∧
        t.metrics.retriedRequests = s.metrics.retriedRequests + 1) ∧
      (n < (s.story r).count (.started r) → r ∈ t.destroyed ∧
        t.metrics.retriedRequests = s.metrics.retriedRequests) := by
  obtain ⟨hans, hheard, hcount⟩ := h.hear hrefuse hactive hlive hfail
  have hrow := hi.row (r := r) fun hc => absurd rfl hc
  have hstory : u.story r = (s.hear env m r).2.2.story r := congrArg Row.story hrow
  have hretried : u.metrics.retriedRequests = s.metrics.retriedRequests := by
    obtain ⟨w, tr, heq⟩ := hear_eq env s m r
    rw [hi.retried, heq]
    rfl
  rw [ht, hfail, hans, ← hcount, ← hstory, ← hretried]
  exact (hheard.of_row hrow).fail hn hq hu m.httpCode

/-! ### Along a path -/

/-- **The budget along a path.** -/
theorem Budget.path (h : Budget n r q none s) (hn : 1 ≤ n) (hq : q.Budgeted n)
    (hrefuse : q.onFailure = true → ∀ easy code httpCode w,
      (env.onFailure r easy code httpCode w).1.ret = -1)
    (hp : Path env (failing r) s t) : Budget n r q none t := by
  have hzero := hq.currentRetries
  induction hp with
  | refl => exact h
  | interlude _ hi ih => exact ih.interlude hzero hi
  | @drop t b _ hlive _ _ _ _ ih =>
    rcases eq_or_ne r b with rfl | hne
    · exact ih.dropped
    · exact ih.of_row (beside_cancelledRound t b r hne)
  | @discard t b _ _ _ ih =>
    rcases eq_or_ne r b with rfl | hne
    · exact ih.destroy
    · exact ih.of_row (beside_destroy t b r hne)
  | @start t b _ hb _ _ ih =>
    rcases eq_or_ne r b with rfl | hne
    · exact ih.start hb
    · exact ih.of_row (beside_start env t b r hne)
  | @complete t u m a _ ha hactive hlive hw hi hu ih =>
    rcases eq_or_ne r a.priv with rfl | hne
    · exact (ih.complete hn hq hrefuse hactive hlive (hw a ha rfl) hi hu rfl).1
    · have hheard : Budget n r q (some a.priv) (t.hear env m a.priv).2.2 :=
        (ih.of_row (beside_hear env t m a.priv r hne)).rehold
          (iff_of_false (Option.some_ne_none r).symm fun heq => hne (Option.some.inj heq).symm)
      have hcalled : Budget n r q none u := (hheard.interlude hzero hi).rehold
        (iff_of_false (fun heq => hne (Option.some.inj heq).symm) (Option.some_ne_none r).symm)
      exact hcalled.of_row (beside_settle env u a.priv _ _ _ r hne)
  | @injected t u b _ hb hi hu ih =>
    rcases eq_or_ne r b with rfl | hne
    · refine (Budget.interlude ?_ hzero hi.free).destroy
      split
      · rename_i hset
        rw [tellComplete, if_pos hset]
        exact (ih.emit hb.live.1 (e := .onComplete r) rfl (by simp) (by simp)).of_row rfl
      · exact ih
    · have htold : Budget n r q none (if (t.req b).onComplete then (t.tellComplete env b).2.2
          else t) := by
        split
        · exact ih.of_row (beside_tellComplete env t b r hne)
        · exact ih
      exact (htold.interlude hzero hi.free).of_row (beside_destroy u b r hne)

/-- And when the loop is destroyed. -/
theorem Budget.torn (h : Budget n r q none s) (ht : Torn r s t) : Budget n r q none t := by
  rcases ht with hrow | hended
  · exact h.of_row hrow
  · refine ⟨fun hno => absurd hended.accepted hno, fun hlive => absurd hended.destroyed hlive.2,
      ?_, ?_⟩
    · rcases hended.story with heq | heq
      · rw [heq]
        exact h.spent
      · rw [heq, List.count_cons_of_ne (by exact nofun)]
        exact h.spent
    · rcases hended.story with heq | heq
      · rw [heq]
        exact h.silent
      · rw [heq]
        exact fun hmem => h.silent ((List.mem_cons.mp hmem).resolve_left nofun)

/-! ### Runs -/

/-- A failure of the request is dealt with as the budget says. -/
theorem Budget.dealsWith (h : Budget n r q none s) (hn : 1 ≤ n) (hq : q.Budgeted n)
    (hrefuse : q.onFailure = true → ∀ easy code httpCode w,
      (env.onFailure r easy code httpCode w).1.ret = -1)
    (hm : env.Makes (ApiCall.SubmitsOnly r)) {m : Message} (hatRest : s.AtRest False)
    (hw : s.OnlyFails r m) (hz : (s.completedRound env m).Spared False) :
    DealsWith env n r m s := by
  rintro a ha rfl
  obtain ⟨hactive, hlive, u, hi, hu, heq⟩ := hatRest.completedRound_eq hm ha hz
  have hcount := count_story s (.started a.priv)
  rw [← hcount]
  exact (h.complete hn hq hrefuse hactive hlive (hw a ha rfl) hi hu heq).2

theorem Budget.dealtWith (h : Budget n r q none s) (hn : 1 ≤ n) (hq : q.Budgeted n)
    (hrefuse : q.onFailure = true → ∀ easy code httpCode w,
      (env.onFailure r easy code httpCode w).1.ret = -1)
    (hm : env.Makes (ApiCall.SubmitsOnly r)) {msgs : List Message} (hatRest : s.AtRest False)
    (hw : Guarded.Allowed (fun m s => s.completedRound env m) (fun m s => OnlyFails r s m) s msgs)
    (hz : (s.processCompletedRequests env msgs).Spared False) :
    DealtWith env n r (.processCompletedRequests msgs) s := by
  have hmsgs : (msgs.foldl (fun s m => s.completedRound env m) s).Spared False :=
    (evolves_processInjected env _).spared hz
  clear hz
  rw [DealtWith]
  induction msgs generalizing s with
  | nil => trivial
  | cons m msgs ih =>
    have hround := (evolves_foldl (fun s m => evolves_completedRound env s m) msgs
      (s.completedRound env m)).spared hmsgs
    have hpath : Path env (failing r) s (s.completedRound env m) :=
      hatRest.path_completedRound hm hw.1 hround
    exact ⟨h.dealsWith hn hq hrefuse hm hatRest hw.1 hround,
      ih (h.path hn hq hrefuse hpath) (hatRest.completedRound m hround) hw.2 hmsgs⟩

/-- **The retry budget is exact** in every run in which a request with retries is taken by
`curl_event_request_submit`, is not cancelled, and fails with each transfer. -/
theorem keepsBudget_of_submitted (env : Env ω) (mem : Memory) (world : ω) (r : ReqId) (n : ℕ)
    (hn : 1 ≤ n) (hq : (mem.req r).terms.Budgeted n) (hm : env.Makes (ApiCall.SubmitsOnly r))
    (hrefuse : (mem.req r).onFailure = true → ∀ easy code httpCode w,
      (env.onFailure r easy code httpCode w).1.ret = -1)
    (as : List Action) (has : Guarded.Allowed (Loop.act env) (Undergoes env (failing r))
      (curlEventLoopInit mem world) as) :
    KeepsBudget env n r (curlEventLoopInit mem world) as := by
  have hstart : Budget n r (mem.req r).terms none (curlEventLoopInit mem world) :=
    ⟨fun _ => ⟨rfl, rfl⟩, fun hlive => (nomatch hlive.1), Nat.zero_le _, List.not_mem_nil⟩
  have hact : ∀ (a : Action) (s : Loop ω), s.RunInvariant ∧ Budget n r (mem.req r).terms none s →
      Undergoes env (failing r) a s →
      (Loop.act env a s).RunInvariant ∧ Budget n r (mem.req r).terms none (Loop.act env a s) := by
    rintro a s ⟨hsea, hbudget⟩ ha
    obtain ⟨hsea', hpath | htorn⟩ := hsea.undergoes hm ha
    · exact ⟨hsea', hbudget.path hn hq hrefuse hpath⟩
    · exact ⟨hsea', hbudget.torn (htorn r)⟩
  refine ⟨has.mono hact (fun a s hs ha => ?_) ⟨runInvariant_init mem world, hstart⟩, ?_⟩
  · cases a with
    | processCompletedRequests msgs =>
      rw [Undergoes, if_neg (by simp)] at ha
      exact hs.2.dealtWith hn hq hrefuse hm hs.1.atRest ha.1 (.of_abandoned ha.2)
    | _ => trivial
  · rintro pre ⟨post, rfl⟩
    have hrun := (Guarded.allowed_append.mp has).1.invariant hact
      ⟨runInvariant_init mem world, hstart⟩
    have hcount := count_story (Guarded.run (Loop.act env) (curlEventLoopInit mem world) pre)
      (.started r)
    refine ⟨hcount ▸ hrun.2.spent, fun hnull => hrun.2.silent ?_⟩
    exact (mem_story (e := .nullCall r)).mpr hnull

/-- One retry. The first failure reschedules the request and the second destroys it. -/
theorem keepsBudget_of_submitted_once :
    KeepsBudget Env.uneventful 1 1 (curlEventLoopInit (Memory.retrying 1) ())
      [.call (.api (.submit 1 0)), .processCancelledAndPendingRequests,
        .processCompletedRequests [⟨0, .other 7, 0⟩], .moveInactiveRequestsToQueue,
        .processCompletedRequests [⟨1, .other 7, 0⟩]] := by
  refine keepsBudget_of_submitted Env.uneventful (Memory.retrying 1) () 1 1 (by decide)
    ⟨rfl, rfl, rfl, rfl, rfl⟩ ⟨nofun, nofun, nofun⟩ (fun h => by simp [Memory.retrying] at h) _ ?_
  refine ⟨⟨trivial, ?_⟩, ⟨?_, ?_⟩, ⟨⟨?_, trivial⟩, ?_⟩, ⟨trivial, ?_⟩, ⟨⟨?_, trivial⟩, ?_⟩, trivial⟩
  · decide
  · exact fun _ _ => trivial
  · decide
  · exact fun _ _ _ => rfl
  · decide
  · decide
  · exact fun _ _ _ => rfl
  · decide

/-- Where there is no policy, a failure calls a callback pointer that is `NULL`: with no retries, or
if the request was handed over by `curl_event_loop_submit`. -/
theorem not_keepsBudget :
    ((Memory.retrying 0).req 1).terms.Budgeted 0 ∧
      ¬ KeepsBudget Env.uneventful 0 1 (curlEventLoopInit (Memory.retrying 0) ())
        [.call (.api (.submit 1 0)), .processCancelledAndPendingRequests,
          .processCompletedRequests [⟨0, .other 7, 0⟩]] ∧
      ((Memory.retrying 1).req 1).terms.Budgeted 1 ∧
      ¬ KeepsBudget Env.uneventful 1 1 (curlEventLoopInit (Memory.retrying 1) ())
        [.call (.api (.loopSubmit 1 0)), .processCancelledAndPendingRequests,
          .processCompletedRequests [⟨0, .other 7, 0⟩]] := by
  refine ⟨⟨rfl, rfl, rfl, rfl, rfl⟩, fun h => ?_, ⟨rfl, rfl, rfl, rfl, rfl⟩, fun h => ?_⟩
  · exact (h.2 _ List.prefix_rfl).2 (by decide)
  · exact (h.2 _ List.prefix_rfl).2 (by decide)

end Loop

end CurlLoop
