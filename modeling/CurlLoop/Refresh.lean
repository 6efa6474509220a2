import CurlLoop.TurnTaking

/-!
# Requests that are refreshed

`curl_event_request_enable_refresh` stores the interval, and nothing reads it. When an attempt of the
request has ended and nothing else reschedules it, the completion handler puts it into
`refresh_requests` with the `next_retry_at` it happens to have: that of its submission, of a retry, of
the rate manager. As a rule that is in the past, and the next pass starts it again.

A pass starts nobody before his `next_retry_at`, whatever the map he waits in and whatever the rate
manager answers. So a run honours the interval if the time a refreshed request has when it is started
again is far enough from the time it was refreshed, and the interval has no part in that.

The law is a monitor that runs beside the loop. It keeps the time before which the request is not to
be started, from its refresh to its next start.

## Main definitions

* `Request.curlEventRequestEnableRefresh` — the function
* `Loop.refreshOf`, `Action.refreshes` — the requests that are refreshed, and when
* `Loop.monitored` — the loop and the monitor
* `Loop.HonoursInterval`, `Loop.DueLater` — the law, and the condition under which it holds

## Main results

* `completedRound_of_refreshOf` — what it is to be refreshed
* `AtRest.due_of_starts` — nobody is started before his time
* `Loop.honoursInterval_of_dueLater` — runs
-/

namespace CurlLoop

variable {ω : Type}

/-- `curl_event_request_enable_refresh`. Its last argument is stored in a field nothing reads. -/
def Request.curlEventRequestEnableRefresh (q : Request) (intervalMs : ℕ) : Request :=
  { q with shouldRefresh := decide (intervalMs ≠ 0), refreshIntervalMs := intervalMs }

/-- The time before which a request that is refreshed at a time is not to be started. -/
def Request.refreshDeadline (q : Request) (time : ℕ) : Option ℕ :=
  if 0 < q.refreshIntervalMs then some (time + q.refreshIntervalMs * 1000000) else none

namespace Loop

variable {s t u : Loop ω} {r : ReqId} {env : Env ω} {a : Action} {clock : ω → ℕ} {strict : Prop}

/-- What `reschedule` leaves to `finish`, unless it reschedules the request. -/
def unrescheduled (env : Env ω) (s : Loop ω) (r : ReqId) (retryIn : ℤ) : Option (Loop ω) :=
  if retryIn > 0 then none
  else
    let (again, s) := if retryIn < 0 then s.callOnRetry env r else (false, s)
    if again then none else some s

/-- What `settle` leaves to `finish`, unless it throttles the request or reschedules it. -/
def unsettled (env : Env ω) (s : Loop ω) (r : ReqId) (httpCode : ℤ) (retryIn : ℤ) :
    Option (Loop ω) :=
  match (s.req r).rateLimit with
  | some key =>
    if httpCode = 429 then none
    else (s.ask fun w => ((), env.rateManagerRequestDone key w)).2.unrescheduled env r retryIn
  | none => s.unrescheduled env r retryIn

/-- The request the message is about and the time, if the request is refreshed. -/
def refreshOf (env : Env ω) (s : Loop ω) (m : Message) : Option (ReqId × ℕ) :=
  match s.transferOf m with
  | none => none
  | some t =>
    let (retryIn, s) := s.receive env m t.priv
    match s.unsettled env t.priv m.httpCode retryIn with
    | none => none
    | some s => if (s.req t.priv).shouldRefresh then some (t.priv, s.now env) else none

/-- The requests that are refreshed while messages are read, and when. -/
def refreshesOf (env : Env ω) : List Message → Loop ω → List (ReqId × ℕ)
  | [], _ => []
  | m :: ms, s => (s.refreshOf env m).toList ++ refreshesOf env ms (s.completedRound env m)

end Loop

/-- The requests the action refreshes, and when. -/
def Action.refreshes (env : Env ω) : Action → Loop ω → List (ReqId × ℕ)
  | .processCompletedRequests msgs, s => Loop.refreshesOf env msgs s
  | _, _ => []

namespace Loop

variable {s t u : Loop ω} {r : ReqId} {env : Env ω} {a : Action} {clock : ω → ℕ} {strict : Prop}

/-- The action starts the request. -/
def Starts (env : Env ω) (r : ReqId) (a : Action) (s : Loop ω) : Prop :=
  (act env a s).trace.count (.started r) ≠ s.trace.count (.started r)

instance (env : Env ω) (r : ReqId) (a : Action) (s : Loop ω) : Decidable (Starts env r a s) :=
  inferInstanceAs (Decidable (¬ _ = _))

/-- The monitor: a refresh sets the deadline, and a start lifts it. -/
def deadline (env : Env ω) (r : ReqId) (a : Action) (p : Option ℕ × Loop ω) : Option ℕ :=
  match (a.refreshes env p.2).lookup r with
  | some time => ((act env a p.2).req r).refreshDeadline time
  | none => if Starts env r a p.2 then none else p.1

/-- The loop and the monitor. -/
def monitored (env : Env ω) (r : ReqId) (a : Action) (p : Option ℕ × Loop ω) : Option ℕ × Loop ω :=
  (deadline env r a p, act env a p.2)

/-- **The law** of one action: it does not start the request before the deadline. -/
def HonoursInterval (env : Env ω) (r : ReqId) (a : Action) (p : Option ℕ × Loop ω) : Prop :=
  Starts env r a p.2 → ∀ time ∈ p.1, time ≤ ((act env a p.2).req r).requestStartTime

/-- If the action starts the request, the request was not due before the deadline. -/
def DueLater (env : Env ω) (r : ReqId) (a : Action) (p : Option ℕ × Loop ω) : Prop :=
  Starts env r a p.2 → ∀ time ∈ p.1, time ≤ (p.2.req r).nextRetryAt

instance (env : Env ω) (r : ReqId) (a : Action) (p : Option ℕ × Loop ω) :
    Decidable (HonoursInterval env r a p) :=
  inferInstanceAs (Decidable (_ → ∀ time ∈ p.1, _))

instance (env : Env ω) (r : ReqId) (a : Action) (p : Option ℕ × Loop ω) :
    Decidable (DueLater env r a p) :=
  inferInstanceAs (Decidable (_ → ∀ time ∈ p.1, _))

/-! ### What it is to be refreshed -/

theorem reschedule_of_unrescheduled {retryIn : ℤ} (h : s.unrescheduled env r retryIn = some u)
    (success : Bool) : s.reschedule env r success retryIn = u.finish r success := by
  rw [unrescheduled] at h
  rw [reschedule]
  split at h
  · exact absurd h (Option.some_ne_none u).symm
  · rename_i hpos
    rw [if_neg hpos]
    generalize (if retryIn < 0 then s.callOnRetry env r else (false, s)) = p at h ⊢
    dsimp only at h ⊢
    split at h
    · exact absurd h (Option.some_ne_none u).symm
    · rename_i hagain
      obtain rfl := Option.some.inj h
      exact if_neg hagain

theorem settle_of_unsettled {httpCode retryIn : ℤ} (h : s.unsettled env r httpCode retryIn = some u)
    (success : Bool) : s.settle env r httpCode success retryIn = u.finish r success := by
  rw [unsettled] at h
  rw [settle]
  cases hkey : (s.req r).rateLimit with
  | none =>
    rw [hkey] at h
    exact reschedule_of_unrescheduled h success
  | some key =>
    rw [hkey] at h
    dsimp only at h ⊢
    split at h
    · exact absurd h (Option.some_ne_none u).symm
    · rename_i hcode
      rw [if_neg hcode]
      exact reschedule_of_unrescheduled h success

/-- It is put where it waits with the time it has. -/
theorem finish_refresh (h : (s.req r).shouldRefresh = true) (success : Bool) :
    r ∈ (s.finish r success).maps .refresh ∧
      ((s.finish r success).req r).nextRetryAt = (s.req r).nextRetryAt := by
  have hcounted : (if success then s.countCompleted else s).req = s.req := by
    split <;> rfl
  rw [finish]
  generalize (if success then s.countCompleted else s) = t at hcounted ⊢
  rw [← hcounted] at h ⊢
  rw [if_pos h]
  have hreq : ((t.modifyReq r fun q => { q with currentRetries := 0 }).curlEventLoopRequestCleanup
      r).req r = Request.cleaned { t.req r with currentRetries := 0 } :=
    (Function.update_self ..).trans (congrArg Request.cleaned (Function.update_self ..))
  generalize (t.modifyReq r fun q => { q with currentRetries := 0 }).curlEventLoopRequestCleanup r =
    u at hreq ⊢
  have hmap : waitingMap (u.req r) = .refresh := by
    rw [hreq]
    exact if_pos h
  refine ⟨?_, ?_⟩
  · have hmem := mem_maps_insertMap u (waitingMap (u.req r)) r
    rw [hmap] at hmem
    rw [enqueueRequest, hmap]
    exact hmem
  · change (u.req r).nextRetryAt = _
    rw [hreq]
    rfl

/-- **A request is refreshed** when an attempt of it has ended, it is neither throttled nor tried
again, and it is to be refreshed. -/
theorem completedRound_of_refreshOf {m : Message} {time : ℕ}
    (h : s.refreshOf env m = some (r, time)) :
    ∃ u : Loop ω, u.now env = time ∧ s.completedRound env m = u.finish r (Message.success m) ∧
      r ∈ (s.completedRound env m).maps .refresh ∧
      ((s.completedRound env m).req r).nextRetryAt = (u.req r).nextRetryAt := by
  rw [refreshOf] at h
  rw [completedRound]
  cases ha : s.transferOf m with
  | none =>
    rw [ha] at h
    exact absurd h (Option.some_ne_none _).symm
  | some a =>
    rw [ha] at h
    dsimp only at h ⊢
    cases hu : (s.receive env m a.priv).2.unsettled env a.priv m.httpCode
        (s.receive env m a.priv).1 with
    | none =>
      rw [hu] at h
      exact absurd h (Option.some_ne_none _).symm
    | some u =>
      rw [hu] at h
      dsimp only at h
      split at h
      · rename_i hrefresh
        obtain ⟨rfl, rfl⟩ := Prod.mk.inj (Option.some.inj h)
        rw [settle_of_unsettled hu]
        exact ⟨u, rfl, rfl, finish_refresh hrefresh _⟩
      · exact absurd h (Option.some_ne_none _).symm

/-! ### Starts -/

theorem Serves.launched {refusal : Loop ω → Option Refusal} {sites : List (ReqId × Loop ω)}
    (h : Serves env r refusal sites s t) (hc : env.ClockRuns clock) : Launched r s t := by
  cases h with
  | passed _ hpass => exact .inl hpass.story
  | served u _ _ hreq hstory hturned =>
    have hlaunched := hturned.launched clock hc
    rwa [Launched, hreq, hstory] at hlaunched

/-- **Nobody is started before his time.** -/
theorem AtRest.due_of_starts (h : s.AtRest False) (ha : Orderly env a s) (hc : env.ClockRuns clock)
    (hstarts : Starts env r a s) :
    (s.req r).nextRetryAt ≤ ((Loop.act env a s).req r).requestStartTime := by
  have hz := ha.spared
  have hlaunched : Launched r s (Loop.act env a s) := by
    by_cases hpending : a = .processCancelledAndPendingRequests
    · subst hpending
      obtain ⟨-, -, hstory, -⟩ | ⟨-, hserves⟩ := h.serves_pending env r hz
      · exact .inl hstory
      · exact hserves.launched hc
    · by_cases hmove : a = .moveInactiveRequestsToQueue
      · subst hmove
        exact (h.serves_move env r).launched hc
      · have hcount := (startless_act env s ha.1 hpending hmove).count_eq (e := .started r)
          fun he => he
        exact absurd hcount hstarts
  rcases hlaunched with hstory | ⟨-, hdue⟩
  · exact absurd (count_eq_of_story (e := .started r) hstory) hstarts
  · exact hdue

/-! ### Runs -/

/-- **The law holds of a run** in which a refreshed request is not due before the deadline when a pass
starts it again. -/
theorem honoursInterval_of_dueLater (env : Env ω) (clock : ω → ℕ) (hc : env.ClockRuns clock)
    (mem : Memory) (world : ω) (as : List Action)
    (has : Guarded.Allowed (Loop.act env) (Orderly env) (curlEventLoopInit mem world) as) (r : ReqId)
    (hdue : Guarded.Allowed (monitored env r) (DueLater env r)
      (none, curlEventLoopInit mem world) as) :
    Guarded.Allowed (monitored env r) (HonoursInterval env r)
      (none, curlEventLoopInit mem world) as := by
  have hrun : Guarded.Allowed (monitored env r) (fun a p => Orderly env a p.2)
      (none, curlEventLoopInit mem world) as :=
    Guarded.Allowed.comap (f := Prod.snd) (fun _ _ => rfl) has
  refine (hrun.and hdue).mono (P := fun p => p.2.AtRest False)
    (fun _ _ hp ha => ha.1.atRest hp) (fun a p hp ha hstarts time htime => ?_)
    (runInvariant_init mem world).atRest
  exact (ha.2 hstarts time htime).trans (hp.due_of_starts ha.1 hc hstarts)

end Loop

/-- The clock goes on by a millisecond whenever it is read. A retry policy of the user gives up, and
leaves a time five milliseconds away. -/
def Env.ticking : Env ℕ where
  macroNow w := (w, w + 1000000)
  rateManagerCanProceed _ _ w := (0, w)
  rateManagerStartRequest _ _ w := (0, w)
  rateManagerRequestDone _ w := w
  rateManagerHandle429 _ w := (1, w)
  curlEasyInit w := (true, w)
  onPrepare _ w := (true, w)
  onRetry _ _ w := ((false, w + 5000000), w)
  computeBackoffMs _ w := (0, w)
  onComplete _ w := (⟨0, []⟩, w)
  onFailure _ _ _ _ w := (⟨0, []⟩, w)
  onAborted _ w := (⟨0, []⟩, w)

theorem Env.clockRuns_ticking : Env.ticking.ClockRuns id where
  clock_le_now _ := le_rfl
  now_le_clock w := Nat.le_add_right w 1000000
  startRequest _ _ _ := le_rfl
  onPrepare _ _ := le_rfl
  curlEasyInit _ := le_rfl

/-- Requests that are refreshed, and have no `on_failure`. -/
def Memory.refreshing (intervalMs : ℕ) (onRetry : Option RetryPolicy) : Memory where
  req _ := { Request.init with
    url := some "u", onFailure := false, onRetry := onRetry }.curlEventRequestEnableRefresh intervalMs
  unsubmitted _ := ⟨rfl, rfl, rfl, rfl, rfl, rfl⟩

namespace Loop

/-- The interval is a millisecond and the policy asks for five: the request is started again, after
the interval is over. -/
theorem honoursInterval_of_dueLater_policy :
    let s := curlEventLoopInit (Memory.refreshing 1 (some .user)) 0
    let as : List Action := [.call (.api (.submit 1 0)), .processCancelledAndPendingRequests,
      .processCompletedRequests [⟨0, .ok, 500⟩], .moveInactiveRequestsToQueue,
      .moveInactiveRequestsToQueue, .moveInactiveRequestsToQueue]
    Guarded.Allowed (monitored Env.ticking 1) (HonoursInterval Env.ticking 1) (none, s) as ∧
      (Guarded.run (Loop.act Env.ticking) s as).trace.count (.started 1) = 2 :=
  ⟨honoursInterval_of_dueLater Env.ticking id Env.clockRuns_ticking _ 0 _ (by decide +kernel) 1
    (by decide +kernel), by decide +kernel⟩

/-- The interval is a second, and the request is started again at once. -/
theorem not_honoursInterval_at_once :
    let s := curlEventLoopInit (Memory.refreshing 1000 none) 0
    ¬ Guarded.Allowed (monitored Env.ticking 1) (HonoursInterval Env.ticking 1) (none, s)
      [.call (.api (.submit 1 0)), .processCancelledAndPendingRequests,
        .processCompletedRequests [⟨0, .ok, 200⟩], .moveInactiveRequestsToQueue] := by
  decide +kernel

end Loop

end CurlLoop
