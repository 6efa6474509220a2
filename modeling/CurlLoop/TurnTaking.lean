import CurlLoop.Bystanders

/-!
# What a pass does to one request

A scheduling pass asks about a request at most once. The request is then left where it is, refused by
the rate manager and parked, or started. The rate manager can refuse it at two places, and what it is
parked until depends on the place: `request_is_rate_limited` adds the wait to a reading of the clock,
`curl_event_loop_request_start` takes the wait itself for a time.

What is shown here is that the end of the pass tells of the request what its turn brought: the rounds
before and after pass it by.

## Main definitions

* `Gate`, `Refusal`, `Loop.refuses` — the rate manager refuses a request
* `Loop.throttledBy`, `Loop.pendingThrottledBy` — the refusal that a turn ends with
* `Loop.asked`, `Loop.pendingAsked` — the requests a pass asks about
* `Loop.Turned`, `Loop.Serves` — what a turn brings, and what a pass does to a request

## Main results

* `turned_start` — the end of a turn in which the request is ready
* `AtRest.serves_move`, `AtRest.serves_pending` — the two passes
-/

namespace CurlLoop

open Function (update)

variable {ω : Type}

/-- The two places where the rate manager is asked whether a request may go. -/
inductive Gate
  /-- `rate_manager_can_proceed` in `request_is_rate_limited`. -/
  | check
  /-- `rate_manager_start_request` in `curl_event_loop_request_start`. -/
  | start
deriving DecidableEq, Repr

/-- The question asked there. -/
def Env.admits (env : Env ω) : Gate → Key → Bool → ω → ℕ × ω
  | .check => env.rateManagerCanProceed
  | .start => env.rateManagerStartRequest

/-- The rate manager refuses a request: where, for how long, and what the clock reads then. -/
structure Refusal where
  gate : Gate
  wait : ℕ
  now : ℕ
deriving DecidableEq, Repr

/-- The time the request is parked until. -/
def Refusal.due (x : Refusal) : ℕ :=
  match x.gate with
  | .check => u64 (x.now + x.wait)
  | .start => x.wait

/-- Time does not run backwards while a request is started. -/
structure Env.ClockRuns (env : Env ω) (clock : ω → ℕ) : Prop where
  clock_le_now : ∀ w, clock w ≤ (env.macroNow w).1
  now_le_clock : ∀ w, (env.macroNow w).1 ≤ clock (env.macroNow w).2
  startRequest : ∀ key high w, clock w ≤ clock (env.rateManagerStartRequest key high w).2
  onPrepare : ∀ r w, clock w ≤ clock (env.onPrepare r w).2
  curlEasyInit : ∀ w, clock w ≤ clock (env.curlEasyInit w).2

namespace Loop

variable {s t u : Loop ω} {r b : ReqId} {m : MapId} {env : Env ω} {root : List ReqId} {x : Refusal}
  {y : Option Refusal} {due time : ℕ} {clock : ω → ℕ} {strict : Prop}
  {v v' : View} {C : List ReqId}

/-- The refusal of a request at one of the two places, if it is refused there. -/
def refuses (env : Env ω) (g : Gate) (s : Loop ω) (r : ReqId) : Option Refusal :=
  match (s.req r).rateLimit with
  | none => none
  | some key =>
    let (wait, s) := s.ask (env.admits g key (s.req r).rateLimitHighPriority)
    if wait = 0 then none else some ⟨g, wait, s.now env⟩

/-- The loop after `request_is_rate_limited` asked about a request that is not refused. -/
def checked (env : Env ω) (s : Loop ω) (r : ReqId) : Loop ω :=
  match (s.req r).rateLimit with
  | none => s
  | some key => (s.ask (env.rateManagerCanProceed key (s.req r).rateLimitHighPriority)).2

/-- The refusal with which the turn of a request ends that is in one of the maps, if it is refused. -/
def throttledBy (env : Env ω) (s : Loop ω) (r : ReqId) : Option Refusal :=
  match s.refuses env .check r with
  | some x => some x
  | none =>
    let (ready, s) := (s.checked env r).requestReady env r
    if ready then s.refuses env .start r else none

/-- The refusal with which the turn of a pending request ends. -/
def pendingThrottledBy (env : Env ω) (s : Loop ω) (r : ReqId) : Option Refusal :=
  let s := (s.modifyReq r fun q => q.setPending false).setNextPending r none
  if (s.req r).isCancelled then none
  else
    let (waiting, s) := (s.retainDepsOnce r).requestWaitingOnDependencies r
    if waiting then none
    else
      let (ready, s) := s.requestReady env r
      if ready then s.refuses env .start r else none

/-- The request is in `rate_limited_requests`, and due at a time. -/
structure Parked (r : ReqId) (due : ℕ) (s : Loop ω) : Prop where
  mem : r ∈ s.maps .rateLimited
  due : (s.req r).nextRetryAt = due

/-- The requests the first part of the pass over the maps asks about: those it comes to that are due,
each with the loop at that moment. -/
def dueAsked (env : Env ω) (s : Loop ω) : List (ReqId × Loop ω) :=
  ((OrderedMap.visits (fun p : List ReqId × Loop ω => p.1.head?) (rateLimitedRound env (s.now env))
    (s.maps .rateLimited).length
    (s.maps .rateLimited, ((s.setMap .rateLimited []).ask env.macroNow).2)).map
      fun x => (x.1, x.2.2.follow x.1)).filter
    fun x => decide ((x.2.req x.1).nextRetryAt ≤ s.now env)

/-- The requests the second or third part asks about. -/
def waitingAsked (env : Env ω) (m : MapId) (s : Loop ω) : List (ReqId × Loop ω) :=
  (OrderedMap.visits (fun t : Loop ω => (t.maps m).head?) (waitingRound env m) (s.maps m).length s).map
    fun x => (x.1, x.2.follow x.1)

/-- The requests `move_inactive_requests_to_queue` asks about. -/
def asked (env : Env ω) (s : Loop ω) : List (ReqId × Loop ω) :=
  s.dueAsked env ++ ((s.moveRateLimited env).waitingAsked env .refresh ++
    ((s.moveRateLimited env).moveWaiting env .refresh).waitingAsked env .inactive)

/-- The pending requests `process_cancelled_and_pending_requests` comes to. -/
def pendingAsked (env : Env ω) (s : Loop ω) : List (ReqId × Loop ω) :=
  let t := s.detachCancelled.detachPending.forEachCancelled s.cancelledRequests cancelledRound
  (Intrusive.visits (fun (t : Loop ω) r => t.nextPending r) (fun r t => pendingRound env r (t.follow r))
    t.accepted.length s.pendingRequests t).map fun x => (x.1, x.2.follow x.1)

/-- If the request was started, it was due. -/
def Launched (r : ReqId) (s t : Loop ω) : Prop :=
  t.story r = s.story r ∨
    t.story r = .started r :: s.story r ∧ (s.req r).nextRetryAt ≤ (t.req r).requestStartTime

/-- What a turn brings that begins in `s` and ends with a refusal or none. -/
structure Turned (env : Env ω) (r : ReqId) (y : Option Refusal) (s t : Loop ω) : Prop where
  parked : ∀ x ∈ y, Parked r x.due t
  launched : ∀ clock, env.ClockRuns clock → Launched r s t

/-- What a pass does to a request: it does not ask about it and passes it by, or asks once, and the
turn decides. -/
inductive Serves (env : Env ω) (r : ReqId) (refusal : Loop ω → Option Refusal)
    (sites : List (ReqId × Loop ω)) (s t : Loop ω) : Prop
  | passed : (∀ u, (r, u) ∉ sites) → PassesBy r s t → Serves env r refusal sites s t
  | served (u : Loop ω) : (r, u) ∈ sites → (∀ u', (r, u') ∈ sites → u' = u) → u.req r = s.req r →
    u.story r = s.story r → Turned env r (refusal u) u t → Serves env r refusal sites s t

theorem Parked.passesBy (h : Parked r due s) (ht : PassesBy r s t) : Parked r due t :=
  ⟨(ht.maps .rateLimited).mpr h.mem, ht.req ▸ h.due⟩

theorem Launched.passesBy (h : Launched r s t) (hu : PassesBy r t u) : Launched r s u := by
  rw [Launched]
  rw [hu.story, hu.req]
  exact h

theorem Turned.passesBy (h : Turned env r y s t) (hu : PassesBy r t u) : Turned env r y s u :=
  ⟨fun x hx => (h.parked x hx).passesBy hu, fun clock hc => (h.launched clock hc).passesBy hu⟩

/-- A turn may be told from an earlier state on. -/
theorem Turned.after (h : Turned env r y t u) (hstory : t.story r = s.story r)
    (hdue : (t.req r).nextRetryAt = (s.req r).nextRetryAt) : Turned env r y s u := by
  refine ⟨h.parked, fun clock hc => ?_⟩
  have hlaunched := h.launched clock hc
  rwa [Launched, hstory, hdue] at hlaunched

/-- The request is left where it is. -/
theorem turned_none (hstory : t.story r = s.story r) : Turned env r none s t :=
  ⟨nofun, fun _ _ => .inl hstory⟩

/-! ### The end of a turn -/

theorem mem_parkRateLimited (s : Loop ω) (r : ReqId) (due : ℕ) :
    Parked r due (s.parkRateLimited r due) := by
  refine ⟨mem_maps_insertMap _ .rateLimited r, ?_⟩
  have hreq : (s.parkRateLimited r due).req r = (s.req r).dueAt due := Function.update_self ..
  rw [hreq]
  rfl

theorem requestIsRateLimited_of_refuses (h : s.refuses env .check r = some x) (root : List ReqId) :
    ∃ w, s.requestIsRateLimited env root r =
      (true, root.erase r, ({ s with world := w } : Loop ω).parkRateLimited r x.due) := by
  rw [refuses] at h
  rw [requestIsRateLimited]
  dsimp only
  cases hkey : (s.req r).rateLimit with
  | none =>
    rw [hkey] at h
    exact absurd h (Option.some_ne_none x).symm
  | some key =>
    rw [hkey] at h
    dsimp only at h ⊢
    split at h
    · exact absurd h (Option.some_ne_none x).symm
    · rename_i hwait
      obtain rfl := Option.some.inj h
      exact ⟨_, if_neg hwait⟩

theorem requestIsRateLimited_of_none (h : s.refuses env .check r = none) (root : List ReqId) :
    s.requestIsRateLimited env root r = (false, root, s.checked env r) := by
  rw [refuses] at h
  rw [requestIsRateLimited, checked]
  dsimp only
  cases hkey : (s.req r).rateLimit with
  | none => rfl
  | some key =>
    rw [hkey] at h
    dsimp only at h ⊢
    split at h
    · rename_i hwait
      exact if_pos hwait
    · exact absurd h (Option.some_ne_none _)

theorem checked_eq (env : Env ω) (s : Loop ω) (r : ReqId) :
    ∃ w, s.checked env r = { s with world := w } := by
  rw [checked]
  split
  · exact ⟨s.world, rfl⟩
  · exact ⟨_, rfl⟩

/-- Whoever is ready was found due. -/
theorem due_of_requestReady (hc : env.ClockRuns clock) (h : (s.requestReady env r).1 = true) :
    (s.req r).nextRetryAt ≤ clock (s.requestReady env r).2.world := by
  have htest : ∀ (due : ℕ) (deps : List ResId) (p : ℕ × Loop ω),
      let q : Bool × Loop ω := if p.1 > 0 then (false, p.2)
        else if p.2.resources.curlResourceAllReadyList deps = false then (false, p.2)
        else (decide ((p.2.ask env.macroNow).1 ≥ due), (p.2.ask env.macroNow).2)
      q.1 = true → due ≤ clock q.2.world := by
    intro due deps p q hq
    dsimp only [q] at hq ⊢
    split at hq
    · exact absurd hq Bool.false_ne_true
    · rename_i hwait
      rw [if_neg hwait]
      split at hq
      · exact absurd hq Bool.false_ne_true
      · rename_i hdeps
        rw [if_neg hdeps]
        exact le_trans (of_decide_eq_true hq) (hc.now_le_clock p.2.world)
  rw [requestReady] at h ⊢
  dsimp only at h ⊢
  split at h
  · exact absurd h Bool.false_ne_true
  · rename_i hslot
    rw [if_neg hslot]
    exact htest _ _ _ h

theorem clock_setupCurlHandle (hc : env.ClockRuns clock) (s : Loop ω) (r : ReqId) :
    clock s.world ≤ clock (s.setupCurlHandle env r).2.world := by
  have halloc : ∀ t : Loop ω, clock t.world ≤ clock (if (t.ask env.curlEasyInit).1 then
      (true, (t.ask env.curlEasyInit).2.newHandle r) else (false, (t.ask env.curlEasyInit).2)).2.world := by
    intro t
    split <;> exact hc.curlEasyInit t.world
  rw [setupCurlHandle]
  dsimp only
  split
  · have hprepared := hc.onPrepare r s.world
    split
    · exact hprepared.trans (halloc ((s.modifyReq r Request.reset).ask (env.onPrepare r)).2)
    · exact hprepared
  · exact halloc (s.modifyReq r Request.reset)

/-- The request is set up, and started if that succeeds. -/
theorem launched_setup (hc : env.ClockRuns clock) (hdue : (s.req r).nextRetryAt ≤ clock s.world) :
    Launched r s (if (s.setupCurlHandle env r).1 then (s.setupCurlHandle env r).2.activate env r
      else (s.setupCurlHandle env r).2.curlEventRequestDestroy r) := by
  have hclock := clock_setupCurlHandle hc s r
  have hstory : (s.setupCurlHandle env r).2.story r = s.story r := by
    obtain ⟨w, hfail | hok⟩ := setupCurlHandle_eq env s r
    · rw [hfail]
      rfl
    · rw [hok]
      rfl
  generalize s.setupCurlHandle env r = p at hclock hstory ⊢
  split
  · refine .inr ⟨(story_activate env p.2 r).trans (congrArg _ hstory), ?_⟩
    have hreq : (p.2.activate env r).req r = (p.2.req r).activated (env.macroNow p.2.world).1 :=
      Function.update_self ..
    rw [hreq]
    exact (hdue.trans hclock).trans (hc.clock_le_now p.2.world)
  · exact .inl hstory

/-- **The end of a turn** in which the request is ready. -/
theorem turned_start (hdue : ∀ clock, env.ClockRuns clock → (s.req r).nextRetryAt ≤ clock s.world) :
    Turned env r (s.refuses env .start r) s (s.curlEventLoopRequestStart env r) := by
  rw [refuses, start_eq, admission]
  cases hkey : (s.req r).rateLimit with
  | none => exact ⟨fun x hx => absurd hx (Option.not_mem_none x), fun clock hc => launched_setup hc (hdue clock hc)⟩
  | some key =>
    dsimp only [Env.admits]
    split
    · rename_i hwait
      rw [if_neg (not_not.mpr hwait)]
      refine ⟨fun x hx => absurd hx (Option.not_mem_none x), fun clock hc => ?_⟩
      exact launched_setup
        (s := (s.ask (env.rateManagerStartRequest key (s.req r).rateLimitHighPriority)).2) hc
        ((hdue clock hc).trans (hc.startRequest key _ s.world))
    · rename_i hwait
      refine ⟨fun x hx => ?_, fun _ _ => .inl rfl⟩
      obtain rfl := Option.some.inj hx
      exact mem_parkRateLimited _ r _

/-! ### The turns of a pass -/

theorem turned_pendingRound (env : Env ω) (s : Loop ω) (r : ReqId) :
    Turned env r (s.pendingThrottledBy env r) s (s.pendingRound env r) := by
  have hunmark : ((s.modifyReq r fun q => q.setPending false).setNextPending r none).req r =
      (s.req r).setPending false := Function.update_self ..
  have hdue : (((s.modifyReq r fun q => q.setPending false).setNextPending r none).req r).nextRetryAt =
      (s.req r).nextRetryAt := by
    rw [hunmark]
    rfl
  have hstory : ((s.modifyReq r fun q => q.setPending false).setNextPending r none).story r =
      s.story r := rfl
  rw [pendingThrottledBy, pendingRound]
  generalize (s.modifyReq r fun q => q.setPending false).setNextPending r none = t at hdue hstory ⊢
  dsimp only
  split
  · exact turned_none hstory
  · have hretain : ((t.retainDepsOnce r).req r).nextRetryAt = (t.req r).nextRetryAt ∧
        (t.retainDepsOnce r).story r = t.story r := by
      rw [retainDepsOnce]
      split
      · refine ⟨?_, rfl⟩
        change (update t.req r ((t.req r).setRetained true) r).nextRetryAt = _
        rw [Function.update_self]
        rfl
      · exact ⟨rfl, rfl⟩
    have hblock := passesBy_checkAndBlockList (r := r) r ((t.retainDepsOnce r).req r).depHead
      (t.retainDepsOnce r)
    rw [schedulePending, requestWaitingOnDependencies]
    generalize (t.retainDepsOnce r).curlResourceCheckAndBlockList r
      ((t.retainDepsOnce r).req r).depHead = p at hblock ⊢
    have hstory' : p.2.story r = s.story r := (hblock.story.trans hretain.2).trans hstory
    have hdue' : (p.2.req r).nextRetryAt = (s.req r).nextRetryAt := by
      rw [hblock.req, hretain.1, hdue]
    dsimp only
    split
    · exact turned_none hstory'
    · have hclock := fun clock (hc : env.ClockRuns clock) => due_of_requestReady (s := p.2) (r := r) hc
      obtain ⟨w, hw⟩ := requestReady_eq env p.2 r
      rw [hw] at hclock ⊢
      split
      · rename_i hready
        exact (turned_start fun clock hc => hclock clock hc hready).after hstory' hdue'
      · exact turned_none hstory'

/-- The request is refused at the first place. -/
theorem turned_refused (hx : s.refuses env .check r = some x) (hparked : Parked r x.due t)
    (hstory : t.story r = s.story r) : Turned env r (s.throttledBy env r) s t := by
  rw [throttledBy, hx]
  refine ⟨fun y hy => ?_, fun _ _ => .inl hstory⟩
  obtain rfl := Option.some.inj hy
  exact hparked

theorem refuses_congr (hreq : t.req = s.req) (hw : t.world = s.world) (g : Gate) :
    t.refuses env g r = s.refuses env g r := by
  rw [refuses, refuses, hreq]
  cases (s.req r).rateLimit with
  | none => rfl
  | some key =>
    dsimp only [ask, now]
    rw [hw]

theorem ready_eq (env : Env ω) (s : Loop ω) (r : ReqId) :
    ∃ w, ((s.checked env r).requestReady env r).2 = { s with world := w } := by
  obtain ⟨w, hw⟩ := checked_eq env s r
  obtain ⟨w', hw'⟩ := requestReady_eq env (s.checked env r) r
  rw [hw', hw]
  exact ⟨w', rfl⟩

/-- It is not refused there and found ready. -/
theorem turned_ready (hnone : s.refuses env .check r = none)
    (hready : ((s.checked env r).requestReady env r).1 = true) (hreq : t.req = s.req)
    (htrace : t.trace = s.trace) (hw : t.world = ((s.checked env r).requestReady env r).2.world) :
    Turned env r (s.throttledBy env r) s (t.curlEventLoopRequestStart env r) := by
  have hchecked : (s.checked env r).req = s.req := by
    obtain ⟨w, hw⟩ := checked_eq env s r
    rw [hw]
  have hreq' : ((s.checked env r).requestReady env r).2.req = s.req := by
    obtain ⟨w, hw⟩ := ready_eq env s r
    rw [hw]
  rw [throttledBy, hnone]
  dsimp only
  rw [if_pos hready, ← refuses_congr (hreq.trans hreq'.symm) hw]
  refine (turned_start fun clock hc => ?_).after (congrArg _ htrace) (by rw [hreq])
  have hdue := due_of_requestReady hc hready
  rwa [hreq, hw, ← hchecked]

/-- It is not refused there and not found ready. -/
theorem turned_unready (hnone : s.refuses env .check r = none)
    (hready : ((s.checked env r).requestReady env r).1 ≠ true) (hstory : t.story r = s.story r) :
    Turned env r (s.throttledBy env r) s t := by
  rw [throttledBy, hnone]
  dsimp only
  rw [if_neg hready]
  exact turned_none hstory

theorem turned_rateLimitedRound {q : List ReqId × Loop ω} (hdue : ¬ time < (s.req r).nextRetryAt)
    (hq : rateLimitedRound env time r (root, s) = .done q ∨
      rateLimitedRound env time r (root, s) = .yield q) :
    Turned env r ((s.follow r).throttledBy env r) (s.follow r) q.2 := by
  have hfollow : ¬ time < ((s.follow r).req r).nextRetryAt := by
    rwa [(passesBy_follow s r).req]
  rw [rateLimitedRound] at hq
  dsimp only at hq
  generalize s.follow r = u at hfollow hq ⊢
  rw [if_neg hfollow] at hq
  cases hx : u.refuses env .check r with
  | some x =>
    obtain ⟨w, hw⟩ := requestIsRateLimited_of_refuses hx root
    obtain rfl : q = _ := by simpa [hw, eq_comm] using hq
    exact turned_refused hx (mem_parkRateLimited _ r x.due) rfl
  | none =>
    rw [requestIsRateLimited_of_none hx] at hq
    dsimp only at hq
    rw [if_neg (by simp)] at hq
    obtain ⟨w, hw⟩ := ready_eq env u r
    split at hq
    · rename_i hready
      obtain rfl : q = _ := by
        simpa only [reduceCtorEq, false_or, ForInStep.yield.injEq, eq_comm] using hq
      exact turned_ready hx hready (by rw [hw]) (by rw [hw]) rfl
    · rename_i hready
      obtain rfl : q = _ := by
        simpa only [reduceCtorEq, or_false, ForInStep.done.injEq, eq_comm] using hq
      exact turned_unready hx hready (by rw [hw]; rfl)

theorem turned_waitingRound (hm : m ≠ .rateLimited)
    (ht : waitingRound env m r s = .done t ∨ waitingRound env m r s = .yield t) :
    Turned env r ((s.follow r).throttledBy env r) (s.follow r) t := by
  rw [waitingRound] at ht
  dsimp only at ht
  generalize s.follow r = u at ht ⊢
  cases hx : u.refuses env .check r with
  | some x =>
    obtain ⟨w, hw⟩ := requestIsRateLimited_of_refuses hx (u.maps m)
    obtain rfl : t = _ := by simpa [hw, eq_comm] using ht
    have hparked := mem_parkRateLimited { u with world := w } r x.due
    refine turned_refused hx ⟨?_, hparked.due⟩ rfl
    change r ∈ update (({ u with world := w } : Loop ω).parkRateLimited r x.due).maps m _ .rateLimited
    rw [Function.update_of_ne hm.symm]
    exact hparked.mem
  | none =>
    obtain ⟨w, hw⟩ := ready_eq env u r
    obtain ⟨w', hw'⟩ := checked_eq env u r
    have hsame : (u.checked env r).setMap m (u.maps m) = u.checked env r := by
      rw [hw']
      exact setMap_self { u with world := w' } m
    rw [requestIsRateLimited_of_none hx] at ht
    dsimp only at ht
    rw [if_neg (by simp), hsame] at ht
    split at ht
    · rename_i hready
      obtain rfl : t = _ := by
        simpa only [reduceCtorEq, false_or, ForInStep.yield.injEq, eq_comm] using ht
      refine turned_ready hx hready ?_ ?_ rfl
      · exact (congrArg Loop.req hw :)
      · exact (congrArg Loop.trace hw :)
    · rename_i hready
      obtain rfl : t = _ := by
        simpa only [reduceCtorEq, or_false, ForInStep.done.injEq, eq_comm] using ht
      exact turned_unready hx hready (by rw [hw]; rfl)

/-! ### The passes -/

theorem Serves.then {refusal : Loop ω → Option Refusal} {sites sites' : List (ReqId × Loop ω)}
    (h : Serves env r refusal sites s t) (hnone : ∀ u, (r, u) ∉ sites') (hu : PassesBy r t u) :
    Serves env r refusal (sites ++ sites') s u := by
  have hmem : ∀ w, (r, w) ∈ sites ++ sites' ↔ (r, w) ∈ sites := fun w => by
    rw [List.mem_append, or_iff_left (hnone w)]
  cases h with
  | passed hno ht => exact .passed (fun w => (hmem w).not.mpr (hno w)) (ht.trans hu)
  | served w hw honce hreq hstory ht =>
    exact .served w ((hmem w).mpr hw) (fun w' hw' => honce w' ((hmem w').mp hw')) hreq hstory
      (ht.passesBy hu)

theorem Serves.after {refusal : Loop ω → Option Refusal} {sites sites' : List (ReqId × Loop ω)}
    (h : Serves env r refusal sites' t u) (hnone : ∀ u, (r, u) ∉ sites) (ht : PassesBy r s t) :
    Serves env r refusal (sites ++ sites') s u := by
  have hmem : ∀ w, (r, w) ∈ sites ++ sites' ↔ (r, w) ∈ sites' := fun w => by
    rw [List.mem_append, or_iff_right (hnone w)]
  cases h with
  | passed hno hu => exact .passed (fun w => (hmem w).not.mpr (hno w)) (ht.trans hu)
  | served w hw honce hreq hstory hu =>
    exact .served w ((hmem w).mpr hw) (fun w' hw' => honce w' ((hmem w').mp hw'))
      (hreq.trans ht.req) (hstory.trans ht.story) hu

/-- The start of a request touches the active map and the rate-limited one. -/
theorem maps_start (env : Env ω) (s : Loop ω) (r : ReqId) (hq : m ≠ .queued)
    (hm : m ≠ .rateLimited) :
    (s.curlEventLoopRequestStart env r).maps m = s.maps m := by
  have hout := start_outcome env s r
  generalize s.curlEventLoopRequestStart env r = t at hout ⊢
  cases hout with
  | parked w due => exact Function.update_of_ne hm ..
  | refused w => rfl
  | active w => exact Function.update_of_ne hq ..

theorem maps_rateLimitedRound {p p' : List ReqId × Loop ω} (hq : m ≠ .queued) (hm : m ≠ .rateLimited)
    (hp : rateLimitedRound env time b p = .done p' ∨ rateLimitedRound env time b p = .yield p') :
    p'.2.maps m = p.2.maps m := by
  obtain ⟨root, s⟩ := p
  obtain ⟨w, hw⟩ | ⟨w, due, hw⟩ | ⟨w, hw⟩ := rateLimitedRound_cases env time b root s
  · obtain rfl : p' = _ := by simpa [hw, eq_comm] using hp
    exact congrFun (maps_follow s b) m
  · obtain rfl : p' = _ := by
      simpa only [hw, reduceCtorEq, false_or, ForInStep.yield.injEq, eq_comm] using hp
    exact (Function.update_of_ne hm ..).trans (congrFun (maps_follow s b) m)
  · obtain rfl : p' = _ := by
      simpa only [hw, reduceCtorEq, false_or, ForInStep.yield.injEq, eq_comm] using hp
    exact (maps_start env _ b hq hm).trans (congrFun (maps_follow s b) m)

/-- A round that does not break takes its request out of the detached map. -/
theorem map_rateLimitedRound {p p' : List ReqId × Loop ω}
    (hp : rateLimitedRound env time b p = .yield p') : p'.1 = p.1.erase b := by
  obtain ⟨root, s⟩ := p
  obtain ⟨w, hw⟩ | ⟨w, due, hw⟩ | ⟨w, hw⟩ := rateLimitedRound_cases env time b root s
  · simp [hw] at hp
  · obtain rfl : _ = p' := by simpa only [hw, ForInStep.yield.injEq] using hp
    rfl
  · obtain rfl : _ = p' := by simpa only [hw, ForInStep.yield.injEq] using hp
    rfl

/-- The pass over the rate-limited map leaves the others but the active one alone. -/
theorem maps_moveRateLimited (env : Env ω) (s : Loop ω) (hq : m ≠ .queued) (hm : m ≠ .rateLimited) :
    (s.moveRateLimited env).maps m = s.maps m := by
  have hdrain := OrderedMap.whileFirst_rule (g := fun p : List ReqId × Loop ω => p.1.head?)
    (f := rateLimitedRound env (s.now env)) (P := fun p => p.2.maps m = s.maps m)
    (fun b p p' hp _ h => (maps_rateLimitedRound hq hm (.inl h)).trans hp)
    (fun b p p' hp _ h => (maps_rateLimitedRound hq hm (.inr h)).trans hp)
    (n := (s.maps .rateLimited).length)
    (s := (s.maps .rateLimited, ((s.setMap .rateLimited []).ask env.macroNow).2))
    (Function.update_of_ne hm ..)
  have hmerge := fun n => OrderedMap.whileFirst_rule
    (g := fun p : List ReqId × Loop ω => (p.2.maps .rateLimited).head?) (f := mergeRound)
    (P := fun p => p.2.maps m = s.maps m) (n := n)
    (fun b q q' _ _ hb => by simp [mergeRound] at hb)
    (fun b q q' hq _ hb => by
      obtain rfl := ForInStep.yield.inj hb
      change update (q.2.follow b).maps .rateLimited _ m = _
      rw [Function.update_of_ne hm, maps_follow]
      exact hq) hdrain
  rw [moveRateLimited_eq, putBack]
  exact (Function.update_of_ne hm ..).trans (hmerge _)

/-- What a round over a map of waiting requests leaves of the maps. -/
theorem maps_waitingRound {m' : MapId} (hm : m ≠ .rateLimited) (hq' : m' ≠ .queued)
    (hm' : m' ≠ .rateLimited) (ht : waitingRound env m b s = .yield t) :
    t.maps m' = update s.maps m ((s.maps m).erase b) m' := by
  obtain ⟨w, hw⟩ | ⟨w, due, hw⟩ | ⟨w, hw⟩ := waitingRound_cases env hm b s
  · simp [hw] at ht
  · obtain rfl : _ = t := by simpa only [hw, ForInStep.yield.injEq] using ht
    refine (Function.update_of_ne hm' ..).trans ?_
    change update (s.follow b).maps m (((s.follow b).maps m).erase b) m' = _
    rw [maps_follow]
  · obtain rfl : _ = t := by simpa only [hw, ForInStep.yield.injEq] using ht
    refine (maps_start env _ b hq' hm').trans ?_
    change update (s.follow b).maps m (((s.follow b).maps m).erase b) m' = _
    rw [maps_follow]

theorem maps_moveWaiting {m' : MapId} (env : Env ω) (s : Loop ω) (hm : m ≠ .rateLimited)
    (hq' : m' ≠ .queued) (hm' : m' ≠ .rateLimited) (hne : m' ≠ m) :
    (s.moveWaiting env m).maps m' = s.maps m' :=
  OrderedMap.whileFirst_rule (g := fun t : Loop ω => (t.maps m).head?) (f := waitingRound env m)
    (P := fun t => t.maps m' = s.maps m')
    (fun b t t' ht _ hdone => by
      obtain ⟨w, hw⟩ | ⟨w, due, hw⟩ | ⟨w, hw⟩ := waitingRound_cases env hm b t
      · obtain rfl : _ = t' := by simpa only [hw, ForInStep.done.injEq] using hdone
        exact (congrFun (maps_follow t b) m').trans ht
      · simp [hw] at hdone
      · simp [hw] at hdone)
    (fun b t t' ht _ hyield =>
      (maps_waitingRound hm hq' hm' hyield).trans ((Function.update_of_ne hne ..).trans ht)) rfl

/-- The sites of the first part are rounds of its loop. -/
theorem exists_visit_of_dueAsked (hu : (r, u) ∈ s.dueAsked env) :
    ∃ p, (r, p) ∈ OrderedMap.visits
      (fun p : List ReqId × Loop ω => p.1.head?) (rateLimitedRound env (s.now env))
      (s.maps .rateLimited).length
      (s.maps .rateLimited, ((s.setMap .rateLimited []).ask env.macroNow).2) ∧
      p.2.follow r = u ∧ (u.req r).nextRetryAt ≤ s.now env := by
  obtain ⟨hmem, hdue⟩ := List.mem_filter.mp hu
  obtain ⟨x, hx, heq⟩ := List.mem_map.mp hmem
  obtain ⟨rfl, rfl⟩ := Prod.mk.inj heq
  exact ⟨x.2, hx, rfl, of_decide_eq_true hdue⟩

theorem absent_moveRateLimited (env : Env ω) (hr : r ∉ s.maps .rateLimited) :
    (∀ u, (r, u) ∉ s.dueAsked env) ∧ PassesBy r s (s.moveRateLimited env) := by
  obtain ⟨hnone, hR⟩ := OrderedMap.whileFirst_absent (c := fun p : List ReqId × Loop ω => p.1)
    (f := rateLimitedRound env (s.now env)) (R := fun p q => PassesBy r (attached p) (attached q))
    (a := r) (fun _ => .refl r _) (fun _ _ _ h h' => h.trans h')
    (fun _ _ _ hp => map_rateLimitedRound hp)
    (fun _ _ _ hb hp => (passesBy_rateLimitedRound hb.symm hp).1.attached
      (passesBy_rateLimitedRound hb.symm hp).2)
    (n := (s.maps .rateLimited).length)
    (s := (s.maps .rateLimited, ((s.setMap .rateLimited []).ask env.macroNow).2)) hr
  rw [moveRateLimited_eq]
  refine ⟨fun u hu => ?_, (passesBy_detach env s).trans (hR.trans (passesBy_putBack _))⟩
  obtain ⟨p, hp, -⟩ := exists_visit_of_dueAsked hu
  exact hnone p hp

theorem serves_moveRateLimited (env : Env ω) (hnd : (s.maps .rateLimited).Nodup) :
    Serves env r (fun u => u.throttledBy env r) (s.dueAsked env) s (s.moveRateLimited env) := by
  have hturn := OrderedMap.whileFirst_turn (c := fun p : List ReqId × Loop ω => p.1)
    (f := rateLimitedRound env (s.now env)) (R := fun p q => PassesBy r (attached p) (attached q))
    (a := r) (fun _ => .refl r _) (fun _ _ _ h h' => h.trans h')
    (fun _ _ _ hp => map_rateLimitedRound hp)
    (fun _ _ _ hb hp => (passesBy_rateLimitedRound hb.symm hp).1.attached
      (passesBy_rateLimitedRound hb.symm hp).2)
    (n := (s.maps .rateLimited).length)
    (s := (s.maps .rateLimited, ((s.setMap .rateLimited []).ask env.macroNow).2)) hnd
  rw [moveRateLimited_eq]
  generalize OrderedMap.whileFirst (fun p : List ReqId × Loop ω => p.1.head?)
    (rateLimitedRound env (s.now env)) _ _ = q at hturn ⊢
  obtain ⟨hnone, hR⟩ | ⟨p, q', hp, honce, hbefore, hround, hafter⟩ := hturn
  · refine .passed (fun u hu => ?_) ((passesBy_detach env s).trans (hR.trans (passesBy_putBack q)))
    obtain ⟨p, hp, -⟩ := exists_visit_of_dueAsked hu
    exact hnone p hp
  · have hstart := (passesBy_detach env s).trans hbefore
    have hend := hafter.trans (passesBy_putBack q)
    by_cases hdue : s.now env < (p.2.req r).nextRetryAt
    · -- the request is not due, and the loop breaks
      have hlate : s.now env < ((p.2.follow r).req r).nextRetryAt := by
        rwa [(passesBy_follow p.2 r).req]
      rw [rateLimitedRound, if_pos hlate] at hround
      obtain rfl : q' = _ := by simpa [eq_comm] using hround
      have hpass : PassesBy r (attached p) (attached (p.1, p.2.follow r)) :=
        (passesBy_follow p.2 r).attached .rfl
      refine .passed (fun u hu => ?_) (hstart.trans (hpass.trans hend))
      obtain ⟨p', hp', rfl, hle⟩ := exists_visit_of_dueAsked hu
      rw [honce p' hp'] at hle
      omega
    · have hreq : (p.2.follow r).req r = s.req r := (passesBy_follow p.2 r).req.trans hstart.req
      have hmem : (r, p.2.follow r) ∈ s.dueAsked env := by
        refine List.mem_filter.mpr ⟨List.mem_map_of_mem hp, decide_eq_true ?_⟩
        change ((p.2.follow r).req r).nextRetryAt ≤ _
        rw [(passesBy_follow p.2 r).req]
        exact Nat.le_of_not_lt hdue
      refine .served (p.2.follow r) hmem (fun u hu => ?_) hreq
        ((passesBy_follow p.2 r).story.trans hstart.story) ?_
      · obtain ⟨p', hp', rfl, -⟩ := exists_visit_of_dueAsked hu
        rw [honce p' hp']
      · obtain ⟨root, t⟩ := p
        have hturned := turned_rateLimitedRound hdue hround
        have hback : Turned env r ((t.follow r).throttledBy env r) (t.follow r) (attached q') :=
          ⟨fun x hx => ⟨mem_attached.mpr (.inl (hturned.parked x hx).mem),
            (hturned.parked x hx).due⟩, hturned.launched⟩
        exact hback.passesBy hend

theorem serves_moveWaiting (env : Env ω) (hq : m ≠ .queued) (hm : m ≠ .rateLimited)
    (hnd : (s.maps m).Nodup) :
    Serves env r (fun u => u.throttledBy env r) (s.waitingAsked env m) s (s.moveWaiting env m) := by
  have hturn := OrderedMap.whileFirst_turn (c := fun t : Loop ω => t.maps m)
    (f := waitingRound env m) (R := PassesBy r) (a := r) (fun _ => .refl r _)
    (fun _ _ _ h h' => h.trans h')
    (fun b t t' ht => (maps_waitingRound hm hq hm ht).trans (Function.update_self ..))
    (fun b t t' hb ht => passesBy_waitingRound hm hb.symm ht) (n := (s.maps m).length) hnd
  rw [moveWaiting, waitingAsked]
  obtain ⟨hnone, hR⟩ | ⟨u, t, hu, honce, hbefore, hround, hafter⟩ := hturn
  · refine .passed (fun w hw => ?_) hR
    obtain ⟨x, hx, heq⟩ := List.mem_map.mp hw
    obtain ⟨rfl, rfl⟩ := Prod.mk.inj heq
    exact hnone x.2 hx
  · have hfollow := hbefore.trans (passesBy_follow u r)
    refine .served (u.follow r) (List.mem_map_of_mem hu) (fun w hw => ?_) hfollow.req hfollow.story
      ((turned_waitingRound hm hround).passesBy hafter)
    obtain ⟨x, hx, heq⟩ := List.mem_map.mp hw
    obtain ⟨rfl, rfl⟩ := Prod.mk.inj heq
    rw [honce x.2 hx]

/-- Nobody is asked about who is not in the map. -/
theorem absent_moveWaiting (env : Env ω) (hq : m ≠ .queued) (hm : m ≠ .rateLimited)
    (hr : r ∉ s.maps m) :
    (∀ u, (r, u) ∉ s.waitingAsked env m) ∧ PassesBy r s (s.moveWaiting env m) := by
  obtain ⟨hnone, hR⟩ := OrderedMap.whileFirst_absent (c := fun t : Loop ω => t.maps m)
    (f := waitingRound env m) (R := PassesBy r) (a := r) (fun _ => .refl r _)
    (fun _ _ _ h h' => h.trans h')
    (fun b t t' ht => (maps_waitingRound hm hq hm ht).trans (Function.update_self ..))
    (fun b t t' hb ht => passesBy_waitingRound hm hb.symm ht) (n := (s.maps m).length) hr
  refine ⟨fun u hu => ?_, hR⟩
  obtain ⟨x, hx, heq⟩ := List.mem_map.mp hu
  obtain ⟨rfl, rfl⟩ := Prod.mk.inj heq
  exact hnone x.2 hx

theorem AtRest.nodup_maps (h : s.AtRest strict) (m : MapId) : (s.maps m).Nodup := by
  obtain ⟨v, C, hwf, -⟩ := h
  rw [hwf.located.maps]
  exact hwf.located.placed.nodup _

/-- The third part of the pass finds in its map who was there before. -/
theorem absent_moveInactive (env : Env ω) (hr : r ∉ s.maps .inactive) :
    (∀ u, (r, u) ∉ ((s.moveRateLimited env).moveWaiting env .refresh).waitingAsked env .inactive) ∧
      PassesBy r ((s.moveRateLimited env).moveWaiting env .refresh)
        (s.moveInactiveRequestsToQueue env) := by
  refine absent_moveWaiting env (by decide) (by decide) ?_
  rw [maps_moveWaiting env _ (by decide) (by decide) (by decide) (by decide),
    maps_moveRateLimited env s (by decide) (by decide)]
  exact hr

/-- Whoever is in the rate-limited map is asked about in the first part or not at all. -/
theorem AtRest.absent_waiting (h : s.AtRest strict) (env : Env ω) (hr : r ∈ s.maps .rateLimited) :
    (∀ u, (r, u) ∉ (s.moveRateLimited env).waitingAsked env .refresh ++
        ((s.moveRateLimited env).moveWaiting env .refresh).waitingAsked env .inactive) ∧
      PassesBy r (s.moveRateLimited env) (s.moveInactiveRequestsToQueue env) := by
  obtain ⟨-, -, hother, -⟩ := h.mapped hr
  have hrefresh : r ∉ (s.moveRateLimited env).maps .refresh := by
    rw [maps_moveRateLimited env s (by decide) (by decide)]
    exact hother .refresh (by decide)
  obtain ⟨hnone, hpass⟩ := absent_moveWaiting env (m := .refresh) (by decide) (by decide) hrefresh
  obtain ⟨hnone', hpass'⟩ := absent_moveInactive env (hother .inactive (by decide))
  exact ⟨fun u hu => (List.mem_append.mp hu).elim (hnone u) (hnone' u), hpass.trans hpass'⟩

/-- **The pass over the maps.** -/
theorem AtRest.serves_move (h : s.AtRest strict) (env : Env ω) (r : ReqId) :
    Serves env r (fun u => u.throttledBy env r) (s.asked env) s
      (s.moveInactiveRequestsToQueue env) := by
  by_cases hlimited : r ∈ s.maps .rateLimited
  · obtain ⟨hnone, hpass⟩ := h.absent_waiting env hlimited
    exact (serves_moveRateLimited env (h.nodup_maps .rateLimited)).then hnone hpass
  · obtain ⟨hnone, hpass⟩ := absent_moveRateLimited env hlimited
    refine Serves.after ?_ hnone hpass
    have hrefresh : (s.moveRateLimited env).maps .refresh = s.maps .refresh :=
      maps_moveRateLimited env s (by decide) (by decide)
    by_cases hr : r ∈ s.maps .refresh
    · obtain ⟨-, -, hother, -⟩ := h.mapped hr
      obtain ⟨hnone', hpass'⟩ := absent_moveInactive env (hother .inactive (by decide))
      exact (serves_moveWaiting env (by decide) (by decide) (hrefresh ▸ h.nodup_maps .refresh)).then
        hnone' hpass'
    · obtain ⟨hnone', hpass'⟩ := absent_moveWaiting (s := s.moveRateLimited env) (m := .refresh) env
        (by decide) (by decide) (hrefresh ▸ hr)
      have hinactive : ((s.moveRateLimited env).moveWaiting env .refresh).maps .inactive =
          s.maps .inactive := by
        rw [maps_moveWaiting env _ (by decide) (by decide) (by decide) (by decide)]
        exact maps_moveRateLimited env s (by decide) (by decide)
      exact (serves_moveWaiting env (by decide) (by decide)
        (hinactive ▸ h.nodup_maps .inactive)).after hnone' hpass'

/-- Whoever is parked is not asked about before his time. -/
theorem AtRest.passesBy_move (h : s.AtRest strict) (env : Env ω) (hr : Parked r due s)
    (hearly : s.now env < due) : (∀ u, (r, u) ∉ s.asked env) ∧
      PassesBy r s (s.moveInactiveRequestsToQueue env) := by
  have hserves := h.serves_move env r
  have hunasked : ∀ u, (r, u) ∈ s.asked env → u.req r ≠ s.req r := by
    intro u hu hreq
    rcases List.mem_append.mp hu with hu | hu
    · obtain ⟨-, -, -, hdue⟩ := exists_visit_of_dueAsked hu
      rw [hreq, hr.due] at hdue
      omega
    · exact (h.absent_waiting env hr.mem).1 u hu
  cases hserves with
  | passed hnone hpass => exact ⟨hnone, hpass⟩
  | served u hu _ hreq _ _ => exact absurd hreq (hunasked u hu)

/-- Nothing is told in the walk over the cancelled list, and nobody comes into a map. -/
theorem swept_walkCancelled (s : Loop ω) (head : Option ReqId) :
    (s.forEachCancelled head cancelledRound).trace = s.trace ∧
      ∀ m, (s.forEachCancelled head cancelledRound).maps m ⊆ s.maps m := by
  have hround : ∀ r (t : Loop ω), ((t.follow r).cancelledRound r).trace = t.trace ∧
      ∀ m, ((t.follow r).cancelledRound r).maps m ⊆ t.maps m := by
    refine fun r t => ⟨(trace_cancelledRound _ r).trans (trace_follow t r), fun m b hb => ?_⟩
    rw [maps_cancelledRound, maps_follow] at hb
    rcases eq_or_ne m (cancelledMap ((t.follow r).req r)) with rfl | hm
    · rw [Function.update_self] at hb
      exact List.mem_of_mem_erase hb
    · rwa [Function.update_of_ne hm] at hb
  exact Intrusive.forEach_invariant
    (P := fun t : Loop ω => t.trace = s.trace ∧ ∀ m, t.maps m ⊆ s.maps m)
    (fun r t ht => ⟨(hround r t).1.trans ht.1, fun m => List.Subset.trans ((hround r t).2 m) (ht.2 m)⟩)
    ⟨rfl, fun _ => List.Subset.refl _⟩

/-- Whoever is not on the cancelled list is passed by in the walk over it. -/
theorem WalkCancelled.passesBy {head : Option ReqId}
    (h : WalkCancelled s v C [] (s.forEachCancelled head cancelledRound) v') (hloc : Located s v)
    (hr : r ∉ C) : PassesBy r s (s.forEachCancelled head cancelledRound) := by
  obtain ⟨htrace, hmaps⟩ := swept_walkCancelled s head
  refine ⟨h.reqs r hr, congrArg _ htrace, fun m => ⟨fun hm => hmaps m hm, fun hm => ?_⟩⟩
  rw [hloc.maps] at hm
  rw [h.located.maps]
  exact h.stays _ r hr hm

/-- A pass that meets no hazard finds whoever was cancelled in the map his fields name. -/
theorem AtRest.mapped_cancelled (h : s.AtRest strict)
    (hz : (s.processCancelledAndPendingRequests env).Spared strict) :
    ∀ b ∈ s.cancelledList, s.Mapped b := by
  obtain ⟨v, C, hwf, hv⟩ := h
  rw [hwf.marked.cancelledList_eq]
  exact hwf.mapped_cancelled (hv.detached .pending (.inr (by simp))) hz

/-- The walk over the detached pending list, at its beginning. -/
theorem AtRest.pendingWalk (h : s.AtRest strict)
    (hz : (s.processCancelledAndPendingRequests env).Spared strict) :
    let t := s.detachCancelled.detachPending.forEachCancelled s.cancelledRequests cancelledRound
    (r ∉ s.cancelledList → PassesBy r s t) ∧ t.story r = s.story r ∧
      ∃ v, t.WF v [] ∧ v (.detached .pending) = s.contents .pending ∧
        Intrusive.IsChain t.nextPending s.pendingRequests (s.contents .pending) := by
  have hmapped := h.mapped_cancelled hz
  obtain ⟨v, C, hwf, hv⟩ := h
  have hempty := hv.detached .pending (.inr (by simp))
  obtain ⟨hloc, -⟩ := hwf.detachBoth hempty
  rw [hwf.marked.cancelledList_eq] at hmapped ⊢
  rw [hwf.contents_eq, hwf.marked.chain.head_eq]
  obtain ⟨v₁, hwalk, hlist, hchain⟩ := hwf.sweepCancelled hempty hmapped
  refine ⟨fun hr => ?_, congrArg _ (swept_walkCancelled s.detachCancelled.detachPending _).1, v₁,
    hwalk.wf, hlist, hlist ▸ hchain⟩
  exact (hwalk.passesBy hloc hr).after rfl rfl rfl

/-- Whoever is on the cancelled list is not parked. -/
theorem AtRest.notMem_cancelledList (h : s.AtRest strict)
    (hz : (s.processCancelledAndPendingRequests env).Spared strict) (hr : r ∈ s.maps .rateLimited) :
    r ∉ s.cancelledList := by
  intro hc
  have hmap : r ∈ s.maps (cancelledMap (s.req r)) := h.mapped_cancelled hz r hc
  obtain ⟨-, -, hother, -⟩ := h.mapped hr
  refine hother (cancelledMap (s.req r)) ?_ hmap
  rw [cancelledMap]
  split
  · decide
  · exact waitingMap_ne_rateLimited (s.req r)

/-- **The pass over the lists.** -/
theorem AtRest.serves_pending (h : s.AtRest strict) (env : Env ω) (r : ReqId)
    (hz : (s.processCancelledAndPendingRequests env).Spared strict) :
    (r ∉ s.contents .pending ∧ (∀ u, (r, u) ∉ s.pendingAsked env) ∧
        (s.processCancelledAndPendingRequests env).story r = s.story r ∧
        (r ∉ s.cancelledList → PassesBy r s (s.processCancelledAndPendingRequests env))) ∨
      r ∈ s.contents .pending ∧ Serves env r (fun u => u.pendingThrottledBy env r) (s.pendingAsked env) s
        (s.processCancelledAndPendingRequests env) := by
  have hoff : r ∈ s.contents .pending → r ∉ s.cancelledList := by
    intro hr hc
    have hmap : r ∈ s.maps (cancelledMap (s.req r)) := h.mapped_cancelled hz r hc
    obtain ⟨v, C, hwf, -⟩ := h
    rw [hwf.contents_eq] at hr
    exact hwf.notMem_map hr nofun hmap
  obtain ⟨hpass, hstory, v, hwf, hlist, hchain⟩ := h.pendingWalk (r := r) hz
  rw [Loop.processCancelledAndPendingRequests] at hz ⊢
  rw [pendingAsked]
  generalize s.detachCancelled.detachPending.forEachCancelled s.cancelledRequests cancelledRound = t
    at hpass hstory hwf hchain hz ⊢
  have hturn := Intrusive.forEach_turn (k := fun (t : Loop ω) b => t.nextPending b)
    (f := fun b t => pendingRound env b (t.follow b)) (R := PassesBy r) (b := r)
    (G := fun t : Loop ω => t.Spared strict)
    (P := fun l t => ∃ v C, t.WF v C ∧ v (.detached .pending) = l ∧ True)
    (fun b t ht => ((evolves_pendingRound (q := False) env b _).spared ht).of_suffix
      (hazards_follow t b ▸ List.suffix_rfl))
    (fun b l t ht hz => WF.pending_round (P := fun _ _ => True) (fun b l v C t ht hp _ hz => by
      obtain ⟨v', hwf', hh, _⟩ := ht.walkPending_round hp hz
      exact ⟨v', C, hwf', hh.rest (.inr (by simp)), hh.link_rest ht (.inr (by simp)) hp,
        trivial⟩) ht hz)
    (fun _ => .refl r _) (fun _ _ _ h h' => h.trans h')
    (fun b t hb => (passesBy_follow t b).trans (passesBy_pendingRound env _ hb.symm))
    (hlist ▸ hwf.located.length_le _) (hlist ▸ hwf.located.placed.nodup _) hchain
    ⟨v, [], hwf, hlist, trivial⟩ hz
  have hsites : ∀ {l : List (ReqId × Loop ω)} {u : Loop ω},
      (r, u) ∈ l.map (fun x => (x.1, x.2.follow x.1)) → ∃ u', (r, u') ∈ l ∧ u'.follow r = u := by
    intro l u hu
    obtain ⟨x, hx, heq⟩ := List.mem_map.mp hu
    obtain ⟨rfl, rfl⟩ := Prod.mk.inj heq
    exact ⟨x.2, hx, rfl⟩
  obtain ⟨hmem, hnone, hR⟩ | ⟨hmem, u, hu, honce, hbefore, hafter⟩ := hturn
  · refine .inl ⟨hmem, fun u hu => ?_, hR.story.trans hstory, fun hr => (hpass hr).trans hR⟩
    obtain ⟨u', hu', -⟩ := hsites hu
    exact hnone u' hu'
  · have hfollow := (hpass (hoff hmem)).trans (hbefore.trans (passesBy_follow u r))
    refine .inr ⟨hmem, .served (u.follow r) (List.mem_map_of_mem hu) (fun w hw => ?_) hfollow.req
      hfollow.story ((turned_pendingRound env (u.follow r) r).passesBy hafter)⟩
    obtain ⟨u', hu', rfl⟩ := hsites hw
    rw [honce u' hu']

end Loop

end CurlLoop
