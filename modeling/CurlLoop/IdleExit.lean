import CurlLoop.Scheduler

/-!
# When the loop quits

`curl_event_loop_run` returns through its exit test when nothing is running and the pending list and
three of the maps are empty. The test does not look at the rate-limited map, nor at the injected
list, and so it can pass while requests wait there.

The test alone decides whether the containers are empty. That every request is then settled, except
those that wait for a resource, is a matter of the whole run: it holds when the run met no
hazard.

## Main definitions

* `Runner.quits` — the next step leaves `curl_event_loop_run` through the exit test
* `Loop.Drained`, `Loop.Settled` — nothing is left to run; every request came to an end

## Main results

* `Runner.drained_iff_of_quits` — what the exit test guarantees
-/

namespace CurlLoop

variable {ω : Type}

namespace Loop

variable {s : Loop ω} {env : Env ω}

/-- The pending list, the injected list and the four maps are empty. -/
structure Drained (s : Loop ω) : Prop where
  pending : s.pendingRequests = none
  injected : s.injectedRequests = none
  queued : s.maps .queued = []
  inactive : s.maps .inactive = []
  refresh : s.maps .refresh = []
  rateLimited : s.maps .rateLimited = []

/-- Every request handed to the loop was destroyed, unless it waits for a resource that has not been
published. -/
def Settled (s : Loop ω) : Prop :=
  ∀ r ∈ s.accepted, r ∈ s.destroyed ∨ ∃ id, r ∈ s.contents (.blocked id) ∧ s.resources.Awaited id

/-- What the exit test looks at, and what it leaves out. -/
theorem drained_iff_of_idle {n : ℕ} (h : s.idle n = true) :
    s.Drained ↔ s.maps .rateLimited = [] ∧ s.injectedRequests = none := by
  obtain ⟨_, hp, hq, hr, hi⟩ := of_decide_eq_true h
  constructor
  · exact fun hd => ⟨hd.rateLimited, hd.injected⟩
  · rintro ⟨hl, hj⟩
    exact ⟨hp, hj, List.head?_eq_none_iff.mp hq, List.head?_eq_none_iff.mp hi,
      List.head?_eq_none_iff.mp hr, hl⟩

/-- In a resting loop with nothing left to run, a live request can only wait for a resource. -/
theorem Resting.settled (h : s.Resting) (hd : s.Drained) : s.Settled := by
  intro r hr
  by_cases hdead : r ∈ s.destroyed
  · exact .inl hdead
  · obtain ⟨v, C, hwf, hv⟩ := h
    obtain ⟨p, hp⟩ := (hwf.located.placed.live_iff r).mp ⟨hr, hdead⟩
    right
    cases p with
    | blocked id =>
      refine ⟨id, by rwa [hwf.contents_eq], hwf.located.linked.awaited id ?_⟩
      exact List.ne_nil_of_mem hp
    | pending =>
      rw [hwf.located.linked.pending.head_eq_none_iff.mp hd.pending] at hp
      simp at hp
    | injected =>
      rw [hwf.located.linked.injected.head_eq_none_iff.mp hd.injected] at hp
      simp at hp
    | map m =>
      have hnil : s.maps m = [] := by
        cases m with
        | queued => exact hd.queued
        | inactive => exact hd.inactive
        | refresh => exact hd.refresh
        | rateLimited => exact hd.rateLimited
      rw [← hwf.located.maps, hnil] at hp
      simp at hp
    | detached p =>
      rw [hv.detached] at hp
      simp at hp
    | hand =>
      rw [hv.hand] at hp
      simp at hp

end Loop

namespace Runner

variable {s : Runner ω} {env : Env ω}

/-- The loop thread stands before the exit test, and the test passes. -/
def quits (s : Runner ω) : Bool :=
  match s.pc with
  | .exitTest n => s.loop.idle n
  | _ => false

/-- Then, and only then, the next step leaves `curl_event_loop_run` through the test. -/
theorem pc_advance_iff_quits (a : Answer) (hin : s.isOutside = false) :
    (s.advance env a).pc = .outside (some .idle) ↔ s.quits = true := by
  unfold advance quits
  unfold isOutside at hin
  cases hpc : s.pc with
  | outside last => simp [hpc] at hin
  | whileTest => cases s.loop.keepRunning <;> simp
  | onLoop => cases a.onLoop <;> simp
  | apply n ops => cases ops <;> simp
  | exitTest n => cases s.loop.idle n <;> simp
  | _ => simp

/-- The loop of a runner went through a run of actions. -/
theorem exists_run (env : Env ω) (ms : List Move) (s : Runner ω) :
    ∃ as : List Action, (Guarded.run (Runner.move env) s ms).loop =
      Guarded.run (Loop.act env) s.loop as := by
  induction ms generalizing s with
  | nil => exact ⟨[], rfl⟩
  | cons m ms ih =>
    obtain ⟨as, has⟩ := exists_actions env m s
    obtain ⟨bs, hbs⟩ := ih (s.move env m)
    refine ⟨as ++ bs, ?_⟩
    rw [Guarded.run_append, ← has]
    exact hbs

theorem resting_run {ms : List Move} {mem : Memory} {world : ω}
    (hz : (Guarded.run (Runner.move env) (init mem world) ms).loop.hazards = []) :
    (Guarded.run (Runner.move env) (init mem world) ms).loop.Resting := by
  obtain ⟨as, has⟩ := exists_run env ms (init mem world)
  rw [has] at hz ⊢
  exact Loop.resting_run mem world hz

/-- **What the exit test guarantees.** Whenever the loop quits through it, all containers are empty
if and only if the two it does not look at are; and if the run met no hazard, this is also when
every request is settled in addition. -/
theorem drained_iff_of_quits (env : Env ω) (mem : Memory) (world : ω) (ms : List Move) :
    let s := Guarded.run (Runner.move env) (init mem world) ms
    s.quits = true →
      (s.loop.Drained ↔ s.loop.maps .rateLimited = [] ∧ s.loop.injectedRequests = none) ∧
      (s.loop.hazards = [] → (s.loop.Drained ∧ s.loop.Settled ↔
        s.loop.maps .rateLimited = [] ∧ s.loop.injectedRequests = none)) := by
  intro s hq
  have hdrained : s.loop.Drained ↔
      s.loop.maps .rateLimited = [] ∧ s.loop.injectedRequests = none := by
    unfold quits at hq
    split at hq
    · exact Loop.drained_iff_of_idle hq
    · exact absurd hq (by simp)
  refine ⟨hdrained, fun hz => ?_⟩
  rw [← hdrained]
  exact ⟨fun h => h.1, fun h => ⟨h, (resting_run hz).settled h⟩⟩

/-- One request is submitted, started and completed. -/
theorem drained_iff_of_quits_completed :
    let s := Guarded.run (Runner.move Env.uneventful) (init (Memory.plain fun _ => []) ())
      ([.call (.api (.submit 1 0)), .run] ++
        List.replicate 9 (.step ⟨[], true, 0, [⟨0, .ok, 200⟩]⟩))
    (s.loop.Drained ↔ s.loop.maps .rateLimited = [] ∧ s.loop.injectedRequests = none) ∧
      (s.loop.hazards = [] → (s.loop.Drained ∧ s.loop.Settled ↔
        s.loop.maps .rateLimited = [] ∧ s.loop.injectedRequests = none)) :=
  drained_iff_of_quits Env.uneventful (Memory.plain fun _ => []) () _ (by decide +kernel)

/-- A world in which the rate manager puts off every start. -/
def throttling : Env Unit :=
  { Env.uneventful with rateManagerStartRequest := fun _ _ _ => (5, ()) }

/-- Requests under one rate limit. -/
def throttled : Memory where
  req _ := { Request.init with url := some "u", rateLimit := some "k" }
  unsubmitted _ := ⟨rfl, rfl, rfl, rfl, rfl, rfl⟩

/-- Request 1 is throttled when it is started. The loop quits in the same iteration and leaves it in
the rate-limited map. -/
theorem not_drained_throttled :
    let s := Guarded.run (Runner.move throttling) (init throttled ())
      ([.call (.api (.submit 1 0)), .run] ++ List.replicate 9 (.step ⟨[], true, 0, []⟩))
    s.quits = true ∧ s.loop.hazards = [] ∧ s.loop.maps .rateLimited = [1] ∧ ¬ s.loop.Drained := by
  intro s
  have hmap : s.quits = true ∧ s.loop.hazards = [] ∧ s.loop.maps .rateLimited = [1] := by
    decide +kernel
  exact ⟨hmap.1, hmap.2.1, hmap.2.2, fun h => absurd (hmap.2.2.symm.trans h.rateLimited) (by simp)⟩

end Runner

end CurlLoop
