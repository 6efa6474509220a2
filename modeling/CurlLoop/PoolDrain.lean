import CurlLoop.WorkerPool
import Mathlib.Algebra.BigOperators.Fin

/-!
# The worker pool drains

`worker_pool_destroy` stops the queue and joins the workers. It returns once every worker has left,
and a worker leaves when it finds the queue stopping and empty. Tasks may still push others
meanwhile.

How far a stopped pool has to go can be counted: two turns for every item of the queue, in which it
is taken and run, and the turns that each worker has left. A turn of a worker brings the count down
by one and a push brings it up by two, whoever takes the turns and in which order. While the count
is not zero some worker can take a turn, and when it is zero everybody has left and every task has
been executed. So if tasks return and stop pushing, the joins return.

## Main definitions

* `Pool.turnsLeft` — how many turns of workers are left

## Main results

* `Pool.turns_step` — what one turn does to the count
* `Pool.drains_of_stop` — a stopped pool drains
-/

namespace CurlLoop

/-- The turns a worker takes before it leaves, if it finds nothing more to do. -/
def Worker.turnsLeft : Worker → ℕ
  | .running _ => 2
  | .ready | .waiting => 1
  | .exited => 0

/-- The turn is one of a worker. -/
def PoolTurn.worked {n : ℕ} : PoolTurn n → ℕ
  | .pop _ | .finish _ => 1
  | .push _ _ _ | .wake _ | .stop => 0

/-- The turn is a push. -/
def PoolTurn.brought {n : ℕ} : PoolTurn n → ℕ
  | .push _ _ _ => 1
  | .pop _ | .finish _ | .wake _ | .stop => 0

namespace Pool

variable {n : ℕ} {s : Pool n} {w : Fin n} {x : Worker} {items : List ItemId} {item : ItemId}

/-- The turns that the workers have left. -/
def workersLeft (s : Pool n) : ℕ := ∑ w, (s.worker w).turnsLeft

/-- How many turns of workers are left, if nothing more is pushed. -/
def turnsLeft (s : Pool n) : ℕ := 2 * s.items.length + s.workersLeft

/-! ### The workers -/

theorem workersLeft_setWorker (s : Pool n) (w : Fin n) (x : Worker) :
    (s.worker w).turnsLeft + (s.setWorker w x).workersLeft = s.workersLeft + x.turnsLeft := by
  have hrest : ∑ w' ∈ Finset.univ.erase w, ((s.setWorker w x).worker w').turnsLeft =
      ∑ w' ∈ Finset.univ.erase w, (s.worker w').turnsLeft := by
    refine Finset.sum_congr rfl fun w' hw' => ?_
    rw [worker_setWorker_of_ne s (Finset.ne_of_mem_erase hw')]
  have hafter := Finset.add_sum_erase Finset.univ
    (fun w' => ((s.setWorker w x).worker w').turnsLeft) (Finset.mem_univ w)
  have hbefore := Finset.add_sum_erase Finset.univ
    (fun w' => (s.worker w').turnsLeft) (Finset.mem_univ w)
  rw [worker_setWorker_self, hrest] at hafter
  rw [workersLeft, workersLeft]
  omega

/-- Nobody sleeps, so nobody is woken. -/
theorem rouse_eq_self (hasleep : ∀ w, s.worker w ≠ .waiting) (chosen : Fin n → Bool) :
    s.rouse chosen = s := by
  have hworker : (fun w => (s.worker w).rouse (chosen w)) = s.worker := by
    funext w
    cases hw : s.worker w with
    | waiting => exact absurd hw (hasleep w)
    | ready | running | exited => rfl
  rw [rouse, hworker]

theorem workersLeft_eq_zero (h : s.workersLeft = 0) (w : Fin n) : s.worker w = .exited := by
  have hzero : (s.worker w).turnsLeft = 0 :=
    Finset.sum_eq_zero_iff.mp h w (Finset.mem_univ w)
  cases hw : s.worker w with
  | exited => rfl
  | ready | waiting | running => simp [hw, Worker.turnsLeft] at hzero

theorem exists_of_workersLeft (h : s.workersLeft ≠ 0) (hasleep : ∀ w, s.worker w ≠ .waiting) :
    ∃ w, Possible (.pop w) s ∨ Possible (.finish w) s := by
  obtain ⟨w, -, hw⟩ := Finset.exists_ne_zero_of_sum_ne_zero h
  refine ⟨w, ?_⟩
  cases hworker : s.worker w with
  | ready => exact .inl hworker
  | running item =>
    right
    show (s.worker w).busy = true
    rw [hworker]
    rfl
  | waiting => exact absurd hworker (hasleep w)
  | exited =>
    rw [hworker] at hw
    exact absurd rfl hw

/-! ### One turn -/

/-- What is known of a pool that is stopping. -/
structure Stopping (s : Pool n) : Prop where
  vigilant : s.Vigilant
  accounted : ∃ items, s.Accounted items
  stop : s.queue.stop = true

theorem Stopping.asleep (h : s.Stopping) (w : Fin n) : s.worker w ≠ .waiting :=
  h.vigilant.asleep h.stop w

theorem Accounted.turnsLeft_eq (h : s.Accounted items) :
    s.turnsLeft = 2 * items.length + s.workersLeft := by rw [turnsLeft, h.items_eq]

/-- A queue that is stopping goes on stopping. -/
theorem stop_step (a : PoolTurn n) (h : s.queue.stop = true) : (s.step a).queue.stop = true := by
  cases a with
  | push caller item woken => exact (s.queue.stop_push item s.pushed).trans h
  | pop w =>
    rw [step, WorkQueue.pop]
    cases s.queue.head with
    | none =>
      rw [h]
      exact h
    | some item => exact h
  | wake w => exact h
  | finish w =>
    rw [step]
    cases s.worker w <;> exact h
  | stop => rfl

theorem Stopping.step (h : s.Stopping) (hn : 0 < n) {a : PoolTurn n} (ha : Possible a s) :
    (s.step a).Stopping := by
  obtain ⟨items, hitems⟩ := h.accounted
  exact ⟨h.vigilant.step hn ha, hitems.step ha, stop_step a h.stop⟩

/-- A worker takes the first item, or leaves. -/
theorem Accounted.turns_pop (h : s.Accounted items) (hstop : s.queue.stop = true)
    (hw : s.worker w = .ready) : 1 + (s.step (.pop w)).turnsLeft = s.turnsLeft := by
  have hidle : (s.worker w).busy = false := by
    rw [hw]
    rfl
  rw [Pool.step]
  cases items with
  | nil =>
    rw [h.holds.pop_nil, hstop]
    have hleft := workersLeft_setWorker s w .exited
    rw [hw] at hleft
    have hgone := (h.setWorker_idle (x := .exited) hidle rfl).turnsLeft_eq
    rw [h.turnsLeft_eq]
    change 1 + (s.setWorker w .exited).turnsLeft = _
    change 1 + _ = s.workersLeft + 0 at hleft
    omega
  | cons item items =>
    have htaken := (h.take hw).turnsLeft_eq
    have hleft := workersLeft_setWorker (s.take s.queue.pop.2 item) w (.running item)
    rw [h.holds.pop.1] at htaken hleft ⊢
    change (s.worker w).turnsLeft + _ = s.workersLeft + 2 at hleft
    rw [hw] at hleft
    change 1 + _ = _ at hleft
    rw [h.turnsLeft_eq, List.length_cons]
    dsimp only at *
    omega

theorem Accounted.turns_finish (h : s.Accounted items) (hw : s.worker w = .running item) :
    1 + (s.step (.finish w)).turnsLeft = s.turnsLeft := by
  have hdone := (h.finish hw).turnsLeft_eq
  have hleft := workersLeft_setWorker (s.execute item) w .ready
  change (s.worker w).turnsLeft + _ = s.workersLeft + 1 at hleft
  rw [hw] at hleft
  change 2 + _ = _ at hleft
  rw [step_finish hw, h.turnsLeft_eq]
  omega

/-- **One turn.** A turn of a worker brings the count down by one, and a push brings it up by two. -/
theorem Stopping.turns_step (h : s.Stopping) {a : PoolTurn n} (ha : Possible a s) :
    a.worked + (s.step a).turnsLeft = s.turnsLeft + 2 * a.brought := by
  obtain ⟨items, hitems⟩ := h.accounted
  cases a with
  | push caller item woken =>
    have hrouse : (s.enqueue item).rouse (· ∈ woken) = s.enqueue item :=
      rouse_eq_self (s := s.enqueue item) h.asleep _
    have hmore := (hitems.enqueue ha.2.1).turnsLeft_eq
    have hsame : (s.enqueue item).workersLeft = s.workersLeft := rfl
    rw [List.length_append, List.length_singleton, hsame] at hmore
    change 0 + ((s.enqueue item).rouse (· ∈ woken)).turnsLeft = s.turnsLeft + 2
    rw [hrouse, hitems.turnsLeft_eq]
    omega
  | pop w => exact hitems.turns_pop h.stop ha
  | wake w => exact absurd ha (h.asleep w)
  | finish w =>
    obtain ⟨item, hitem⟩ := exists_running_of_busy ha
    exact hitems.turns_finish hitem
  | stop =>
    have hrouse : s.halt.rouse (fun _ => true) = s.halt := rouse_eq_self (s := s.halt) h.asleep _
    have hsame := hitems.halt.turnsLeft_eq
    change 0 + (s.halt.rouse fun _ => true).turnsLeft = s.turnsLeft + 0
    rw [hrouse, hsame, hitems.turnsLeft_eq]
    exact Nat.zero_add _

/-! ### Runs -/

theorem stopping_run (hn : 0 < n) {as : List (PoolTurn n)} (h : Guarded.Allowed step Possible init as)
    (hstop : .stop ∈ as) : (Guarded.run step init as).Stopping := by
  have hsound := h.invariant (P := fun s : Pool n => s.Vigilant ∧ ∃ items, s.Accounted items)
    (fun _ _ hs ha => ⟨hs.1.step hn ha, hs.2.elim fun _ hi => hi.step ha⟩)
    ⟨vigilant_init, [], accounted_init⟩
  refine ⟨hsound.1, hsound.2, ?_⟩
  obtain ⟨before, after, rfl⟩ := List.append_of_mem hstop
  rw [Guarded.run_append]
  have hstays : ∀ (as : List (PoolTurn n)) (s : Pool n), s.queue.stop = true →
      (Guarded.run step s as).queue.stop = true := by
    intro as
    induction as with
    | nil => exact fun s hs => hs
    | cons a as ih => exact fun s hs => ih (s.step a) (stop_step a hs)
  exact hstays after _ rfl

/-- **A stopped pool drains.** In every interleaving, a turn of a worker after the stop brings the
turns that are left down by one, and a push brings them up by two. While some are left a worker can
take one, and when none is left all workers have exited and every task was executed. -/
theorem drains_of_stop (hn : 0 < n) {pre as : List (PoolTurn n)}
    (h : Guarded.Allowed step Possible init (pre ++ as)) (hstop : .stop ∈ pre) :
    let s := Guarded.run step (init : Pool n) pre
    let t := Guarded.run step (init : Pool n) (pre ++ as)
    (as.map PoolTurn.worked).sum + t.turnsLeft =
        s.turnsLeft + 2 * (as.map PoolTurn.brought).sum ∧
      (t.turnsLeft ≠ 0 → ∃ w, Possible (.pop w) t ∨ Possible (.finish w) t) ∧
      (t.turnsLeft = 0 → (∀ w, t.worker w = .exited) ∧ ∀ k < t.pushed, k ∈ t.executed) := by
  intro s t
  obtain ⟨hpre, has⟩ := Guarded.allowed_append.mp h
  have hs : s.Stopping := stopping_run hn hpre hstop
  have ht : t.Stopping := stopping_run hn h (List.mem_append_left as hstop)
  obtain ⟨items, hitems⟩ := ht.accounted
  have hpromise : t.RunsEachOnce := hitems.runsEachOnce ht.vigilant
  have hrun : t = Guarded.run step s as := Guarded.run_append init pre as
  refine ⟨?_, fun hleft => ?_, fun hnone => ?_⟩
  · have hrank := has.rank (P := Stopping) (m := turnsLeft) (c := PoolTurn.worked)
      (g := fun a => 2 * a.brought) (fun a s hs ha => hs.step hn ha)
      (fun a s hs ha => hs.turns_step ha) hs
    rwa [← hrun, List.sum_map_mul_left] at hrank
  · refine exists_of_workersLeft (fun hzero => hleft ?_) ht.asleep
    -- Nobody is awake any more, so there is no work.
    have hempty : t.items = [] := by
      by_contra hne
      obtain ⟨w, hw⟩ := hpromise.awake.1 hne
      rw [workersLeft_eq_zero hzero w] at hw
      exact Bool.false_ne_true hw
    rw [turnsLeft, hempty, hzero]
    rfl
  · have hgone := workersLeft_eq_zero (Nat.eq_zero_of_add_eq_zero_left hnone)
    exact ⟨hgone, hpromise.all hgone⟩

/-- Two workers run two tasks when the pool stops, and one of these pushes a third. Six turns of
workers later everybody has left. -/
theorem drains_of_stop_two :
    let pre : List (PoolTurn 2) := [.push none 7 [], .pop 0, .push none 8 [], .pop 1, .stop]
    let as : List (PoolTurn 2) := [.push (some 0) 9 [], .finish 1, .pop 1, .finish 0, .pop 0,
      .finish 1, .pop 1]
    let s := Guarded.run step (init : Pool 2) pre
    let t := Guarded.run step (init : Pool 2) (pre ++ as)
    s.turnsLeft = 4 ∧ t.turnsLeft = 0 ∧ ((as.map PoolTurn.worked).sum + t.turnsLeft =
        s.turnsLeft + 2 * (as.map PoolTurn.brought).sum ∧
      (t.turnsLeft ≠ 0 → ∃ w, Possible (.pop w) t ∨ Possible (.finish w) t) ∧
      (t.turnsLeft = 0 → (∀ w, t.worker w = .exited) ∧ ∀ k < t.pushed, k ∈ t.executed)) :=
  ⟨by decide +kernel, by decide +kernel, drains_of_stop (by decide) (by decide +kernel)
    (by decide)⟩

end Pool

end CurlLoop
