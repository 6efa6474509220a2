import CurlLoop.Lib.GuardedRun
import CurlLoop.Lib.IntrusiveList
import Mathlib.Data.List.Nodup
import Mathlib.Data.List.Range
import Mathlib.Order.Fin.Basic

/-!
# The worker pool

`worker_pool.c`: a queue of work items under a mutex, and workers that take items from it and run
them.

A section under the mutex is one step. `pthread_cond_wait` gives the mutex back, so the section of
`work_queue_pop` that goes to wait ends there, and the worker that is woken begins another one, in
which it tests its condition again. A signal wakes at least one of the workers that wait, if any,
and perhaps more; a worker may also wake for no reason.

A work item is known by its address, which can be used again when the item was freed. What an item
runs, `func` and `arg`, is represented by the number of the push it came with, so that the tasks of
two pushes are told apart even when they run the same function.

## Main definitions

* `WorkQueue`, `WorkQueue.push`, `WorkQueue.pop` — the sections under the mutex
* `Pool`, `Pool.step` — the queue and its workers
* `Pool.Possible` — which steps can be taken
* `Pool.RunsEachOnce` — what the pool promises

## Main results

* `WorkQueue.Holds.push`, `WorkQueue.Holds.pop` — the queue is first in, first out
* `Pool.runsEachOnce_of_possible`
-/

namespace CurlLoop

open Function (update)
open Intrusive (IsChain)

/-! ### The queue -/

/-- The address of a work item. -/
abbrev ItemId := ℕ

/-- `work_queue_t`, with the memory of its items. -/
structure WorkQueue where
  head : Option ItemId
  tail : Option ItemId
  next : ItemId → Option ItemId
  /-- `func` and `arg`: the number of the push. -/
  work : ItemId → ℕ
  stop : Bool

/-- What the section of `work_queue_pop` ends with. -/
inductive Popped
  /-- In `pthread_cond_wait`. -/
  | blocked
  /-- `NULL`: the queue is stopping. -/
  | stopping
  | item (i : ItemId)
deriving DecidableEq, Repr

namespace WorkQueue

/-- `work_queue_init`. -/
def init : WorkQueue := ⟨none, none, fun _ => none, fun _ => 0, false⟩

/-- `item->func = func; item->arg = arg; item->next = NULL`. -/
def fill (q : WorkQueue) (item : ItemId) (n : ℕ) : WorkQueue :=
  { q with work := update q.work item n, next := update q.next item none }

/-- The section of `worker_pool_push`. -/
def push (q : WorkQueue) (item : ItemId) (n : ℕ) : WorkQueue :=
  let q := q.fill item n
  match q.tail with
  | some last => { q with next := update q.next last (some item), tail := some item }
  | none => { q with head := some item, tail := some item }

/-- The section of `work_queue_pop`. -/
def pop (q : WorkQueue) : Popped × WorkQueue :=
  match q.head with
  | none => (if q.stop then .stopping else .blocked, q)
  | some item =>
    (.item item,
      { q with head := q.next item, tail := if q.next item = none then none else q.tail })

/-- The items of the queue, first to last. -/
structure Holds (q : WorkQueue) (items : List ItemId) : Prop where
  chain : IsChain q.next q.head items
  tail : q.tail = items.getLast?
  nodup : items.Nodup

theorem holds_init : init.Holds [] := ⟨rfl, rfl, List.nodup_nil⟩

variable {q : WorkQueue} {items : List ItemId} {item : ItemId} {n : ℕ}

/-- Items are appended at the tail. -/
theorem Holds.push (h : q.Holds items) (hitem : item ∉ items) :
    (q.push item n).Holds (items ++ [item]) := by
  have hnodup : (items ++ [item]).Nodup := by
    rw [List.nodup_append_comm, List.singleton_append, List.nodup_cons]
    exact ⟨hitem, h.nodup⟩
  cases hlast : items.getLast? with
  | some last =>
    have heq : q.push item n = { q.fill item n with
        next := update (q.fill item n).next last (some item), tail := some item } := by
      rw [WorkQueue.push, show (q.fill item n).tail = some last from h.tail.trans hlast]
    rw [heq]
    exact ⟨h.chain.append h.nodup hlast hitem, List.getLast?_concat.symm, hnodup⟩
  | none =>
    obtain rfl : items = [] := List.getLast?_eq_none_iff.mp hlast
    have heq : q.push item n = { q.fill item n with head := some item, tail := some item } := by
      rw [WorkQueue.push, show (q.fill item n).tail = none from h.tail]
    rw [heq]
    exact ⟨⟨rfl, Function.update_self ..⟩, rfl, hnodup⟩

/-- Only the item that is pushed changes what it runs. -/
theorem work_push (q : WorkQueue) (item : ItemId) (n : ℕ) :
    (q.push item n).work = update q.work item n := by
  rw [push]
  split <;> rfl

theorem stop_push (q : WorkQueue) (item : ItemId) (n : ℕ) : (q.push item n).stop = q.stop := by
  rw [push]
  split <;> rfl

/-- Nothing is taken from an empty queue. -/
theorem Holds.pop_nil (h : q.Holds []) : q.pop = (if q.stop then .stopping else .blocked, q) := by
  rw [WorkQueue.pop, show q.head = none from h.chain]

/-- Items are taken at the head. -/
theorem Holds.pop (h : q.Holds (item :: items)) :
    q.pop = (.item item,
      { q with head := q.next item, tail := if q.next item = none then none else q.tail }) ∧
      q.pop.2.Holds items := by
  have heq : q.pop = (.item item,
      { q with head := q.next item, tail := if q.next item = none then none else q.tail }) := by
    rw [WorkQueue.pop, show q.head = some item from h.chain.1]
  refine ⟨heq, ?_⟩
  rw [heq]
  have hrest : IsChain q.next (q.next item) items := h.chain.2
  refine ⟨hrest, ?_, (List.nodup_cons.mp h.nodup).2⟩
  change (if q.next item = none then none else q.tail) = items.getLast?
  cases items with
  | nil => exact if_pos hrest
  | cons b items =>
    have hnext : q.next item ≠ none := by
      rw [show q.next item = some b from hrest.1]
      exact Option.some_ne_none b
    rw [if_neg hnext, h.tail, List.getLast?_cons_cons]

end WorkQueue

/-! ### The workers -/

/-- Where a worker stands in `worker_thread_main`. -/
inductive Worker
  /-- About to take the mutex in `work_queue_pop`, for the first time or after a wake-up. -/
  | ready
  /-- In `pthread_cond_wait`, and no wake-up is due. -/
  | waiting
  /-- In `item->func(item->arg)`. -/
  | running (item : ItemId)
  | exited
deriving DecidableEq, Repr

namespace Worker

/-- A worker runs a task. -/
def busy : Worker → Bool
  | .running _ => true
  | _ => false

/-- A worker is neither gone nor asleep. -/
def awake : Worker → Bool
  | .ready | .running _ => true
  | .waiting | .exited => false

/-- A worker is woken, if it waits and is chosen. -/
def rouse (chosen : Bool) : Worker → Worker
  | .waiting => if chosen then .ready else .waiting
  | x => x

variable {x y : Worker} {chosen : Bool}

theorem awake_of_busy (h : x.busy = true) : x.awake = true := by
  cases x with
  | running => rfl
  | ready | waiting | exited => exact absurd h Bool.false_ne_true

theorem awake_of_ne (hwaiting : x ≠ .waiting) (hexited : x ≠ .exited) : x.awake = true := by
  cases x with
  | ready | running => rfl
  | waiting => exact absurd rfl hwaiting
  | exited => exact absurd rfl hexited

theorem awake_rouse (h : x.awake = true) : (x.rouse chosen).awake = true := by
  cases x with
  | ready | running => rfl
  | waiting | exited => exact absurd h Bool.false_ne_true

/-- A worker that is woken is ready, and another one stays where it is. -/
theorem rouse_eq_or (x : Worker) (chosen : Bool) :
    x.rouse chosen = .ready ∨ x.rouse chosen = x := by
  cases x <;> cases chosen <;> simp [rouse]

theorem rouse_ne (hy : y ≠ .ready) (h : x ≠ y) : x.rouse chosen ≠ y := by
  rcases rouse_eq_or x chosen with heq | heq <;> rw [heq]
  · exact hy.symm
  · exact h

theorem rouse_eq_running {item : ItemId} : x.rouse chosen = .running item ↔ x = .running item := by
  cases x <;> cases chosen <;> simp [rouse]

end Worker

/-- What can happen next in a pool of `n` workers. -/
inductive PoolTurn (n : ℕ)
  /-- The section of `worker_pool_push`, called by a task or from outside, on the address of the new
  item. The signal wakes the workers of a list. -/
  | push (caller : Option (Fin n)) (item : ItemId) (woken : List (Fin n))
  /-- The section of `work_queue_pop`. -/
  | pop (w : Fin n)
  /-- A worker wakes for no reason. -/
  | wake (w : Fin n)
  /-- The task of a worker returns, and its item is freed. -/
  | finish (w : Fin n)
  /-- The section of `worker_pool_stop`. -/
  | stop
deriving DecidableEq, Repr

/-- The queue and its workers. Recorded are the number of tasks pushed, those taken from the queue,
first to last, and those executed. -/
structure Pool (n : ℕ) where
  queue : WorkQueue
  worker : Fin n → Worker
  pushed : ℕ
  taken : List ℕ
  executed : List ℕ

namespace Pool

variable {n : ℕ}

/-- The pool `worker_pool_init` returns. -/
def init : Pool n := ⟨.init, fun _ => .ready, 0, [], []⟩

/-- Wake some of the workers that wait. -/
def rouse (s : Pool n) (chosen : Fin n → Bool) : Pool n :=
  { s with worker := fun w => (s.worker w).rouse (chosen w) }

/-- A worker goes on somewhere else. -/
def setWorker (s : Pool n) (w : Fin n) (x : Worker) : Pool n :=
  { s with worker := update s.worker w x }

/-- The queue has one more item. -/
def enqueue (s : Pool n) (item : ItemId) : Pool n :=
  { s with queue := s.queue.push item s.pushed, pushed := s.pushed + 1 }

/-- An item has been taken from the queue. -/
def take (s : Pool n) (q : WorkQueue) (item : ItemId) : Pool n :=
  { s with queue := q, taken := s.taken ++ [q.work item] }

/-- The task of an item has returned. -/
def execute (s : Pool n) (item : ItemId) : Pool n :=
  { s with executed := s.executed ++ [s.queue.work item] }

/-- `pool->queue->stop = true`. -/
def halt (s : Pool n) : Pool n := { s with queue := { s.queue with stop := true } }

/-- One turn. -/
def step (a : PoolTurn n) (s : Pool n) : Pool n :=
  match a with
  | .push _ item woken => (s.enqueue item).rouse (· ∈ woken)
  | .pop w =>
    match s.queue.pop with
    | (.blocked, _) => s.setWorker w .waiting
    | (.stopping, _) => s.setWorker w .exited
    | (.item item, q) => (s.take q item).setWorker w (.running item)
  | .wake w => s.setWorker w .ready
  | .finish w =>
    match s.worker w with
    | .running item => (s.execute item).setWorker w .ready
    | _ => s
  | .stop => s.halt.rouse fun _ => true

/-- The items of the queue. Every one was pushed, so their number is fuel enough. -/
def items (s : Pool n) : List ItemId := Intrusive.walk s.queue.next s.pushed s.queue.head

/-- `aml_calloc` returns memory that is not in use. -/
def Unused (s : Pool n) (item : ItemId) : Prop :=
  item ∉ s.items ∧ ∀ w, s.worker w ≠ .running item

instance (s : Pool n) (item : ItemId) : Decidable (s.Unused item) :=
  inferInstanceAs (Decidable (_ ∧ _))

/-- The caller of `worker_pool_push` is a running task, or a thread outside before the pool is
destroyed. -/
def MayPush (s : Pool n) (caller : Option (Fin n)) : Prop :=
  match caller with
  | some w => (s.worker w).busy = true
  | none => s.queue.stop = false

instance (s : Pool n) : ∀ caller, Decidable (s.MayPush caller)
  | some _ => inferInstanceAs (Decidable (_ = _))
  | none => inferInstanceAs (Decidable (_ = _))

/-- The turn can be taken. -/
def Possible (a : PoolTurn n) (s : Pool n) : Prop :=
  match a with
  | .push caller item woken => s.MayPush caller ∧ s.Unused item ∧
      ((∃ w, s.worker w = .waiting) → ∃ w ∈ woken, s.worker w = .waiting)
  | .pop w => s.worker w = .ready
  | .wake w => s.worker w = .waiting
  | .finish w => (s.worker w).busy = true
  | .stop => True

instance (s : Pool n) : ∀ a, Decidable (Possible a s)
  | .push _ _ _ => inferInstanceAs (Decidable (_ ∧ _))
  | .pop _ => inferInstanceAs (Decidable (_ = _))
  | .wake _ => inferInstanceAs (Decidable (_ = _))
  | .finish _ => inferInstanceAs (Decidable (_ = _))
  | .stop => inferInstanceAs (Decidable True)

/-- What the pool promises. -/
structure RunsEachOnce (s : Pool n) : Prop where
  /-- Tasks are taken in push order. -/
  inOrder : s.taken ++ s.items.map s.queue.work = List.range s.pushed
  /-- No task is executed twice, and none that was executed still runs. -/
  once : s.executed.Nodup ∧ ∀ w item, s.worker w = .running item → s.queue.work item ∉ s.executed
  /-- While there is work somebody is awake, and nobody sleeps when the pool stops. -/
  awake : (s.items ≠ [] → ∃ w, (s.worker w).awake = true) ∧ (s.queue.stop = true → ∀ w, s.worker w ≠ .waiting)
  /-- When all workers have exited every task has been executed. -/
  all : (∀ w, s.worker w = .exited) → ∀ k < s.pushed, k ∈ s.executed

/-! ### Somebody is awake -/

variable {s : Pool n} {w w' : Fin n} {x y : Worker} {item : ItemId}

@[simp] theorem worker_setWorker_self (s : Pool n) (w : Fin n) (x : Worker) :
    (s.setWorker w x).worker w = x := Function.update_self ..

theorem worker_setWorker_of_ne (s : Pool n) (h : w' ≠ w) (x : Worker) :
    (s.setWorker w x).worker w' = s.worker w' := Function.update_of_ne h ..

theorem worker_setWorker_ne (hx : x ≠ y) (h : s.worker w' ≠ y) :
    (s.setWorker w x).worker w' ≠ y := by
  by_cases heq : w' = w
  · rw [heq, worker_setWorker_self]
    exact hx
  · rw [worker_setWorker_of_ne s heq]
    exact h

/-- While there is work somebody is awake, nobody sleeps once the pool stops, and nobody leaves
before. -/
structure Vigilant (s : Pool n) : Prop where
  awake : s.queue.head ≠ none → ∃ w, (s.worker w).awake = true
  asleep : s.queue.stop = true → ∀ w, s.worker w ≠ .waiting
  gone : s.queue.stop = false → ∀ w, s.worker w ≠ .exited

theorem vigilant_init : (init : Pool n).Vigilant where
  awake h := absurd rfl h
  asleep h := absurd h Bool.false_ne_true
  gone _ _ := nofun

/-- One worker that goes on awake is enough. -/
theorem Vigilant.setWorker (h : s.Vigilant) (hx : x.awake = true) (w : Fin n) :
    (s.setWorker w x).Vigilant where
  awake _ := ⟨w, by rw [worker_setWorker_self]; exact hx⟩
  asleep hstop w' := worker_setWorker_ne (by rintro rfl; exact Bool.false_ne_true hx)
    (h.asleep hstop w')
  gone hstop w' := worker_setWorker_ne (by rintro rfl; exact Bool.false_ne_true hx)
    (h.gone hstop w')

theorem Vigilant.push (h : s.Vigilant) (hn : 0 < n) {caller : Option (Fin n)}
    {woken : List (Fin n)} (hcaller : s.MayPush caller)
    (hsignal : (∃ w, s.worker w = .waiting) → ∃ w ∈ woken, s.worker w = .waiting) :
    ((s.enqueue item).rouse (· ∈ woken)).Vigilant := by
  have hstop : (s.enqueue item).queue.stop = s.queue.stop := s.queue.stop_push item s.pushed
  refine ⟨fun _ => ?_, fun hq w => ?_, fun hq w => ?_⟩
  · by_cases hwaits : ∃ w, s.worker w = .waiting
    · -- The signal wakes somebody.
      obtain ⟨w, hw, hwaiting⟩ := hsignal hwaits
      refine ⟨w, ?_⟩
      change ((s.worker w).rouse (decide (w ∈ woken))).awake = true
      rw [hwaiting, decide_eq_true hw]
      rfl
    · cases caller with
      | some w => exact ⟨w, Worker.awake_rouse (Worker.awake_of_busy hcaller)⟩
      | none =>
        -- Nobody has left yet, so the first worker is somewhere.
        have hhere : (s.worker ⟨0, hn⟩).awake = true :=
          Worker.awake_of_ne (fun hw => hwaits ⟨_, hw⟩) (h.gone hcaller _)
        exact ⟨⟨0, hn⟩, Worker.awake_rouse hhere⟩
  · exact Worker.rouse_ne nofun (h.asleep (hstop.symm.trans hq) w)
  · exact Worker.rouse_ne nofun (h.gone (hstop.symm.trans hq) w)

theorem Vigilant.stop (h : s.Vigilant) : (s.halt.rouse fun _ => true).Vigilant where
  awake hhead := by
    obtain ⟨w, hw⟩ := h.awake hhead
    exact ⟨w, Worker.awake_rouse hw⟩
  asleep _ w := by
    change (s.worker w).rouse true ≠ .waiting
    cases s.worker w <;> exact nofun
  gone hstop := absurd hstop.symm Bool.false_ne_true

/-- A worker goes to wait or leaves only when the queue is empty, and it leaves only when the pool
stops. -/
theorem Vigilant.pop (h : s.Vigilant) (w : Fin n) : (s.step (.pop w)).Vigilant := by
  rw [step]
  cases hhead : s.queue.head with
  | some item =>
    have hpop : s.queue.pop.1 = .item item := by rw [WorkQueue.pop, hhead]
    have hstop : s.queue.pop.2.stop = s.queue.stop := by rw [WorkQueue.pop, hhead]
    split
    · next q heq => exact absurd (hpop.symm.trans (congrArg Prod.fst heq)) nofun
    · next q heq => exact absurd (hpop.symm.trans (congrArg Prod.fst heq)) nofun
    · next item' q heq =>
      rw [heq] at hstop
      refine ⟨fun _ => ⟨w, by rw [worker_setWorker_self]; rfl⟩, fun hq w' => ?_, fun hq w' => ?_⟩
      · exact worker_setWorker_ne nofun (h.asleep (hstop.symm.trans hq) w')
      · exact worker_setWorker_ne nofun (h.gone (hstop.symm.trans hq) w')
  | none =>
    rw [show s.queue.pop = (if s.queue.stop then .stopping else .blocked, s.queue) by
      rw [WorkQueue.pop, hhead]]
    cases hstop : s.queue.stop with
    | true =>
      refine ⟨fun hne => absurd hhead hne, fun _ w' => ?_, fun hq => ?_⟩
      · exact worker_setWorker_ne nofun (h.asleep hstop w')
      · exact absurd (hstop.symm.trans hq).symm Bool.false_ne_true
    | false =>
      refine ⟨fun hne => absurd hhead hne, fun hq => ?_, fun _ w' => ?_⟩
      · exact absurd (hstop.symm.trans hq) Bool.false_ne_true
      · exact worker_setWorker_ne nofun (h.gone hstop w')

/-- The task of a worker returns, and the worker goes on. -/
theorem step_finish (h : s.worker w = .running item) :
    s.step (.finish w) = (s.execute item).setWorker w .ready := by
  rw [step, h]

theorem exists_running_of_busy (h : (s.worker w).busy = true) :
    ∃ item, s.worker w = .running item := by
  cases hw : s.worker w with
  | running item => exact ⟨item, rfl⟩
  | ready | waiting | exited =>
    rw [hw] at h
    exact absurd h Bool.false_ne_true

theorem Vigilant.step (h : s.Vigilant) (hn : 0 < n) {a : PoolTurn n} (ha : Possible a s) :
    (s.step a).Vigilant := by
  cases a with
  | push caller item woken => exact h.push hn ha.1 ha.2.2
  | pop w => exact h.pop w
  | wake w => exact h.setWorker rfl w
  | finish w =>
    obtain ⟨item, hitem⟩ := exists_running_of_busy ha
    rw [step_finish hitem]
    have hdone : (s.execute item).Vigilant := ⟨h.awake, h.asleep, h.gone⟩
    exact hdone.setWorker rfl w
  | stop => exact h.stop

/-! ### Every task is accounted for -/

/-- Every task pushed is in the queue, running or executed, and in one of these once. -/
structure Accounted (s : Pool n) (items : List ItemId) : Prop where
  holds : s.queue.Holds items
  inOrder : s.taken ++ items.map s.queue.work = List.range s.pushed
  apart : ∀ w item, s.worker w = .running item → item ∉ items
  mem_taken : ∀ k, k ∈ s.taken ↔
    k ∈ s.executed ∨ ∃ w item, s.worker w = .running item ∧ s.queue.work item = k
  nodup : s.executed.Nodup
  running : ∀ w item, s.worker w = .running item → s.queue.work item ∉ s.executed
  alone : ∀ w w' item item', s.worker w = .running item → s.worker w' = .running item' →
    s.queue.work item = s.queue.work item' → w = w'

theorem accounted_init : (init : Pool n).Accounted [] where
  holds := WorkQueue.holds_init
  inOrder := rfl
  apart _ _ := nofun
  mem_taken k := by simp [init]
  nodup := List.nodup_nil
  running _ _ := nofun
  alone _ _ _ _ := nofun

variable {items : List ItemId}

theorem Accounted.items_eq (h : s.Accounted items) : s.items = items := by
  have hlength := congrArg List.length h.inOrder
  rw [List.length_append, List.length_map, List.length_range] at hlength
  exact Intrusive.walk_eq h.holds.chain (by omega)

/-- Who runs what is all that matters of the workers. -/
theorem Accounted.congr (h : s.Accounted items) {worker : Fin n → Worker}
    (hrun : ∀ w item, worker w = .running item ↔ s.worker w = .running item) :
    ({ s with worker := worker } : Pool n).Accounted items where
  holds := h.holds
  inOrder := h.inOrder
  apart w item hw := h.apart w item ((hrun w item).mp hw)
  mem_taken k := by
    rw [h.mem_taken k]
    simp only [hrun]
  nodup := h.nodup
  running w item hw := h.running w item ((hrun w item).mp hw)
  alone w w' item item' hw hw' :=
    h.alone w w' item item' ((hrun w item).mp hw) ((hrun w' item').mp hw')

/-- A worker that runs nothing goes on where it runs nothing. -/
theorem Accounted.setWorker_idle (h : s.Accounted items) (hidle : (s.worker w).busy = false)
    (hx : x.busy = false) : (s.setWorker w x).Accounted items := by
  refine h.congr fun w' item => ?_
  by_cases heq : w' = w
  · subst heq
    rw [Function.update_self]
    constructor <;> intro hrun
    · rw [hrun] at hx
      exact absurd hx.symm Bool.false_ne_true
    · rw [hrun] at hidle
      exact absurd hidle.symm Bool.false_ne_true
  · rw [Function.update_of_ne heq]

theorem Accounted.rouse (h : s.Accounted items) (chosen : Fin n → Bool) :
    (s.rouse chosen).Accounted items :=
  h.congr fun _ _ => Worker.rouse_eq_running

theorem Accounted.halt (h : s.Accounted items) : s.halt.Accounted items :=
  ⟨⟨h.holds.chain, h.holds.tail, h.holds.nodup⟩, h.inOrder, h.apart, h.mem_taken, h.nodup,
    h.running, h.alone⟩

/-- A push brings a new task. -/
theorem Accounted.enqueue (h : s.Accounted items) (hitem : s.Unused item) :
    (s.enqueue item).Accounted (items ++ [item]) := by
  have hnew : item ∉ items := h.items_eq ▸ hitem.1
  have hwork : (s.enqueue item).queue.work = update s.queue.work item s.pushed :=
    s.queue.work_push item s.pushed
  have hrunning : ∀ w i, s.worker w = .running i →
      (s.enqueue item).queue.work i = s.queue.work i := by
    rintro w i hw
    rw [hwork, Function.update_of_ne]
    rintro rfl
    exact hitem.2 w hw
  have hqueued : items.map (s.enqueue item).queue.work = items.map s.queue.work := by
    refine List.map_congr_left fun i hi => ?_
    rw [hwork, Function.update_of_ne (ne_of_mem_of_not_mem hi hnew)]
  refine ⟨h.holds.push hnew, ?_, ?_, fun k => ?_, h.nodup, ?_, ?_⟩
  · rw [List.map_append, hqueued, ← List.append_assoc]
    change s.taken ++ items.map s.queue.work ++ _ = List.range (s.pushed + 1)
    rw [h.inOrder, List.range_succ, List.map_singleton, hwork, Function.update_self]
  · intro w i hw hi
    rcases List.mem_append.mp hi with hi | hi
    · exact h.apart w i hw hi
    · exact hitem.2 w (List.mem_singleton.mp hi ▸ hw)
  · refine (h.mem_taken k).trans (or_congr_right ⟨?_, ?_⟩)
    · rintro ⟨w, i, hw, hk⟩
      exact ⟨w, i, hw, (hrunning w i hw).trans hk⟩
    · rintro ⟨w, i, hw, hk⟩
      exact ⟨w, i, hw, (hrunning w i hw).symm.trans hk⟩
  · intro w i hw
    rw [hrunning w i hw]
    exact h.running w i hw
  · intro w w' i i' hw hw'
    rw [hrunning w i hw, hrunning w' i' hw']
    exact h.alone w w' i i' hw hw'

/-- The first task of the queue is run. -/
theorem Accounted.take (h : s.Accounted (item :: items)) (hw : s.worker w = .ready) :
    ((s.take s.queue.pop.2 item).setWorker w (.running item)).Accounted items := by
  obtain ⟨hpop, hrest⟩ := h.holds.pop
  have hwork : s.queue.pop.2.work = s.queue.work := by rw [hpop]
  have hnodup : (s.taken ++ (item :: items).map s.queue.work).Nodup :=
    h.inOrder ▸ List.nodup_range
  have hnew : s.queue.work item ∉ s.taken := fun hmem =>
    List.disjoint_of_nodup_append hnodup hmem (List.mem_cons_self ..)
  have hrun : ∀ w' i, (update s.worker w (.running item)) w' = .running i →
      w' = w ∧ i = item ∨ w' ≠ w ∧ s.worker w' = .running i := by
    intro w' i hrun
    by_cases heq : w' = w
    · rw [heq, Function.update_self] at hrun
      exact .inl ⟨heq, (Worker.running.inj hrun).symm⟩
    · rw [Function.update_of_ne heq] at hrun
      exact .inr ⟨heq, hrun⟩
  have hother : ∀ w' i, s.worker w' = .running i → w' ≠ w := by
    rintro w' i hw' rfl
    exact absurd (hw.symm.trans hw') nofun
  refine ⟨hrest, ?_, ?_, fun k => ?_, h.nodup, ?_, ?_⟩
  · change s.taken ++ [s.queue.pop.2.work item] ++ items.map s.queue.pop.2.work = _
    rw [hwork, List.append_assoc]
    exact h.inOrder
  · intro w' i hw'
    rcases hrun w' i hw' with ⟨-, rfl⟩ | ⟨-, hw'⟩
    · exact (List.nodup_cons.mp h.holds.nodup).1
    · exact fun hi => h.apart w' i hw' (List.mem_cons_of_mem _ hi)
  · change k ∈ s.taken ++ [s.queue.pop.2.work item] ↔ k ∈ s.executed ∨
      ∃ w' i, (update s.worker w (.running item)) w' = .running i ∧ s.queue.pop.2.work i = k
    rw [hwork, List.mem_append, List.mem_singleton, h.mem_taken k, or_assoc]
    refine or_congr_right ⟨?_, ?_⟩
    · rintro (⟨w', i, hw', hk⟩ | rfl)
      · exact ⟨w', i, by rwa [Function.update_of_ne (hother w' i hw')], hk⟩
      · exact ⟨w, item, Function.update_self .., rfl⟩
    · rintro ⟨w', i, hw', hk⟩
      rcases hrun w' i hw' with ⟨-, rfl⟩ | ⟨-, hw'⟩
      · exact .inr hk.symm
      · exact .inl ⟨w', i, hw', hk⟩
  · intro w' i hw'
    change s.queue.pop.2.work i ∉ s.executed
    rw [hwork]
    rcases hrun w' i hw' with ⟨-, rfl⟩ | ⟨-, hw'⟩
    · exact fun hmem => hnew ((h.mem_taken _).mpr (.inl hmem))
    · exact h.running w' i hw'
  · intro w₁ w₂ i₁ i₂ hw₁ hw₂ heq
    change s.queue.pop.2.work i₁ = s.queue.pop.2.work i₂ at heq
    rw [hwork] at heq
    rcases hrun w₁ i₁ hw₁ with ⟨rfl, rfl⟩ | ⟨-, hold₁⟩ <;>
      rcases hrun w₂ i₂ hw₂ with ⟨rfl, rfl⟩ | ⟨-, hold₂⟩
    · rfl
    · exact absurd ((h.mem_taken _).mpr (.inr ⟨w₂, i₂, hold₂, heq.symm⟩)) hnew
    · exact absurd ((h.mem_taken _).mpr (.inr ⟨w₁, i₁, hold₁, heq⟩)) hnew
    · exact h.alone w₁ w₂ i₁ i₂ hold₁ hold₂ heq

/-- A task that returns has been executed. -/
theorem Accounted.finish (h : s.Accounted items) (hw : s.worker w = .running item) :
    ((s.execute item).setWorker w .ready).Accounted items := by
  have hrun : ∀ w' i, (update s.worker w .ready) w' = .running i →
      w' ≠ w ∧ s.worker w' = .running i := by
    intro w' i hrun
    by_cases heq : w' = w
    · rw [heq, Function.update_self] at hrun
      exact absurd hrun nofun
    · rw [Function.update_of_ne heq] at hrun
      exact ⟨heq, hrun⟩
  have hfresh : s.queue.work item ∉ s.executed := h.running w item hw
  refine ⟨h.holds, h.inOrder, fun w' i hw' => h.apart w' i (hrun w' i hw').2, fun k => ?_, ?_,
    fun w' i hw' => ?_, fun w₁ w₂ i₁ i₂ hw₁ hw₂ => ?_⟩
  · change k ∈ s.taken ↔ k ∈ s.executed ++ [s.queue.work item] ∨
      ∃ w' i, (update s.worker w .ready) w' = .running i ∧ s.queue.work i = k
    rw [h.mem_taken k, List.mem_append, List.mem_singleton, or_assoc]
    refine or_congr_right ⟨?_, ?_⟩
    · rintro ⟨w', i, hw', hk⟩
      by_cases heq : w' = w
      · subst heq
        obtain rfl := Worker.running.inj (hw.symm.trans hw')
        exact .inl hk.symm
      · exact .inr ⟨w', i, by rwa [Function.update_of_ne heq], hk⟩
    · rintro (rfl | ⟨w', i, hw', hk⟩)
      · exact ⟨w, item, hw, rfl⟩
      · exact ⟨w', i, (hrun w' i hw').2, hk⟩
  · change (s.executed ++ [s.queue.work item]).Nodup
    rw [List.nodup_append_comm, List.singleton_append, List.nodup_cons]
    exact ⟨hfresh, h.nodup⟩
  · obtain ⟨hne, hw'⟩ := hrun w' i hw'
    intro hmem
    rcases List.mem_append.mp hmem with hmem | hmem
    · exact h.running w' i hw' hmem
    · exact hne (h.alone w' w i item hw' hw (List.mem_singleton.mp hmem))
  · exact h.alone w₁ w₂ i₁ i₂ (hrun w₁ i₁ hw₁).2 (hrun w₂ i₂ hw₂).2

theorem Accounted.pop (h : s.Accounted items) (hw : s.worker w = .ready) :
    ∃ items', (s.step (.pop w)).Accounted items' := by
  have hidle : (s.worker w).busy = false := by rw [hw]; rfl
  rw [step]
  cases items with
  | nil =>
    refine ⟨[], ?_⟩
    rw [h.holds.pop_nil]
    cases s.queue.stop with
    | true => exact h.setWorker_idle hidle rfl
    | false => exact h.setWorker_idle hidle rfl
  | cons item items =>
    refine ⟨items, ?_⟩
    have htaken := h.take hw
    rw [h.holds.pop.1] at htaken ⊢
    exact htaken

theorem Accounted.step (h : s.Accounted items) {a : PoolTurn n} (ha : Possible a s) :
    ∃ items', (s.step a).Accounted items' := by
  cases a with
  | push caller item woken => exact ⟨_, (h.enqueue ha.2.1).rouse _⟩
  | pop w => exact h.pop ha
  | wake w =>
    have hidle : (s.worker w).busy = false := by rw [show s.worker w = .waiting from ha]; rfl
    exact ⟨items, h.setWorker_idle hidle rfl⟩
  | finish w =>
    obtain ⟨item, hitem⟩ := exists_running_of_busy ha
    rw [step_finish hitem]
    exact ⟨items, h.finish hitem⟩
  | stop => exact ⟨items, h.halt.rouse _⟩

/-! ### What the pool promises -/

theorem Accounted.runsEachOnce (h : s.Accounted items) (hv : s.Vigilant) : s.RunsEachOnce := by
  have hitems : s.items = items := h.items_eq
  refine ⟨?_, ⟨h.nodup, h.running⟩, ⟨fun hne => ?_, hv.asleep⟩, fun hgone k hk => ?_⟩
  · rw [hitems]
    exact h.inOrder
  · exact hv.awake fun hhead => hne (hitems.trans (h.holds.chain.head_eq_none_iff.mp hhead))
  · -- Nobody is left who could be awake, so the queue is empty and every task was taken.
    have hhead : s.queue.head = none := by
      by_contra hhead
      obtain ⟨w, hw⟩ := hv.awake hhead
      rw [hgone w] at hw
      exact Bool.false_ne_true hw
    obtain rfl : items = [] := h.holds.chain.head_eq_none_iff.mp hhead
    have htaken : k ∈ s.taken := by
      have horder := h.inOrder
      rw [List.map_nil, List.append_nil] at horder
      rw [horder]
      exact List.mem_range.mpr hk
    rcases (h.mem_taken k).mp htaken with hdone | ⟨w, item, hw, -⟩
    · exact hdone
    · exact absurd ((hgone w).symm.trans hw) nofun

/-- **Every task is run once.** Of a pool with at least one worker, in every interleaving. -/
theorem runsEachOnce_of_possible (hn : 0 < n) {as : List (PoolTurn n)}
    (h : Guarded.Allowed step Possible init as) : (Guarded.run step init as).RunsEachOnce := by
  have hsound := h.invariant (P := fun s : Pool n => s.Vigilant ∧ ∃ items, s.Accounted items)
    (fun _ _ ⟨hv, _, hs⟩ ha => ⟨hv.step hn ha, hs.step ha⟩) ⟨vigilant_init, [], accounted_init⟩
  obtain ⟨hv, items, hs⟩ := hsound
  exact hs.runsEachOnce hv

/-- Two workers, one of them asleep when two tasks come. The first task pushes a third one while the
pool stops. -/
theorem runsEachOnce_of_two :
    let s := Guarded.run step (init : Pool 2) [.pop 0, .push none 7 [0], .push none 8 [], .pop 0,
      .stop, .push (some 0) 9 [], .finish 0, .pop 1, .pop 0, .finish 1, .finish 0, .pop 0, .pop 1]
    s.pushed = 3 ∧ s.RunsEachOnce :=
  ⟨by decide +kernel, runsEachOnce_of_possible (by decide) (by decide +kernel)⟩

end Pool

end CurlLoop
