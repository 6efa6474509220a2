import CurlLoop.Lib.IntrusiveList
import CurlLoop.Lib.Placement
import CurlLoop.Lib.GuardedRun

/-!
# A stack many threads push on and one thread takes whole

Any number of threads push on a stack whose head is one atomic word: a thread reads the head, writes
it to the link of its own node, and exchanges the head for the node if the head is still what it
read. If not, or for no reason at all, it starts over. One thread, the reader, exchanges the head for
null, reverses the links of what it got, and then visits the nodes one after the other, freeing each.

Read this way the stack is a queue. The threads only ever push, and the reader takes everything, so
nothing depends on a node that was freed and allocated again while a thread held its address.

## Conventions

`α` is the type of addresses, `τ` that of threads, `ν` that of what a node carries. A step is one
access to the head, or one step of a thread among its own nodes. The steps of the threads interleave
in any order. `alloc` may return any address that is not in use.

The queue is not a part of the machine: it records what was pushed, at the exchange that succeeds.

## Main definitions

* `TreiberStack.State`, `TreiberStack.Act`, `TreiberStack.State.act` — the machine
* `TreiberStack.Queue` — the queue the stack stands for
* `TreiberStack.Inv` — where the nodes are, and that the links spell the queue out

## Main results

* `TreiberStack.Inv.step` — every step keeps the invariant, and the reader comes to an end
* `TreiberStack.Inv.taken_eq_cons` — the reader visits the oldest value it took
* `TreiberStack.Inv.sent` — what a thread pushes is on the stack in the order it began the pushes
* `TreiberStack.Step.left` — a push takes four steps, and two more for every exchange that fails
-/

namespace TreiberStack

open Function (update)
open Intrusive (IsChain)

variable {τ α ν β : Type*}

/-! ### The machine -/

/-- Where a thread stands in a push. -/
inductive Producer (α : Type*)
  | idle
  /-- About to read the head. -/
  | load (node : α)
  /-- About to write the link of its node. -/
  | link (node : α) (old : Option α)
  /-- About to compare the head with what it read, and to exchange it. -/
  | swap (node : α) (old : Option α)
deriving DecidableEq

/-- Where the reader stands. -/
inductive Reader (α : Type*)
  | idle
  /-- In `while (head) { n = head->next; head->next = rev; rev = head; head = n; }`. -/
  | reverse (head rev : Option α)
  /-- At the test of `for (op = rev; op; op = next)`. -/
  | visit (op : Option α)
  /-- In the body of that loop, with the next node read and its own not yet freed. -/
  | body (op : α) (next : Option α)
deriving DecidableEq

/-- What was pushed, in the order of the exchanges. -/
structure Queue (β : Type*) where
  pushed : List β
  /-- Pushed since the reader took the stack. -/
  waiting : List β
  /-- Taken and not visited yet. -/
  taken : List β
  served : List β
deriving DecidableEq

/-- The stack, the memory of its nodes, and the threads. -/
structure State (τ α ν : Type*) where
  next : α → Option α
  cell : α → ν
  /-- The addresses in use. -/
  live : List α
  head : Option α
  producer : τ → Producer α
  reader : Reader α
  queue : Queue (τ × ν)

/-- A step of a thread, or of the reader. -/
inductive Act (τ α ν : Type*)
  /-- A thread allocates a node and fills it. -/
  | alloc (t : τ) (node : α) (x : ν)
  | load (t : τ)
  | link (t : τ)
  /-- The exchange may fail for no reason. -/
  | swap (t : τ) (spurious : Bool)
  /-- The reader exchanges the head for null. -/
  | exchange
  /-- A round of the loop that reverses the links, or its end. -/
  | reverse
  /-- The loop that visits the nodes enters its body, or ends. -/
  | visit
  /-- The node visited is freed. -/
  | free
deriving DecidableEq

namespace Queue

def push (q : Queue β) (b : β) : Queue β :=
  { q with pushed := q.pushed ++ [b], waiting := q.waiting ++ [b] }

def take (q : Queue β) : Queue β := { q with waiting := [], taken := q.taken ++ q.waiting }

def serve (q : Queue β) : Queue β :=
  { q with taken := q.taken.tail, served := q.served ++ q.taken.take 1 }

/-- Nothing is lost, repeated or overtaken. -/
def Fifo (q : Queue β) : Prop := q.served ++ q.taken ++ q.waiting = q.pushed

variable {q : Queue β}

theorem Fifo.push (h : q.Fifo) (b : β) : (q.push b).Fifo := by
  rw [Fifo, Queue.push, ← h, List.append_assoc _ q.waiting]

theorem Fifo.take (h : q.Fifo) : q.take.Fifo := by
  rw [Fifo, Queue.take, List.append_nil, ← List.append_assoc]
  exact h

theorem Fifo.serve (h : q.Fifo) : q.serve.Fifo := by
  rw [Fifo, Queue.serve, List.append_assoc q.served, ← List.drop_one, List.take_append_drop]
  exact h

end Queue

namespace State

variable [DecidableEq τ] [DecidableEq α]

def setProducer (s : State τ α ν) (t : τ) (p : Producer α) : State τ α ν :=
  { s with producer := update s.producer t p }

def alloc (s : State τ α ν) (t : τ) (node : α) (x : ν) : State τ α ν :=
  { s.setProducer t (.load node) with
    next := update s.next node none
    cell := update s.cell node x
    live := node :: s.live }

def load (s : State τ α ν) (t : τ) (node : α) : State τ α ν := s.setProducer t (.link node s.head)

def link (s : State τ α ν) (t : τ) (node : α) (old : Option α) : State τ α ν :=
  { s.setProducer t (.swap node old) with next := update s.next node old }

/-- The exchange succeeds. -/
def push (s : State τ α ν) (t : τ) (node : α) : State τ α ν :=
  { s.setProducer t .idle with
    head := some node
    queue := s.queue.push (t, s.cell node) }

def swap (s : State τ α ν) (t : τ) (node : α) (old : Option α) (spurious : Bool) : State τ α ν :=
  if s.head = old ∧ spurious = false then s.push t node else s.load t node

def exchange (s : State τ α ν) : State τ α ν :=
  { s with head := none, reader := .reverse s.head none, queue := s.queue.take }

def reverse (s : State τ α ν) (rev : Option α) : Option α → State τ α ν
  | some node => { s with
      next := update s.next node rev
      reader := .reverse (s.next node) (some node) }
  | none => { s with reader := .visit rev }

def visit (s : State τ α ν) : Option α → State τ α ν
  | some node => { s with reader := .body node (s.next node), queue := s.queue.serve }
  | none => { s with reader := .idle }

def free (s : State τ α ν) (op : α) (next : Option α) : State τ α ν :=
  { s with live := s.live.filter (· ≠ op), reader := .visit next }

/-- A step, where it is possible. -/
def act (s : State τ α ν) : Act τ α ν → Option (State τ α ν)
  | .alloc t node x =>
    if s.producer t = .idle ∧ node ∉ s.live then some (s.alloc t node x) else none
  | .load t =>
    match s.producer t with
    | .load node => some (s.load t node)
    | _ => none
  | .link t =>
    match s.producer t with
    | .link node old => some (s.link t node old)
    | _ => none
  | .swap t spurious =>
    match s.producer t with
    | .swap node old => some (s.swap t node old spurious)
    | _ => none
  | .exchange => if s.reader = .idle then some s.exchange else none
  | .reverse =>
    match s.reader with
    | .reverse head rev => some (s.reverse rev head)
    | _ => none
  | .visit =>
    match s.reader with
    | .visit op => some (s.visit op)
    | _ => none
  | .free =>
    match s.reader with
    | .body op next => some (s.free op next)
    | _ => none

/-- An empty stack, in any memory. -/
def empty (next : α → Option α) (cell : α → ν) : State τ α ν where
  next := next
  cell := cell
  live := []
  head := none
  producer := fun _ => .idle
  reader := .idle
  queue := ⟨[], [], [], []⟩

end State

/-- **What a step can do.** -/
inductive Step [DecidableEq τ] [DecidableEq α] (s : State τ α ν) :
    Act τ α ν → State τ α ν → Prop
  | alloc {t : τ} {node : α} {x : ν} (hidle : s.producer t = .idle) (hfresh : node ∉ s.live) :
    Step s (.alloc t node x) (s.alloc t node x)
  | load {t : τ} {node : α} (hp : s.producer t = .load node) : Step s (.load t) (s.load t node)
  | link {t : τ} {node : α} {old : Option α} (hp : s.producer t = .link node old) :
    Step s (.link t) (s.link t node old)
  | push {t : τ} {node : α} (hp : s.producer t = .swap node s.head) :
    Step s (.swap t false) (s.push t node)
  | retry {t : τ} {node : α} {old : Option α} {spurious : Bool}
      (hp : s.producer t = .swap node old) (hfail : ¬ (s.head = old ∧ spurious = false)) :
    Step s (.swap t spurious) (s.load t node)
  | exchange (hr : s.reader = .idle) : Step s .exchange s.exchange
  | reverse {head rev : Option α} (hr : s.reader = .reverse head rev) :
    Step s .reverse (s.reverse rev head)
  | visit {op : Option α} (hr : s.reader = .visit op) : Step s .visit (s.visit op)
  | free {op : α} {next : Option α} (hr : s.reader = .body op next) : Step s .free (s.free op next)

theorem step_of_act [DecidableEq τ] [DecidableEq α] {s s' : State τ α ν} {a : Act τ α ν}
    (h : s.act a = some s') : Step s a s' := by
  cases a with
  | alloc t node x =>
    rw [State.act] at h
    split at h
    · next hok =>
      obtain rfl := Option.some.inj h
      exact .alloc hok.1 hok.2
    · exact absurd h (Option.some_ne_none s').symm
  | swap t spurious =>
    rw [State.act] at h
    split at h
    · next hp =>
      obtain rfl := Option.some.inj h
      rw [State.swap]
      split
      · next hswap =>
        obtain ⟨rfl, rfl⟩ := hswap
        exact .push hp
      · next hfail => exact .retry hp hfail
    · exact absurd h (Option.some_ne_none s').symm
  | load t | link t | exchange | reverse | visit | free =>
    rw [State.act] at h
    split at h
    · obtain rfl := Option.some.inj h
      constructor
      assumption
    · exact absurd h (Option.some_ne_none s').symm

/-! ### Where the nodes are -/

/-- A node is on the stack, with a thread that pushes it, or with the reader: on the list it
reverses, on the reversed list, or being visited. -/
inductive Place (τ : Type*)
  | stack
  | producer (t : τ)
  | todo
  | done
  | hand
deriving DecidableEq

/-- The node a thread pushes. -/
def Producer.node : Producer α → Option α
  | .idle => none
  | .load node | .link node _ | .swap node _ => some node

/-- The nodes of a thread. -/
def Producer.Owns (next : α → Option α) : Producer α → List α → Prop
  | .idle, mine => mine = []
  | .load node, mine => mine = [node]
  | .link node _, mine => mine = [node]
  | .swap node old, mine => mine = [node] ∧ next node = old

/-- The nodes of the reader. -/
def Reader.Owns (next : α → Option α) : Reader α → List α → List α → List α → Prop
  | .idle, todo, done, hand => todo = [] ∧ done = [] ∧ hand = []
  | .reverse head rev, todo, done, hand =>
    IsChain next head todo ∧ IsChain next rev done ∧ hand = []
  | .visit op, todo, done, hand => todo = [] ∧ IsChain next op done ∧ hand = []
  | .body op next', todo, done, hand => todo = [] ∧ IsChain next next' done ∧ hand = [op]

theorem Producer.Owns.congr {next next' : α → Option α} {p : Producer α} {mine : List α}
    (h : p.Owns next mine) (heq : ∀ a ∈ mine, next' a = next a) : p.Owns next' mine := by
  cases p with
  | idle | load node | link node old => exact h
  | swap node old =>
    obtain ⟨rfl, hold⟩ := h
    exact ⟨rfl, (heq node (List.mem_singleton_self node)).trans hold⟩

theorem Producer.Owns.eq_node {next : α → Option α} {p : Producer α} {mine : List α}
    (h : p.Owns next mine) : mine = p.node.toList := by
  cases p with
  | idle | load node | link node old => exact h
  | swap node old => exact h.1

theorem Reader.Owns.congr {next next' : α → Option α} {r : Reader α} {todo done hand : List α}
    (h : r.Owns next todo done hand) (htodo : ∀ a ∈ todo, next' a = next a)
    (hdone : ∀ a ∈ done, next' a = next a) : r.Owns next' todo done hand := by
  cases r with
  | idle => exact h
  | reverse head rev => exact ⟨h.1.congr htodo, h.2.1.congr hdone, h.2.2⟩
  | visit op => exact ⟨h.1, h.2.1.congr hdone, h.2.2⟩
  | body op next => exact ⟨h.1, h.2.1.congr hdone, h.2.2⟩

/-- Every node in use is in one place, the links spell the lists out, and the values on them are those
of the queue. -/
structure Inv (s : State τ α ν) (v : Place τ → List α) : Prop where
  placed : Placement.Placed v (· ∈ s.live)
  stack : IsChain s.next s.head (v .stack)
  producer : ∀ t, (s.producer t).Owns s.next (v (.producer t))
  reader : s.reader.Owns s.next (v .todo) (v .done) (v .hand)
  waiting : s.queue.waiting.map Prod.snd = (v .stack).reverse.map s.cell
  taken : s.queue.taken.map Prod.snd = ((v .todo).reverse ++ v .done).map s.cell
  fifo : s.queue.Fifo

theorem inv_empty (next : α → Option α) (cell : α → ν) :
    Inv (State.empty next cell : State τ α ν) fun _ => [] where
  placed := ⟨fun _ => List.nodup_nil, fun ha => absurd ha List.not_mem_nil,
    fun _ => ⟨fun ha => absurd ha List.not_mem_nil, fun ⟨_, ha⟩ => ha⟩⟩
  stack := rfl
  producer _ := rfl
  reader := ⟨rfl, rfl, rfl⟩
  waiting := rfl
  taken := rfl
  fifo := rfl

theorem map_update_of_notMem [DecidableEq α] {cell : α → ν} {a : α} {l : List α} (ha : a ∉ l)
    (x : ν) : l.map (update cell a x) = l.map cell :=
  List.map_congr_left fun _ hb => Function.update_of_ne (ne_of_mem_of_not_mem hb ha) _ _

namespace Inv

variable {s s' : State τ α ν} {v : Place τ → List α} {t : τ} {node : α}

theorem notMem (h : Inv s v) {p q : Place τ} (hp : node ∈ v p) (hpq : p ≠ q) : node ∉ v q :=
  h.placed.notMem_of_ne hp hpq

theorem owns (h : Inv s v) {r : Reader α} (hr : s.reader = r) :
    r.Owns s.next (v .todo) (v .done) (v .hand) := hr ▸ h.reader

theorem owns_producer (h : Inv s v) {p : Producer α} (hp : s.producer t = p) :
    p.Owns s.next (v (.producer t)) := hp ▸ h.producer t

/-- The reader is done when everything was served. -/
theorem taken_eq_nil (h : Inv s v) (htodo : v .todo = []) (hdone : v .done = []) :
    s.queue.taken = [] := by
  have htaken := h.taken
  rw [htodo, hdone] at htaken
  exact List.map_eq_nil_iff.mp htaken

/-- **The reader visits the oldest value it took.** -/
theorem taken_eq_cons (h : Inv s v) (hr : s.reader = .visit (some node)) :
    ∃ t, s.queue.taken = (t, s.cell node) :: s.queue.taken.tail := by
  obtain ⟨htodo, hchain, -⟩ := h.owns hr
  obtain ⟨rest, hdone, -⟩ := hchain.exists_cons
  have htaken := h.taken
  rw [htodo, hdone] at htaken
  obtain ⟨⟨t, x⟩, rest, hq, rfl, -⟩ := List.map_eq_cons_iff.mp htaken
  exact ⟨t, by rw [hq]; rfl⟩

theorem visit_none (h : Inv s v) (hr : s.reader = .visit none) : Inv (s.visit none) v := by
  obtain ⟨htodo, hchain, hhand⟩ := h.owns hr
  exact { h with reader := ⟨htodo, hchain.head_eq_none_iff.mp rfl, hhand⟩ }

section

variable [DecidableEq τ]

/-- One thread goes on, and the others are where they were. -/
theorem owns_setProducer {next : α → Option α} {v : Place τ → List α} {p : Producer α}
    (hp : p.Owns next (v (.producer t)))
    (hother : ∀ t', t' ≠ t → (s.producer t').Owns next (v (.producer t'))) (t' : τ) :
    ((s.setProducer t p).producer t').Owns next (v (.producer t')) := by
  change (update s.producer t p t').Owns _ _
  rcases eq_or_ne t' t with rfl | ht
  · rw [Function.update_self]
    exact hp
  · rw [Function.update_of_ne ht]
    exact hother t' ht

/-- A thread goes on with the node it has. -/
theorem setProducer (h : Inv s v) {p : Producer α} (hp : p.Owns s.next (v (.producer t))) :
    Inv (s.setProducer t p) v :=
  { h with producer := owns_setProducer hp fun t' _ => h.producer t' }

theorem load (h : Inv s v) (hmine : v (.producer t) = [node]) : Inv (s.load t node) v :=
  h.setProducer hmine

/-- The thread hands its node over. Nobody wrote the link since, and the head is what it was when
the thread read it. -/
theorem push (h : Inv s v) (hp : s.producer t = .swap node s.head) :
    Inv (s.push t node)
      (update (update v (.producer t) []) .stack (node :: v .stack)) := by
  obtain ⟨hmine, hlink⟩ := h.owns_producer hp
  refine ⟨h.placed.move (by simp) (.of_eq hmine) (.refl _), ?_,
    owns_setProducer ?_ fun t' ht => ?_, ?_, ?_, ?_, h.fifo.push _⟩
  · rw [Function.update_self]
    refine ⟨rfl, ?_⟩
    change IsChain s.next (s.next node) (v .stack)
    rw [hlink]
    exact h.stack
  · rw [Function.update_of_ne (by simp), Function.update_self]
    rfl
  · rw [Function.update_of_ne (by simp), Function.update_of_ne (by simpa using ht)]
    exact h.producer t'
  · simp only [Function.update_apply, reduceCtorEq, if_false]
    exact h.reader
  · rw [Function.update_self, List.reverse_cons]
    change (s.queue.waiting ++ [(t, s.cell node)]).map Prod.snd =
      ((v .stack).reverse ++ [node]).map s.cell
    rw [List.map_append, List.map_append, h.waiting]
    rfl
  · simp only [Function.update_apply, reduceCtorEq, if_false]
    exact h.taken

/-- The reader takes the whole stack. -/
theorem exchange (h : Inv s v) (hr : s.reader = .idle) :
    Inv s.exchange (update (update v .stack []) .todo (v .stack)) := by
  obtain ⟨htodo, hdone, hhand⟩ := h.owns hr
  have hpour := h.placed.pour (i := .stack) (j := .todo) (by simp)
  rw [htodo, List.append_nil] at hpour
  refine ⟨hpour, ?_, fun t' => ?_, ?_, ?_, ?_, h.fifo.take⟩
  · simp only [Function.update_apply, reduceCtorEq, if_false, if_true]
    exact rfl
  · simp only [Function.update_apply, reduceCtorEq, if_false]
    exact h.producer t'
  · simp only [Function.update_apply, reduceCtorEq, if_false, if_true]
    rw [hdone]
    exact ⟨h.stack, rfl, hhand⟩
  · simp only [Function.update_apply, reduceCtorEq, if_false, if_true]
    exact rfl
  · simp only [Function.update_apply, reduceCtorEq, if_false, if_true]
    change (s.queue.taken ++ s.queue.waiting).map Prod.snd = _
    rw [h.taken_eq_nil htodo hdone, hdone, List.append_nil]
    exact h.waiting

/-- The next node is taken up. -/
theorem visit_some (h : Inv s v) (hr : s.reader = .visit (some node)) :
    ∃ rest, v .done = node :: rest ∧
      Inv (s.visit (some node)) (update (update v .done rest) .hand [node]) := by
  obtain ⟨htodo, hchain, hhand⟩ := h.owns hr
  obtain ⟨rest, hdone, hrest⟩ := hchain.exists_cons
  refine ⟨rest, hdone, h.placed.move (by simp) (.of_eq hdone) (by rw [hhand]), ?_, fun t' => ?_, ?_,
    ?_, ?_, h.fifo.serve⟩
  · simp only [Function.update_apply, reduceCtorEq, if_false]
    exact h.stack
  · simp only [Function.update_apply, reduceCtorEq, if_false]
    exact h.producer t'
  · simp only [Function.update_apply, reduceCtorEq, if_false, if_true]
    exact ⟨htodo, hrest, rfl⟩
  · simp only [Function.update_apply, reduceCtorEq, if_false]
    exact h.waiting
  · simp only [Function.update_apply, reduceCtorEq, if_false, if_true]
    have htaken := h.taken
    rw [htodo, hdone] at htaken
    change s.queue.taken.tail.map Prod.snd = _
    rw [htodo, List.map_tail, htaken]
    rfl

end

variable [DecidableEq α]

/-- Writing the link of a node changes nothing for a thread that does not have it. -/
theorem owns_update (h : Inv s v) {p : Place τ} (hnode : node ∈ v p) (x : Option α) {t' : τ}
    (ht : p ≠ .producer t') :
    (s.producer t').Owns (update s.next node x) (v (.producer t')) :=
  (h.producer t').congr fun _ ha =>
    Function.update_of_ne (ne_of_mem_of_not_mem ha (h.notMem hnode ht)) _ _

/-- The reversal ends. -/
theorem reverse_none (h : Inv s v) {rev : Option α} (hr : s.reader = .reverse none rev) :
    v .todo = [] ∧ Inv (s.reverse rev none) v := by
  obtain ⟨htodo, hdone, hhand⟩ := h.owns hr
  have hnil := htodo.head_eq_none_iff.mp rfl
  exact ⟨hnil, { h with reader := ⟨hnil, hdone, hhand⟩ }⟩

variable [DecidableEq τ]

/-- A round of the reversal takes a node from the front of one list to the front of the other. -/
theorem reverse_some (h : Inv s v) {rev : Option α}
    (hr : s.reader = .reverse (some node) rev) :
    ∃ rest, v .todo = node :: rest ∧
      Inv (s.reverse rev (some node)) (update (update v .todo rest) .done (node :: v .done)) := by
  obtain ⟨htodo, hdone, hhand⟩ := h.owns hr
  obtain ⟨rest, hcons, hrest⟩ := htodo.exists_cons
  have hnode : node ∈ v .todo := by rw [hcons]; exact List.mem_cons_self
  have hnotRest : node ∉ rest := by
    have hnd := h.placed.nodup .todo
    rw [hcons] at hnd
    exact (List.nodup_cons.mp hnd).1
  refine ⟨rest, hcons, h.placed.move (by simp) (.of_eq hcons) (.refl _), ?_, fun t' => ?_, ?_, ?_, ?_,
    h.fifo⟩
  · simp only [Function.update_apply, reduceCtorEq, if_false]
    exact h.stack.update (h.notMem hnode (by simp)) rev
  · simp only [Function.update_apply, reduceCtorEq, if_false]
    exact h.owns_update hnode rev (by simp)
  · simp only [Function.update_apply, reduceCtorEq, if_false, if_true]
    exact ⟨hrest.update hnotRest rev, hdone.push (h.notMem hnode (by simp)), hhand⟩
  · simp only [Function.update_apply, reduceCtorEq, if_false]
    exact h.waiting
  · simp only [Function.update_apply, reduceCtorEq, if_false, if_true]
    refine h.taken.trans ?_
    rw [hcons, List.reverse_cons, List.append_assoc]
    rfl

/-- A fresh node goes to the thread that allocated it. -/
theorem alloc (h : Inv s v) (hidle : s.producer t = .idle) (hfresh : node ∉ s.live) (x : ν) :
    Inv (s.alloc t node x) (update v (.producer t) [node]) := by
  have hnone : ∀ p, node ∉ v p := h.placed.notMem_of_not_live hfresh
  have hmine : v (.producer t) = [] := h.owns_producer hidle
  have hlink : ∀ p, ∀ a ∈ v p, update s.next node none a = s.next a := fun p a ha =>
    Function.update_of_ne (ne_of_mem_of_not_mem ha (hnone p)) _ _
  refine ⟨?_, ?_, owns_setProducer (s := s) ?_ fun t' ht => ?_, ?_, ?_, ?_, h.fifo⟩
  · refine (h.placed.enter (j := .producer t) (a := node) hfresh (by rw [hmine])).congr_live ?_
    exact fun a => List.mem_cons
  · simp only [Function.update_apply, reduceCtorEq, if_false]
    exact h.stack.congr (hlink .stack)
  · rw [Function.update_self]
    rfl
  · rw [Function.update_of_ne (by simpa using ht)]
    exact (h.producer t').congr (hlink _)
  · simp only [Function.update_apply, reduceCtorEq, if_false]
    exact h.reader.congr (hlink .todo) (hlink .done)
  · simp only [Function.update_apply, reduceCtorEq, if_false]
    exact h.waiting.trans (map_update_of_notMem (by simpa using hnone .stack) x).symm
  · simp only [Function.update_apply, reduceCtorEq, if_false]
    refine h.taken.trans (map_update_of_notMem ?_ x).symm
    simpa using ⟨hnone .todo, hnone .done⟩

/-- A thread writes the link of its node. -/
theorem link (h : Inv s v) (hmine : v (.producer t) = [node]) (old : Option α) :
    Inv (s.link t node old) v := by
  have hnode : node ∈ v (.producer t) := by rw [hmine, List.mem_singleton]
  have hlink : ∀ p, p ≠ .producer t → ∀ a ∈ v p, update s.next node old a = s.next a :=
    fun p hp a ha => Function.update_of_ne (ne_of_mem_of_not_mem ha (h.notMem hnode hp.symm)) _ _
  refine ⟨h.placed, h.stack.congr (hlink .stack (by simp)),
    owns_setProducer (s := s) ⟨hmine, Function.update_self ..⟩ fun t' ht => ?_,
    h.reader.congr (hlink .todo (by simp)) (hlink .done (by simp)), h.waiting, h.taken, h.fifo⟩
  exact h.owns_update hnode old (by simpa using ht.symm)

/-- The node that was visited is given back. -/
theorem free (h : Inv s v) {op : α} {next : Option α} (hr : s.reader = .body op next) :
    Inv (s.free op next) (update v .hand []) := by
  obtain ⟨htodo, hdone, hhand⟩ := h.owns hr
  refine ⟨?_, ?_, fun t' => ?_, ?_, ?_, ?_, h.fifo⟩
  · refine (h.placed.retire (i := .hand) (a := op) (.of_eq hhand)).congr_live fun b => ?_
    change b ∈ s.live.filter (· ≠ op) ↔ _
    simp
  · simp only [Function.update_apply, reduceCtorEq, if_false]
    exact h.stack
  · simp only [Function.update_apply, reduceCtorEq, if_false]
    exact h.producer t'
  · simp only [Function.update_apply, reduceCtorEq, if_false, if_true]
    exact ⟨htodo, hdone, rfl⟩
  · simp only [Function.update_apply, reduceCtorEq, if_false]
    exact h.waiting
  · simp only [Function.update_apply, reduceCtorEq, if_false]
    exact h.taken

end Inv

/-! ### How long it takes -/

/-- The steps a thread has left in its push, if its exchange succeeds. -/
def Producer.left : Producer α → ℕ
  | .idle => 0
  | .load _ => 3
  | .link _ _ => 2
  | .swap _ _ => 1

/-- The steps the reader has left, with the nodes it has. -/
def Reader.left (r : Reader α) (todo done : List α) : ℕ :=
  match r with
  | .idle => 0
  | .reverse _ _ => 3 * todo.length + 2 * done.length + 2
  | .visit _ => 2 * done.length + 1
  | .body _ _ => 2 * done.length + 2

/-- The step is one of the reader, after it took the stack. -/
def Act.reads : Act τ α ν → ℕ
  | .reverse | .visit | .free => 1
  | _ => 0

variable [DecidableEq τ] [DecidableEq α] {s s' : State τ α ν} {v : Place τ → List α}
  {a : Act τ α ν}

/-- **One step.** It keeps the invariant, and the reader has one step less to take if it was one of
its own. -/
theorem Inv.step (h : Inv s v) (hs : Step s a s') (ha : a ≠ .exchange) :
    ∃ v', Inv s' v' ∧ s'.reader.left (v' .todo) (v' .done) + a.reads =
      s.reader.left (v .todo) (v .done) := by
  cases hs with
  | alloc hidle hfresh =>
    refine ⟨_, h.alloc hidle hfresh _, ?_⟩
    simp only [Function.update_apply, reduceCtorEq, if_false]
    rfl
  | load hp => exact ⟨v, h.load (h.owns_producer hp), rfl⟩
  | link hp => exact ⟨v, h.link (h.owns_producer hp) _, rfl⟩
  | push hp =>
    refine ⟨_, h.push hp, ?_⟩
    simp only [Function.update_apply, reduceCtorEq, if_false]
    rfl
  | retry hp hfail => exact ⟨v, h.load (h.owns_producer hp).1, rfl⟩
  | exchange hr => exact absurd rfl ha
  | @reverse head rev hr =>
    rw [hr]
    cases head with
    | none =>
      obtain ⟨htodo, hv⟩ := h.reverse_none hr
      refine ⟨v, hv, ?_⟩
      rw [htodo]
      simp only [State.reverse, Reader.left, Act.reads, List.length_nil]
      omega
    | some node =>
      obtain ⟨rest, htodo, hv⟩ := h.reverse_some hr
      refine ⟨_, hv, ?_⟩
      rw [htodo]
      simp only [Function.update_apply, reduceCtorEq, if_false, if_true, State.reverse, Reader.left,
        Act.reads, List.length_cons]
      omega
  | @visit op hr =>
    rw [hr]
    cases op with
    | none =>
      have hv := h.visit_none hr
      have hdone := (hv.owns rfl).2.1
      refine ⟨v, hv, ?_⟩
      rw [hdone]
      rfl
    | some node =>
      obtain ⟨rest, hdone, hv⟩ := h.visit_some hr
      refine ⟨_, hv, ?_⟩
      rw [hdone]
      simp only [Function.update_apply, reduceCtorEq, if_false, if_true, State.visit, Reader.left,
        Act.reads, List.length_cons]
      omega
  | free hr =>
    refine ⟨_, h.free hr, ?_⟩
    rw [hr]
    simp only [Function.update_apply, reduceCtorEq, if_false]
    rfl

/-- Every step keeps the invariant. -/
theorem Inv.act (h : Inv s v) (hs : Step s a s') : ∃ v', Inv s' v' := by
  by_cases ha : a = .exchange
  · subst ha
    cases hs with
    | exchange hr => exact ⟨_, h.exchange hr⟩
  · obtain ⟨v', hv', -⟩ := h.step hs ha
    exact ⟨v', hv'⟩

/-! ### What one thread does -/

omit [DecidableEq α] in
theorem setProducer_self (s : State τ α ν) (t : τ) (p : Producer α) :
    (s.setProducer t p).producer t = p := Function.update_self ..

omit [DecidableEq α] in
theorem setProducer_of_ne (s : State τ α ν) {t t' : τ} (p : Producer α) (ht : t' ≠ t) :
    (s.setProducer t p).producer t' = s.producer t' := Function.update_of_ne ht ..

/-- A step of a thread in its push. -/
def Act.PushOf (t : τ) : Act τ α ν → Prop
  | .alloc t' _ _ | .load t' | .link t' | .swap t' _ => t' = t
  | .exchange | .reverse | .visit | .free => False

instance (t : τ) (a : Act τ α ν) : Decidable (a.PushOf t) := by
  cases a <;> unfold Act.PushOf <;> infer_instance

/-- What a thread begins to push. -/
def Act.begun (t : τ) : Act τ α ν → List ν
  | .alloc t' _ x => if t' = t then [x] else []
  | _ => []

/-- The exchange fails. -/
def Producer.Fails (head : Option α) (spurious : Bool) : Producer α → Prop
  | .swap _ old => ¬ (head = old ∧ spurious = false)
  | _ => False

instance (head : Option α) (spurious : Bool) (p : Producer α) :
    Decidable (p.Fails head spurious) := by
  cases p <;> unfold Producer.Fails <;> infer_instance

/-- The step is a failed exchange of a thread. -/
def State.Fails (s : State τ α ν) (t : τ) : Act τ α ν → Prop
  | .swap t' spurious => t' = t ∧ (s.producer t').Fails s.head spurious
  | _ => False

instance (s : State τ α ν) (t : τ) (a : Act τ α ν) : Decidable (s.Fails t a) := by
  cases a <;> unfold State.Fails <;> infer_instance

/-- A thread is where it was after what the others and the reader do. -/
theorem Step.producer_eq (hs : Step s a s') {t : τ} (ha : ¬ a.PushOf t) :
    s'.producer t = s.producer t := by
  cases hs with
  | alloc | load | link | push | retry => exact Function.update_of_ne (Ne.symm ha) _ _
  | @reverse head rev hr => cases head <;> rfl
  | @visit op hr => cases op <;> rfl
  | exchange | free => rfl

omit [DecidableEq α] in
theorem Act.begun_eq_nil {t : τ} (ha : ¬ a.PushOf t) : a.begun t = [] := by
  cases a with
  | alloc t' node x => exact if_neg ha
  | load | link | swap | exchange | reverse | visit | free => rfl

omit [DecidableEq τ] [DecidableEq α] in
theorem State.Fails.pushOf {t : τ} (h : s.Fails t a) : a.PushOf t := by
  cases a with
  | swap t' spurious => exact h.1
  | alloc | load | link | exchange | reverse | visit | free => exact False.elim h

/-- **A push takes four steps**, and two more for every exchange that fails. -/
theorem Step.left (hs : Step s a s') (t : τ) :
    (s'.producer t).left + (if a.PushOf t then 1 else 0) =
      (s.producer t).left + 4 * (a.begun t).length + 2 * if s.Fails t a then 1 else 0 := by
  by_cases ha : a.PushOf t
  · cases hs with
    | @alloc t' node x hidle hfresh =>
      obtain rfl := ha
      have hp : (s.alloc t' node x).producer t' = .load node := setProducer_self ..
      rw [hp, hidle]
      simp [Act.PushOf, Act.begun, State.Fails, Producer.left]
    | @load t' node hp =>
      obtain rfl := ha
      have hp' : (s.load t' node).producer t' = .link node s.head := setProducer_self ..
      rw [hp', hp]
      simp [Act.PushOf, Act.begun, State.Fails, Producer.left]
    | @link t' node old hp =>
      obtain rfl := ha
      have hp' : (s.link t' node old).producer t' = .swap node old := setProducer_self ..
      rw [hp', hp]
      simp [Act.PushOf, Act.begun, State.Fails, Producer.left]
    | @push t' node hp =>
      obtain rfl := ha
      have hp' : (s.push t' node).producer t' = .idle := setProducer_self ..
      rw [hp', hp]
      simp [Act.PushOf, Act.begun, State.Fails, Producer.left, Producer.Fails, hp]
    | @retry t' node old spurious hp hfail =>
      obtain rfl := ha
      have hp' : (s.load t' node).producer t' = .link node s.head := setProducer_self ..
      have hfails : s.Fails t' (.swap t' spurious) := ⟨rfl, by rw [hp]; exact hfail⟩
      rw [hp', hp, if_pos hfails]
      simp [Act.PushOf, Act.begun, Producer.left]
    | exchange | reverse | visit | free => exact False.elim ha
  · have hfails : ¬ s.Fails t a := fun h => ha h.pushOf
    rw [hs.producer_eq ha, Act.begun_eq_nil ha, if_neg ha, if_neg hfails]
    rfl

/-- What a thread pushed since the reader took the stack, and what it is pushing. -/
def State.sent (s : State τ α ν) (t : τ) : List ν :=
  (s.queue.waiting.filter fun b => b.1 = t).map Prod.snd ++
    (s.producer t).node.toList.map s.cell

omit [DecidableEq α] in
/-- A thread keeps its node, or another thread takes a step. -/
theorem sent_eq {s s' : State τ α ν} {t : τ} (hq : s'.queue.waiting = s.queue.waiting)
    (hcell : s'.cell = s.cell) (hp : (s'.producer t).node = (s.producer t).node) :
    s'.sent t = s.sent t := by
  rw [State.sent, State.sent, hq, hcell, hp]

omit [DecidableEq α] in
theorem node_setProducer (s : State τ α ν) {t : τ} {p : Producer α}
    (hp : p.node = (s.producer t).node) (t' : τ) :
    ((s.setProducer t p).producer t').node = (s.producer t').node := by
  rcases eq_or_ne t' t with rfl | ht
  · rw [setProducer_self, hp]
  · rw [setProducer_of_ne _ _ ht]

/-- **A thread pushes what it begins to push, in order.** -/
theorem Inv.sent (h : Inv s v) (hs : Step s a s') (ha : a ≠ .exchange) (t : τ) :
    s'.sent t = s.sent t ++ a.begun t := by
  cases hs with
  | @alloc t' node x hidle hfresh =>
    rcases eq_or_ne t' t with rfl | ht
    · have hp : (s.alloc t' node x).producer t' = .load node := setProducer_self ..
      have hcell : (s.alloc t' node x).cell node = x := Function.update_self ..
      rw [State.sent, State.sent, hp, hidle, Act.begun, if_pos rfl]
      simp only [Producer.node, Option.toList_some, Option.toList_none, List.map_cons, List.map_nil,
        List.append_nil, hcell]
      rfl
    · have hp : (s.alloc t' node x).producer t = s.producer t := setProducer_of_ne _ _ ht.symm
      have hmem : node ∉ (s.producer t).node.toList := by
        rw [← (h.producer t).eq_node]
        exact h.placed.notMem_of_not_live hfresh _
      rw [State.sent, State.sent, hp, Act.begun, if_neg ht, List.append_nil]
      exact congrArg (_ ++ ·) (map_update_of_notMem hmem x)
  | @load t' node hp =>
    have hkeep := node_setProducer s (p := .link node s.head) (by rw [hp]; rfl) t
    refine Eq.trans ?_ (List.append_nil _).symm
    exact sent_eq rfl rfl hkeep
  | @link t' node old hp =>
    have hkeep := node_setProducer s (p := .swap node old) (by rw [hp]; rfl) t
    refine Eq.trans ?_ (List.append_nil _).symm
    exact sent_eq rfl rfl hkeep
  | @push t' node hp =>
    refine Eq.trans ?_ (List.append_nil _).symm
    have hcell : (s.push t' node).cell = s.cell := rfl
    have hq : (s.push t' node).queue.waiting = s.queue.waiting ++ [(t', s.cell node)] := rfl
    rw [State.sent, State.sent, hq, List.filter_append, List.map_append]
    rcases eq_or_ne t' t with rfl | ht
    · have hp' : (s.push t' node).producer t' = .idle := setProducer_self ..
      rw [hp', hp]
      simp [Producer.node]
    · have hp' : (s.push t' node).producer t = s.producer t := setProducer_of_ne _ _ ht.symm
      rw [hp']
      simp [ht, hcell]
  | @retry t' node old spurious hp hfail =>
    have hkeep := node_setProducer s (p := .link node s.head) (by rw [hp]; rfl) t
    refine Eq.trans ?_ (List.append_nil _).symm
    exact sent_eq rfl rfl hkeep
  | exchange hr => exact absurd rfl ha
  | @reverse head rev hr => cases head <;> exact (List.append_nil _).symm
  | @visit op hr => cases op <;> exact (List.append_nil _).symm
  | free hr => exact (List.append_nil _).symm

/-- What is pushed is waiting. -/
theorem Step.pushed (hs : Step s a s') (ha : a ≠ .exchange) :
    ∃ l, s'.queue.pushed = s.queue.pushed ++ l ∧ s'.queue.waiting = s.queue.waiting ++ l := by
  cases hs with
  | push hp => exact ⟨_, rfl, rfl⟩
  | exchange hr => exact absurd rfl ha
  | @reverse head rev hr => cases head <;> exact ⟨[], by simp [State.reverse]⟩
  | @visit op hr => cases op <;> exact ⟨[], by simp [State.visit, Queue.serve]⟩
  | alloc | load | link | retry | free =>
    exact ⟨[], (List.append_nil _).symm, (List.append_nil _).symm⟩

/-- Only the reader serves what was taken, when it takes up a node. -/
theorem Step.served (hs : Step s a s') (ha : a ≠ .exchange)
    (hvisit : ∀ node, s.reader = .visit (some node) → a ≠ .visit) :
    s'.queue.taken = s.queue.taken ∧ s'.queue.served = s.queue.served := by
  cases hs with
  | exchange hr => exact absurd rfl ha
  | @reverse head rev hr => cases head <;> exact ⟨rfl, rfl⟩
  | @visit op hr =>
    cases op with
    | none => exact ⟨rfl, rfl⟩
    | some node => exact absurd rfl (hvisit node hr)
  | alloc | load | link | push | retry | free => exact ⟨rfl, rfl⟩

/-- The reader stops at the end of its loop over the nodes. -/
theorem Step.idle (hs : Step s a s') (hr : s.reader ≠ .idle) (hr' : s'.reader = .idle) :
    a = .visit ∧ s'.producer = s.producer := by
  cases hs with
  | exchange hidle => exact absurd hidle hr
  | @reverse head rev hrev => cases head <;> exact absurd hr' (by simp [State.reverse])
  | @visit op hvisit => cases op <;> exact ⟨rfl, rfl⟩
  | free hbody => exact absurd hr' (by simp [State.free])
  | alloc | load | link | push | retry => exact absurd hr' hr

/-- A thread in a push can go on. -/
theorem exists_push (s : State τ α ν) {t : τ} (ht : s.producer t ≠ .idle) :
    ∃ a, a.PushOf t ∧ a.begun t = [] ∧ (s.act a).isSome := by
  cases hp : s.producer t with
  | idle => exact absurd hp ht
  | load node => exact ⟨.load t, rfl, rfl, by rw [State.act, hp]; rfl⟩
  | link node old => exact ⟨.link t, rfl, rfl, by rw [State.act, hp]; rfl⟩
  | swap node old => exact ⟨.swap t false, rfl, rfl, by rw [State.act, hp]; rfl⟩

/-- The reader can go on until it is done. -/
theorem exists_read (s : State τ α ν) (hr : s.reader ≠ .idle) :
    ∃ a, a.reads = 1 ∧ (s.act a).isSome := by
  cases hs : s.reader with
  | idle => exact absurd hs hr
  | reverse head rev => exact ⟨.reverse, rfl, by rw [State.act, hs]; rfl⟩
  | visit op => exact ⟨.visit, rfl, by rw [State.act, hs]; rfl⟩
  | body op next => exact ⟨.free, rfl, by rw [State.act, hs]; rfl⟩

end TreiberStack
