import CurlLoop.InboxIndependence
import CurlLoop.Lib.TreiberStack
import Mathlib.Data.Fintype.EquivFin

/-!
# Draining the inbox while others post

`inbox_push` and `curl_resource_inbox_drain` one access at a time. `Loop.curlResourceInboxDrain` takes
the inbox, reverses it and applies it in one go. Here the inbox is the stack of `TreiberStack`, other
threads push on it at any moment, and the callbacks that an operation runs push on it too, on the loop
thread, before the operation is freed.

## Conventions

The field `resInbox` of the loop is not the inbox here; the stack is. `posted` tells what the callbacks
of an operation post. The functions of the loop thread do not read the stack, so an operation is
applied in one step, and what its callbacks post is pushed after that, one access at a time. Other
threads draw ids at any moment (`draw`), also between two registrations of one callback, so the id of
an operation that a callback registers is open. A push releases what it wrote and the exchange
acquires it, so the loop thread reads the nodes as they were filled and linked.

## Main definitions

* `Drain`, `Drain.act` — the inbox, the loop, and what the loop thread still has to push
* `Drain.Drained` — what a drain has done when it returns

## Main results

* `Drain.drain_eq_calls`
-/

namespace CurlLoop

open Guarded
open TreiberStack (Act Inv State Step)

variable {τ α ω : Type}

namespace Loop

/-- Another thread draws an id. -/
def drawId (s : Loop ω) : Loop ω :=
  { s with resources := { s.resources with gNextId := s.resources.gNextId + 1 } }

/-- What the callbacks post while an operation is applied, in order. -/
def posts (env : Env ω) (s : Loop ω) (op : ResOp) : List ResOp :=
  ((s.applyOp env op).posted.take ((s.applyOp env op).posted.length - s.posted.length)).reverse

theorem alike_drawId (s : Loop ω) : Alike s.drawId s := rfl

theorem posted_applyOp (env : Env ω) (s : Loop ω) (op : ResOp) :
    (s.applyOp env op).posted = (s.posts env op).reverse ++ s.posted := by
  obtain ⟨ops, -, hposted⟩ := (evolves_applyOp env s op).inbox
  have hposted : (s.applyOp env op).posted = ops ++ s.posted := hposted
  rw [posts, hposted, List.length_append, Nat.add_sub_cancel, List.take_left, List.reverse_reverse]

theorem applied_applyOp (env : Env ω) (s : Loop ω) (op : ResOp) :
    (s.applyOp env op).applied = op :: s.applied := (evolves_applyOp env s op).applied

/-- The operations of a list are applied, first to last. -/
def applyOps (env : Env ω) (s : Loop ω) (ops : List ResOp) : Loop ω :=
  ops.foldl (fun s op => s.applyOp env op) s

theorem applyOps_concat (env : Env ω) (s : Loop ω) (ops : List ResOp) (op : ResOp) :
    s.applyOps env (ops ++ [op]) = (s.applyOps env ops).applyOp env op :=
  List.foldl_append

theorem length_posted_applyOps (env : Env ω) (s : Loop ω) (ops ops' : List ResOp) :
    (s.applyOps env ops).posted.length ≤ (s.applyOps env (ops ++ ops')).posted.length := by
  rw [applyOps, applyOps, List.foldl_append]
  generalize ops.foldl (fun s op => s.applyOp env op) s = t
  induction ops' generalizing t with
  | nil => exact le_rfl
  | cons op ops' ih =>
    refine le_trans ?_ (ih (t.applyOp env op))
    rw [posted_applyOp, List.length_append]
    exact Nat.le_add_left _ _

end Loop

/-! ### The machine -/

/-- The inbox, the loop, and the operations the callbacks of the operation being applied posted and
the loop thread has not begun to push. -/
structure Drain (τ α ω : Type) where
  stack : State τ α ResOp
  loop : Loop ω
  outbox : List ResOp

namespace Drain

/-- What can happen next. -/
inductive Event (τ α : Type)
  /-- Another thread draws an id. -/
  | draw
  | inbox (a : Act τ α ResOp)
deriving DecidableEq

variable [DecidableEq τ] [DecidableEq α]

/-- The loop thread does one thing at a time. It goes on in `curl_resource_inbox_drain` when it has
pushed everything it posted, and in there it posts what the callbacks post. -/
def Admits (d : Drain τ α ω) (owner : τ) : Act τ α ResOp → Prop
  | .alloc t _ op => t = owner → d.stack.reader = .idle ∨
      d.outbox.head?.map ResOp.unnumbered = some op.unnumbered
  | .load _ | .link _ | .swap _ _ => True
  | .exchange | .reverse | .visit | .free => d.stack.producer owner = .idle ∧ d.outbox = []

instance (d : Drain τ α ω) (owner : τ) (a : Act τ α ResOp) : Decidable (d.Admits owner a) := by
  cases a <;> unfold Admits <;> infer_instance

/-- The operation whose application the step is. -/
def serves (d : Drain τ α ω) : Act τ α ResOp → Option ResOp
  | .visit =>
    match d.stack.reader with
    | .visit (some node) => some (d.stack.cell node)
    | _ => none
  | _ => none

/-- The loop thread begins to push an operation. -/
def Begins (owner : τ) : Act τ α ResOp → Prop
  | .alloc t _ _ => t = owner
  | _ => False

instance (owner : τ) (a : Act τ α ResOp) : Decidable (Begins owner a) := by
  cases a <;> unfold Begins <;> infer_instance

/-- One step, where it is possible. -/
def act (env : Env ω) (owner : τ) (d : Drain τ α ω) : Event τ α → Option (Drain τ α ω)
  | .draw => some { d with loop := d.loop.drawId }
  | .inbox a =>
    if d.Admits owner a then
      (d.stack.act a).map fun stack =>
        match d.serves a with
        | some op => ⟨stack, d.loop.applyOp env op, d.loop.posts env op⟩
        | none => ⟨stack, d.loop, if Begins owner a then d.outbox.tail else d.outbox⟩
    else none

/-- The step is possible. -/
def Can (env : Env ω) (owner : τ) (e : Event τ α) (d : Drain τ α ω) : Prop :=
  (d.act env owner e).isSome

instance (env : Env ω) (owner : τ) (e : Event τ α) (d : Drain τ α ω) :
    Decidable (d.Can env owner e) := inferInstanceAs (Decidable (_ = true))

/-- One step. -/
def step (env : Env ω) (owner : τ) (e : Event τ α) (d : Drain τ α ω) : Drain τ α ω :=
  (d.act env owner e).getD d

/-- An empty inbox, in any memory, and any loop. -/
def start (next : α → Option α) (cell : α → ResOp) (loop : Loop ω) : Drain τ α ω :=
  ⟨.empty next cell, loop, []⟩

/-- A step of the loop thread in `curl_resource_inbox_drain`, in a callback or not. -/
def Event.OfLoop (owner : τ) : Event τ α → Prop
  | .draw => False
  | .inbox a => a.PushOf owner ∨ a.reads = 1

instance (owner : τ) (e : Event τ α) : Decidable (e.OfLoop owner) := by
  cases e <;> unfold Event.OfLoop <;> infer_instance

/-- The step is a failed exchange of the loop thread. -/
def Retries (d : Drain τ α ω) (owner : τ) : Event τ α → Prop
  | .draw => False
  | .inbox a => d.stack.Fails owner a

instance (d : Drain τ α ω) (owner : τ) (e : Event τ α) : Decidable (d.Retries owner e) := by
  cases e <;> unfold Retries <;> infer_instance

/-- How many exchanges of the loop thread fail in a run. -/
def retries (env : Env ω) (owner : τ) : Drain τ α ω → List (Event τ α) → ℕ
  | _, [] => 0
  | d, e :: es => (if d.Retries owner e then 1 else 0) + retries env owner (d.step env owner e) es

/-- What a step can do. -/
inductive Moves (env : Env ω) (owner : τ) (d : Drain τ α ω) : Event τ α → Drain τ α ω → Prop
  | draw : Moves env owner d .draw { d with loop := d.loop.drawId }
  | serve {node : α} (hidle : d.stack.producer owner = .idle) (hout : d.outbox = [])
      (hr : d.stack.reader = .visit (some node)) :
    Moves env owner d (.inbox .visit) ⟨d.stack.visit (some node),
      d.loop.applyOp env (d.stack.cell node), d.loop.posts env (d.stack.cell node)⟩
  | inbox {a : Act τ α ResOp} {stack : State τ α ResOp} (hadmits : d.Admits owner a)
      (hserves : ∀ node, d.stack.reader = .visit (some node) → a ≠ .visit)
      (hs : Step d.stack a stack) :
    Moves env owner d (.inbox a)
      ⟨stack, d.loop, if Begins owner a then d.outbox.tail else d.outbox⟩

omit [DecidableEq τ] [DecidableEq α] in
theorem serves_eq_none {d : Drain τ α ω} {a : Act τ α ResOp} (h : d.serves a = none) :
    ∀ node, d.stack.reader = .visit (some node) → a ≠ .visit := by
  rintro node hr rfl
  rw [serves, hr] at h
  exact absurd h (Option.some_ne_none _)

omit [DecidableEq τ] [DecidableEq α] in
theorem serves_eq_some {d : Drain τ α ω} {a : Act τ α ResOp} {op : ResOp}
    (h : d.serves a = some op) :
    a = .visit ∧ ∃ node, d.stack.reader = .visit (some node) ∧ d.stack.cell node = op := by
  cases a with
  | visit =>
    rw [serves] at h
    split at h
    · next node hr => exact ⟨rfl, node, hr, Option.some.inj h⟩
    · exact absurd h (Option.some_ne_none op).symm
  | alloc | load | link | swap | exchange | reverse | free =>
    exact absurd h (Option.some_ne_none op).symm

theorem moves_of_can {env : Env ω} {owner : τ} {d : Drain τ α ω} {e : Event τ α}
    (h : d.Can env owner e) : Moves env owner d e (d.step env owner e) := by
  obtain ⟨d', hd'⟩ := Option.isSome_iff_exists.mp h
  rw [step, hd', Option.getD_some]
  cases e with
  | draw =>
    obtain rfl := Option.some.inj hd'
    exact .draw
  | inbox a =>
    rw [act] at hd'
    split at hd'
    · next hadmits =>
      obtain ⟨stack, hstack, hd'⟩ := Option.map_eq_some_iff.mp hd'
      have hs := TreiberStack.step_of_act hstack
      cases hserves : d.serves a with
      | none =>
        rw [hserves] at hd'
        subst hd'
        exact .inbox hadmits (serves_eq_none hserves) hs
      | some op =>
        obtain ⟨rfl, node, hr, rfl⟩ := serves_eq_some hserves
        rw [hserves] at hd'
        subst hd'
        rw [State.act, hr] at hstack
        obtain rfl := Option.some.inj hstack
        exact .serve hadmits.1 hadmits.2 hr
    · exact absurd hd' (Option.some_ne_none d').symm

/-! ### A drain -/

/-- What a drain has done when it returns, by the states before its exchange and after it returned. -/
structure Drained (env : Env ω) (owner : τ) (s t : Drain τ α ω) : Prop where
  /-- The inbox held what had been pushed and not served. -/
  waiting : s.stack.queue.served ++ s.stack.queue.waiting = s.stack.queue.pushed
  /-- Every operation that was in the inbox was applied once, in the order of the pushes, and no
  other. -/
  applied : t.loop.applied =
    (s.stack.queue.waiting.map Prod.snd).reverse ++ s.loop.applied
  served : t.stack.queue.served = s.stack.queue.served ++ s.stack.queue.waiting
  /-- The loop is as after the calls, made directly. -/
  alike : Loop.Alike t.loop
    (s.loop.calls env ((s.stack.queue.waiting.map Prod.snd).map ResOp.asCall))
  /-- What was pushed since the exchange is in the inbox, in order. -/
  inbox : ∃ nodes, Intrusive.IsChain t.stack.next t.stack.head nodes ∧
    nodes.reverse.map t.stack.cell = t.stack.queue.waiting.map Prod.snd
  pushed : t.stack.queue.pushed = s.stack.queue.pushed ++ t.stack.queue.waiting
  /-- That includes what the callbacks posted, in order. -/
  posted : ∃ posts : List ResOp, t.loop.posted = posts.reverse ++ s.loop.posted ∧
    ((t.stack.queue.waiting.filter fun b => b.1 = owner).map fun b => b.2.unnumbered) =
      posts.map ResOp.unnumbered

/-- How far a drain got. `done` are the operations applied, and `posts` what their callbacks
posted. -/
structure Going (env : Env ω) (owner : τ) (s u : Drain τ α ω)
    (v : TreiberStack.Place τ → List α) (done : List (τ × ResOp)) (posts : List ResOp) : Prop where
  inv : Inv u.stack v
  served : u.stack.queue.served = s.stack.queue.served ++ done
  taken : done ++ u.stack.queue.taken = s.stack.queue.waiting
  pushed : u.stack.queue.pushed = s.stack.queue.pushed ++ u.stack.queue.waiting
  loop : Loop.Alike u.loop (s.loop.applyOps env (done.map Prod.snd))
  applied : u.loop.applied = (done.map Prod.snd).reverse ++ s.loop.applied
  posted : u.loop.posted = posts.reverse ++ s.loop.posted
  sent : (u.stack.sent owner ++ u.outbox).map ResOp.unnumbered = posts.map ResOp.unnumbered
  /-- The loop thread returns when it has pushed everything. -/
  idle : u.stack.reader = .idle → u.stack.producer owner = .idle ∧ u.outbox = []

/-- How many operations are posted in all when the operations of the inbox are applied. -/
def total (env : Env ω) (s : Drain τ α ω) : ℕ :=
  (s.loop.applyOps env (s.stack.queue.waiting.map Prod.snd)).posted.length

/-- The steps the loop thread has left in a drain, if its exchanges succeed. -/
def left (env : Env ω) (owner : τ) (s u : Drain τ α ω)
    (v : TreiberStack.Place τ → List α) : ℕ :=
  u.stack.reader.left (v .todo) (v .done) + (u.stack.producer owner).left +
    4 * (u.outbox.length + (s.total env - u.loop.posted.length))

variable {env : Env ω} {owner : τ} {s u u' : Drain τ α ω} {v : TreiberStack.Place τ → List α}
  {done : List (τ × ResOp)} {posts : List ResOp} {e : Event τ α}

namespace Going

omit [DecidableEq α] in
theorem length_posted_le (h : Going env owner s u v done posts) :
    u.loop.posted.length ≤ s.total env := by
  have hle := s.loop.length_posted_applyOps env (done.map Prod.snd)
    (u.stack.queue.taken.map Prod.snd)
  rw [← List.map_append, h.taken, ← h.loop.length_posted] at hle
  exact hle

/-- **The reader takes up the next operation**, and its callbacks post. -/
theorem serve {node : α} (h : Going env owner s u v done posts)
    (hidle : u.stack.producer owner = .idle) (hout : u.outbox = [])
    (hr : u.stack.reader = .visit (some node)) :
    ∃ v' done' posts', Going env owner s ⟨u.stack.visit (some node),
      u.loop.applyOp env (u.stack.cell node), u.loop.posts env (u.stack.cell node)⟩ v' done' posts' ∧
      left env owner s ⟨u.stack.visit (some node),
        u.loop.applyOp env (u.stack.cell node), u.loop.posts env (u.stack.cell node)⟩ v' + 1 =
        left env owner s u v := by
  obtain ⟨t, htaken⟩ := h.inv.taken_eq_cons hr
  have hs : Step u.stack .visit (u.stack.visit (some node)) := .visit hr
  obtain ⟨v', hv', hleft⟩ := h.inv.step hs (by simp)
  have hsent : (u.stack.visit (some node)).sent owner = u.stack.sent owner :=
    (h.inv.sent hs (by simp) owner).trans (List.append_nil _)
  have hposted := u.loop.posted_applyOp env (u.stack.cell node)
  have hgoing : Going env owner s ⟨u.stack.visit (some node),
      u.loop.applyOp env (u.stack.cell node), u.loop.posts env (u.stack.cell node)⟩ v'
      (done ++ [(t, u.stack.cell node)]) (posts ++ u.loop.posts env (u.stack.cell node)) := by
    refine ⟨hv', ?_, ?_, h.pushed, ?_, ?_, ?_, ?_, fun hr' => absurd hr' (by simp [State.visit])⟩
    · change u.stack.queue.served ++ u.stack.queue.taken.take 1 = _
      rw [h.served, htaken, List.append_assoc]
      rfl
    · change done ++ [(t, u.stack.cell node)] ++ u.stack.queue.taken.tail = _
      rw [← h.taken, List.append_assoc, htaken]
      rfl
    · rw [List.map_append, List.map_cons, List.map_nil, Loop.applyOps_concat]
      exact h.loop.applyOp _
    · rw [Loop.applied_applyOp, h.applied, List.map_append, List.reverse_append]
      rfl
    · rw [hposted, h.posted, List.reverse_append, List.append_assoc]
    · have hold := h.sent
      rw [hout, List.append_nil] at hold
      change ((u.stack.visit (some node)).sent owner ++ _).map _ = _
      rw [hsent, List.map_append, List.map_append, hold]
  refine ⟨v', _, _, hgoing, ?_⟩
  have hle := hgoing.length_posted_le
  have hlen := congrArg List.length hposted
  rw [List.length_append, List.length_reverse] at hlen
  have hpush : (u.stack.visit (some node)).producer owner = .idle := hidle
  simp only [left, hout, hidle, hpush, List.length_nil, Act.reads] at hleft hle ⊢
  omega

omit [DecidableEq α] in
/-- The thread hands over what it was to post next. -/
theorem begun_append {a : Act τ α ResOp} (hr : u.stack.reader ≠ .idle)
    (hadmits : u.Admits owner a) :
    (a.begun owner ++ if Begins owner a then u.outbox.tail else u.outbox).map ResOp.unnumbered =
      u.outbox.map ResOp.unnumbered := by
  cases a with
  | alloc t node op =>
    rcases eq_or_ne t owner with rfl | ht
    · have hhead := (hadmits rfl).resolve_left hr
      cases hout : u.outbox with
      | nil =>
        rw [hout] at hhead
        exact absurd hhead (Option.some_ne_none _).symm
      | cons op' rest =>
        rw [hout] at hhead
        have hop : op'.unnumbered = op.unnumbered := Option.some.inj hhead
        simp [Act.begun, Begins, hop]
    · simp [Act.begun, Begins, ht]
  | load | link | swap | exchange | reverse | visit | free => rfl

/-- **Any other step.** -/
theorem inbox {a : Act τ α ResOp} {stack : State τ α ResOp}
    (h : Going env owner s u v done posts) (hr : u.stack.reader ≠ .idle)
    (hadmits : u.Admits owner a)
    (hserves : ∀ node, u.stack.reader = .visit (some node) → a ≠ .visit)
    (hs : Step u.stack a stack) :
    ∃ v', Going env owner s ⟨stack, u.loop, if Begins owner a then u.outbox.tail else u.outbox⟩ v'
        done posts ∧
      left env owner s ⟨stack, u.loop, if Begins owner a then u.outbox.tail else u.outbox⟩ v' +
          (if (Event.inbox a).OfLoop owner then 1 else 0) =
        left env owner s u v + 2 * if u.Retries owner (.inbox a) then 1 else 0 := by
  have ha : a ≠ .exchange := by
    rintro rfl
    cases hs with
    | exchange hidle => exact hr hidle
  obtain ⟨v', hv', hleft⟩ := h.inv.step hs ha
  obtain ⟨htaken, hserved⟩ := hs.served ha hserves
  obtain ⟨l, hpushed, hwaiting⟩ := hs.pushed ha
  have hbegun := begun_append hr hadmits
  refine ⟨v', ⟨hv', hserved.trans h.served, ?_, ?_, h.loop, h.applied, h.posted, ?_, ?_⟩, ?_⟩
  · rw [htaken]
    exact h.taken
  · rw [hpushed, hwaiting, h.pushed, List.append_assoc]
  · change (stack.sent owner ++ _).map _ = _
    rw [h.inv.sent hs ha, List.append_assoc, List.map_append, hbegun, ← List.map_append]
    exact h.sent
  · intro hr'
    obtain ⟨rfl, hproducer⟩ := hs.idle hr hr'
    change stack.producer owner = .idle ∧ u.outbox = []
    rw [hproducer]
    exact hadmits
  · have hpush := hs.left owner
    have hlen := congrArg List.length hbegun
    simp only [List.length_map, List.length_append] at hlen
    have hof : (if (Event.inbox a).OfLoop owner then 1 else 0) =
        a.reads + if a.PushOf owner then 1 else 0 := by
      cases a <;> simp [Event.OfLoop, Act.reads, Act.PushOf]
    rw [hof]
    change _ = _ + 2 * if u.stack.Fails owner a then 1 else 0
    simp only [left]
    omega

/-- **One step of a drain.** -/
theorem step (h : Going env owner s u v done posts) (hr : u.stack.reader ≠ .idle)
    (he : u.Can env owner e) :
    ∃ v' done' posts', Going env owner s (u.step env owner e) v' done' posts' ∧
      left env owner s (u.step env owner e) v' + (if e.OfLoop owner then 1 else 0) =
        left env owner s u v + 2 * if u.Retries owner e then 1 else 0 := by
  have hmoves := moves_of_can he
  generalize u.step env owner e = u' at hmoves ⊢
  cases hmoves with
  | draw =>
    refine ⟨v, done, posts, { h with loop := ?_ }, ?_⟩
    · exact u.loop.alike_drawId.trans h.loop
    · simp only [Event.OfLoop, Retries]
      rfl
  | serve hidle hout hvisit =>
    obtain ⟨v', done', posts', hgoing, hleft⟩ := h.serve hidle hout hvisit
    refine ⟨v', done', posts', hgoing, ?_⟩
    simp only [Event.OfLoop, Retries, State.Fails, Act.reads, or_true, if_true]
    exact hleft
  | inbox hadmits hserves hs =>
    obtain ⟨v', hgoing, hleft⟩ := h.inbox hr hadmits hserves hs
    exact ⟨v', done, posts, hgoing, hleft⟩

/-- The exchange. -/
theorem exchange (hv : Inv s.stack v) (he : s.Can env owner (.inbox .exchange)) :
    ∃ v', Going env owner s (s.step env owner (.inbox .exchange)) v' [] [] ∧
      left env owner s (s.step env owner (.inbox .exchange)) v' =
        3 * s.stack.queue.waiting.length + 2 +
          4 * (s.total env - s.loop.posted.length) := by
  have hmoves := moves_of_can he
  generalize s.step env owner (.inbox .exchange) = u at hmoves ⊢
  cases hmoves with
  | inbox hadmits hserves hs =>
    cases hs with
    | exchange hr =>
      obtain ⟨hidle, hout⟩ := hadmits
      obtain ⟨htodo, hdone, -⟩ := hv.owns hr
      have htaken := hv.taken_eq_nil htodo hdone
      refine ⟨_, ⟨hv.exchange hr, (List.append_nil _).symm, ?_, (List.append_nil _).symm, .refl _, rfl,
        rfl, ?_, fun hr' => absurd hr' (by simp [State.exchange])⟩, ?_⟩
      · change s.stack.queue.taken ++ s.stack.queue.waiting = _
        rw [htaken, List.nil_append]
      · change ([] ++ (s.stack.producer owner).node.toList.map s.stack.cell ++ s.outbox).map _ = []
        rw [hidle, hout]
        rfl
      · have hlen := congrArg List.length hv.waiting
        simp only [List.length_map, List.length_reverse] at hlen
        simp only [left, Function.update_apply, reduceCtorEq, if_false, if_true, hidle, hdone,
          State.exchange, TreiberStack.Reader.left, TreiberStack.Producer.left, List.length_nil]
        change _ + 4 * (s.outbox.length + _) = _
        rw [hout, List.length_nil, hlen]
        omega

/-- **A run of a drain.** The steps of the loop thread are paid for. -/
theorem run {es : List (Event τ α)} (h : Going env owner s u v done posts)
    (has : Allowed (Drain.step env owner) (fun e d => d.stack.reader ≠ .idle ∧ d.Can env owner e)
      u es) :
    ∃ v' done' posts', Going env owner s (Guarded.run (Drain.step env owner) u es) v' done' posts' ∧
      es.countP (fun e => e.OfLoop owner) +
          left env owner s (Guarded.run (Drain.step env owner) u es) v' =
        left env owner s u v + 2 * u.retries env owner es := by
  induction es generalizing u v done posts with
  | nil => exact ⟨v, done, posts, h, by simp [retries]⟩
  | cons e es ih =>
    obtain ⟨⟨hr, he⟩, has⟩ := has
    obtain ⟨v₁, done₁, posts₁, h₁, hleft₁⟩ := h.step hr he
    obtain ⟨v₂, done₂, posts₂, h₂, hleft₂⟩ := ih h₁ has
    refine ⟨v₂, done₂, posts₂, h₂, ?_⟩
    rw [List.countP_cons, retries, run_cons]
    simp only [decide_eq_true_eq]
    omega

omit [DecidableEq α] in
/-- What a drain has done when the reader is back. -/
theorem drained (h : Going env owner s u v done posts) (hr : u.stack.reader = .idle) :
    Drained env owner s u := by
  obtain ⟨htodo, hdone, -⟩ := h.inv.owns hr
  have hall : done = s.stack.queue.waiting := by
    rw [← h.taken, h.inv.taken_eq_nil htodo hdone, List.append_nil]
  subst hall
  refine ⟨?_, h.applied, h.served, ?_, ⟨_, h.inv.stack, h.inv.waiting.symm⟩, h.pushed, posts,
    h.posted, ?_⟩
  · have hfifo := h.inv.fifo
    rw [TreiberStack.Queue.Fifo, h.inv.taken_eq_nil htodo hdone, List.append_nil, h.served,
      h.pushed] at hfifo
    exact List.append_cancel_right hfifo
  · exact h.loop.trans ((Loop.Alike.refl s.loop).applyOps _)
  · obtain ⟨hidle, hout⟩ := h.idle hr
    rw [← h.sent, State.sent, hidle, hout]
    simp [TreiberStack.Producer.node]

end Going

theorem can_inbox {a : Act τ α ResOp} (hadmits : u.Admits owner a)
    (ha : (u.stack.act a).isSome) : u.Can env owner (.inbox a) := by
  rw [Can, act, if_pos hadmits, Option.isSome_map]
  exact ha

/-- **The loop thread is never stuck in a drain**: it can finish a push, begin the next one or go
on. -/
theorem exists_can [Infinite α] (env : Env ω) (hr : u.stack.reader ≠ .idle) :
    ∃ e : Event τ α, e.OfLoop owner ∧ u.Can env owner e := by
  by_cases hidle : u.stack.producer owner = .idle
  · cases hout : u.outbox with
    | nil =>
      obtain ⟨a, hreads, ha⟩ := TreiberStack.exists_read u.stack hr
      refine ⟨.inbox a, .inr hreads, can_inbox ?_ ha⟩
      cases a with
      | reverse | visit | free => exact ⟨hidle, hout⟩
      | alloc | load | link | swap | exchange => exact absurd hreads Nat.zero_ne_one
    | cons op rest =>
      obtain ⟨node, hnode⟩ := Infinite.exists_notMem_finset u.stack.live.toFinset
      rw [List.mem_toFinset] at hnode
      refine ⟨.inbox (.alloc owner node op), .inl rfl, can_inbox (fun _ => .inr ?_) ?_⟩
      · rw [hout]
        rfl
      · rw [State.act, if_pos ⟨hidle, hnode⟩]
        rfl
  · obtain ⟨a, hpush, hbegun, ha⟩ := TreiberStack.exists_push u.stack hidle
    refine ⟨.inbox a, .inl hpush, can_inbox ?_ ha⟩
    cases a with
    | alloc t node op =>
      obtain rfl : t = owner := hpush
      rw [Act.begun, if_pos rfl] at hbegun
      exact absurd hbegun (List.cons_ne_nil _ _)
    | load | link | swap => trivial
    | exchange | reverse | visit | free => exact False.elim hpush

theorem inv_run (env : Env ω) (owner : τ) (next : α → Option α) (cell : α → ResOp) (loop : Loop ω)
    {es : List (Event τ α)} (h : Allowed (step env owner) (Can env owner) (start next cell loop) es) :
    ∃ v, Inv (run (step env owner) (start next cell loop) es).stack v := by
  refine h.invariant (P := fun d => ∃ v, Inv d.stack v) ?_ ⟨_, TreiberStack.inv_empty next cell⟩
  rintro e d ⟨v, hv⟩ he
  have hmoves := moves_of_can he
  generalize d.step env owner e = d' at hmoves ⊢
  cases hmoves with
  | draw => exact ⟨v, hv⟩
  | serve hidle hout hr => exact hv.act (.visit hr)
  | inbox hadmits hserves hs => exact hv.act hs

/-- **Draining is the direct calls in posting order.** Take any inbox that any interleaving of pushes
left behind, and any loop. The loop thread exchanges the head and goes on in
`curl_resource_inbox_drain`, while other threads push and draw ids at any moment, and callbacks post.
It gets stuck nowhere and returns after a number of its steps that only its failed exchanges add to.
When it returns, every operation of the inbox was applied once, in the order of the pushes; the loop
is as after the calls made directly; and whatever was pushed since the exchange, by callbacks or by
others, is in the inbox, in order. -/
theorem drain_eq_calls [Infinite α] (env : Env ω) (owner : τ) (next : α → Option α)
    (cell : α → ResOp) (loop : Loop ω) {before : List (Event τ α)} {s : Drain τ α ω}
    (hbefore : Allowed (step env owner) (Can env owner) (start next cell loop) before)
    (hs : run (step env owner) (start next cell loop) before = s)
    (hexchange : s.Can env owner (.inbox .exchange)) {es : List (Event τ α)} {t : Drain τ α ω}
    (hes : Allowed (step env owner) (fun e d => d.stack.reader ≠ .idle ∧ d.Can env owner e)
      (s.step env owner (.inbox .exchange)) es)
    (ht : run (step env owner) (s.step env owner (.inbox .exchange)) es = t) :
    (t.stack.reader ≠ .idle → ∃ e : Event τ α, e.OfLoop owner ∧ t.Can env owner e) ∧
      es.countP (fun e => e.OfLoop owner) ≤
        3 * s.stack.queue.waiting.length + 2 + 4 * (s.total env - s.loop.posted.length) +
          2 * (s.step env owner (.inbox .exchange)).retries env owner es ∧
      (t.stack.reader = .idle → Drained env owner s t) := by
  obtain ⟨v, hv⟩ := inv_run env owner next cell loop hbefore
  rw [hs] at hv
  obtain ⟨v₀, hgoing, hleft⟩ := Going.exchange hv hexchange
  obtain ⟨v', done, posts, hgoing', hcount⟩ := hgoing.run hes
  rw [ht] at hgoing' hcount
  refine ⟨exists_can env, ?_, hgoing'.drained⟩
  omega

/-- A callback that releases resource 9, on the loop thread. -/
def releasing : Env Unit :=
  { Env.uneventful with onAborted := fun _ _ => (⟨0, [.releaseAsync 0 9]⟩, ()) }

/-- Request 1 waits for resource 5. -/
def oneWaiting : Loop Unit :=
  { curlEventLoopInit ⟨fun _ => { Request.init with onFailure := true }, fun _ =>
      ⟨rfl, rfl, rfl, rfl, rfl, rfl⟩⟩ () with
    accepted := [1]
    resources := { Resources.init with nodes := [(Res.fresh 5 1).setWaiters (some 1) (some 1)] } }

/-- Another thread posts that resource 5 failed. Its first exchange fails for no reason. -/
def failurePosted : Drain Bool ℕ Unit :=
  run (step releasing true) (start (fun _ => none) (fun _ => ⟨.release, 0, none, false, 0⟩) oneWaiting)
    [.inbox (.alloc false 0 ⟨.publish, 5, none, false, 1⟩), .inbox (.load false),
      .inbox (.link false), .inbox (.swap false true), .inbox (.link false),
      .inbox (.swap false false)]

/-- The drain fails the request. The callback's push is overtaken by another and starts over. -/
def failureDrained : Drain Bool ℕ Unit :=
  run (step releasing true) (failurePosted.step releasing true (.inbox .exchange))
    [.inbox .reverse, .draw, .inbox .reverse, .inbox .visit,
      .inbox (.alloc true 1 ⟨.release, 9, none, false, 0⟩), .inbox (.load true),
      .inbox (.alloc false 2 ⟨.publish, 5, some 7, true, 1⟩), .inbox (.load false),
      .inbox (.link false), .inbox (.swap false false), .inbox (.link true),
      .inbox (.swap true false), .inbox (.link true), .inbox (.swap true false), .inbox .free,
      .inbox .visit]

theorem drained_failure : Drained releasing true failurePosted failureDrained :=
  (drain_eq_calls releasing true _ _ oneWaiting (by decide +kernel) rfl (by decide +kernel)
    (by decide +kernel) rfl).2.2 rfl

end Drain

end CurlLoop
