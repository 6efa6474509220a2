import CurlLoop.Evolution

/-!
# The inbox of resource operations

Threads other than the loop thread do not touch the resource store. They post operations to an
inbox, a stack that every post pushes on in one atomic step, and `curl_resource_inbox_drain` takes
the whole stack in one exchange, reverses it, and applies the operations.

## What goes wrong

Every iteration of `curl_event_loop_run` begins with `curl_resource_set_owner_thread`, which stores
`NULL` in the head of the inbox. The comment above the call says that operations are applied there.
They are thrown away: an operation survives only if it is posted after that store and before the
exchange of the same iteration. `Runner.SparesInbox` says that the store finds the inbox empty.

## Main definitions

* `Runner.waiting` — the operations posted and not applied yet, oldest first
* `Runner.Delivered` — no operation is lost, repeated or overtaken by one of the same thread
* `Runner.SparesInbox` — a move does not throw operations away

## Main results

* `delivered_iff_sparesInbox` — operations are delivered at every moment of a run exactly when no
  move of the run throws operations away
-/

namespace CurlLoop

variable {ω : Type}

namespace Runner

/-- The operations taken from the inbox and not applied yet. -/
def taken (s : Runner ω) : List ResOp :=
  match s.pc with
  | .apply _ ops => ops
  | _ => []

/-- The operations posted and not applied yet, oldest first. -/
def waiting (s : Runner ω) : List ResOp := s.taken ++ s.loop.resInbox.reverse

/-- The operations posted, oldest first. -/
def posted (s : Runner ω) : List ResOp := s.loop.posted.reverse

/-- The operations applied, oldest first. -/
def applied (s : Runner ω) : List ResOp := s.loop.applied.reverse

/-- Every operation posted is waiting or was applied once, and the operations of a thread were
applied in the order it posted them. -/
structure Delivered (s : Runner ω) : Prop where
  once : (s.applied ++ s.waiting).Perm s.posted
  inOrder : ∀ thread, (s.applied.filter fun op => op.poster = thread) <+:
    s.posted.filter fun op => op.poster = thread

/-- The move is not the store of `curl_resource_set_owner_thread` on an inbox that holds
something. -/
def SparesInbox (m : Move) (s : Runner ω) : Prop :=
  match m with
  | .step _ => s.pc = .setOwnerThread → s.loop.resInbox = []
  | _ => True

instance (m : Move) (s : Runner ω) : Decidable (SparesInbox m s) := by
  cases m <;> unfold SparesInbox <;> infer_instance

/-- The inbox is a queue: what was applied, followed by what waits, is what was posted. -/
def Fifo (s : Runner ω) : Prop := s.applied ++ s.waiting = s.posted

theorem Fifo.delivered {s : Runner ω} (h : s.Fifo) : s.Delivered := by
  refine ⟨.of_eq h, fun thread => ?_⟩
  rw [← h, List.filter_append]
  exact List.prefix_append ..

/-- A function of the library pushes at the end of the queue. -/
theorem Fifo.evolves {s t : Runner ω} (h : s.Fifo) (he : Loop.Evolves False s.loop t.loop)
    (ht : t.taken = s.taken) : t.Fifo := by
  obtain ⟨ops, hi, hp⟩ := he.inbox
  have hs : s.loop.applied.reverse ++ (s.taken ++ s.loop.resInbox.reverse) =
      s.loop.posted.reverse := h
  show t.loop.applied.reverse ++ (t.taken ++ t.loop.resInbox.reverse) = t.loop.posted.reverse
  rw [he.applied, ht, hi, hp, List.reverse_append, List.reverse_append, ← hs]
  simp only [List.append_assoc]

theorem fifo_init (mem : Memory) (world : ω) : (init mem world).Fifo := rfl

/-- Taking the inbox moves the whole queue into a local variable. -/
theorem Fifo.takeInbox {s : Runner ω} (h : s.Fifo) {n : ℕ} (hpc : s.pc = .drain n) :
    (⟨s.loop.takeInbox, .apply n s.loop.resInbox.reverse⟩ : Runner ω).Fifo := by
  have hs : s.loop.applied.reverse ++ s.waiting = s.loop.posted.reverse := h
  rw [waiting, taken, hpc, List.nil_append] at hs
  show s.loop.applied.reverse ++ (s.loop.resInbox.reverse ++ [].reverse) = s.loop.posted.reverse
  rw [List.reverse_nil, List.append_nil, hs]

/-- Applying an operation takes it from the front of the queue. -/
theorem Fifo.applyOp {s : Runner ω} (env : Env ω) (h : s.Fifo) {n : ℕ} {op : ResOp}
    {ops : List ResOp} (hpc : s.pc = .apply n (op :: ops)) :
    (⟨s.loop.applyOp env op, .apply n ops⟩ : Runner ω).Fifo := by
  have hs : s.loop.applied.reverse ++ s.waiting = s.loop.posted.reverse := h
  rw [waiting, taken, hpc] at hs
  have hmid : (⟨{ s.loop with applied := op :: s.loop.applied }, .apply n ops⟩ :
      Runner ω).Fifo := by
    show (op :: s.loop.applied).reverse ++ (ops ++ s.loop.resInbox.reverse) =
      s.loop.posted.reverse
    rw [List.reverse_cons, List.append_assoc, ← hs]
    rfl
  exact hmid.evolves (Loop.evolves_applyOp env s.loop op) rfl

/-- A step of the loop thread keeps the queue, if it throws nothing away. -/
theorem Fifo.advance {s : Runner ω} (env : Env ω) (h : s.Fifo) (a : Answer)
    (hspare : SparesInbox (.step a) s) : (s.advance env a).Fifo := by
  have htaken : ∀ {pc}, s.pc = pc → s.taken = (⟨s.loop, pc⟩ : Runner ω).taken := by
    rintro pc rfl
    rfl
  rw [Runner.advance]
  cases hpc : s.pc with
  | outside last => exact h
  | whileTest =>
    refine h.evolves (.refl _) ?_
    rw [htaken hpc]
    cases s.loop.keepRunning <;> rfl
  | setOwnerThread =>
    refine h.evolves (.of_ledger ?_) (htaken hpc).symm
    simp [Loop.ledger, Loop.curlResourceSetOwnerThread, hspare hpc]
  | onLoop =>
    refine h.evolves (Loop.evolves_calls env s.loop False.elim) ?_
    rw [htaken hpc]
    cases a.onLoop <;> rfl
  | processCancelledAndPending =>
    exact h.evolves (Loop.evolves_processCancelledAndPendingRequests env s.loop)
      (htaken hpc).symm
  | moveInactive =>
    exact h.evolves (Loop.evolves_moveInactiveRequestsToQueue env s.loop) (htaken hpc).symm
  | perform => exact h.evolves (.refl _) (htaken hpc).symm
  | processCompleted n =>
    exact h.evolves (Loop.evolves_processCompletedRequests env s.loop a.msgs).loud
      (htaken hpc).symm
  | drain n => exact h.takeInbox hpc
  | apply n ops =>
    cases ops with
    | nil => exact h.evolves (.refl _) (htaken hpc).symm
    | cons op ops => exact h.applyOp env hpc
  | exitTest n =>
    refine h.evolves (.refl _) ?_
    rw [htaken hpc]
    show taken ⟨s.loop, if s.loop.idle n then .outside (some .idle) else .wait⟩ = []
    cases s.loop.idle n <;> rfl
  | wait =>
    exact h.evolves (.of_ledger (Loop.ledger_calculateNextTimerExpiry env s.loop))
      (htaken hpc).symm

/-- **One move** keeps the queue, if it throws nothing away. -/
theorem Fifo.move {s : Runner ω} (env : Env ω) {m : Move} (h : s.Fifo) (hspare : SparesInbox m s) :
    (s.move env m).Fifo := by
  have houtside : s.isOutside = true → s.taken = [] := by
    intro ho
    unfold isOutside at ho
    unfold taken
    split at ho
    · rename_i hpc
      rw [hpc]
    · exact absurd ho (by simp)
  cases m with
  | api c => exact h.evolves (Loop.evolves_apiCall env s.loop c) rfl
  | stop => exact h.evolves (.of_ledger rfl) rfl
  | call c =>
    rw [Runner.move]
    split
    · exact h.evolves (Loop.evolves_call env s.loop c) rfl
    · exact h
  | run =>
    rw [Runner.move]
    split
    · rename_i ho
      exact h.evolves (.of_ledger rfl) (houtside ho).symm
    · exact h
  | step a => exact h.advance env a hspare

/-- The store of `curl_resource_set_owner_thread` on an inbox that holds something. -/
theorem not_delivered_setOwnerThread {s : Runner ω} (env : Env ω) (a : Answer) (h : s.Delivered)
    (hpc : s.pc = .setOwnerThread) (hne : s.loop.resInbox ≠ []) :
    ¬ (s.move env (.step a)).Delivered := by
  intro h'
  rw [move, advance, hpc] at h'
  have hlen := h.once.length_eq
  have hlen' : (s.applied ++ ([] ++ [].reverse)).length = s.posted.length := h'.once.length_eq
  have hpos : 0 < s.loop.resInbox.length := List.length_pos_of_ne_nil hne
  rw [waiting, taken, hpc] at hlen
  simp only [List.length_append, List.length_reverse, List.length_nil] at hlen hlen'
  omega

/-- **Delivery.** At every moment of a run every operation posted is waiting or was applied once,
in the order of its thread, exactly when `curl_resource_set_owner_thread` finds the inbox empty
every time. -/
theorem delivered_iff_sparesInbox (env : Env ω) (mem : Memory) (world : ω) (moves : List Move) :
    (∀ pre, pre <+: moves → (Guarded.run (move env) (init mem world) pre).Delivered) ↔
      Guarded.Allowed (move env) SparesInbox (init mem world) moves := by
  constructor
  · intro h
    refine Guarded.allowed_iff_prefix.mpr fun pre m hpre => ?_
    cases m with
    | step a =>
      intro hpc
      by_contra hne
      have hbefore := h pre ((List.prefix_append ..).trans hpre)
      have hafter := h (pre ++ [.step a]) hpre
      rw [Guarded.run_append] at hafter
      exact not_delivered_setOwnerThread env a hbefore hpc hne hafter
    | _ => trivial
  · rintro h pre ⟨post, rfl⟩
    have hpre := (Guarded.allowed_append.mp h).1
    exact (hpre.invariant (fun m s hs hm => Fifo.move env hs hm) (fifo_init mem world)).delivered

/-- An operation posted before the loop is run is thrown away in the first iteration. -/
theorem not_delivered_before_run :
    ¬ (Guarded.run (move .uneventful) (init (.plain fun _ => []) ())
      [.api (.publishAsync 1 5 (some 7) true), .run, .step ⟨[], true, 0, []⟩,
        .step ⟨[], true, 0, []⟩]).Delivered := by
  intro h
  have hlen := h.once.length_eq
  revert hlen
  decide

end Runner

end CurlLoop
