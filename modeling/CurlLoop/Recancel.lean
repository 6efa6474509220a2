import CurlLoop.Cancel
import Mathlib.Data.List.Induction

/-!
# Cancelling a request again

`curl_event_loop_cancel` infers that a request is on the cancelled list from its `next_cancelled`,
and refuses it then. The first request that was put on the list is its last one, and its link is
`NULL`, as is the link of a request that is not on the list. Cancelled again, it is put on the list
a second time, which ties the list into a ring. A pending request is marked without being put on
the list, so cancelling it again is accepted again, and marks it again.

## Main definitions

* `Loop.cancelStep` — a call of `curl_event_loop_cancel`
* `Loop.CancelsIdempotently` — what repeated calls should come to
* `Loop.Recognised` — the link tells that the request was cancelled

## Main results

* `Loop.cancelsIdempotently_iff`
-/

namespace CurlLoop

open Function (update)

namespace Loop

open Guarded

variable {ω : Type} {s t : Loop ω} {v : View} {C : List ReqId} {r : ReqId} {rs : List ReqId}

/-- The state after a call of `curl_event_loop_cancel`. -/
def cancelStep (r : ReqId) (s : Loop ω) : Loop ω := (s.curlEventLoopCancel r).2

/-- After each of the calls the cancelled list is a finite list without repetitions, and each call
for a request that was cancelled before, among these calls or earlier, returns `false` and changes
nothing. -/
def CancelsIdempotently (s : Loop ω) (rs : List ReqId) : Prop :=
  ∀ pre r, pre ++ [r] <+: rs →
    (∃ C : List ReqId, C.Nodup ∧ Intrusive.IsChain (run cancelStep s (pre ++ [r])).nextCancelled
      (run cancelStep s (pre ++ [r])).cancelledRequests C) ∧
    (r ∈ pre ∨ (s.req r).isCancelled = true →
      (run cancelStep s pre).curlEventLoopCancel r = (false, run cancelStep s pre))

/-- A request that was cancelled before is on the cancelled list, and not the last one there. -/
def Recognised (r : ReqId) (s : Loop ω) : Prop :=
  (s.req r).isCancelled = true → r ∈ s.cancelledList ∧ s.cancelledList.getLast? ≠ some r

instance : Decidable (s.Recognised r) := inferInstanceAs (Decidable (_ → _))

/-- The link of a request on the list is set unless the request is the last one. -/
theorem WF.link_isSome_iff (h : s.WF v C) (hlive : s.Live r) :
    (s.nextCancelled r).isSome = true ↔ r ∈ C ∧ C.getLast? ≠ some r := by
  rw [Option.isSome_iff_ne_none]
  by_cases hr : r ∈ C
  · rw [and_iff_right hr, Ne, h.marked.chain.link_eq_none_iff h.marked.nodup hr]
  · exact iff_of_false (fun hlink => hlink (h.marked.off r hr hlive.2)) fun hin => hr hin.1

/-- A call that is refused changes nothing. -/
theorem cancel_of_link (hlive : s.Live r) (hlink : (s.nextCancelled r).isSome = true) :
    s.curlEventLoopCancel r = (false, s) := by
  have hbeware : s.beware (¬ s.Live r) (.notOwned r) = s := by
    rw [beware, if_neg (not_not.mpr hlive)]
  rw [curlEventLoopCancel]
  dsimp only
  rw [hbeware, if_pos hlink]

/-- A call that finds no link is accepted. -/
theorem cancel_of_no_link (hlink : ¬ (s.nextCancelled r).isSome = true) :
    (s.curlEventLoopCancel r).1 = true := by
  rw [curlEventLoopCancel]
  dsimp only
  split
  · exact absurd ‹_› hlink
  · split <;> rfl

/-- A call marks no other request. -/
theorem isCancelled_cancelStep (s : Loop ω) (r b : ReqId) :
    (((s.cancelStep r).req b).isCancelled = true → b = r ∨ (s.req b).isCancelled = true) ∧
      ((s.req b).isCancelled = true → ((s.cancelStep r).req b).isCancelled = true) := by
  have hmark : ((update s.req r (s.req r).markCancelled b).isCancelled = true →
      b = r ∨ (s.req b).isCancelled = true) ∧ ((s.req b).isCancelled = true →
      (update s.req r (s.req r).markCancelled b).isCancelled = true) := by
    rcases eq_or_ne b r with rfl | hb
    · exact ⟨fun _ => .inl rfl, fun _ => by rw [Function.update_self]; rfl⟩
    · rw [Function.update_of_ne hb]
      exact ⟨.inr, fun h => h⟩
  rw [cancelStep, curlEventLoopCancel]
  dsimp only
  split
  · exact ⟨.inr, fun h => h⟩
  · split <;> exact hmark

theorem live_cancelStep (s : Loop ω) (r b : ReqId) : (s.cancelStep r).Live b ↔ s.Live b := by
  rw [cancelStep, curlEventLoopCancel]
  dsimp only
  split
  · exact Iff.rfl
  · split <;> exact Iff.rfl

theorem isCancelled_cancels {pre : List ReqId} {b : ReqId} :
    (((run cancelStep s pre).req b).isCancelled = true → b ∈ pre ∨ (s.req b).isCancelled = true) ∧
      ((s.req b).isCancelled = true → ((run cancelStep s pre).req b).isCancelled = true) := by
  induction pre generalizing s with
  | nil => exact ⟨.inr, fun h => h⟩
  | cons a pre ih =>
    have hstep := isCancelled_cancelStep s a b
    constructor
    · intro h
      rcases ih.1 h with hpre | hfirst
      · exact .inl (List.mem_cons_of_mem a hpre)
      · exact (hstep.1 hfirst).imp_left fun (heq : b = a) => heq ▸ List.mem_cons_self
    · exact fun h => ih.2 (hstep.2 h)

theorem live_cancels {pre : List ReqId} {b : ReqId} :
    (run cancelStep s pre).Live b ↔ s.Live b := by
  induction pre generalizing s with
  | nil => exact Iff.rfl
  | cons a pre ih => exact ih.trans (live_cancelStep s a b)

/-- A call for a request that is recognised, if it was cancelled before, keeps the list in order,
and leaves the request marked. -/
theorem WF.recancel (h : s.WF v C) (hlive : s.Live r) (hseen : s.Recognised r) :
    ∃ C', (s.cancelStep r).WF v C' ∧ ((s.cancelStep r).req r).isCancelled = true := by
  cases hc : (s.req r).isCancelled with
  | true =>
    have hlink := (h.link_isSome_iff hlive).mpr (h.marked.cancelledList_eq ▸ hseen hc)
    rw [cancelStep, cancel_of_link hlive hlink]
    exact ⟨C, h, hc⟩
  | false =>
    have hr : r ∉ C := fun hr => absurd (hc.symm.trans (h.marked.cancelled r hr)) (by simp)
    obtain ⟨t, ht, -, -, -, hreq, hwf⟩ := h.cancel_eq hlive hr
    rw [cancelStep, ht, hreq, Function.update_self]
    exact ⟨_, hwf, rfl⟩

theorem WF.cancels (h : s.WF v C) (hlive : ∀ r ∈ rs, s.Live r)
    (has : Allowed cancelStep Recognised s rs) :
    ∃ C', (run cancelStep s rs).WF v C' ∧
      ∀ r ∈ rs, ((run cancelStep s rs).req r).isCancelled = true := by
  induction rs generalizing s C with
  | nil => exact ⟨C, h, nofun⟩
  | cons r rs ih =>
    obtain ⟨hr, hrs⟩ := List.forall_mem_cons.mp hlive
    obtain ⟨C₁, hwf, hmark⟩ := h.recancel hr has.1
    obtain ⟨C', hwf', hmarks⟩ := ih hwf (fun b hb => (live_cancelStep s r b).mpr (hrs b hb)) has.2
    exact ⟨C', hwf', 
      List.forall_mem_cons.mpr ⟨(isCancelled_cancels (s := s.cancelStep r)).2 hmark, hmarks⟩⟩

/-- **When cancelling is idempotent.** In every state reached by a run that met no hazard, for every
sequence of calls for live requests: if and only if each request that was cancelled before is, when
it is cancelled again, on the cancelled list and not the last one there. -/
theorem cancelsIdempotently_iff (env : Env ω) (mem : Memory) (world : ω) (as : List Action)
    (rs : List ReqId) :
    let s := run (Loop.act env) (curlEventLoopInit mem world) as
    s.hazards = [] → (∀ r ∈ rs, s.Live r) →
      (CancelsIdempotently s rs ↔ Allowed cancelStep Recognised s rs) := by
  intro s hz hlive
  obtain ⟨v, C, hwf, -⟩ := resting_run mem world hz
  constructor
  · intro hidem
    -- From the first call on, the list is in order as long as requests are recognised.
    suffices ∀ pre, pre <+: rs → Allowed cancelStep Recognised s pre from this rs List.prefix_rfl
    intro pre
    induction pre using List.reverseRecOn with
    | nil => exact fun _ => trivial
    | append_singleton pre r ih =>
      intro hpre
      have hallowed := ih ((List.prefix_append pre [r]).trans hpre)
      refine allowed_append.mpr ⟨hallowed, fun hc => ?_, trivial⟩
      have hmem : ∀ b ∈ pre ++ [r], s.Live b := fun b hb => hlive b (hpre.subset hb)
      obtain ⟨C', hwf', -⟩ := hwf.cancels
        (fun b hb => hmem b (List.mem_append_left [r] hb)) hallowed
      have hrefused := (hidem pre r hpre).2 (isCancelled_cancels.1 hc)
      have hlink : ((run cancelStep s pre).nextCancelled r).isSome = true := by
        by_contra hlink
        have hyes := cancel_of_no_link hlink
        rw [hrefused] at hyes
        exact Bool.false_ne_true hyes
      rw [hwf'.marked.cancelledList_eq]
      exact (hwf'.link_isSome_iff (live_cancels.mpr (hmem r List.mem_concat_self))).mp hlink
  · intro hallowed pre r hpre
    obtain ⟨post, rfl⟩ := hpre
    have hfirst := (allowed_append.mp hallowed).1
    have hmem : ∀ b ∈ pre ++ [r], s.Live b := fun b hb => hlive b (List.mem_append_left post hb)
    obtain ⟨hbefore, hseen, -⟩ := allowed_append.mp hfirst
    obtain ⟨C₁, hwf₁, hmarks⟩ := hwf.cancels
      (fun b hb => hmem b (List.mem_append_left [r] hb)) hbefore
    obtain ⟨C₂, hwf₂, -⟩ := hwf.cancels hmem hfirst
    refine ⟨⟨C₂, hwf₂.marked.nodup, hwf₂.marked.chain⟩, fun hagain => ?_⟩
    have hlive₁ : (run cancelStep s pre).Live r := live_cancels.mpr (hmem r List.mem_concat_self)
    have hc : ((run cancelStep s pre).req r).isCancelled = true :=
      hagain.elim (hmarks r) isCancelled_cancels.2
    have hplace := hseen hc
    rw [hwf₁.marked.cancelledList_eq] at hplace
    exact cancel_of_link hlive₁ ((hwf₁.link_isSome_iff hlive₁).mpr hplace)

/-- Two active requests are cancelled, and then the second one again. -/
theorem cancelsIdempotently_iff_two :
    let s := run (Loop.act Env.uneventful) (curlEventLoopInit (Memory.plain fun _ => []) ())
      [.call (.api (.submit 1 0)), .call (.api (.submit 2 0)), .processCancelledAndPendingRequests]
    CancelsIdempotently s [1, 2, 2] ↔ Allowed cancelStep Recognised s [1, 2, 2] :=
  cancelsIdempotently_iff Env.uneventful (Memory.plain fun _ => []) ()
    [.call (.api (.submit 1 0)), .call (.api (.submit 2 0)), .processCancelledAndPendingRequests]
    [1, 2, 2] (by decide +kernel) (by decide +kernel)

/-- Two active requests are cancelled, and then the first one again: the list is a ring. -/
theorem not_cancelsIdempotently_last :
    let s := run (Loop.act Env.uneventful) (curlEventLoopInit (Memory.plain fun _ => []) ())
      [.call (.api (.submit 1 0)), .call (.api (.submit 2 0)), .processCancelledAndPendingRequests]
    s.hazards = [] ∧ (∀ r ∈ [1, 2, 1], s.Live r) ∧ ¬ CancelsIdempotently s [1, 2, 1] ∧
      (run cancelStep s [1, 2, 1]).cancelledRequests = some 1 ∧
      (run cancelStep s [1, 2, 1]).nextCancelled 1 = some 2 ∧
      (run cancelStep s [1, 2, 1]).nextCancelled 2 = some 1 := by
  intro s
  refine ⟨by decide +kernel, by decide +kernel, fun h => ?_, by decide +kernel, by decide +kernel,
    by decide +kernel⟩
  have hrefused := (h [1, 2] 1 List.prefix_rfl).2 (by decide)
  exact absurd (congrArg Prod.fst hrefused) (by decide +kernel)

end Loop

end CurlLoop
