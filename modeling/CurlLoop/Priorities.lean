import CurlLoop.Resubmit
import Mathlib.Algebra.Order.Ring.Int

/-!
# The time a priority is worth

Both submission functions turn a priority into a time: the request is due a second earlier for each
step of it. They do so in two ways. `curl_event_request_submit` takes a negative priority for none,
and leaves the time alone where the seconds would take it below zero. `curl_event_loop_submit`
subtracts modulo `2 ^ 64`, whatever the sign.

So long as a priority is worth less than the reading of the clock, both subtract. One that is worth
more is lost on the first function, and on the second makes the request due centuries from now. A
negative priority that takes the time past `2 ^ 64` makes it due at once.

## Main definitions

* `Submission.due` — the time a submission leaves
* `RanksAlike` — what is claimed of two priorities
* `WorthLess`, `WrapsAlike` — the priorities for which it is so

## Main results

* `ranksAlike_iff`
-/

namespace CurlLoop

variable {ω : Type}

/-- The `next_retry_at` a submission leaves. -/
def Submission.due (c : Submission) (env : Env ω) (s : Loop ω) (r : ReqId) : ℕ :=
  ((c.call env s r).2.req r).nextRetryAt

/-- The greater of two priorities is not due later, whichever function is called, and with a priority
that is not negative it does not matter which. -/
structure RanksAlike (env : Env ω) (s : Loop ω) (r : ReqId) (p q : ℤ) : Prop where
  request : q < p → p ≠ 0 → q ≠ 0 →
    (Submission.request p).due env s r ≤ (Submission.request q).due env s r
  loop : q < p → p ≠ 0 → q ≠ 0 →
    (Submission.loop p).due env s r ≤ (Submission.loop q).due env s r
  agree : 0 ≤ p → (Submission.request p).due env s r = (Submission.loop p).due env s r

/-- A priority is worth less than the reading of the clock. -/
def WorthLess (now : ℕ) (p : ℤ) : Prop := p * 1000000000 < now

instance (now : ℕ) (p : ℤ) : Decidable (WorthLess now p) := inferInstanceAs (Decidable (_ < _))

/-- Two priorities take the time past the end of its type, or neither does. -/
def WrapsAlike (now : ℕ) (p q : ℤ) : Prop :=
  2 ^ 64 ≤ now - p * 1000000000 ↔ 2 ^ 64 ≤ now - q * 1000000000

instance (now : ℕ) (p q : ℤ) : Decidable (WrapsAlike now p q) := inferInstanceAs (Decidable (_ ↔ _))

/-! ### The two times -/

section Times

variable {env : Env ω} {s : Loop ω} {r : ReqId}

theorem due_loop (env : Env ω) (s : Loop ω) (r : ReqId) (p : ℤ) :
    (Submission.loop p).due env s r =
      u64 ((env.macroNow s.world).1 - p * 1000000000) := by
  have h : ((s.curlEventLoopSubmit env r p).req r).nextRetryAt =
      u64 ((env.macroNow s.world).1 - p * 1000000000) := by
    simp only [Loop.curlEventLoopSubmit, Loop.pushPending, Loop.modifyReq, Loop.setNextPending,
      Loop.beware, Function.update_self]
    rfl
  exact h

/-- A request of no priority of its own, that the function takes. -/
structure Fresh (q : Request) : Prop where
  url : q.url ≠ none
  isPending : q.isPending = false
  multiHandle : q.multiHandle = false
  priority : q.priority = 0

theorem due_request (hfresh : Fresh (s.req r)) (p : ℤ) :
    (Submission.request p).due env s r = Loop.submitRetryAt (env.macroNow s.world).1 p := by
  have hpri : (if p ≠ 0 then p else (s.req r).priority) = p := by
    rw [hfresh.priority]
    split_ifs <;> omega
  have h : ((s.curlEventRequestSubmit env r p).2.req r).nextRetryAt =
      Loop.submitRetryAt (env.macroNow s.world).1 p := by
    rw [Loop.curlEventRequestSubmit]
    simp only [hfresh.url, hfresh.isPending, hfresh.multiHandle, Bool.false_eq_true, or_self,
      if_false, hpri, Loop.pushPending, Loop.modifyReq, Loop.setNextPending, Loop.beware,
      Function.update_self]
    rfl
  exact h

end Times

/-! ### Arithmetic -/

section Arithmetic

variable {now : ℕ} {p q : ℤ}

theorem submitRetryAt_of_pos (hpos : 0 < p) :
    (Loop.submitRetryAt now p : ℤ) = if WorthLess now p then now - p * 1000000000 else now := by
  have hworth : (p.toNat * 1000000000 : ℤ) = p * 1000000000 := by omega
  have hne : p ≠ 0 := hpos.ne'
  rw [Loop.submitRetryAt, if_pos hpos]
  by_cases h : WorthLess now p
  · rw [if_pos h]
    rw [WorthLess] at h
    rw [if_pos ⟨hne, by omega⟩]
    omega
  · rw [if_neg h]
    rw [WorthLess] at h
    rw [if_neg fun hif => h (by omega)]

theorem submitRetryAt_of_not_pos (hpos : ¬ 0 < p) : Loop.submitRetryAt now p = now := by
  rw [Loop.submitRetryAt, if_neg hpos, Int.toNat_zero, Nat.zero_mul]
  exact ite_self now

/-- A number that leaves the type by less than its size comes back at the other end. -/
theorem u64_cast {x : ℤ} (hlow : -2 ^ 64 ≤ x) (hhigh : x < 2 ^ 65) :
    (u64 x : ℤ) = if x < 0 then x + 2 ^ 64 else if x < 2 ^ 64 then x else x - 2 ^ 64 := by
  rw [u64, Int.toNat_of_nonneg (Int.emod_nonneg _ (by decide))]
  split_ifs with hneg hfits
  · rw [← Int.add_emod_right, Int.emod_eq_of_lt (by omega) (by omega)]
  · exact Int.emod_eq_of_lt (by omega) (by omega)
  · rw [← Int.sub_emod_right, Int.emod_eq_of_lt (by omega) (by omega)]

/-- Two times at most one size apart keep their order unless only one of them leaves the type, at
either end. -/
theorem u64_le_iff {x y : ℤ} (hlow : -2 ^ 64 ≤ x) (hhigh : y < 2 ^ 65) (hlt : x < y)
    (hclose : y < x + 2 ^ 64) :
    u64 x ≤ u64 y ↔ (x < 0 ↔ y < 0) ∧ (2 ^ 64 ≤ x ↔ 2 ^ 64 ≤ y) := by
  have hx := u64_cast hlow (hlt.trans hhigh)
  have hy := u64_cast (hlow.trans hlt.le) hhigh
  rw [← Int.ofNat_le, hx, hy]
  split_ifs <;> omega

/-- The two functions agree on what they both subtract. -/
theorem submitRetryAt_eq_iff (hnow : now < 2 ^ 64) (hnonneg : 0 ≤ p) (hp : p < 2 ^ 31) :
    Loop.submitRetryAt now p = u64 (now - p * 1000000000) ↔ (0 < p → WorthLess now p) := by
  have hu := u64_cast (x := now - p * 1000000000) (by omega) (by omega)
  rw [← Int.ofNat_inj, hu]
  rcases hnonneg.eq_or_lt with rfl | hpos
  · rw [submitRetryAt_of_not_pos (lt_irrefl 0)]
    split_ifs <;> omega
  · rw [submitRetryAt_of_pos hpos, forall_prop_of_true hpos]
    by_cases h : WorthLess now p
    · refine iff_of_true ?_ h
      rw [if_pos h]
      rw [WorthLess] at h
      split_ifs <;> omega
    · refine iff_of_false ?_ h
      rw [if_neg h]
      rw [WorthLess] at h
      split_ifs <;> omega

/-- The first function keeps the order where the greater priority is not worth too much. -/
theorem submitRetryAt_le (h : q < p) (hworth : 0 < p → WorthLess now p) :
    Loop.submitRetryAt now p ≤ Loop.submitRetryAt now q := by
  by_cases hp : 0 < p
  · have hless : WorthLess now p := hworth hp
    rw [← Int.ofNat_le, submitRetryAt_of_pos hp, if_pos hless]
    rw [WorthLess] at hless
    by_cases hq : 0 < q
    · rw [submitRetryAt_of_pos hq, if_pos]
      · omega
      · rw [WorthLess]
        omega
    · rw [submitRetryAt_of_not_pos hq]
      omega
  · rw [submitRetryAt_of_not_pos hp, submitRetryAt_of_not_pos (by omega)]

end Arithmetic

/-- **Priorities rank alike on both functions** when a positive one is worth less than the reading of
the clock and no negative one takes the time past its type alone, and only then. -/
theorem ranksAlike_iff (env : Env ω) (s : Loop ω) (r : ReqId) (p q : ℤ) (hfresh : Fresh (s.req r))
    (hnow : (env.macroNow s.world).1 < 2 ^ 64) (hp : -2 ^ 31 ≤ p ∧ p < 2 ^ 31)
    (hq : -2 ^ 31 ≤ q ∧ q < 2 ^ 31) :
    RanksAlike env s r p q ↔
      (0 < p → WorthLess (env.macroNow s.world).1 p) ∧
        (q < p → p ≠ 0 → q ≠ 0 → WrapsAlike (env.macroNow s.world).1 p q) := by
  have hloop : q < p → ((Submission.loop p).due env s r ≤ (Submission.loop q).due env s r ↔
      ((env.macroNow s.world).1 - p * 1000000000 < 0 ↔
        (env.macroNow s.world).1 - q * 1000000000 < 0) ∧
        WrapsAlike (env.macroNow s.world).1 p q) := by
    intro hlt
    rw [due_loop, due_loop]
    exact u64_le_iff (by omega) (by omega) (by omega) (by omega)
  constructor
  · intro h
    have hworth : 0 < p → WorthLess (env.macroNow s.world).1 p := fun hpos => by
      have hagree := h.agree hpos.le
      rw [due_request hfresh, due_loop, submitRetryAt_eq_iff hnow hpos.le hp.2] at hagree
      exact hagree hpos
    exact ⟨hworth, fun hlt hpne hqne => ((hloop hlt).mp (h.loop hlt hpne hqne)).2⟩
  · rintro ⟨hworth, hwraps⟩
    refine ⟨fun hlt _ _ => ?_, fun hlt hpne hqne => (hloop hlt).mpr ⟨?_, hwraps hlt hpne hqne⟩,
      fun hnonneg => ?_⟩
    · rw [due_request hfresh, due_request hfresh]
      exact submitRetryAt_le hlt hworth
    · rw [WorthLess] at hworth
      omega
    · rw [due_request hfresh, due_loop]
      exact (submitRetryAt_eq_iff hnow hnonneg hp.2).mpr hworth

/-- Ten seconds after the clock started. -/
def Env.tenSeconds : Env Unit := { Env.uneventful with macroNow := fun _ => (10000000000, ()) }

/-- Five seconds and three are both less than ten. -/
theorem ranksAlike_five_three :
    RanksAlike Env.tenSeconds (curlEventLoopInit (Memory.plain fun _ => []) ()) 1 5 3 :=
  (ranksAlike_iff _ _ _ 5 3 ⟨by decide, rfl, rfl, rfl⟩ (by decide) (by decide) (by decide)).mpr
    (by decide)

/-- Twenty seconds are more than ten. With priority 20 the first function makes the request due after
one of priority 5, and so does the second, at another time. -/
theorem not_ranksAlike_twenty_five :
    ¬ RanksAlike Env.tenSeconds (curlEventLoopInit (Memory.plain fun _ => []) ()) 1 20 5 :=
  fun h => absurd (h.request (by decide) (by decide) (by decide)) (by decide)

end CurlLoop
