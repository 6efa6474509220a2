import Mathlib.Data.BitVec
import Mathlib.Data.Fintype.EquivFin
import Mathlib.Data.Fintype.Pi
import Mathlib.Logic.Function.Iterate

/-!
# Xorshift permutations

A xorshift generator scrambles its state with `x ^= x >> k` and `x ^= x << k`, and its output with a
multiplication by an odd constant. Each of these permutes the words of a width, so a generator made
of them takes every value.

The reason is the same for both shifts: a shift by a positive amount respects exclusive or, and
repeated often enough it leaves nothing.

## Main definitions

* `XorShift.right`, `XorShift.left` — the two steps

## Main results

* `XorShift.surjective_right`, `XorShift.surjective_left`
* `XorShift.surjective_mul` — multiplication by a constant that has an inverse
* `XorShift.iterate_ne_zero` — a generator that starts from a word other than zero never reaches zero
-/

namespace CurlLoop

namespace XorShift

variable {w : ℕ}

/-- `x ^= x >> k`. -/
def right (k : ℕ) (x : BitVec w) : BitVec w := x ^^^ (x >>> k)

/-- `x ^= x << k`. -/
def left (k : ℕ) (x : BitVec w) : BitVec w := x ^^^ (x <<< k)

theorem eq_of_xor_eq_zero {x y : BitVec w} (h : x ^^^ y = 0) : x = y := by
  calc x = x ^^^ (y ^^^ y) := by simp
    _ = (x ^^^ y) ^^^ y := (BitVec.xor_assoc x y y).symm
    _ = y := by rw [h]; simp

/-- An operation that respects exclusive or and dies out only fixes zero, so adding it to the
identity loses nothing. -/
theorem injective_xor_self {f : BitVec w → BitVec w} {n : ℕ}
    (hadd : ∀ x y, f (x ^^^ y) = f x ^^^ f y) (hnil : ∀ x, f^[n] x = 0) :
    Function.Injective fun x => x ^^^ f x := by
  intro x y h
  have hfix : f (x ^^^ y) = x ^^^ y := by
    refine (eq_of_xor_eq_zero ?_).symm
    calc (x ^^^ y) ^^^ f (x ^^^ y) = (x ^^^ f x) ^^^ (y ^^^ f y) := by rw [hadd]; ac_rfl
      _ = (y ^^^ f y) ^^^ (y ^^^ f y) := by rw [show x ^^^ f x = y ^^^ f y from h]
      _ = 0 := by simp
  have hzero : x ^^^ y = 0 := by rw [← hnil (x ^^^ y), Function.iterate_fixed hfix]
  exact eq_of_xor_eq_zero hzero

theorem iterate_ushiftRight (k n : ℕ) (x : BitVec w) :
    (fun y : BitVec w => y >>> k)^[n] x = x >>> (k * n) := by
  induction n generalizing x with
  | zero => simp
  | succ n ih => rw [Function.iterate_succ_apply, ih, ← BitVec.shiftRight_add, Nat.mul_succ,
      Nat.add_comm]

theorem iterate_shiftLeft (k n : ℕ) (x : BitVec w) :
    (fun y : BitVec w => y <<< k)^[n] x = x <<< (k * n) := by
  induction n generalizing x with
  | zero => simp
  | succ n ih => rw [Function.iterate_succ_apply, ih, ← BitVec.shiftLeft_add, Nat.mul_succ,
      Nat.add_comm]

theorem injective_right {k : ℕ} (hk : 0 < k) : Function.Injective (right k : BitVec w → BitVec w) :=
  injective_xor_self (n := w) (fun x y => BitVec.ushiftRight_xor_distrib x y k) fun x => by
    rw [iterate_ushiftRight]
    exact BitVec.ushiftRight_eq_zero (Nat.le_mul_of_pos_left w hk)

theorem injective_left {k : ℕ} (hk : 0 < k) : Function.Injective (left k : BitVec w → BitVec w) :=
  injective_xor_self (n := w) (fun x y => BitVec.shiftLeft_xor_distrib x y k) fun x => by
    rw [iterate_shiftLeft]
    exact BitVec.shiftLeft_eq_zero (Nat.le_mul_of_pos_left w hk)

/-- There are finitely many words, so what loses none of them reaches all of them. -/
theorem surjective_of_injective {f : BitVec w → BitVec w} (hf : Function.Injective f) :
    Function.Surjective f := by
  have : Finite (BitVec w) := Finite.of_equiv _ (BitVec.equivFin (m := w)).symm.toEquiv
  exact Finite.surjective_of_injective hf

theorem surjective_right {k : ℕ} (hk : 0 < k) :
    Function.Surjective (right k : BitVec w → BitVec w) := surjective_of_injective (injective_right hk)

theorem surjective_left {k : ℕ} (hk : 0 < k) :
    Function.Surjective (left k : BitVec w → BitVec w) := surjective_of_injective (injective_left hk)

theorem surjective_mul {c d : BitVec w} (h : d * c = 1) :
    Function.Surjective fun x : BitVec w => x * c := by
  intro y
  refine ⟨y * d, ?_⟩
  calc y * d * c = y * (d * c) := mul_assoc y d c
    _ = y := by rw [h, mul_one]

/-! ### The zero word -/

theorem right_eq_zero_iff {k : ℕ} (hk : 0 < k) {x : BitVec w} : right k x = 0 ↔ x = 0 :=
  (injective_right hk).eq_iff' (by simp [right])

theorem left_eq_zero_iff {k : ℕ} (hk : 0 < k) {x : BitVec w} : left k x = 0 ↔ x = 0 :=
  (injective_left hk).eq_iff' (by simp [left])

theorem mul_eq_zero_iff {c d : BitVec w} (h : d * c = 1) {x : BitVec w} : x * c = 0 ↔ x = 0 :=
  (IsUnit.of_mul_eq_one_right d h).mul_left_eq_zero

/-- What sends only zero to zero does not reach it from anywhere else, however often it is
applied. -/
theorem iterate_ne_zero {f : BitVec w → BitVec w} (hf : ∀ x, f x = 0 ↔ x = 0) {x : BitVec w}
    (hx : x ≠ 0) (n : ℕ) : f^[n] x ≠ 0 := by
  induction n with
  | zero => exact hx
  | succ n ih =>
    rw [Function.iterate_succ_apply']
    exact mt (hf _).mp ih

end XorShift

end CurlLoop
