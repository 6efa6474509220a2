import Mathlib.Algebra.Order.Field.Basic
import Mathlib.Tactic.Linarith
import Mathlib.Tactic.Ring

/-!
# Token buckets

A bucket fills at a constant rate and never holds more than it gains in one unit of time. It is
brought up to date by `refill` whenever somebody looks at it, at any times and as often as they
like, and whoever finds a whole token in it may `take` one.

The bound on the number of tokens taken in a window of time is a potential argument. What was taken
since the window began, together with what the bucket holds, is at most the rate times one unit of
time more than the window has lasted: `Bucket.Spent`. A refill adds to the right hand side at least
what it adds to the left, and taking a token moves it from the bucket to the count.

## Main definitions

* `Bucket` — a bucket, never overdrawn and never overfull
* `Bucket.full`, `Bucket.refill`, `Bucket.take`
* `Bucket.Spent` — the potential

## Main results

* `Bucket.Spent.refill`, `Bucket.Spent.take` — the potential is kept
* `Bucket.Spent.count_le` — the bound for a window
-/

namespace TokenBucket

variable {K : Type*} [Field K] [LinearOrder K]

/-- A bucket: the tokens it gains in a unit of time, the tokens it holds, and the time at which it
was last brought up to date. -/
@[ext] structure Bucket (K : Type*) [Field K] [LinearOrder K] where
  rate : K
  level : K
  last : K
  level_nonneg : 0 ≤ level
  level_le : level ≤ rate

namespace Bucket

theorem rate_nonneg (b : Bucket K) : 0 ≤ b.rate := b.level_nonneg.trans b.level_le

/-- `n` tokens were taken since time `t`. Either nobody looked at the bucket since then and none
was, or the bucket has been brought up to date and the tokens taken and those it holds are
accounted for. -/
def Spent (b : Bucket K) (t : K) (n : ℕ) : Prop :=
  n = 0 ∨ t ≤ b.last ∧ n + b.level ≤ b.rate + b.rate * (b.last - t)

theorem spent_zero (b : Bucket K) (t : K) : b.Spent t 0 := .inl rfl

variable [IsStrictOrderedRing K]

/-- A bucket that has just been filled. -/
def full (rate : K) (h : 0 ≤ rate) (now : K) : Bucket K where
  rate := rate
  level := rate
  last := now
  level_nonneg := h
  level_le := le_rfl

/-- Bring a bucket up to date. -/
def refill (b : Bucket K) {now : K} (h : b.last ≤ now) : Bucket K where
  rate := b.rate
  level := min b.rate (b.level + (now - b.last) * b.rate)
  last := now
  level_nonneg := le_min b.rate_nonneg
    (add_nonneg b.level_nonneg (mul_nonneg (sub_nonneg.mpr h) b.rate_nonneg))
  level_le := min_le_left _ _

/-- Take a token. -/
def take (b : Bucket K) (h : 1 ≤ b.level) : Bucket K where
  rate := b.rate
  level := b.level - 1
  last := b.last
  level_nonneg := sub_nonneg.mpr h
  level_le := (sub_le_self _ zero_le_one).trans b.level_le

/-- When the bucket is brought up to date inside the window, the tokens are accounted for. -/
theorem Spent.accounted {b : Bucket K} {t : K} {n : ℕ} (h : b.Spent t n) {now : K}
    (hlast : b.last ≤ now) (ht : t ≤ now) :
    n + (b.refill hlast).level ≤ b.rate + b.rate * (now - t) := by
  rcases h with rfl | ⟨hb, h⟩
  · -- The window begins between two refills. The bucket holds no more than its rate.
    have hlevel : (b.refill hlast).level ≤ b.rate := (b.refill hlast).level_le
    have hgain : 0 ≤ b.rate * (now - t) := mul_nonneg b.rate_nonneg (sub_nonneg.mpr ht)
    have hzero : ((0 : ℕ) : K) = 0 := Nat.cast_zero
    linarith
  · have hlevel : (b.refill hlast).level ≤ b.level + (now - b.last) * b.rate := min_le_right _ _
    calc (n : K) + (b.refill hlast).level
        ≤ n + (b.level + (now - b.last) * b.rate) := by linarith
      _ = (n + b.level) + b.rate * (now - b.last) := by ring
      _ ≤ (b.rate + b.rate * (b.last - t)) + b.rate * (now - b.last) := by linarith
      _ = b.rate + b.rate * (now - t) := by ring

theorem Spent.refill {b : Bucket K} {t : K} {n : ℕ} (h : b.Spent t n) {now : K}
    (hlast : b.last ≤ now) (ht : t ≤ now) : (b.refill hlast).Spent t n :=
  .inr ⟨ht, h.accounted hlast ht⟩

/-- A token is taken from a bucket that has been brought up to date. -/
theorem Spent.take {b : Bucket K} {t : K} {n : ℕ} (h : b.Spent t n) {now : K}
    (hlast : b.last ≤ now) (ht : t ≤ now) (hlevel : 1 ≤ (b.refill hlast).level) :
    ((b.refill hlast).take hlevel).Spent t (n + 1) := by
  refine .inr ⟨ht, ?_⟩
  have hbefore := h.accounted hlast ht
  calc ((n + 1 : ℕ) : K) + ((b.refill hlast).level - 1)
      = n + (b.refill hlast).level := by push_cast; ring
    _ ≤ b.rate + b.rate * (now - t) := hbefore

/-- **The rate is kept.** In a window of time no more tokens are taken than the bucket can hold and
gain. -/
theorem Spent.count_le {b : Bucket K} {t t' : K} {n : ℕ} (h : b.Spent t n) (hlast : b.last ≤ t')
    (ht : t ≤ t') : (n : K) ≤ b.rate + b.rate * (t' - t) := by
  have haccounted := h.accounted hlast ht
  have hlevel := (b.refill hlast).level_nonneg
  linarith

end Bucket

end TokenBucket
