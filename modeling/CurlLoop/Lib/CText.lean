import Mathlib.Data.List.DropRight

/-!
# Text in the C locale

The characters of `<ctype.h>` in the C locale, on bytes, the trimming of blanks on either side, and
the number that a string of decimal digits stands for.

A scanner skips blanks, then reads digits. What it reads can be told without it: `number s` are the
digits the string begins with after its blanks. Blanks at the end make no difference to it, so that
a scanner may trim before it reads.

## Main definitions

* `isSpace`, `isDigit`, `toLower` — the functions of `<ctype.h>`
* `ltrim`, `rtrim` — a string without the blanks it begins or ends with
* `decimal` — the number digits stand for
* `numeral` — the digits a string begins with after its blanks

## Main results

* `rtrim_append` — trimming stops at a byte that is no blank
* `numeral_rtrim` — the numeral of a string that was trimmed
-/

namespace CText

/-! ### Characters -/

def isSpace (b : UInt8) : Bool := b == 32 || (9 ≤ b && b ≤ 13)

def isDigit (b : UInt8) : Bool := 48 ≤ b && b ≤ 57

def toLower (b : UInt8) : UInt8 := if 65 ≤ b && b ≤ 90 then b + 32 else b

theorem toNat_le_of_isSpace {b : UInt8} (h : isSpace b) : b.toNat ≤ 32 := by
  simp only [isSpace, Bool.or_eq_true, Bool.and_eq_true, beq_iff_eq, decide_eq_true_eq,
    UInt8.le_iff_toNat_le] at h
  rcases h with rfl | ⟨-, h⟩
  · exact le_rfl
  · exact h.trans (by decide)

/-- A blank is no digit. -/
theorem isDigit_eq_false_of_isSpace {b : UInt8} (h : isSpace b) : isDigit b = false := by
  have hle := toNat_le_of_isSpace h
  have hlt : ¬ 48 ≤ b := fun hdigit =>
    absurd ((UInt8.le_iff_toNat_le.mp hdigit).trans hle) (by decide)
  simp [isDigit, hlt]

/-- A blank is no letter of either case. -/
theorem not_isSpace_of_toLower {b : UInt8} (h : 97 ≤ (toLower b).toNat) : ¬ isSpace b := by
  intro hspace
  have hle := toNat_le_of_isSpace hspace
  have hlt : ¬ 65 ≤ b := fun hletter =>
    absurd ((UInt8.le_iff_toNat_le.mp hletter).trans hle) (by decide)
  have hsame : toLower b = b := by simp [toLower, hlt]
  rw [hsame] at h
  omega

/-! ### Trimming -/

def ltrim (s : List UInt8) : List UInt8 := s.dropWhile isSpace

def rtrim (s : List UInt8) : List UInt8 := s.rdropWhile isSpace

/-- Trimming stops at a byte that is no blank. -/
theorem rtrim_append (s t : List UInt8) (h : ∀ hs : s ≠ [], ¬ isSpace (s.getLast hs)) :
    rtrim (s ++ t) = s ++ rtrim t := by
  have hself : (s.reverse.dropWhile isSpace).reverse = s := List.rdropWhile_eq_self_iff.mpr h
  rw [rtrim, rtrim, List.rdropWhile, List.rdropWhile, List.reverse_append, List.dropWhile_append]
  split_ifs with ht
  · rw [hself, List.isEmpty_iff.mp ht, List.reverse_nil, List.append_nil]
  · rw [List.reverse_append, List.reverse_reverse]

/-! ### Numbers -/

/-- The number that a string of decimal digits stands for. -/
def decimal (s : List UInt8) : ℕ := s.foldl (fun n b => n * 10 + (b.toNat - 48)) 0

/-- The digits a string begins with after its blanks. -/
def numeral (s : List UInt8) : List UInt8 := (ltrim s).takeWhile isDigit

theorem numeral_append_of_isSpace (s : List UInt8) {t : List UInt8} (ht : ∀ b ∈ t, isSpace b) :
    numeral (s ++ t) = numeral s := by
  have hnone : t.takeWhile isDigit = [] := by
    cases t with
    | nil => rfl
    | cons b t =>
      exact List.takeWhile_cons_of_neg
        (by simp [isDigit_eq_false_of_isSpace (ht b List.mem_cons_self)])
  rw [numeral, numeral, ltrim, ltrim, List.dropWhile_append]
  split_ifs with hs
  · rw [List.isEmpty_iff.mp hs, List.dropWhile_eq_nil_iff.mpr ht]
  · rw [List.takeWhile_append, hnone, List.append_nil]
    split_ifs with hall
    · exact (List.takeWhile_prefix _).eq_of_length hall |>.symm
    · rfl

/-- Blanks at the end make no difference to the numeral. -/
theorem numeral_rtrim (s : List UInt8) : numeral (rtrim s) = numeral s := by
  conv_rhs => rw [← List.rdropWhile_append_rtakeWhile (p := isSpace) (l := s)]
  exact (numeral_append_of_isSpace _ fun b => List.mem_rtakeWhile_imp).symm

end CText
