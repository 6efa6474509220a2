import Mathlib.Data.List.Basic
import Mathlib.Data.List.Perm.Basic

/-!
# Overwriting the entries of a list

`overwrite p x l` puts `x` in the place of every entry of `l` that `p` selects, and at the end if
there is none. Read `p` as "belongs to this key" and the list as a table with keys: this is the
update of a table in which a key may occur more than once.

Nothing is said about keys here. Two updates are independent when no entry is selected by both, and
this is all their proofs use: the two substitutions commute entry by entry. The order of the two
updates is visible in the list only if both of them append.

## Main definitions

* `substitute p x a` — `x` in the place of an entry that is selected
* `overwrite p x l`

## Main results

* `filter_overwrite`, `filter_not_overwrite` — what is selected afterwards, and what is not
* `overwrite_overwrite` — the second update of a key makes the first one void
* `overwrite_comm_of_any`, `overwrite_comm_perm` — independent updates commute
-/

namespace Overwrite

variable {α : Type*} {p q : α → Bool} {x y : α} {l : List α}

/-! ### One entry -/

def substitute (p : α → Bool) (x a : α) : α := if p a then x else a

theorem substitute_of_pos {a : α} (h : p a) : substitute p x a = x := if_pos h

theorem substitute_of_neg {a : α} (h : ¬ p a) : substitute p x a = a := if_neg h

/-- An entry that is put where an entry was selected is selected again. -/
theorem apply_substitute (hx : p x) (a : α) : p (substitute p x a) = p a := by
  by_cases h : p a
  · rw [substitute_of_pos h, hx, h]
  · rw [substitute_of_neg h]

theorem substitute_substitute (hx : p x) (a : α) :
    substitute p y (substitute p x a) = substitute p y a := by
  by_cases h : p a
  · rw [substitute_of_pos h, substitute_of_pos hx, substitute_of_pos h]
  · rw [substitute_of_neg h]

/-- Entries that no other key selects are invisible to the other key. -/
theorem apply_substitute_of_disjoint (hx : p x) (h : ∀ a, p a → ¬ q a) (a : α) :
    q (substitute p x a) = q a := by
  by_cases ha : p a
  · rw [substitute_of_pos ha, Bool.eq_false_iff.mpr (h x hx), Bool.eq_false_iff.mpr (h a ha)]
  · rw [substitute_of_neg ha]

theorem substitute_comm (hx : p x) (hy : q y) (h : ∀ a, p a → ¬ q a) (a : α) :
    substitute p x (substitute q y a) = substitute q y (substitute p x a) := by
  by_cases ha : p a
  · have hnot := h a ha
    rw [substitute_of_neg hnot, substitute_of_pos ha, substitute_of_neg (h x hx)]
  · rw [substitute_of_neg ha]
    by_cases hb : q a
    · rw [substitute_of_pos hb, substitute_of_neg fun hpy => h y hpy hy]
    · rw [substitute_of_neg hb, substitute_of_neg ha]

/-! ### The list -/

/-- Put `x` in the place of every entry that is selected, and at the end if there is none. -/
def overwrite (p : α → Bool) (x : α) (l : List α) : List α :=
  if l.any p then l.map (substitute p x) else l ++ [x]

theorem overwrite_of_any (h : l.any p) : overwrite p x l = l.map (substitute p x) := if_pos h

theorem overwrite_of_not_any (h : ¬ l.any p) : overwrite p x l = l ++ [x] := if_neg h

theorem filter_eq_nil_of_not_any (h : ¬ l.any p) : l.filter p = [] := by
  rw [List.filter_eq_nil_iff]
  intro a ha hpa
  exact h (List.any_eq_true.mpr ⟨a, ha, hpa⟩)

theorem map_substitute_of_not_any (h : ¬ l.any p) : l.map (substitute p x) = l := by
  conv_rhs => rw [← List.map_id l]
  refine List.map_congr_left fun a ha => substitute_of_neg fun hpa => h ?_
  exact List.any_eq_true.mpr ⟨a, ha, hpa⟩

theorem any_map_substitute (hx : p x) : (l.map (substitute p x)).any p = l.any p := by
  rw [List.any_map]
  exact congrArg l.any (funext (apply_substitute hx))

theorem any_overwrite (hx : p x) : (overwrite p x l).any p = true := by
  by_cases h : l.any p
  · rw [overwrite_of_any h, any_map_substitute hx, h]
  · rw [overwrite_of_not_any h, List.any_append]
    simp [hx]

/-- **What is selected afterwards.** Every entry that was selected has become `x`. -/
theorem filter_overwrite (hx : p x) :
    (overwrite p x l).filter p = List.replicate (max 1 (l.filter p).length) x := by
  by_cases h : l.any p
  · have hmap : (l.map (substitute p x)).filter p = (l.filter p).map fun _ => x := by
      rw [List.filter_map, show p ∘ substitute p x = p from funext (apply_substitute hx)]
      exact List.map_congr_left fun a ha => substitute_of_pos (List.mem_filter.mp ha).2
    have hone : 1 ≤ (l.filter p).length := by
      obtain ⟨a, ha, hpa⟩ := List.any_eq_true.mp h
      exact List.length_pos_of_mem (List.mem_filter.mpr ⟨ha, hpa⟩)
    rw [overwrite_of_any h, hmap, List.map_const', Nat.max_eq_right hone]
  · rw [overwrite_of_not_any h, List.filter_append, filter_eq_nil_of_not_any h]
    simp [hx]

/-- **What is not selected stays**, in its order. -/
theorem filter_not_overwrite (hx : p x) :
    (overwrite p x l).filter (fun a => !p a) = l.filter fun a => !p a := by
  by_cases h : l.any p
  · have hnot : (fun a => !p a) ∘ substitute p x = fun a => !p a :=
      funext fun a => congrArg not (apply_substitute hx a)
    rw [overwrite_of_any h, List.filter_map, hnot]
    conv_rhs => rw [← List.map_id (l.filter fun a => !p a)]
    refine List.map_congr_left fun a ha => substitute_of_neg ?_
    simpa using (List.mem_filter.mp ha).2
  · rw [overwrite_of_not_any h, List.filter_append]
    simp [hx]

/-- **The last update of a key wins.** -/
theorem overwrite_overwrite (hx : p x) : overwrite p y (overwrite p x l) = overwrite p y l := by
  rw [overwrite_of_any (any_overwrite hx)]
  by_cases h : l.any p
  · rw [overwrite_of_any h, overwrite_of_any h, List.map_map]
    exact List.map_congr_left fun a _ => substitute_substitute hx a
  · rw [overwrite_of_not_any h, overwrite_of_not_any h, List.map_append,
      map_substitute_of_not_any h, List.map_singleton, substitute_of_pos hx]

/-! ### Two keys -/

section Disjoint

variable (hx : p x) (hy : q y) (hdisj : ∀ a, p a → ¬ q a)

include hx hdisj in
theorem any_overwrite_of_disjoint : (overwrite p x l).any q = l.any q := by
  by_cases h : l.any p
  · rw [overwrite_of_any h, List.any_map]
    exact congrArg l.any (funext (apply_substitute_of_disjoint hx hdisj))
  · rw [overwrite_of_not_any h, List.any_append]
    simp [hdisj x hx]

include hx hy hdisj

/-- An update that finds its key commutes with an update of another key, and not only up to the
order of the entries. -/
theorem overwrite_comm_of_any (h : l.any p) :
    overwrite p x (overwrite q y l) = overwrite q y (overwrite p x l) := by
  have hdisj' : ∀ a, q a → ¬ p a := fun a hq hp => hdisj a hp hq
  have hany : (overwrite q y l).any p := by rw [any_overwrite_of_disjoint hy hdisj', h]
  rw [overwrite_of_any hany, overwrite_of_any h]
  by_cases hq : l.any q
  · have hqany : (l.map (substitute p x)).any q := by
      rw [← overwrite_of_any h, any_overwrite_of_disjoint hx hdisj, hq]
    rw [overwrite_of_any hq, overwrite_of_any hqany, List.map_map, List.map_map]
    exact List.map_congr_left fun a _ => substitute_comm hx hy hdisj a
  · have hqany : ¬ (l.map (substitute p x)).any q := by
      rwa [← overwrite_of_any h, any_overwrite_of_disjoint hx hdisj]
    rw [overwrite_of_not_any hq, overwrite_of_not_any hqany, List.map_append, List.map_singleton,
      substitute_of_neg (hdisj' y hy)]

/-- **Updates of two keys are independent.** The order of the two decides no more than the order of
the entries they append. -/
theorem overwrite_comm_perm :
    (overwrite p x (overwrite q y l)).Perm (overwrite q y (overwrite p x l)) := by
  have hdisj' : ∀ a, q a → ¬ p a := fun a hq hp => hdisj a hp hq
  by_cases h : l.any p
  · exact .of_eq (overwrite_comm_of_any hx hy hdisj h)
  by_cases hq : l.any q
  · exact .of_eq (overwrite_comm_of_any hy hx hdisj' hq).symm
  have hany : ¬ (overwrite q y l).any p := by rwa [any_overwrite_of_disjoint hy hdisj']
  have hqany : ¬ (overwrite p x l).any q := by rwa [any_overwrite_of_disjoint hx hdisj]
  rw [overwrite_of_not_any hany, overwrite_of_not_any hqany, overwrite_of_not_any h,
    overwrite_of_not_any hq, List.append_assoc, List.append_assoc]
  exact (List.perm_append_comm).append_left l

end Disjoint

end Overwrite
