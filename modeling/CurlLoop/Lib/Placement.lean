import Mathlib.Data.List.Perm.Basic
import Mathlib.Data.List.Nodup
import Mathlib.Logic.Function.Basic

/-!
# Placements: every live object in exactly one place

A scheduler owns objects and moves them between containers. Whatever the containers are, the law
that nothing is lost and nothing is duplicated has one form: there is a family of lists
`v : ι → List α`, one list for each place, and an object is alive exactly when it is on one of
them, where it then occurs once.

This file states that law as `Placed v live` and gives the four moves a scheduler makes: carry an
object from one place to another, pour a whole list out, admit a new object, retire one. The
order inside a place is immaterial here, so the moves are stated up to permutation; a caller that
keeps a place sorted supplies the permutation.

## Main definitions

* `Placement.Placed` — the law

## Main results

* `Placement.Placed.move`, `.pour`, `.enter`, `.retire` — the four moves
* `Placement.Placed.existsUnique` — a live object has one place and occurs there once
-/

namespace Placement

variable {ι α : Type*}

/-- Every live object is in exactly one place, where it occurs once; nothing else is anywhere. -/
structure Placed (v : ι → List α) (live : α → Prop) : Prop where
  /-- No place lists an object twice. -/
  nodup : ∀ i, (v i).Nodup
  /-- No object is in two places. -/
  inj : ∀ {i j a}, a ∈ v i → a ∈ v j → i = j
  /-- The objects in places are the live ones. -/
  live_iff : ∀ a, live a ↔ ∃ i, a ∈ v i

variable {v : ι → List α} {live : α → Prop}

theorem Placed.live_of_mem (h : Placed v live) {i : ι} {a : α} (ha : a ∈ v i) : live a :=
  (h.live_iff a).mpr ⟨i, ha⟩

theorem Placed.notMem_of_ne (h : Placed v live) {i j : ι} {a : α} (ha : a ∈ v i) (hij : i ≠ j) :
    a ∉ v j := fun hj => hij (h.inj ha hj)

theorem Placed.notMem_of_not_live (h : Placed v live) {a : α} (ha : ¬ live a) (i : ι) :
    a ∉ v i := fun hi => ha (h.live_of_mem hi)

/-- **One place, once.** -/
theorem Placed.existsUnique [DecidableEq α] (h : Placed v live) {a : α} (ha : live a) :
    ∃ i, (v i).count a = 1 ∧ ∀ j, j ≠ i → a ∉ v j := by
  obtain ⟨i, hi⟩ := (h.live_iff a).mp ha
  exact ⟨i, List.count_eq_one_of_mem (h.nodup i) hi, fun j hj => h.notMem_of_ne hi hj.symm⟩

theorem Placed.congr_live (h : Placed v live) {live' : α → Prop} (hl : ∀ a, live' a ↔ live a) :
    Placed v live' := ⟨h.nodup, h.inj, fun a => (hl a).trans (h.live_iff a)⟩

variable [DecidableEq ι]

/-- Admit a new object at place `j`. -/
theorem Placed.enter (h : Placed v live) {j : ι} {a : α} {lj : List α} (ha : ¬ live a)
    (hj : lj.Perm (a :: v j)) :
    Placed (Function.update v j lj) fun b => b = a ∨ live b := by
  have hmem : ∀ k b, b ∈ Function.update v j lj k ↔ (b = a ∧ k = j) ∨ b ∈ v k := by
    intro k b
    rcases eq_or_ne k j with rfl | hkj
    · rw [Function.update_self, hj.mem_iff, List.mem_cons]
      simp
    · rw [Function.update_of_ne hkj]
      simp [hkj]
  refine ⟨fun k => ?_, fun {k k' b} hk hk' => ?_, fun b => ?_⟩
  · rcases eq_or_ne k j with rfl | hkj
    · rw [Function.update_self, hj.nodup_iff]
      exact List.nodup_cons.mpr ⟨h.notMem_of_not_live ha k, h.nodup k⟩
    · rw [Function.update_of_ne hkj]
      exact h.nodup k
  · rcases (hmem k b).mp hk with ⟨rfl, rfl⟩ | hbk
    · rcases (hmem k' b).mp hk' with ⟨_, rfl⟩ | hbk'
      · rfl
      · exact absurd (h.live_of_mem hbk') ha
    · rcases (hmem k' b).mp hk' with ⟨rfl, _⟩ | hbk'
      · exact absurd (h.live_of_mem hbk) ha
      · exact h.inj hbk hbk'
  · rw [h.live_iff]
    constructor
    · rintro (rfl | ⟨k, hk⟩)
      · exact ⟨j, (hmem j b).mpr (.inl ⟨rfl, rfl⟩)⟩
      · exact ⟨k, (hmem k b).mpr (.inr hk)⟩
    · rintro ⟨k, hk⟩
      rcases (hmem k b).mp hk with ⟨rfl, _⟩ | hbk
      · exact .inl rfl
      · exact .inr ⟨k, hbk⟩

/-- Retire an object from place `i`. -/
theorem Placed.retire (h : Placed v live) {i : ι} {a : α} {li : List α}
    (hi : (v i).Perm (a :: li)) :
    Placed (Function.update v i li) fun b => live b ∧ b ≠ a := by
  have hai : a ∈ v i := hi.mem_iff.mpr (List.mem_cons_self ..)
  have hnd : (a :: li).Nodup := hi.nodup_iff.mp (h.nodup i)
  have hmem : ∀ k b, b ∈ Function.update v i li k ↔ b ≠ a ∧ b ∈ v k := by
    intro k b
    rcases eq_or_ne k i with rfl | hki
    · rw [Function.update_self, hi.mem_iff, List.mem_cons]
      by_cases hba : b = a
      · simp [hba, (List.nodup_cons.mp hnd).1]
      · simp [hba]
    · rw [Function.update_of_ne hki]
      by_cases hba : b = a
      · subst hba
        simp [h.notMem_of_ne hai hki.symm]
      · simp [hba]
  refine ⟨fun k => ?_, fun {k k' b} hk hk' => ?_, fun b => ?_⟩
  · rcases eq_or_ne k i with rfl | hki
    · rw [Function.update_self]
      exact (List.nodup_cons.mp hnd).2
    · rw [Function.update_of_ne hki]
      exact h.nodup k
  · exact h.inj ((hmem k b).mp hk).2 ((hmem k' b).mp hk').2
  · rw [h.live_iff]
    constructor
    · rintro ⟨⟨k, hk⟩, hba⟩
      exact ⟨k, (hmem k b).mpr ⟨hba, hk⟩⟩
    · rintro ⟨k, hk⟩
      exact ⟨⟨k, ((hmem k b).mp hk).2⟩, ((hmem k b).mp hk).1⟩

/-- Carry one object from place `i` to place `j`: it is retired at `i` and admitted at `j`. -/
theorem Placed.move (h : Placed v live) {i j : ι} (hij : i ≠ j) {a : α} {li lj : List α}
    (hi : (v i).Perm (a :: li)) (hj : lj.Perm (a :: v j)) :
    Placed (Function.update (Function.update v i li) j lj) live := by
  have hlive : live a := h.live_of_mem (hi.mem_iff.mpr (List.mem_cons_self ..))
  have hj' : lj.Perm (a :: Function.update v i li j) := by
    rwa [Function.update_of_ne hij.symm]
  refine ((h.retire hi).enter (fun hl => hl.2 rfl) hj').congr_live fun b => ?_
  by_cases hba : b = a
  · simp [hba, hlive]
  · simp [hba]

/-- Pour the whole list of place `i` out in front of the list of place `j`. -/
theorem Placed.pour (h : Placed v live) {i j : ι} (hij : i ≠ j) :
    Placed (Function.update (Function.update v i []) j (v i ++ v j)) live := by
  have hmem : ∀ k b, b ∈ Function.update (Function.update v i []) j (v i ++ v j) k ↔
      (k = j ∧ b ∈ v i) ∨ (k ≠ i ∧ b ∈ v k) := by
    intro k b
    rcases eq_or_ne k j with rfl | hkj
    · simp [hij.symm]
    · rcases eq_or_ne k i with rfl | hki
      · simp [hij]
      · simp [hkj, hki]
  refine ⟨fun k => ?_, fun {k k' b} hk hk' => ?_, fun b => ?_⟩
  · rcases eq_or_ne k j with rfl | hkj
    · rw [Function.update_self]
      exact List.nodup_append'.mpr ⟨h.nodup i, h.nodup k, fun b hi hk => hij (h.inj hi hk)⟩
    rw [Function.update_of_ne hkj]
    rcases eq_or_ne k i with rfl | hki
    · simp
    · rw [Function.update_of_ne hki]
      exact h.nodup k
  · rcases (hmem k b).mp hk with ⟨rfl, hbi⟩ | ⟨hki, hbk⟩
    · rcases (hmem k' b).mp hk' with ⟨rfl, _⟩ | ⟨hki', hbk'⟩
      · rfl
      · exact absurd (h.inj hbk' hbi) hki'
    · rcases (hmem k' b).mp hk' with ⟨_, hbi⟩ | ⟨_, hbk'⟩
      · exact absurd (h.inj hbk hbi) hki
      · exact h.inj hbk hbk'
  · rw [h.live_iff]
    constructor
    · rintro ⟨k, hk⟩
      by_cases hki : k = i
      · exact ⟨j, (hmem j b).mpr (.inl ⟨rfl, hki ▸ hk⟩)⟩
      · exact ⟨k, (hmem k b).mpr (.inr ⟨hki, hk⟩)⟩
    · rintro ⟨k, hk⟩
      rcases (hmem k b).mp hk with ⟨_, hbi⟩ | ⟨_, hbk⟩
      · exact ⟨i, hbi⟩
      · exact ⟨k, hbk⟩

end Placement
