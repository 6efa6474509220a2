import CurlLoop.Lib.OrderedMap
import Mathlib.Data.List.TakeWhile

/-!
# Whose turn comes

A counter with a number of free places goes down a line of customers. Whose turn it is gets a place
or is sent away, and a customer who is sent away takes no place. When the places are gone nobody's
turn comes any more. So the customers whose turn comes are a beginning of the line (`turns_initial`).

A scheduler that starts the work that is due does this: its free slots are the places, and a line is
a map drained from the front while the first record is due, or several such maps one after the
other. `whileFirst_turns` says so of the loop that drains one map.

## Main definitions

* `Queueing.turns` — the customers whose turn comes

## Main results

* `Queueing.turns_initial` — they are the first in the line
* `Queueing.whileFirst_turns` — the loop that drains a map lets those who are due have their turn
-/

namespace Queueing

variable {α σ : Type*} {ok : α → Bool}

/-- The customers whose turn comes when `k` places are free. A place is given to those who are
`ok`. -/
def turns (ok : α → Bool) : ℕ → List α → List α
  | _, [] => []
  | 0, _ :: _ => []
  | k + 1, a :: l => a :: turns ok (if ok a then k else k + 1) l

@[simp] theorem turns_nil (k : ℕ) : turns ok k [] = [] := by
  cases k <;> rfl

@[simp] theorem turns_zero (l : List α) : turns ok 0 l = [] := by
  cases l <;> rfl

/-- The first in the line has a turn while a place is free. -/
theorem turns_cons {k : ℕ} (hk : 0 < k) (a : α) (l : List α) :
    turns ok k (a :: l) = a :: turns ok (k - if ok a then 1 else 0) l := by
  obtain ⟨k, rfl⟩ := Nat.exists_eq_succ_of_ne_zero hk.ne'
  rw [turns]
  cases ok a <;> rfl

/-- The turn comes in the order of the line. -/
theorem turns_initial (k : ℕ) (l : List α) : turns ok k l <+: l := by
  induction l generalizing k with
  | nil => exact (turns_nil k).symm ▸ List.nil_prefix
  | cons a l ih =>
    cases k with
    | zero => exact List.nil_prefix
    | succ k => exact List.cons_prefix_cons.mpr ⟨rfl, ih _⟩

theorem mem_of_mem_turns {k : ℕ} {l : List α} {a : α} (h : a ∈ turns ok k l) : a ∈ l :=
  (turns_initial k l).subset h

/-- In a line in the order of a key, whose turn comes has no greater key than whose turn does
not. -/
theorem key_le_of_turns {key : α → ℕ} {k : ℕ} {l : List α}
    (hl : l.Pairwise fun a b => key a ≤ key b) {a b : α} (ha : a ∈ turns ok k l) (hb : b ∈ l)
    (hb' : b ∉ turns ok k l) : key a ≤ key b := by
  have hinit : turns ok k l <+: l := turns_initial k l
  obtain ⟨rest, hrest⟩ := hinit
  rw [← hrest] at hl hb
  have hbr : b ∈ rest := (List.mem_append.mp hb).resolve_left hb'
  exact (List.pairwise_append.mp hl).2.2 a ha b hbr

/-- **Draining.** A loop serves a line that it finds through `g`. A round serves the first in
the line if it is due and a place is free, and otherwise ends the loop. `I l seen s` says what holds
when `l` is the line and `seen` have had their turn. Then those who are due at the front of the line
have had their turn when the loop is over, as far as the places went; so has nobody else, and
somebody who comes after them finds as many places as are left. -/
theorem whileFirst_turns {g : σ → Option α} {f : α → σ → ForInStep σ} (ok due : α → Bool)
    (free : σ → ℕ) (I : List α → List α → σ → Prop)
    (hfirst : ∀ {l seen s}, I l seen s → g s = l.head?)
    (hround : ∀ {a l seen s}, I (a :: l) seen s →
      (due a = true ∧ 0 < free s ∧ ∃ s', f a s = .yield s' ∧ I l (seen ++ [a]) s' ∧
        free s' = free s - if ok a then 1 else 0) ∨
      ((due a = false ∨ free s = 0) ∧
        ∃ s', f a s = .done s' ∧ I (a :: l) seen s' ∧ free s' = free s))
    {n : ℕ} {l seen : List α} {s : σ} (hn : l.length ≤ n) (h : I l seen s) (rest : List α) :
    ∃ l' seen', I l' seen' (OrderedMap.whileFirst g f n s) ∧
      seen ++ turns ok (free s) (l.takeWhile due ++ rest) =
        seen' ++ turns ok (free (OrderedMap.whileFirst g f n s)) rest := by
  induction n generalizing l seen s with
  | zero =>
    obtain rfl := List.eq_nil_of_length_eq_zero (Nat.le_zero.mp hn)
    exact ⟨[], seen, h, rfl⟩
  | succ n ih =>
    rw [OrderedMap.whileFirst, hfirst h]
    cases l with
    | nil => exact ⟨[], seen, h, rfl⟩
    | cons a l =>
      dsimp only [List.head?_cons]
      obtain ⟨hdue, hfree, s', hs', hI, hfree'⟩ | ⟨hstop, s', hs', hI, hfree'⟩ := hround h
      · rw [hs', List.takeWhile_cons_of_pos hdue, List.cons_append, turns_cons hfree, ← hfree',
          List.append_cons]
        exact ih (by simpa using hn) hI
      · rw [hs']
        refine ⟨a :: l, seen, hI, ?_⟩
        rw [hfree']
        rcases hstop with hdue | hfree
        · rw [List.takeWhile_cons_of_neg (by simp [hdue])]
          rfl
        · rw [hfree, turns_zero, turns_zero]

end Queueing
