import Mathlib.Data.List.Perm.Basic
import Mathlib.Data.List.Nodup
import Mathlib.Data.List.Lattice

/-!
# Ordered intrusive maps, as lists

A balanced search tree threaded through its records is, to its callers, a list kept in key
order: `first` is its head, `erase` takes a record out, and an insertion puts a record in its
place by key. Rebalancing is not observable, so the list is the model.

Two kinds of map are used side by side. A *multimap* admits equal keys, and a new record goes
after the records whose key is equal to its own. A *keyed map* holds at most one record for each
key, and inserting a second record under a key that is present leaves the map unchanged.

## Main definitions

* `OrderedMap.insertMulti` — insertion into a multimap
* `OrderedMap.find`, `insertUnique`, `put`, `remove` — a keyed map
* `OrderedMap.whileFirst` — the loop `while ((n = first(map))) { body(n) }`
* `OrderedMap.rounds`, `visits` — the rounds of such a loop

## Main results

* `OrderedMap.insertMulti_perm` — an insertion adds exactly the new record
* `OrderedMap.find_put`, `find_insertUnique`, `find_remove` — a keyed map is its `find` function
* `OrderedMap.perm_cons_remove` — a record of a keyed map is in it once
* `OrderedMap.whileFirst_rule`, `whileFirst_none` — the invariant rule for the loop, and that it
  empties the map when every round shortens it
* `OrderedMap.whileFirst_absent`, `whileFirst_turn` — no record has more than one round
* `OrderedMap.rounds_sim` — two loops that do the same
-/

namespace OrderedMap

variable {α κ ν σ : Type*}

/-! ### Multimaps -/

/-- Insert after every record whose key is at most the new one's. -/
def insertMulti (key : α → ℕ) (a : α) : List α → List α
  | [] => [a]
  | b :: l => if key a < key b then a :: b :: l else b :: insertMulti key a l

theorem insertMulti_perm (key : α → ℕ) (a : α) (l : List α) :
    (insertMulti key a l).Perm (a :: l) := by
  induction l with
  | nil => exact .refl _
  | cons b l ih =>
    rw [insertMulti]
    split
    · exact .refl _
    · exact (ih.cons b).trans (.swap a b l)

@[simp] theorem mem_insertMulti {key : α → ℕ} {a b : α} {l : List α} :
    b ∈ insertMulti key a l ↔ b = a ∨ b ∈ l := by
  rw [(insertMulti_perm key a l).mem_iff, List.mem_cons]

@[simp] theorem length_insertMulti (key : α → ℕ) (a : α) (l : List α) :
    (insertMulti key a l).length = l.length + 1 :=
  (insertMulti_perm key a l).length_eq

/-- A record with a key above a bound goes in behind the records at the front whose key is not. -/
theorem takeWhile_insertMulti {key : α → ℕ} {a : α} {n : ℕ} (ha : n < key a) (l : List α) :
    (insertMulti key a l).takeWhile (fun b => decide (key b ≤ n)) =
      l.takeWhile fun b => decide (key b ≤ n) := by
  have hstop : ∀ l', (a :: l').takeWhile (fun b => decide (key b ≤ n)) = [] := fun l' =>
    List.takeWhile_cons_of_neg (by simpa using ha)
  induction l with
  | nil => exact hstop []
  | cons b l ih =>
    rw [insertMulti]
    split
    · rename_i hab
      rw [hstop, List.takeWhile_cons_of_neg (by simpa using Nat.lt_trans ha hab)]
    · rw [List.takeWhile_cons, List.takeWhile_cons, ih]

/-- An insertion keeps the order. -/
theorem pairwise_insertMulti {key : α → ℕ} {a : α} {l : List α}
    (h : l.Pairwise fun b c => key b ≤ key c) :
    (insertMulti key a l).Pairwise fun b c => key b ≤ key c := by
  induction l with
  | nil => exact List.pairwise_singleton _ a
  | cons b l ih =>
    obtain ⟨hb, hl⟩ := List.pairwise_cons.mp h
    rw [insertMulti]
    split
    · rename_i hab
      refine List.pairwise_cons.mpr ⟨fun c hc => ?_, h⟩
      rcases List.mem_cons.mp hc with rfl | hc
      · exact Nat.le_of_lt hab
      · exact Nat.le_trans (Nat.le_of_lt hab) (hb c hc)
    · rename_i hab
      refine List.pairwise_cons.mpr ⟨fun c hc => ?_, ih hl⟩
      rcases mem_insertMulti.mp hc with rfl | hc
      · exact Nat.le_of_not_lt hab
      · exact hb c hc

/-! ### Keyed maps -/

variable [DecidableEq κ]

/-- The record under key `k`. -/
def find (key : ν → κ) (k : κ) (l : List ν) : Option ν := l.find? fun n => key n = k

/-- Insert in key order, unless the key is taken. -/
def insertUnique (key : ν → ℕ) (n : ν) (l : List ν) : List ν :=
  if (find key (key n) l).isSome then l else insertMulti key n l

/-- Write the record under the key of `n`, if there is one. -/
def put (key : ν → κ) (n : ν) (l : List ν) : List ν := l.map fun m => if key m = key n then n else m

/-- Take the record under key `k` out. -/
def remove (key : ν → κ) (k : κ) (l : List ν) : List ν := l.filter fun n => key n ≠ k

@[simp] theorem find_nil (key : ν → κ) (k : κ) : find key k [] = none := rfl

theorem find_cons (key : ν → κ) (k : κ) (n : ν) (l : List ν) :
    find key k (n :: l) = if key n = k then some n else find key k l := by
  by_cases h : key n = k <;> simp [find, h]

/-- What is found under a key has that key. -/
theorem key_of_find {key : ν → κ} {k : κ} {l : List ν} {n : ν} (h : find key k l = some n) :
    key n = k := by
  simpa using List.find?_some h

theorem find_head {key : ν → κ} {n : ν} {l : List ν} : find key (key n) (n :: l) = some n := by
  simp [find_cons]

theorem find_insertMulti {key : ν → ℕ} {n : ν} {l : List ν} (hn : find key (key n) l = none)
    (k : ℕ) : find key k (insertMulti key n l) = if k = key n then some n else find key k l := by
  induction l with
  | nil => simp [insertMulti, find_cons, eq_comm]
  | cons m l ih =>
    have hm : key m ≠ key n := fun h => by simp [find_cons, h] at hn
    rw [find_cons, if_neg hm] at hn
    rw [insertMulti]
    split
    · rw [find_cons, find_cons]
      by_cases hk : k = key n
      · simp [hk]
      · simp [hk, Ne.symm hk]
    · rw [find_cons, ih hn, find_cons]
      by_cases hk : k = key n
      · subst hk
        simp [hm]
      · simp [hk]

theorem find_insertUnique (key : ν → ℕ) (n : ν) (l : List ν) (k : ℕ) :
    find key k (insertUnique key n l) =
      if k = key n then some ((find key k l).getD n) else find key k l := by
  rw [insertUnique]
  cases hf : find key (key n) l with
  | none =>
    rw [Option.isSome_none, if_neg (by simp), find_insertMulti hf]
    by_cases hk : k = key n
    · subst hk
      simp [hf]
    · simp [hk]
  | some m =>
    rw [Option.isSome_some, if_pos rfl]
    by_cases hk : k = key n
    · subst hk
      simp [hf]
    · simp [hk]

theorem find_put (key : ν → κ) (n : ν) (l : List ν) (k : κ) :
    find key k (put key n l) =
      if k = key n then (find key k l).map (fun _ => n) else find key k l := by
  induction l with
  | nil => simp [put]
  | cons m l ih =>
    rw [put, List.map_cons, find_cons, ← put, ih, find_cons]
    by_cases hm : key m = key n
    · by_cases hk : k = key n
      · simp [hm, hk]
      · simp [hm, hk, Ne.symm hk]
    · by_cases hk : k = key n
      · simp [hm, hk]
      · simp [hm, hk]

theorem find_remove (key : ν → κ) (l : List ν) (j k : κ) :
    find key k (remove key j l) = if k = j then none else find key k l := by
  induction l with
  | nil => simp [remove]
  | cons m l ih =>
    rw [remove, List.filter_cons, ← remove, find_cons]
    by_cases hm : key m = j
    · rw [if_neg (by simp [hm]), ih]
      by_cases hk : k = j
      · simp [hk]
      · simp [hk, hm, Ne.symm hk]
    · rw [if_pos (by simp [hm]), find_cons, ih]
      by_cases hk : k = j
      · simp [hk, hm]
      · simp [hk]

theorem nodup_insertUnique {key : ν → ℕ} {n : ν} {l : List ν} (hl : (l.map key).Nodup) :
    ((insertUnique key n l).map key).Nodup := by
  rw [insertUnique]
  split
  · exact hl
  · rename_i hn
    rw [((insertMulti_perm key n l).map key).nodup_iff, List.map_cons, List.nodup_cons]
    refine ⟨fun hmem => hn ?_, hl⟩
    obtain ⟨m, hm, hkey⟩ := List.mem_map.mp hmem
    exact List.find?_isSome.mpr ⟨m, hm, decide_eq_true hkey⟩

/-- Writing a record does not touch the others. -/
theorem remove_put (key : ν → κ) (n : ν) (l : List ν) :
    remove key (key n) (put key n l) = remove key (key n) l := by
  induction l with
  | nil => rfl
  | cons m l ih =>
    rw [put, List.map_cons, ← put]
    simp only [remove, List.filter_cons] at ih ⊢
    rw [ih]
    by_cases hm : key m = key n
    · rw [if_pos hm, if_neg (by simp), if_neg (by simp [hm])]
    · rw [if_neg hm]

/-- A record is in a map with distinct keys once. -/
theorem perm_cons_remove {key : ν → κ} {k : κ} {n : ν} {l : List ν} (hl : (l.map key).Nodup)
    (h : find key k l = some n) : (n :: remove key k l).Perm l := by
  induction l with
  | nil => simp at h
  | cons m l ih =>
    obtain ⟨hm, hl⟩ := List.nodup_cons.mp hl
    rw [find_cons] at h
    rw [remove, List.filter_cons]
    by_cases hk : key m = k
    · rw [if_pos hk] at h
      obtain rfl := Option.some.inj h
      have hrest : l.filter (fun n => key n ≠ k) = l := by
        refine List.filter_eq_self.mpr fun b hb => decide_eq_true fun hbk => hm ?_
        rw [hk, ← hbk]
        exact List.mem_map_of_mem hb
      rw [if_neg (by simp [hk]), hrest]
    · rw [if_neg hk] at h
      rw [if_pos (by simp [hk]), ← remove]
      exact (List.Perm.swap m n _).trans ((ih hl h).cons m)

/-- In a map with distinct keys the record found under a key is the only one with the key. -/
theorem eq_of_find {key : ν → κ} {n m : ν} {l : List ν} (hl : (l.map key).Nodup)
    (h : find key (key m) l = some n) (hm : m ∈ l) : m = n := by
  have hn : n ∈ l := List.mem_of_find?_eq_some h
  exact List.inj_on_of_nodup_map hl hm hn (key_of_find h).symm

theorem find_of_mem {key : ν → κ} {n : ν} {l : List ν} (hl : (l.map key).Nodup) (hn : n ∈ l) :
    find key (key n) l = some n := by
  have hsome : (find key (key n) l).isSome :=
    List.find?_isSome.mpr ⟨n, hn, decide_eq_true rfl⟩
  obtain ⟨m, hm⟩ := Option.isSome_iff_exists.mp hsome
  rw [hm, eq_of_find hl hm hn]

/-! ### Draining a map -/

/-- The loop `while ((n = first(map))) { body(n) }`, for at most `n` rounds. A body answers
`done` where the C loop breaks. -/
def whileFirst (first : σ → Option α) (body : α → σ → ForInStep σ) : ℕ → σ → σ
  | 0, s => s
  | n + 1, s =>
    match first s with
    | none => s
    | some a =>
      match body a s with
      | .done s' => s'
      | .yield s' => whileFirst first body n s'

/-- **Invariant rule for the draining loop.** -/
theorem whileFirst_rule {g : σ → Option α} {f : α → σ → ForInStep σ} {P : σ → Prop}
    (hdone : ∀ a s s', P s → g s = some a → f a s = .done s' → P s')
    (hyield : ∀ a s s', P s → g s = some a → f a s = .yield s' → P s')
    {n : ℕ} {s : σ} (h : P s) : P (whileFirst g f n s) := by
  induction n generalizing s with
  | zero => exact h
  | succ n ih =>
    rw [whileFirst]
    cases hf : g s with
    | none => exact h
    | some a =>
      dsimp only
      cases hb : f a s with
      | done s' => exact hdone a s s' h hf hb
      | yield s' => exact ih (hyield a s s' h hf hb)

/-- **Variant rule.** A loop that never breaks and shortens its map in every round empties it. -/
theorem whileFirst_none {g : σ → Option α} {f : α → σ → ForInStep σ} (m : σ → ℕ)
    (hfirst : ∀ s, m s = 0 → g s = none)
    (hbody : ∀ a s, g s = some a → ∃ s', f a s = .yield s' ∧ m s' < m s)
    {n : ℕ} {s : σ} (hn : m s ≤ n) : g (whileFirst g f n s) = none := by
  induction n generalizing s with
  | zero => exact hfirst s (Nat.le_zero.mp hn)
  | succ n ih =>
    rw [whileFirst]
    cases hf : g s with
    | none => exact hf
    | some a =>
      obtain ⟨s', hb, hlt⟩ := hbody a s hf
      dsimp only
      rw [hb]
      exact ih (by omega)

/-- **Exit rule.** A loop that shortens its map in every round that does not break ends because it
breaks, or because the map is empty. -/
theorem whileFirst_ends {g : σ → Option α} {f : α → σ → ForInStep σ} {P Q : σ → Prop} (m : σ → ℕ)
    (hfirst : ∀ s, P s → m s = 0 → g s = none) (hnone : ∀ s, P s → g s = none → Q s)
    (hround : ∀ a s, P s → g s = some a → (∃ s', f a s = .done s' ∧ Q s') ∨
      ∃ s', f a s = .yield s' ∧ P s' ∧ m s' < m s)
    {n : ℕ} {s : σ} (hn : m s ≤ n) (h : P s) : Q (whileFirst g f n s) := by
  induction n generalizing s with
  | zero => exact hnone s h (hfirst s h (Nat.le_zero.mp hn))
  | succ n ih =>
    rw [whileFirst]
    cases hf : g s with
    | none => exact hnone s h hf
    | some a =>
      dsimp only
      obtain ⟨s', hb, hQ⟩ | ⟨s', hb, hP, hlt⟩ := hround a s h hf
      · rw [hb]
        exact hQ
      · rw [hb]
        exact ih (by omega) hP

/-- The rounds of a loop that may break: the first record, and the state it is found in. -/
def visits (first : σ → Option α) (body : α → σ → ForInStep σ) : ℕ → σ → List (α × σ)
  | 0, _ => []
  | n + 1, s =>
    match first s with
    | none => []
    | some a =>
      (a, s) :: match body a s with
        | .done _ => []
        | .yield s' => visits first body n s'

section Turn

variable [DecidableEq α] {c : σ → List α} {f : α → σ → ForInStep σ} {R : σ → σ → Prop} {a : α}
  (hrefl : ∀ s, R s s) (htrans : ∀ s t u, R s t → R t u → R s u)
  (hmap : ∀ b s s', f b s = .yield s' → c s' = (c s).erase b)
  (hother : ∀ b s s', b ≠ a → f b s = .done s' ∨ f b s = .yield s' → R s s')

include hrefl htrans hmap hother

/-- A record that is not in the map has no round. -/
theorem whileFirst_absent {n : ℕ} {s : σ} (ha : a ∉ c s) :
    (∀ u, (a, u) ∉ visits (fun s => (c s).head?) f n s) ∧
      R s (whileFirst (fun s => (c s).head?) f n s) := by
  induction n generalizing s with
  | zero => exact ⟨fun _ => List.not_mem_nil, hrefl _⟩
  | succ n ih =>
    rw [visits, whileFirst]
    cases hg : (c s).head? with
    | none => exact ⟨fun _ => List.not_mem_nil, hrefl s⟩
    | some b =>
      have hba : b ≠ a := ne_of_mem_of_not_mem (List.mem_of_head? hg) ha
      have hskip : ∀ {u : σ} {l : List (α × σ)}, (a, u) ∈ (b, s) :: l ↔ (a, u) ∈ l := by
        simp [hba.symm]
      dsimp only
      simp only [hskip]
      cases hb : f b s with
      | done s' => exact ⟨fun _ => List.not_mem_nil, hother b s s' hba (.inl hb)⟩
      | yield s' =>
        have ha' : a ∉ c s' := fun h => ha (List.mem_of_mem_erase (hmap b s s' hb ▸ h))
        obtain ⟨hrest, hR⟩ := ih ha'
        exact ⟨hrest, htrans _ _ _ (hother b s s' hba (.inr hb)) hR⟩

/-- **One turn.** Where every round that does not break takes its record out of the map, a record has
one round at most. Before it and after it the loop does what the other rounds do. -/
theorem whileFirst_turn {n : ℕ} {s : σ} (hnd : (c s).Nodup) :
    (∀ u, (a, u) ∉ visits (fun s => (c s).head?) f n s) ∧
        R s (whileFirst (fun s => (c s).head?) f n s) ∨
      ∃ u s', (a, u) ∈ visits (fun s => (c s).head?) f n s ∧
        (∀ u', (a, u') ∈ visits (fun s => (c s).head?) f n s → u' = u) ∧ R s u ∧
        (f a u = .done s' ∨ f a u = .yield s') ∧
        R s' (whileFirst (fun s => (c s).head?) f n s) := by
  induction n generalizing s with
  | zero => exact .inl ⟨fun _ => List.not_mem_nil, hrefl s⟩
  | succ n ih =>
    rw [visits, whileFirst]
    cases hg : (c s).head? with
    | none => exact .inl ⟨fun _ => List.not_mem_nil, hrefl s⟩
    | some b =>
      dsimp only
      rcases eq_or_ne b a with rfl | hba
      · cases hb : f b s with
        | done s' => exact .inr ⟨s, s', by simp, by simp, hrefl s, .inl hb, hrefl s'⟩
        | yield s' =>
          have hnot : b ∉ c s' := by
            rw [hmap b s s' hb, hnd.mem_erase_iff]
            exact fun h => h.1 rfl
          obtain ⟨hrest, hR⟩ := whileFirst_absent hrefl htrans hmap hother (n := n) hnot
          refine .inr ⟨s, s', List.mem_cons_self, fun u hu => ?_, hrefl s, .inr hb, hR⟩
          rcases List.mem_cons.mp hu with heq | hu
          · exact (Prod.mk.inj heq).2
          · exact absurd hu (hrest u)
      · have hskip : ∀ {u : σ} {l : List (α × σ)}, (a, u) ∈ (b, s) :: l ↔ (a, u) ∈ l := by
          simp [hba.symm]
        cases hb : f b s with
        | done s' =>
          exact .inl ⟨fun u hu => List.not_mem_nil (hskip.mp hu), hother b s s' hba (.inl hb)⟩
        | yield s' =>
          have hstep := hother b s s' hba (.inr hb)
          have hnd' : (c s').Nodup := by
            rw [hmap b s s' hb]
            exact hnd.erase b
          simp only [hskip]
          obtain ⟨hrest, hR⟩ | ⟨u, s'', hu, honce, hbefore, hround, hafter⟩ := ih hnd'
          · exact .inl ⟨hrest, htrans _ _ _ hstep hR⟩
          · exact .inr ⟨u, s'', hu, honce, htrans _ _ _ hstep hbefore, hround, hafter⟩

end Turn

/-- The rounds of a loop that does not break: the first record, and the state it is found in. -/
def rounds (first : σ → Option α) (body : α → σ → σ) : ℕ → σ → List (α × σ)
  | 0, _ => []
  | n + 1, s =>
    match first s with
    | none => []
    | some a => (a, s) :: rounds first body n (body a s)

/-- **Invariant rule for the rounds.** -/
theorem rounds_rule {g : σ → Option α} {f : α → σ → σ} {P : σ → Prop}
    (hbody : ∀ a s, P s → g s = some a → P (f a s)) {n : ℕ} {s : σ} (h : P s) :
    ∀ p ∈ rounds g f n s, P p.2 ∧ g p.2 = some p.1 := by
  induction n generalizing s with
  | zero => exact fun p hp => absurd hp List.not_mem_nil
  | succ n ih =>
    rw [rounds]
    cases hg : g s with
    | none => exact fun p hp => absurd hp List.not_mem_nil
    | some a => exact List.forall_mem_cons.mpr ⟨⟨h, hg⟩, ih (hbody a s h hg)⟩

/-- **Simulation.** A loop that sees a state through `v` does what the loop on the views does. -/
theorem rounds_sim {τ : Type*} {v : σ → τ} {g : σ → Option α} {g' : τ → Option α}
    {f : α → σ → σ} {f' : α → τ → τ} {P : σ → Prop} (hfirst : ∀ s, P s → g' (v s) = g s)
    (hbody : ∀ a s, P s → g s = some a → P (f a s) ∧ v (f a s) = f' a (v s)) {n : ℕ} {s : σ}
    (h : P s) :
    (rounds g f n s).map (fun p => (p.1, v p.2)) = rounds g' f' n (v s) ∧
      v (whileFirst g (fun a s => .yield (f a s)) n s) =
        whileFirst g' (fun a t => .yield (f' a t)) n (v s) := by
  induction n generalizing s with
  | zero => exact ⟨rfl, rfl⟩
  | succ n ih =>
    rw [rounds, rounds, whileFirst, whileFirst, hfirst s h]
    cases hg : g s with
    | none => exact ⟨rfl, rfl⟩
    | some a =>
      obtain ⟨hP, hv⟩ := hbody a s h hg
      obtain ⟨hrounds, hend⟩ := ih hP
      rw [hv] at hrounds hend
      exact ⟨congrArg _ hrounds, hend⟩

end OrderedMap
