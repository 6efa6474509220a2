import Mathlib.Algebra.GroupWithZero.Nat
import Mathlib.Data.List.Basic

/-!
# Runs of a machine under a condition on its steps

A machine has a function `step : ℓ → σ → σ` that performs the action with a given label. A run is
a list of labels. A *guard* `ok : ℓ → σ → Prop` says which actions may be taken in which state,
and a run is `Allowed` when every action of it is taken in a state where the guard admits it.

Statements about every reachable state are statements about every allowed run from the initial
state: an allowed run stays allowed when it is cut short, so the states met on the way are
covered as well.

## Main definitions

* `Guarded.run` — the state after a list of actions
* `Guarded.Allowed` — every action was taken in a state that admits it

## Main results

* `Guarded.Allowed.invariant` — what every admitted action preserves, every allowed run preserves
* `Guarded.Allowed.rank` — a rank that every action pays into or draws from
* `Guarded.Allowed.mono` — comparing two guards under an invariant
* `Guarded.forall_prefix_iff_allowed` — a property of every state met that one guard decides
-/

namespace Guarded

variable {ℓ σ : Type*} {step : ℓ → σ → σ} {ok ok' : ℓ → σ → Prop}

/-- The state after performing the actions of a list, first to last. -/
def run (step : ℓ → σ → σ) (s : σ) (as : List ℓ) : σ := as.foldl (fun s a => step a s) s

/-- Every action of the list is admitted in the state where it is taken. -/
def Allowed (step : ℓ → σ → σ) (ok : ℓ → σ → Prop) : σ → List ℓ → Prop
  | _, [] => True
  | s, a :: as => ok a s ∧ Allowed step ok (step a s) as

instance Allowed.decidable [∀ a s, Decidable (ok a s)] :
    ∀ (s : σ) (as : List ℓ), Decidable (Allowed step ok s as)
  | _, [] => inferInstanceAs (Decidable True)
  | s, a :: as => haveI := Allowed.decidable (step a s) as; inferInstanceAs (Decidable (_ ∧ _))

@[simp] theorem run_nil (s : σ) : run step s [] = s := rfl

@[simp] theorem run_cons (s : σ) (a : ℓ) (as : List ℓ) :
    run step s (a :: as) = run step (step a s) as := rfl

theorem run_append (s : σ) (as bs : List ℓ) : run step s (as ++ bs) = run step (run step s as) bs :=
  List.foldl_append

theorem run_concat (s : σ) (as : List ℓ) (a : ℓ) :
    run step s (as ++ [a]) = step a (run step s as) := run_append s as [a]

theorem allowed_append {s : σ} {as bs : List ℓ} :
    Allowed step ok s (as ++ bs) ↔ Allowed step ok s as ∧ Allowed step ok (run step s as) bs := by
  induction as generalizing s with
  | nil => simp [Allowed]
  | cons a as ih => simp [Allowed, ih, and_assoc]

/-- A run is allowed when the last action of each of its beginnings is. -/
theorem allowed_iff_prefix {s : σ} {as : List ℓ} :
    Allowed step ok s as ↔ ∀ pre a, pre ++ [a] <+: as → ok a (run step s pre) := by
  constructor
  · rintro h pre a ⟨post, rfl⟩
    exact (allowed_append.mp (allowed_append.mp h).1).2.1
  · intro h
    induction as generalizing s with
    | nil => trivial
    | cons b as ih =>
      refine ⟨h [] b ⟨as, rfl⟩, ih fun pre a hpre => ?_⟩
      exact h (b :: pre) a (List.cons_prefix_cons.mpr ⟨rfl, hpre⟩)

theorem allowed_of_forall {P : ℓ → Prop} {s : σ} {as : List ℓ} (h : ∀ a ∈ as, P a) :
    Allowed step (fun a _ => P a) s as := by
  induction as generalizing s with
  | nil => trivial
  | cons a as ih =>
    obtain ⟨ha, has⟩ := List.forall_mem_cons.mp h
    exact ⟨ha, ih has⟩

/-- Two guards a run meets, it meets together. -/
theorem Allowed.and {s : σ} {as : List ℓ} (h : Allowed step ok s as)
    (h' : Allowed step ok' s as) : Allowed step (fun a s => ok a s ∧ ok' a s) s as := by
  induction as generalizing s with
  | nil => trivial
  | cons a as ih => exact ⟨⟨h.1, h'.1⟩, ih h.2 h'.2⟩

/-- A run of a machine that carries more is allowed if the run of what it carries is. -/
theorem Allowed.comap {τ : Type*} {step' : ℓ → τ → τ} {f : τ → σ}
    (hf : ∀ a x, f (step' a x) = step a (f x)) {x : τ} {as : List ℓ}
    (h : Allowed step ok (f x) as) : Allowed step' (fun a x => ok a (f x)) x as := by
  induction as generalizing x with
  | nil => trivial
  | cons a as ih => exact ⟨h.1, ih (by rw [hf]; exact h.2)⟩

/-- **Invariant rule.** -/
theorem Allowed.invariant {P : σ → Prop} (hstep : ∀ a s, P s → ok a s → P (step a s))
    {s : σ} {as : List ℓ} (h : P s) (has : Allowed step ok s as) : P (run step s as) := by
  induction as generalizing s with
  | nil => exact h
  | cons a as ih => exact ih (hstep a s h has.1) has.2

/-- **Ranking rule.** Every admitted action draws its cost from a rank and pays its gain into it, under
an invariant. -/
theorem Allowed.rank {P : σ → Prop} {m : σ → ℕ} {c g : ℓ → ℕ}
    (hstep : ∀ a s, P s → ok a s → P (step a s))
    (hrank : ∀ a s, P s → ok a s → c a + m (step a s) = m s + g a)
    {s : σ} {as : List ℓ} (h : P s) (has : Allowed step ok s as) :
    (as.map c).sum + m (run step s as) = m s + (as.map g).sum := by
  induction as generalizing s with
  | nil => exact Nat.zero_add (m s)
  | cons a as ih =>
    have hfirst := hrank a s h has.1
    have hrest := ih (hstep a s h has.1) has.2
    rw [List.map_cons, List.sum_cons, List.map_cons, List.sum_cons, run_cons]
    omega

/-- A guard may be exchanged for another that is weaker in the states an invariant allows. -/
theorem Allowed.mono {P : σ → Prop} (hstep : ∀ a s, P s → ok a s → P (step a s))
    (hok : ∀ a s, P s → ok a s → ok' a s) {s : σ} {as : List ℓ} (h : P s)
    (has : Allowed step ok s as) : Allowed step ok' s as := by
  induction as generalizing s with
  | nil => trivial
  | cons a as ih => exact ⟨hok a s h has.1, ih (hstep a s h has.1) has.2⟩

/-- **Exact guards.** Where an invariant gives the property, and survives exactly the actions that
meet a second guard, a run has the property in every state it meets if and only if all its actions
meet that guard. -/
theorem forall_prefix_iff_allowed {I P : σ → Prop} (hprop : ∀ s, I s → P s)
    (hgood : ∀ a s, I s → ok a s → ok' a s → I (step a s))
    (hbad : ∀ a s, I s → ok a s → ¬ ok' a s → ¬ P (step a s)) {s : σ} {as : List ℓ} (h : I s)
    (has : Allowed step ok s as) :
    (∀ pre, pre <+: as → P (run step s pre)) ↔ Allowed step ok' s as := by
  induction as generalizing s with
  | nil =>
    refine ⟨fun _ => trivial, fun _ pre hpre => ?_⟩
    obtain rfl := List.prefix_nil.mp hpre
    exact hprop s h
  | cons a as ih =>
    by_cases hok : ok' a s
    · have hrest := ih (hgood a s h has.1 hok) has.2
      constructor
      · intro hall
        exact ⟨hok, hrest.mp fun pre hpre =>
          hall (a :: pre) (List.cons_prefix_cons.mpr ⟨rfl, hpre⟩)⟩
      · rintro ⟨-, has'⟩ pre hpre
        cases pre with
        | nil => exact hprop s h
        | cons b pre =>
          obtain ⟨rfl, htail⟩ := List.cons_prefix_cons.mp hpre
          exact hrest.mpr has' pre htail
    · refine ⟨fun hall => ?_, fun has' => absurd has'.1 hok⟩
      exact absurd (hall [a] (List.cons_prefix_cons.mpr ⟨rfl, List.nil_prefix⟩))
        (hbad a s h has.1 hok)

end Guarded
