import Mathlib.Data.List.Induction

/-!
# What a sequence of writes amounts to

A record that is written by a sequence of commands can be described in hindsight, without the record:
a field that commands overwrite holds what the latest of them wrote; a field that is written only
while it is empty holds what the first of them wrote; and a field that commands extend holds all they
wrote, one after the other. What a command writes may depend on the commands before it.

## Main definitions

* `withPast l` — each entry of a list, with the entries before it
* `latest`, `first`, `collect` — the three kinds of field, as functions of the list

## Main results

* `latest_concat`, `first_concat`, `collect_concat` — what one more command changes
-/

namespace Hindsight

variable {α β : Type*}

/-- Each entry of a list, with the entries before it. -/
def withPast : List α → List (List α × α)
  | [] => []
  | a :: l => ([], a) :: (withPast l).map fun p => (a :: p.1, p.2)

@[simp] theorem withPast_concat (l : List α) (a : α) :
    withPast (l ++ [a]) = withPast l ++ [(l, a)] := by
  induction l with
  | nil => rfl
  | cons b l ih =>
    rw [List.cons_append, withPast, ih, List.map_append]
    rfl

/-- What the latest entry says that says something. -/
def latest (f : α → Option β) (l : List α) : Option β := (l.filterMap f).getLast?

/-- What the first entry says that says something, knowing those before it. -/
def first (g : List α → α → Option β) (l : List α) : Option β :=
  (withPast l).findSome? fun p => g p.1 p.2

/-- What all entries say, knowing those before them. -/
def collect (g : List α → α → List β) (l : List α) : List β :=
  (withPast l).flatMap fun p => g p.1 p.2

variable {f : α → Option β} {g : List α → α → Option β} {h : List α → α → List β}

@[simp] theorem latest_concat (l : List α) (a : α) :
    latest f (l ++ [a]) = (f a).or (latest f l) := by
  have hone : latest f [a] = f a := by
    cases hf : f a <;> simp [latest, hf]
  rw [← hone]
  simp only [latest, List.filterMap_append, List.getLast?_append]

@[simp] theorem first_concat (l : List α) (a : α) :
    first g (l ++ [a]) = (first g l).or (g l a) := by
  rw [first, withPast_concat, List.findSome?_append, ← first]
  cases hg : g l a <;> simp [hg]

@[simp] theorem collect_concat (l : List α) (a : α) :
    collect h (l ++ [a]) = collect h l ++ h l a := by
  rw [collect, withPast_concat, List.flatMap_append, ← collect, List.flatMap_singleton]

end Hindsight
