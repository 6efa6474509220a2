import Mathlib.Data.List.Nodup
import Mathlib.Logic.Function.Basic

/-!
# Intrusive singly linked lists

A C program that threads its records on a list through a link field inside each record keeps no
list anywhere: there is a head pointer, and a column of links. This file says when such a
column represents a list, how pushing at the head and appending at the tail change what it
represents, and what a loop that walks the links does.

Nothing here knows what the records are. `α` is the type of their addresses, a link column is a
function `α → Option α`, and `none` is the null pointer.

## Fuel

A walk along links need not end, since a column can be cyclic. `walk` and `forEach` therefore
take the number of records they may visit. A chain that represents a list is walked to its end
by any fuel that is at least the length of the list (`walk_eq`, `forEach_rule`), and on such
chains the fuel is not observable.

## Main definitions

* `Intrusive.IsChain` — the links from a head pointer spell out a given list
* `Intrusive.walk` — the addresses met by following the links
* `Intrusive.forEach` — the loop `while (p) { next = p->link; body(p); p = next; }`
* `Intrusive.visits` — the records the loop comes to

## Main results

* `Intrusive.IsChain.push`, `Intrusive.IsChain.append` — the two ways a list grows
* `Intrusive.IsChain.link_eq_none_iff` — a null link marks the last record and nothing else
* `Intrusive.forEach_rule`, `Intrusive.visits_rule` — the invariant rules for the walking loop, over
  a represented list
* `Intrusive.forEach_turn` — the round of one record, and what goes on before and after it
* `Intrusive.forEach_comm` — a change that the loop does not see commutes with it
* `Intrusive.forEach_congr` — two loops that start alike end alike
-/

namespace Intrusive

variable {α σ : Type*}

/-- Following `link` from `head` visits exactly the records of `l`, in order, and then ends. -/
def IsChain (link : α → Option α) : Option α → List α → Prop
  | head, [] => head = none
  | head, a :: l => head = some a ∧ IsChain link (link a) l

@[simp] theorem isChain_nil {link : α → Option α} {head : Option α} :
    IsChain link head [] ↔ head = none := Iff.rfl

@[simp] theorem isChain_cons {link : α → Option α} {head : Option α} {a : α} {l : List α} :
    IsChain link head (a :: l) ↔ head = some a ∧ IsChain link (link a) l := Iff.rfl

theorem IsChain.head_eq {link : α → Option α} {head : Option α} {l : List α}
    (h : IsChain link head l) : head = l.head? := by
  cases l with
  | nil => exact h
  | cons a l => exact h.1

/-- The represented list is empty exactly when the head pointer is null. -/
theorem IsChain.head_eq_none_iff {link : α → Option α} {head : Option α} {l : List α}
    (h : IsChain link head l) : head = none ↔ l = [] := by
  rw [h.head_eq, List.head?_eq_none_iff]

/-- A list with a head pointer that is not null has a first record. -/
theorem IsChain.exists_cons {link : α → Option α} {l : List α} {a : α}
    (h : IsChain link (some a) l) : ∃ l', l = a :: l' ∧ IsChain link (link a) l' := by
  cases l with
  | nil => exact absurd h (by simp)
  | cons b l =>
    obtain ⟨hab, hl⟩ := h
    obtain rfl := Option.some.inj hab
    exact ⟨l, rfl, hl⟩

/-- A column of links represents at most one list from a given head. -/
theorem IsChain.unique {link : α → Option α} {head : Option α} {l l' : List α}
    (h : IsChain link head l) (h' : IsChain link head l') : l = l' := by
  induction l generalizing head l' with
  | nil => exact (h'.head_eq_none_iff.mp h).symm
  | cons a l ih =>
    obtain ⟨rfl, hl⟩ := h
    cases l' with
    | nil => exact absurd h' (by simp)
    | cons b l' =>
      obtain ⟨hab, hl'⟩ := h'
      obtain rfl := Option.some.inj hab
      rw [ih hl hl']

/-- Only the links of the listed records matter. -/
theorem IsChain.congr {link link' : α → Option α} {head : Option α} {l : List α}
    (h : IsChain link head l) (heq : ∀ a ∈ l, link' a = link a) : IsChain link' head l := by
  induction l generalizing head with
  | nil => exact h
  | cons a l ih =>
    refine ⟨h.1, ?_⟩
    rw [heq a (List.mem_cons_self ..)]
    exact ih h.2 fun b hb => heq b (List.mem_cons_of_mem _ hb)

/-- **Frame.** Writing the link of a record that is not on the list leaves the list alone. -/
theorem IsChain.update [DecidableEq α] {link : α → Option α} {head : Option α} {l : List α} {a : α}
    (h : IsChain link head l) (ha : a ∉ l) (x : Option α) :
    IsChain (Function.update link a x) head l :=
  h.congr fun _ hb => Function.update_of_ne (ne_of_mem_of_not_mem hb ha) _ _

/-- Pushing at the head. -/
theorem IsChain.push [DecidableEq α] {link : α → Option α} {head : Option α} {l : List α} {a : α}
    (h : IsChain link head l) (ha : a ∉ l) :
    IsChain (Function.update link a head) (some a) (a :: l) := by
  refine ⟨rfl, ?_⟩
  rw [Function.update_self]
  exact h.update ha _

/-- Appending after the last record: the new record's link is cleared, then the old last record
is pointed at it. -/
theorem IsChain.append [DecidableEq α] {link : α → Option α} {head : Option α} {l : List α} {a t : α}
    (h : IsChain link head l) (hnd : l.Nodup) (ht : l.getLast? = some t) (ha : a ∉ l) :
    IsChain (Function.update (Function.update link a none) t (some a)) head (l ++ [a]) := by
  induction l generalizing head with
  | nil => simp at ht
  | cons b l ih =>
    obtain ⟨hb, hl⟩ := h
    have hbl : b ∉ l := (List.nodup_cons.mp hnd).1
    have hal : a ∉ l := fun hm => ha (List.mem_cons_of_mem _ hm)
    have hab : a ≠ b := fun hm => ha (hm ▸ List.mem_cons_self ..)
    refine ⟨hb, ?_⟩
    cases l with
    | nil =>
      obtain rfl : b = t := by simpa using ht
      simp [hab]
    | cons c l =>
      have htl : (c :: l).getLast? = some t := by simpa [List.getLast?_cons] using ht
      have hbt : b ≠ t := fun hm => hbl (hm ▸ List.mem_of_getLast? htl)
      rw [Function.update_of_ne hbt, Function.update_of_ne hab.symm]
      exact ih hl (List.nodup_cons.mp hnd).2 htl hal

/-- A null link marks the last record of the list, and no other. -/
theorem IsChain.link_eq_none_iff {link : α → Option α} {head : Option α} {l : List α} {a : α}
    (h : IsChain link head l) (hnd : l.Nodup) (ha : a ∈ l) :
    link a = none ↔ l.getLast? = some a := by
  induction l generalizing head with
  | nil => simp at ha
  | cons b l ih =>
    obtain ⟨hbl, hnd'⟩ := List.nodup_cons.mp hnd
    cases l with
    | nil =>
      obtain rfl : a = b := by simpa using ha
      simpa using h.2
    | cons c l =>
      have hlast : (b :: c :: l).getLast? = (c :: l).getLast? := by
        simp [List.getLast?_cons]
      rcases List.mem_cons.mp ha with rfl | hal
      · have hc : link a = some c := h.2.1
        rw [hlast, hc]
        refine ⟨fun hn => absurd hn (by simp), fun hl => absurd ?_ hbl⟩
        exact List.mem_of_getLast? hl
      · rw [hlast]
        exact ih h.2 hnd' hal

/-! ### Walking the links -/

/-- The records met by following the links from `head`, at most `n` of them. -/
def walk (link : α → Option α) : ℕ → Option α → List α
  | 0, _ => []
  | _ + 1, none => []
  | n + 1, some a => a :: walk link n (link a)

/-- With enough fuel, a walk reads the represented list. -/
theorem walk_eq {link : α → Option α} {head : Option α} {l : List α} {n : ℕ}
    (h : IsChain link head l) (hn : l.length ≤ n) : walk link n head = l := by
  induction l generalizing head n with
  | nil =>
    obtain rfl : head = none := h
    cases n <;> rfl
  | cons a l ih =>
    obtain ⟨rfl, hl⟩ := h
    cases n with
    | zero => simp at hn
    | succ n => rw [walk, ih hl (by simpa using hn)]

/-- The loop `while (p) { next = p->link; body(p); p = next; }`, for at most `n` rounds. The
link is read in the state before the body, as the C loops do. -/
def forEach (link : σ → α → Option α) (body : α → σ → σ) : ℕ → Option α → σ → σ
  | 0, _, s => s
  | _ + 1, none, s => s
  | n + 1, some a, s => forEach link body n (link s a) (body a s)

/-- The records the loop comes to, each with the state it comes to it in. -/
def visits (link : σ → α → Option α) (body : α → σ → σ) : ℕ → Option α → σ → List (α × σ)
  | 0, _, _ => []
  | _ + 1, none, _ => []
  | n + 1, some a, s => (a, s) :: visits link body n (link s a) (body a s)

@[simp] theorem forEach_none (k : σ → α → Option α) (f : α → σ → σ) (n : ℕ) (s : σ) :
    forEach k f n none s = s := by
  cases n <;> rfl

@[simp] theorem visits_none (k : σ → α → Option α) (f : α → σ → σ) (n : ℕ) (s : σ) :
    visits k f n none s = [] := by
  cases n <;> rfl

/-- What every round preserves, the loop preserves, whatever the links are. -/
theorem forEach_invariant {k : σ → α → Option α} {f : α → σ → σ} {P : σ → Prop}
    (hstep : ∀ a s, P s → P (f a s)) {n : ℕ} {p : Option α} {s : σ} (h : P s) :
    P (forEach k f n p s) := by
  induction n generalizing p s with
  | zero => exact h
  | succ n ih =>
    cases p with
    | none => exact h
    | some a => exact ih (hstep a s h)

/-- What the loop ends in, where a round cannot bring it about, held before. -/
theorem forEach_reflect {k : σ → α → Option α} {f : α → σ → σ} {G : σ → Prop}
    (hG : ∀ a s, G (f a s) → G s) {n : ℕ} {p : Option α} {s : σ}
    (h : G (forEach k f n p s)) : G s := by
  by_contra hs
  exact forEach_invariant (P := fun t => ¬ G t) (fun a t ht hb => ht (hG a t hb)) hs h

/-- **Invariant rule for the walking loop.** `P l s` may speak of the records still to be
visited. Each round has to establish `P` for the remaining records and must not write their
links. Both may be shown under a condition `G` on the outcome of the round that the outcome of
the loop meets and no round brings about. -/
theorem forEach_rule {k : σ → α → Option α} {f : α → σ → σ} {P : List α → σ → Prop}
    {G : σ → Prop} (hG : ∀ a s, G (f a s) → G s)
    (hround : ∀ a l s, P (a :: l) s → G (f a s) →
      P l (f a s) ∧ ∀ b ∈ l, k (f a s) b = k s b)
    {l : List α} {n : ℕ} {p : Option α} {s : σ} (hn : l.length ≤ n)
    (hc : IsChain (k s) p l) (h : P l s) (hg : G (forEach k f n p s)) :
    P [] (forEach k f n p s) := by
  induction l generalizing n p s with
  | nil =>
    obtain rfl : p = none := hc
    rwa [forEach_none]
  | cons a l ih =>
    obtain ⟨rfl, hl⟩ := hc
    cases n with
    | zero => simp at hn
    | succ n =>
      rw [forEach] at hg ⊢
      obtain ⟨hP, hlink⟩ := hround a l s h (forEach_reflect hG hg)
      exact ih (by simpa using hn) (hl.congr hlink) hP hg

/-- **Invariant rule for the rounds of the loop**, under the conditions of `forEach_rule`: what holds
of the records still to be visited when a round begins. -/
theorem visits_rule {k : σ → α → Option α} {f : α → σ → σ} {P : List α → σ → Prop}
    {G : σ → Prop} (hG : ∀ a s, G (f a s) → G s)
    (hround : ∀ a l s, P (a :: l) s → G (f a s) →
      P l (f a s) ∧ ∀ b ∈ l, k (f a s) b = k s b)
    {l : List α} {n : ℕ} {p : Option α} {s : σ} (hc : IsChain (k s) p l) (h : P l s)
    (hg : G (forEach k f n p s)) {v : α × σ} (hv : v ∈ visits k f n p s) :
    (∃ l', P (v.1 :: l') v.2) ∧ G (f v.1 v.2) := by
  induction l generalizing n p s with
  | nil =>
    obtain rfl : p = none := hc
    rw [visits_none] at hv
    exact nomatch hv
  | cons a l ih =>
    obtain ⟨rfl, hl⟩ := hc
    cases n with
    | zero => exact nomatch hv
    | succ n =>
      rw [forEach] at hg
      have hg' := forEach_reflect hG hg
      obtain ⟨hP, hlink⟩ := hround a l s h hg'
      rw [visits] at hv
      rcases List.mem_cons.mp hv with rfl | hv
      · exact ⟨⟨l, h⟩, hg'⟩
      · exact ih (hl.congr hlink) hP hg hv

/-- **One turn**, under the conditions of `forEach_rule`. Before the round of a record and after it the
loop does what the other rounds do. -/
theorem forEach_turn {k : σ → α → Option α} {f : α → σ → σ} {P : List α → σ → Prop} {G : σ → Prop}
    {R : σ → σ → Prop} {b : α} (hG : ∀ a s, G (f a s) → G s)
    (hround : ∀ a l s, P (a :: l) s → G (f a s) →
      P l (f a s) ∧ ∀ c ∈ l, k (f a s) c = k s c)
    (hrefl : ∀ s, R s s) (htrans : ∀ s t u, R s t → R t u → R s u)
    (hother : ∀ a s, a ≠ b → R s (f a s)) {l : List α} {n : ℕ} {p : Option α} {s : σ}
    (hn : l.length ≤ n) (hnd : l.Nodup) (hc : IsChain (k s) p l) (h : P l s)
    (hg : G (forEach k f n p s)) :
    b ∉ l ∧ (∀ u, (b, u) ∉ visits k f n p s) ∧ R s (forEach k f n p s) ∨
      b ∈ l ∧ ∃ u, (b, u) ∈ visits k f n p s ∧ (∀ u', (b, u') ∈ visits k f n p s → u' = u) ∧ R s u ∧
        R (f b u) (forEach k f n p s) := by
  induction l generalizing n p s with
  | nil =>
    obtain rfl : p = none := hc
    rw [visits_none, forEach_none]
    exact .inl ⟨List.not_mem_nil, fun _ => List.not_mem_nil, hrefl s⟩
  | cons a l ih =>
    obtain ⟨rfl, hl⟩ := hc
    obtain ⟨hal, hnd⟩ := List.nodup_cons.mp hnd
    cases n with
    | zero => simp at hn
    | succ n =>
      rw [forEach] at hg
      rw [visits, forEach]
      obtain ⟨hP, hlink⟩ := hround a l s h (forEach_reflect hG hg)
      have hrest := ih (by simpa using hn) hnd (hl.congr hlink) hP hg
      rcases eq_or_ne a b with rfl | hab
      · obtain ⟨-, hnone, hR⟩ | ⟨hmem, -⟩ := hrest
        · refine .inr ⟨List.mem_cons_self, s, List.mem_cons_self, fun u hu => ?_, hrefl s, hR⟩
          rcases List.mem_cons.mp hu with heq | hu
          · exact (Prod.mk.inj heq).2
          · exact absurd hu (hnone u)
        · exact absurd hmem hal
      · have hskip : ∀ {u : σ} {l : List (α × σ)}, (b, u) ∈ (a, s) :: l ↔ (b, u) ∈ l := by
          simp [hab.symm]
        have hstep := hother a s hab
        simp only [hskip]
        rw [List.mem_cons, or_iff_right hab.symm]
        obtain ⟨hmem, hnone, hR⟩ | ⟨hmem, u, hu, honce, hbefore, hafter⟩ := hrest
        · exact .inl ⟨hmem, hnone, htrans _ _ _ hstep hR⟩
        · exact .inr ⟨hmem, u, hu, honce, htrans _ _ _ hstep hbefore, hafter⟩

/-- A change that no round sees may be made before the loop or after it. -/
theorem forEach_comm {k : σ → α → Option α} {f : α → σ → σ} {g : σ → σ}
    (hlink : ∀ a s, k (g s) a = k s a) (hbody : ∀ a s, f a (g s) = g (f a s))
    {n : ℕ} {p : Option α} {s : σ} :
    forEach k f n p (g s) = g (forEach k f n p s) := by
  induction n generalizing p s with
  | zero => rfl
  | succ n ih =>
    cases p with
    | none => rfl
    | some a => rw [forEach, forEach, hlink, hbody, ih]

/-- **Two loops that start alike end alike**, where being alike determines the links and is kept by the
body. -/
theorem forEach_congr {k : σ → α → Option α} {f : α → σ → σ} {R : σ → σ → Prop}
    (hlink : ∀ a s t, R s t → k s a = k t a) (hbody : ∀ a s t, R s t → R (f a s) (f a t))
    {n : ℕ} {p : Option α} {s t : σ} (h : R s t) : R (forEach k f n p s) (forEach k f n p t) := by
  induction n generalizing p s t with
  | zero => exact h
  | succ n ih =>
    cases p with
    | none => exact h
    | some a =>
      rw [forEach, forEach, hlink a s t h]
      exact ih (hbody a s t h)

end Intrusive
