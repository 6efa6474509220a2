import CurlLoop.RateManager
import Mathlib.Data.List.Induction

/-!
# The backoff after a 429

`rate_manager_handle_429` answers the seconds to stay away. Within two seconds of the latest reset it
answers one, and every 429 after that doubles the answer, up to a minute. A limit that is set and a
request that is done reset it.

Of the state of a limit the answer depends on two fields, and `rate_manager_can_proceed` and
`rate_manager_start_request` write neither. So the answer is a function of the calls since the latest
reset: how many 429s came two seconds after it or later.

A key needs a limit for this. `rate_manager_request_done` makes none, and without one the answer is
zero.

## Main definitions

* `TimedCall.Resets`, `TimedCall.Late429`
* `Backoff` — the part of a limit that the answer depends on
* `RateRun.backoffSince` — the formula
* `RateRun.ClosedForm` — the answer is what the formula says

## Main results

* `RateRun.backoff_run` — a run of the rate manager as a run of the backoff of one key
* `RateRun.closedForm_of_limit`
-/

namespace CurlLoop

open Guarded

variable {p : Platform}

theorem Platform.macroTimeDiff_lt_two_iff {now last : ℕ} (h : last ≤ now) :
    p.macroTimeDiff now last < 2 ↔ now < last + 2 * 10 ^ 9 := by
  have hcast : ((last + 2 * 10 ^ 9 : ℕ) : ℚ) = last + 2 * 10 ^ 9 := by norm_num
  rw [p.macroTimeDiff_of_le h, div_lt_iff₀ (by positivity), sub_lt_iff_lt_add', ← hcast,
    Nat.cast_lt]

namespace TimedCall

/-- The call resets the backoff of a key. -/
def Resets (c : TimedCall) (key : Key) : Prop := c.Sets key ∨ c.call = .requestDone key

instance (c : TimedCall) (key : Key) : Decidable (c.Resets key) :=
  inferInstanceAs (Decidable (_ ∨ _))

/-- The call asks whether a request may go. -/
def Asks (c : TimedCall) : Prop :=
  match c.call with
  | .canProceed _ _ | .startRequest _ _ => True
  | _ => False

instance (c : TimedCall) : Decidable c.Asks :=
  match c with
  | ⟨_, .canProceed _ _⟩ | ⟨_, .startRequest _ _⟩ => inferInstanceAs (Decidable True)
  | ⟨_, .init⟩ | ⟨_, .setLimit _ _ _ _⟩ | ⟨_, .requestDone _⟩ | ⟨_, .handle429 _⟩
  | ⟨_, .destroy⟩ => inferInstanceAs (Decidable False)

/-- The call is a 429 on the key, two seconds after a time or later. -/
def Late429 (c : TimedCall) (key : Key) (since : ℕ) : Prop :=
  c.call = .handle429 key ∧ since + 2 * 10 ^ 9 ≤ c.now

instance (c : TimedCall) (key : Key) (since : ℕ) : Decidable (c.Late429 key since) :=
  inferInstanceAs (Decidable (_ ∧ _))

end TimedCall

/-! ### What the answer depends on -/

/-- The fields of a limit that `rate_manager_handle_429` bases its answer on. -/
structure Backoff where
  lastSuccess : ℕ
  seconds : ℤ

/-- The backoff of a limit. -/
def RateLimit.backoff (l : RateLimit) : Backoff := ⟨l.lastSuccess, l.backoffSeconds⟩

namespace Backoff

/-- The answer to a 429. -/
def answer (p : Platform) (b : Backoff) (now : ℕ) : ℤ :=
  if p.macroTimeDiff now b.lastSuccess < 2 then 1 else min (b.seconds * 2) 60

/-- What a call does to the backoff of a key. -/
def act (p : Platform) (key : Key) (c : TimedCall) (found : Option Backoff) : Option Backoff :=
  match c.call with
  | .init | .canProceed _ _ | .startRequest _ _ => found
  | .setLimit key' _ _ successAt => if key = key' then some ⟨successAt, 1⟩ else found
  | .requestDone key' => if key = key' then found.map fun _ => ⟨c.now, 1⟩ else found
  | .handle429 key' =>
    if key = key' then found.map fun b => ⟨b.lastSuccess, b.answer p c.now⟩ else found
  | .destroy => none

end Backoff

theorem RateLimit.handle429_answer (l : RateLimit) (now : ℕ) :
    (l.handle429 p now).1 = l.backoff.answer p now := rfl

theorem RateLimit.backoff_canProceed (l : RateLimit) (high : Bool) (now : ℕ) :
    (l.canProceed p high now).2.backoff = l.backoff := by
  rw [canProceed]
  split <;> split <;> rfl

theorem RateLimit.backoff_startRequest (l : RateLimit) (high : Bool) (now : ℕ) :
    (l.startRequest p high now).2.backoff = l.backoff := by
  rw [startRequest]
  split <;> rfl

/-- **One call.** -/
theorem Backoff.map_act (c : TimedCall) (key : Key) (found : Option RateLimit) :
    (c.act p key found).map RateLimit.backoff =
      Backoff.act p key c (found.map RateLimit.backoff) := by
  obtain ⟨now, call⟩ := c
  cases call with
  | init | destroy => rfl
  | setLimit key' maxConcurrent maxRps successAt =>
    simp only [TimedCall.act, Backoff.act]
    split <;> rfl
  | canProceed key' high =>
    simp only [TimedCall.act, Backoff.act]
    split
    · rw [Option.map_map]
      exact congrArg (found.map ·) (funext fun l => l.backoff_canProceed high now)
    · rfl
  | startRequest key' high =>
    simp only [TimedCall.act, Backoff.act]
    split
    · rw [Option.map_map]
      exact congrArg (found.map ·) (funext fun l => l.backoff_startRequest high now)
    · rfl
  | requestDone key' | handle429 key' =>
    simp only [TimedCall.act, Backoff.act]
    split
    · rw [Option.map_map, Option.map_map]
      rfl
    · rfl

namespace RateRun

/-- The clock does not run backwards. -/
def Timely (c : TimedCall) (s : RateRun) : Prop := s.clock ≤ c.now ∧ c.now ≤ c.last

instance (c : TimedCall) (s : RateRun) : Decidable (Timely c s) :=
  inferInstanceAs (Decidable (_ ∧ _))

/-- The backoff of a key, if it has a limit. -/
def backoff (s : RateRun) (key : Key) : Option Backoff :=
  (s.manager.find key).map RateLimit.backoff

variable {s : RateRun} {c : TimedCall} {key : Key} {b b' : Backoff} {since j : ℕ}
  {cs history : List TimedCall} {now : ℕ}

theorem backoff_step (c : TimedCall) (s : RateRun) (key : Key) :
    (s.step p c).backoff key = Backoff.act p key c (s.backoff key) := by
  rw [backoff, find_step, Backoff.map_act]
  rfl

/-- **A run.** What the calls do to the backoff of one key, they do to it alone. -/
theorem backoff_run (s : RateRun) (key : Key) (cs : List TimedCall) :
    (run (step p) s cs).backoff key = run (Backoff.act p key) (s.backoff key) cs := by
  induction cs generalizing s with
  | nil => rfl
  | cons c cs ih => rw [run_cons, ih, backoff_step, run_cons]

end RateRun

/-! ### Since the latest reset -/

/-- The backoff was reset at the time `since`, and `j` late 429s came after that, by the time
`clock`. -/
structure Backoff.Since (b : Backoff) (since j clock : ℕ) : Prop where
  lastSuccess : b.lastSuccess = since
  seconds : b.seconds = min (2 ^ j) 60
  late : 0 < j → since + 2 * 10 ^ 9 ≤ clock
  le : since ≤ clock

namespace Backoff.Since

variable {b b' : Backoff} {since j clock now : ℕ} {c : TimedCall} {key : Key}

theorem reset (since : ℕ) {clock : ℕ} (h : since ≤ clock) :
    (⟨since, 1⟩ : Backoff).Since since 0 clock where
  lastSuccess := rfl
  seconds := rfl
  late hpos := absurd hpos (Nat.lt_irrefl 0)
  le := h

theorem later (h : b.Since since j clock) (hclock : clock ≤ now) : b.Since since j now where
  lastSuccess := h.lastSuccess
  seconds := h.seconds
  late hpos := (h.late hpos).trans hclock
  le := h.le.trans hclock

theorem answer_early (h : b.Since since j clock) (hclock : clock ≤ now)
    (hearly : now < since + 2 * 10 ^ 9) : b.answer p now = 1 := by
  have hle : b.lastSuccess ≤ now := h.lastSuccess ▸ h.le.trans hclock
  rw [answer, if_pos]
  rw [Platform.macroTimeDiff_lt_two_iff hle, h.lastSuccess]
  exact hearly

/-- The answer saturates, and so does the power: the minimum may be taken before the doubling or
after it. -/
theorem answer_late (h : b.Since since j clock) (hclock : clock ≤ now)
    (hlate : since + 2 * 10 ^ 9 ≤ now) : b.answer p now = min (2 ^ (j + 1)) 60 := by
  have hle : b.lastSuccess ≤ now := h.lastSuccess ▸ h.le.trans hclock
  rw [answer, if_neg, h.seconds, pow_succ]
  · generalize (2 : ℤ) ^ j = power
    omega
  · rw [Platform.macroTimeDiff_lt_two_iff hle, h.lastSuccess, not_lt]
    exact hlate

/-- A 429 that comes early is the first of them, for those before it came earlier. -/
theorem handle429 (h : b.Since since j clock) (hclock : clock ≤ now) :
    (⟨b.lastSuccess, b.answer p now⟩ : Backoff).Since since
      (j + if since + 2 * 10 ^ 9 ≤ now then 1 else 0) now := by
  by_cases hlate : since + 2 * 10 ^ 9 ≤ now
  · rw [if_pos hlate]
    exact ⟨h.lastSuccess, h.answer_late hclock hlate, fun _ => hlate, h.le.trans hclock⟩
  · have hnone : j = 0 := by
      by_contra hne
      exact hlate ((h.late (Nat.pos_of_ne_zero hne)).trans hclock)
    subst hnone
    rw [if_neg hlate]
    refine ⟨h.lastSuccess, ?_, fun hpos => absurd hpos (Nat.lt_irrefl 0), h.le.trans hclock⟩
    exact h.answer_early hclock (not_le.mp hlate)

/-- **One call after the reset.** -/
theorem act (h : b.Since since j clock) (hclock : clock ≤ c.now) (hlast : c.now ≤ c.last)
    (hc : ¬ c.Resets key) (hact : Backoff.act p key c (some b) = some b') :
    b'.Since since (j + if c.Late429 key since then 1 else 0) c.last := by
  obtain ⟨now, call⟩ := c
  cases call with
  | init | canProceed key' high | startRequest key' high =>
    obtain rfl : b = b' := Option.some.inj hact
    exact h.later hclock
  | setLimit key' maxConcurrent maxRps successAt =>
    have hne : key ≠ key' := fun heq => hc (.inl ⟨maxConcurrent, maxRps, successAt, heq ▸ rfl⟩)
    obtain rfl : b = b' := Option.some.inj ((if_neg hne).symm.trans hact)
    exact h.later (hclock.trans hlast)
  | requestDone key' =>
    have hne : key ≠ key' := fun heq => hc (.inr (heq ▸ rfl))
    obtain rfl : b = b' := Option.some.inj ((if_neg hne).symm.trans hact)
    exact h.later hclock
  | handle429 key' =>
    by_cases heq : key = key'
    · subst heq
      obtain rfl := Option.some.inj ((if_pos rfl).symm.trans hact)
      simpa only [TimedCall.Late429, TimedCall.last, true_and] using h.handle429 hclock
    · obtain rfl : b = b' := Option.some.inj ((if_neg heq).symm.trans hact)
      have hother : ¬ (⟨now, .handle429 key'⟩ : TimedCall).Late429 key since := fun hlate =>
        heq (RateCall.handle429.inj hlate.1).symm
      rw [if_neg hother]
      exact h.later hclock
  | destroy => exact absurd hact (Option.some_ne_none b').symm

end Backoff.Since

/-! ### Whole histories -/

theorem Backoff.act_none {c : TimedCall} {key : Key} (h : ¬ c.Sets key) :
    Backoff.act p key c none = none := by
  have hact := Backoff.map_act (p := p) c key none
  rw [TimedCall.act_none_of_not_sets p h] at hact
  exact hact.symm

/-- Without a limit there is nothing to reset. -/
theorem Backoff.run_none {key : Key} {cs : List TimedCall} (h : ∀ c ∈ cs, ¬ c.Resets key) :
    run (Backoff.act p key) none cs = none := by
  induction cs with
  | nil => rfl
  | cons c cs ih =>
    obtain ⟨hc, hcs⟩ := List.forall_mem_cons.mp h
    rw [run_cons, Backoff.act_none fun hset => hc (.inl hset), ih hcs]

namespace RateRun

variable {s : RateRun} {c : TimedCall} {key : Key} {b b' : Backoff} {since j now : ℕ}
  {cs history : List TimedCall}

theorem le_clock_run (has : Allowed (step p) Timely s cs) : s.clock ≤ (run (step p) s cs).clock :=
  has.invariant (P := fun s' => s.clock ≤ s'.clock)
    (fun _ _ hle hc => hle.trans (hc.1.trans hc.2)) le_rfl

/-- How many late 429s on the key the calls are. -/
def late429s (key : Key) (since : ℕ) (cs : List TimedCall) : ℕ :=
  cs.countP fun c => c.Late429 key since

theorem late429s_cons (key : Key) (since : ℕ) (c : TimedCall) (cs : List TimedCall) :
    late429s key since (c :: cs) =
      (if c.Late429 key since then 1 else 0) + late429s key since cs := by
  rw [late429s, List.countP_cons, Nat.add_comm]
  simp only [decide_eq_true_eq]
  rfl

theorem late429s_append (key : Key) (since : ℕ) (as bs : List TimedCall) :
    late429s key since (as ++ bs) = late429s key since as + late429s key since bs :=
  List.countP_append

/-- **Calls after the reset.** As long as the limit is there, the power counts the late 429s. -/
theorem since_run (h : b.Since since j s.clock) (hb : s.backoff key = some b)
    (has : Allowed (step p) Timely s cs) (hcs : ∀ c ∈ cs, ¬ c.Resets key)
    (hb' : (run (step p) s cs).backoff key = some b') :
    b'.Since since (j + late429s key since cs) (run (step p) s cs).clock := by
  induction cs generalizing s b j with
  | nil =>
    obtain rfl : b = b' := Option.some.inj (hb.symm.trans hb')
    exact h
  | cons c cs ih =>
    obtain ⟨hc, hcs⟩ := List.forall_mem_cons.mp hcs
    obtain ⟨⟨hclock, hlast⟩, has⟩ := has
    have hnext : (s.step p c).backoff key = Backoff.act p key c (some b) := by
      rw [backoff_step, hb]
    rw [late429s_cons, ← Nat.add_assoc]
    cases hact : Backoff.act p key c (some b) with
    | some b₁ => exact ih (h.act hclock hlast hc hact) (hnext.trans hact) has hcs hb'
    | none =>
      rw [run_cons, backoff_run, hnext, hact, Backoff.run_none hcs] at hb'
      exact absurd hb' (Option.some_ne_none b').symm

/-- A reset leaves the backoff of the key as new, if there is one. -/
theorem since_reset (hc : c.Resets key) (hlast : c.now ≤ c.last)
    (hb : (s.step p c).backoff key = some b) : b.Since c.last 0 (s.step p c).clock := by
  rw [backoff_step] at hb
  obtain ⟨now, call⟩ := c
  obtain ⟨maxConcurrent, maxRps, successAt, hcall⟩ | hcall := hc
  · obtain rfl : call = .setLimit key maxConcurrent maxRps successAt := hcall
    obtain rfl := Option.some.inj ((if_pos rfl).symm.trans hb)
    exact .reset _ le_rfl
  · obtain rfl : call = .requestDone key := hcall
    have hdone : (s.backoff key).map (fun _ => (⟨now, 1⟩ : Backoff)) = some b :=
      (if_pos rfl).symm.trans hb
    obtain ⟨b₀, -, rfl⟩ := Option.map_eq_some_iff.mp hdone
    exact .reset _ le_rfl

/-- The latest reset of a key, and the calls after it. -/
def LatestReset (key : Key) (history : List TimedCall) (r : TimedCall)
    (post : List TimedCall) : Prop :=
  ∃ pre, history = pre ++ r :: post ∧ r.Resets key ∧ ∀ c ∈ post, ¬ c.Resets key

/-- A key that has a limit was reset. -/
theorem exists_latestReset {b : Backoff} (h : (run (step p) start history).backoff key = some b) :
    ∃ r post, LatestReset key history r post := by
  induction history using List.reverseRecOn generalizing b with
  | nil => exact absurd h (Option.some_ne_none b).symm
  | append_singleton history c ih =>
    by_cases hc : c.Resets key
    · exact ⟨c, [], history, rfl, hc, List.forall_mem_nil _⟩
    · rw [run_concat, backoff_step] at h
      cases hfound : (run (step p) start history).backoff key with
      | none =>
        rw [hfound, Backoff.act_none fun hset => hc (.inl hset)] at h
        exact absurd h (Option.some_ne_none b).symm
      | some b₀ =>
        obtain ⟨r, post, pre, hhistory, hr, hpost⟩ := ih hfound
        refine ⟨r, post ++ [c], pre, ?_, hr, ?_⟩
        · rw [hhistory, List.append_assoc, List.cons_append]
        · rw [List.forall_mem_append]
          exact ⟨hpost, List.forall_mem_singleton.mpr hc⟩

/-- What `rate_manager_handle_429` answers on a key at a time. -/
def answer429 (p : Platform) (key : Key) (history : List TimedCall) (now : ℕ) : ℤ :=
  ((run (step p) start history).manager.handle429 p key now).1

/-- The formula: the seconds to stay away, by the time of the latest reset and the calls since. -/
def backoffSince (key : Key) (since : ℕ) (post : List TimedCall) (now : ℕ) : ℤ :=
  if now < since + 2 * 10 ^ 9 then 1
  else min (2 ^ late429s key since (post ++ [⟨now, .handle429 key⟩])) 60

/-- The answer is what the formula says, whenever the key was reset last. -/
def ClosedForm (p : Platform) (key : Key) (history : List TimedCall) (now : ℕ) : Prop :=
  ∀ r post, LatestReset key history r post →
    answer429 p key history now = backoffSince key r.last post now

theorem answer429_of_some (h : (run (step p) start history).backoff key = some b) (now : ℕ) :
    answer429 p key history now = b.answer p now := by
  obtain ⟨l, hl, rfl⟩ := Option.map_eq_some_iff.mp h
  exact (RateManager.onLimit_answer hl 0 _).trans (l.handle429_answer now)

/-- Without a limit the answer is zero. -/
theorem answer429_of_none (h : (run (step p) start history).manager.find key = none) (now : ℕ) :
    answer429 p key history now = 0 := by
  rw [answer429, RateManager.handle429, RateManager.onLimit, h]

theorem one_le_backoffSince (key : Key) (since : ℕ) (post : List TimedCall) (now : ℕ) :
    1 ≤ backoffSince key since post now := by
  rw [backoffSince]
  split
  · exact le_rfl
  · exact le_min (one_le_pow₀ (by decide)) (by decide)

theorem backoffSince_le (key : Key) (since : ℕ) (post : List TimedCall) (now : ℕ) :
    backoffSince key since post now ≤ 60 := by
  rw [backoffSince]
  split
  · decide
  · exact min_le_right _ _

/-- More calls and a later time do not lower the formula. -/
theorem backoffSince_mono (key : Key) (since : ℕ) (post cs : List TimedCall) {later : ℕ}
    (hle : now ≤ later) :
    backoffSince key since post now ≤
      backoffSince key since (post ++ ⟨now, .handle429 key⟩ :: cs) later := by
  by_cases hearly : now < since + 2 * 10 ^ 9
  · calc backoffSince key since post now = 1 := if_pos hearly
      _ ≤ _ := one_le_backoffSince _ _ _ _
  · have hcount : late429s key since (post ++ [⟨now, .handle429 key⟩]) ≤
        late429s key since (post ++ ⟨now, .handle429 key⟩ :: cs ++ [⟨later, .handle429 key⟩]) := by
      simp only [late429s_append, late429s_cons]
      omega
    rw [backoffSince, backoffSince, if_neg hearly, if_neg (by omega)]
    exact min_le_min_right _ (pow_le_pow_right₀ (by decide) hcount)

theorem closedForm (h : Allowed (step p) Timely start (history ++ [⟨now, .handle429 key⟩]))
    (hb' : (run (step p) start history).backoff key = some b') : ClosedForm p key history now := by
  rintro r post ⟨pre, rfl, hr, hpost⟩
  obtain ⟨hall, ⟨hnow, -⟩, -⟩ := allowed_append.mp h
  obtain ⟨-, ⟨-, hlast⟩, hafter⟩ := allowed_append.mp hall
  rw [answer429_of_some hb']
  rw [run_append, run_cons] at hb' hnow
  cases hb : ((run (step p) start pre).step p r).backoff key with
  | none =>
    rw [backoff_run, hb, Backoff.run_none hpost] at hb'
    exact absurd hb' (Option.some_ne_none b').symm
  | some b =>
    have hsince := since_run (since_reset hr hlast hb) hb hafter hpost hb'
    rw [Nat.zero_add] at hsince
    rw [backoffSince]
    split
    · next hearly => exact hsince.answer_early hnow hearly
    · next hlate =>
      rw [not_lt] at hlate
      rw [hsince.answer_late hnow hlate, late429s_append, late429s_cons,
        if_pos (show (⟨now, .handle429 key⟩ : TimedCall).Late429 key r.last from ⟨rfl, hlate⟩)]
      rfl

/-- A call that asks whether a request may go does not touch the backoff. -/
theorem run_filter_asks (key : Key) (found : Option Backoff) (cs : List TimedCall) :
    run (Backoff.act p key) found (cs.filter fun c => ¬ c.Asks) =
      run (Backoff.act p key) found cs := by
  induction cs generalizing found with
  | nil => rfl
  | cons c cs ih =>
    by_cases hasks : c.Asks
    · have hsame : Backoff.act p key c found = found := by
        obtain ⟨now, call⟩ := c
        cases call with
        | canProceed | startRequest => rfl
        | init | setLimit | requestDone | handle429 | destroy => exact False.elim hasks
      rw [List.filter_cons_of_neg (by simpa using hasks), ih, run_cons, hsame]
    · rw [List.filter_cons_of_pos (by simpa using hasks), run_cons, ih, run_cons]

theorem answer429_congr {history' : List TimedCall}
    (h : (run (step p) start history').backoff key = (run (step p) start history).backoff key)
    (now : ℕ) : answer429 p key history' now = answer429 p key history now := by
  cases hb : (run (step p) start history).backoff key with
  | none =>
    rw [answer429_of_none (Option.map_eq_none_iff.mp hb),
      answer429_of_none (Option.map_eq_none_iff.mp (h.trans hb))]
  | some b => rw [answer429_of_some hb, answer429_of_some (h.trans hb)]

/-- The answer is the same in all histories that differ in such calls only. -/
theorem answer429_of_filter_eq {history' : List TimedCall}
    (h : (history'.filter fun c => ¬ c.Asks) = history.filter fun c => ¬ c.Asks) (key : Key)
    (now : ℕ) : answer429 p key history' now = answer429 p key history now := by
  refine answer429_congr ?_ now
  rw [backoff_run, backoff_run, ← run_filter_asks key _ history', h, run_filter_asks]

/-- **The backoff has a closed form.** For a key that has a limit, the answer to a 429 is one within
two seconds of the latest reset, and after that the power of two that counts the late 429s since, up
to sixty. So it is between one and sixty, does not fall until the next reset, and does not depend on
the calls that ask whether a request may go. -/
theorem closedForm_of_limit
    (h : Allowed (step p) Timely start (history ++ [⟨now, .handle429 key⟩]))
    (hlimit : ((run (step p) start history).manager.find key).isSome) :
    (∃ r post, LatestReset key history r post) ∧ ClosedForm p key history now ∧
      (1 ≤ answer429 p key history now ∧ answer429 p key history now ≤ 60) ∧
      (∀ cs later,
        Allowed (step p) Timely start
          ((history ++ ⟨now, .handle429 key⟩ :: cs) ++ [⟨later, .handle429 key⟩]) →
        (∀ c ∈ cs, ¬ c.Resets key) →
        ((run (step p) start (history ++ ⟨now, .handle429 key⟩ :: cs)).manager.find key).isSome →
        answer429 p key history now ≤
          answer429 p key (history ++ ⟨now, .handle429 key⟩ :: cs) later) ∧
      ∀ history', ((history'.filter fun c => ¬ c.Asks) = history.filter fun c => ¬ c.Asks) →
        answer429 p key history' now = answer429 p key history now := by
  have hsome : ∀ {cs}, ((run (step p) start cs).manager.find key).isSome →
      ∃ b, (run (step p) start cs).backoff key = some b := fun hfound =>
    Option.isSome_iff_exists.mp (Option.isSome_map.trans hfound)
  obtain ⟨b, hb⟩ := hsome hlimit
  obtain ⟨r, post, hlatest⟩ := exists_latestReset hb
  have hform := closedForm h hb
  refine ⟨⟨r, post, hlatest⟩, hform, ?_, ?_, fun history' heq => answer429_of_filter_eq heq key now⟩
  · rw [hform r post hlatest]
    exact ⟨one_le_backoffSince _ _ _ _, backoffSince_le _ _ _ _⟩
  · intro cs later hlater hcs hlimit'
    obtain ⟨b', hb'⟩ := hsome hlimit'
    -- The latest reset is the same one, and the calls since are more.
    have hlatest' : LatestReset key (history ++ ⟨now, .handle429 key⟩ :: cs) r
        (post ++ ⟨now, .handle429 key⟩ :: cs) := by
      obtain ⟨pre, rfl, hr, hpost⟩ := hlatest
      refine ⟨pre, by simp, hr, ?_⟩
      rw [List.forall_mem_append, List.forall_mem_cons]
      refine ⟨hpost, ?_, hcs⟩
      rintro (⟨_, _, _, hset⟩ | hdone)
      · cases hset
      · cases hdone
    have hle : now ≤ later := by
      obtain ⟨hall, ⟨hclock, -⟩, -⟩ := allowed_append.mp hlater
      rw [run_append, run_cons] at hclock
      exact (le_clock_run (allowed_append.mp hall).2.2).trans hclock
    rw [hform r post hlatest, closedForm hlater hb' r _ hlatest']
    exact backoffSince_mono key r.last post cs hle

/-- The limit was set, two 429s came at once and two more after three seconds. The next is the third
that counts. -/
theorem closedForm_four :
    answer429 .saturating "k" [⟨5, .setLimit "k" 1 1 5⟩, ⟨6, .handle429 "k"⟩, ⟨7, .handle429 "k"⟩,
        ⟨3000000000, .handle429 "k"⟩, ⟨3000000001, .canProceed "k" true⟩,
        ⟨3000000002, .handle429 "k"⟩] 3000000003 = 8 ∧
      ClosedForm .saturating "k" [⟨5, .setLimit "k" 1 1 5⟩, ⟨6, .handle429 "k"⟩,
        ⟨7, .handle429 "k"⟩, ⟨3000000000, .handle429 "k"⟩, ⟨3000000001, .canProceed "k" true⟩,
        ⟨3000000002, .handle429 "k"⟩] 3000000003 := by
  refine ⟨by decide +kernel, (closedForm_of_limit ?_ ?_).2.1⟩
  · decide +kernel
  · decide +kernel

/-- A request is done on a key that has no limit, and the 429 after it is answered zero. -/
theorem not_closedForm_without_limit :
    Allowed (step .saturating) Timely start
        ([⟨0, .requestDone "k"⟩] ++ [⟨0, .handle429 "k"⟩]) ∧
      ¬ ClosedForm .saturating "k" [⟨0, .requestDone "k"⟩] 0 := by
  refine ⟨by decide, fun h => ?_⟩
  have hlatest : LatestReset "k" [⟨0, .requestDone "k"⟩] ⟨0, .requestDone "k"⟩ [] :=
    ⟨[], rfl, .inr rfl, List.forall_mem_nil _⟩
  have hzero : answer429 .saturating "k" [⟨0, .requestDone "k"⟩] 0 = 0 := answer429_of_none rfl 0
  have hone : 1 ≤ answer429 .saturating "k" [⟨0, .requestDone "k"⟩] 0 := by
    rw [h _ _ hlatest]
    exact one_le_backoffSince _ _ _ _
  omega

end RateRun

end CurlLoop
