import CurlLoop.RateManager

/-!
# What an answer of the rate manager promises

`rate_manager_can_proceed` and `rate_manager_start_request` answer zero for "go" and otherwise the
nanoseconds to wait. The wait is computed as a `double` and truncated, and the same expression
answers a caller who finds no token and one who finds a token that is kept for somebody else. Its
truncation can be zero.

A high-priority request that `rate_manager_can_proceed` turns away is counted, and normal requests
wait while the count is positive. Every refusal counts and every grant uncounts one, so a request
that was refused twice leaves something behind.

The bucket holds at most `max_rps` tokens, and a grant takes a whole one. Below one request a second
there is never a whole one, and no wait is long enough.

## Main definitions

* `RateManager.TakesToken`, `RateManager.Honest` — a zero answer is a real grant
* `RateLimit.Decisive` — the wait does not round to zero
* `RateRun.WaitSuffices` — whoever waits as long as it was told is granted a token
* `Crowd`, `Crowd.Released` — the high-priority requests of a key, and the normal ones after them
* `Crowd.Patient` — nobody is refused twice

## Main results

* `RateManager.honest_iff`
* `RateRun.waitSuffices_iff`
* `Crowd.released_of_patient`
-/

namespace CurlLoop

variable {p : Platform}

/-- A `double` converted is not zero: it is in range and at least one, or it is out of range and
the platform makes something of it. -/
theorem Platform.toUint64_ne_zero_iff (x : ℚ) :
    p.toUint64 (some x) ≠ 0 ↔
      1 ≤ x ∧ x < 2 ^ 64 ∨ (x ≤ -1 ∨ 2 ^ 64 ≤ x) ∧ p.toUint64 (some x) ≠ 0 := by
  constructor
  · intro h
    by_cases hrange : -1 < x ∧ x < 2 ^ 64
    · rw [p.toUint64_of_fits hrange.1 hrange.2, ← Nat.pos_iff_ne_zero, Nat.floor_pos] at h
      exact .inl ⟨h, hrange.2⟩
    · rw [not_and_or, not_lt, not_lt] at hrange
      exact .inr ⟨hrange, h⟩
  · rintro (⟨hone, hfits⟩ | ⟨-, h⟩)
    · rw [p.toUint64_of_fits (neg_one_lt_zero.trans (zero_lt_one.trans_le hone)) hfits,
        ← Nat.pos_iff_ne_zero, Nat.floor_pos]
      exact hone
    · exact h

namespace RateLimit

variable {l : RateLimit} {high : Bool} {now : ℕ}

/-- The request is admitted, or the tokens missing for the next one come neither so soon nor so late
that the answer is lost: between one nanosecond and the range of `uint64_t`, or else at a time the
platform converts to something else than zero. -/
def Decisive (p : Platform) (l : RateLimit) (high : Bool) (now : ℕ) : Prop :=
  let missing := (1 - l.level p now) * 10 ^ 9
  l.Admits p high now ∨ l.maxRps ≤ missing ∧ missing < l.maxRps * 2 ^ 64 ∨
    (missing ≤ -l.maxRps ∨ l.maxRps * 2 ^ 64 ≤ missing) ∧
      p.toUint64 (some (missing / l.maxRps)) ≠ 0

instance : Decidable (l.Decisive p high now) := inferInstanceAs (Decidable (_ ∨ _))

theorem waitTimeNs_refill (h : 0 < l.maxRps) :
    (l.refill p now).waitTimeNs = some ((1 - l.level p now) * 10 ^ 9 / l.maxRps) := by
  rw [waitTimeNs]
  refine (if_neg h.ne').trans (congrArg some ?_)
  exact div_mul_eq_mul_div _ _ _

/-- A request that is not admitted is told to wait. -/
theorem wait_ne_zero_iff (h : 0 < l.maxRps) (hadmits : ¬ l.Admits p high now) :
    p.toUint64 (l.refill p now).waitTimeNs ≠ 0 ↔ l.Decisive p high now := by
  rw [waitTimeNs_refill h, p.toUint64_ne_zero_iff, one_le_div h, div_lt_iff₀ h, div_le_iff₀ h,
    le_div_iff₀ h, neg_one_mul, mul_comm (2 ^ 64)]
  exact (or_iff_right hadmits).symm

theorem canProceed_of_admits (h : l.Admits p high now) :
    l.canProceed p high now = (0, l.refill p now) := by
  rw [canProceed]
  cases high with
  | true => exact if_pos h.1
  | false =>
    have hgo : 1 ≤ (l.refill p now).tokens ∧ (l.refill p now).highPriorityRequests = 0 :=
      ⟨h.1, h.2.resolve_left Bool.false_ne_true⟩
    exact if_pos hgo

theorem canProceed_of_not_admits (h : ¬ l.Admits p high now) :
    l.canProceed p high now = (p.toUint64 (l.refill p now).waitTimeNs,
      if high then (l.refill p now).announce else l.refill p now) := by
  rw [canProceed]
  cases high with
  | true => exact if_neg fun hlevel => h ⟨hlevel, .inl rfl⟩
  | false =>
    have hstop : ¬ (1 ≤ (l.refill p now).tokens ∧ (l.refill p now).highPriorityRequests = 0) :=
      fun hgo => h ⟨hgo.1, .inr hgo.2⟩
    exact if_neg hstop

/-- A second look at the same instant sees the same tokens. -/
theorem level_refill (l : RateLimit) (now : ℕ) :
    (l.refill p now).level p now = l.level p now := by
  have hnow : p.macroTimeDiff now now = 0 := by
    rw [p.macroTimeDiff_of_le le_rfl, sub_self, zero_div]
  change min l.maxRps (l.level p now + p.macroTimeDiff now now * l.maxRps) = l.level p now
  rw [hnow, zero_mul, add_zero]
  exact min_eq_right (min_le_left _ _)

/-- The query does not change what it asks about. -/
theorem admits_canProceed :
    (l.canProceed p high now).2.Admits p high now ↔ l.Admits p high now := by
  have hrefill : (l.refill p now).Admits p high now ↔ l.Admits p high now := by
    rw [Admits, level_refill]
    exact Iff.rfl
  by_cases h : l.Admits p high now
  · rw [canProceed_of_admits h]
    exact hrefill
  · rw [canProceed_of_not_admits h]
    cases high with
    | true =>
      -- The refusal is counted, and a high-priority request does not look at the count.
      have hannounce : (l.refill p now).announce.level p now = l.level p now := level_refill l now
      rw [if_pos rfl, Admits, Admits, hannounce]
      simp only [true_or]
    | false => exact hrefill

/-- Nor does a refill at the same instant change how long a request would wait. -/
theorem waitTimeNs_refill_refill (l : RateLimit) (now : ℕ) :
    ((l.refill p now).refill p now).waitTimeNs = (l.refill p now).waitTimeNs := by
  have htokens : ((l.refill p now).refill p now).tokens = (l.refill p now).tokens :=
    level_refill l now
  rw [waitTimeNs, waitTimeNs, htokens]
  rfl

/-- Asked again at the same instant, the limit answers the same. -/
theorem canProceed_canProceed (l : RateLimit) (high : Bool) (now : ℕ) :
    ((l.canProceed p high now).2.canProceed p high now).1 = (l.canProceed p high now).1 := by
  have hagain : (l.canProceed p high now).2.Admits p high now ↔ l.Admits p high now :=
    admits_canProceed
  by_cases h : l.Admits p high now
  · rw [canProceed_of_admits (hagain.mpr h), canProceed_of_admits h]
  · rw [canProceed_of_not_admits (hagain.not.mpr h), canProceed_of_not_admits h]
    cases high with
    | true => exact congrArg p.toUint64 (waitTimeNs_refill_refill l now)
    | false => exact congrArg p.toUint64 (waitTimeNs_refill_refill l now)

/-- A refused query counts a high-priority request. -/
theorem highPriorityRequests_canProceed (l : RateLimit) (high : Bool) (now : ℕ) :
    (l.canProceed p high now).2.highPriorityRequests =
      l.highPriorityRequests + if high ∧ ¬ l.Admits p high now then 1 else 0 := by
  by_cases h : l.Admits p high now
  · rw [canProceed_of_admits h, if_neg fun hrefused => hrefused.2 h]
    rfl
  · rw [canProceed_of_not_admits h]
    cases high with
    | true => rw [if_pos rfl, if_pos ⟨rfl, h⟩]; rfl
    | false => rw [if_neg Bool.false_ne_true, if_neg fun hhigh => Bool.false_ne_true hhigh.1]; rfl

/-- A grant uncounts one. -/
theorem highPriorityRequests_startRequest (l : RateLimit) (high : Bool) (now : ℕ) :
    (l.startRequest p high now).2.highPriorityRequests =
      l.highPriorityRequests - if high ∧ l.Admits p high now then 1 else 0 := by
  by_cases h : l.Admits p high now
  · rw [startRequest_of_admits h]
    change (if high ∧ 0 < l.highPriorityRequests then l.highPriorityRequests - 1
      else l.highPriorityRequests) = _
    cases high with
    | false => simp
    | true =>
      rcases Nat.eq_zero_or_pos l.highPriorityRequests with hzero | hpos
      · simp [hzero]
      · simp [hpos, h]
  · rw [startRequest_of_not_admits h, if_neg fun hgranted => h hgranted.2]
    rfl

end RateLimit

namespace RateManager

variable {g : RateManager} {key : Key} {high : Bool} {now : ℕ} {l : RateLimit}

/-- A call of `rate_manager_start_request` takes one token of the key and counts the request. -/
def TakesToken (p : Platform) (g : RateManager) (key : Key) (high : Bool) (now : ℕ) : Prop :=
  ∃ l l', g.find key = some l ∧ (g.startRequest p key high now).2.find key = some l' ∧
    l'.tokens = l.level p now - 1 ∧ l'.currentRequests = l.currentRequests + 1

/-- A zero answer is a real grant. -/
structure Honest (p : Platform) (g : RateManager) (key : Key) (high : Bool) (now : ℕ) : Prop where
  start : (g.startRequest p key high now).1 = 0 ↔ g.TakesToken p key high now
  precedence : high = false → g.TakesToken p key high now →
    ∀ l, g.find key = some l → l.highPriorityRequests = 0
  query : (g.canProceed p key high now).1 = 0 ↔ g.TakesToken p key high now

theorem takesToken_iff (h : g.find key = some l) :
    g.TakesToken p key high now ↔ l.Admits p high now := by
  have hafter : (g.startRequest p key high now).2.find key = some (l.startRequest p high now).2 := by
    rw [startRequest, find_onLimit, if_pos rfl, h]
    rfl
  rw [← RateLimit.takesToken_iff]
  constructor
  · rintro ⟨l₁, l₂, h₁, h₂, htakes⟩
    obtain rfl := Option.some.inj (h.symm.trans h₁)
    obtain rfl := Option.some.inj (hafter.symm.trans h₂)
    exact htakes
  · exact fun htakes => ⟨l, _, h, hafter, htakes⟩

/-- The query does not spoil the start that follows it. -/
theorem takesToken_canProceed (h : g.find key = some l) :
    (g.canProceed p key high now).2.TakesToken p key high now ↔ g.TakesToken p key high now := by
  have hafter : (g.canProceed p key high now).2.find key = some (l.canProceed p high now).2 := by
    rw [canProceed, find_onLimit, if_pos rfl, h]
    rfl
  rw [takesToken_iff hafter, takesToken_iff h, RateLimit.admits_canProceed]

/-- **When a zero answer is a real grant.** -/
theorem honest_iff (p : Platform) (g : RateManager) (key : Key) (high : Bool) (now : ℕ)
    {l : RateLimit} (h : g.find key = some l) (hrate : 0 < l.maxRps) :
    g.Honest p key high now ↔ l.Decisive p high now := by
  have hstart : (g.startRequest p key high now).1 = (l.startRequest p high now).1 :=
    onLimit_answer h 0 _
  have hquery : (g.canProceed p key high now).1 = (l.canProceed p high now).1 :=
    onLimit_answer h 0 _
  by_cases hadmits : l.Admits p high now
  · have htakes : g.TakesToken p key high now := (takesToken_iff h).mpr hadmits
    refine iff_of_true ⟨?_, ?_, ?_⟩ (.inl hadmits)
    · rw [hstart, RateLimit.startRequest_of_admits hadmits]
      exact iff_of_true rfl htakes
    · rintro rfl - l' hl'
      obtain rfl := Option.some.inj (h.symm.trans hl')
      exact hadmits.2.resolve_left Bool.false_ne_true
    · rw [hquery, RateLimit.canProceed_of_admits hadmits]
      exact iff_of_true rfl htakes
  · have htakes : ¬ g.TakesToken p key high now := (takesToken_iff h).not.mpr hadmits
    rw [← RateLimit.wait_ne_zero_iff hrate hadmits]
    constructor
    · intro hhonest hzero
      rw [← hhonest.start, hstart, RateLimit.startRequest_of_not_admits hadmits] at htakes
      exact htakes hzero
    · intro hwait
      refine ⟨?_, fun _ h => absurd h htakes, ?_⟩
      · rw [hstart, RateLimit.startRequest_of_not_admits hadmits]
        exact iff_of_false hwait htakes
      · rw [hquery, RateLimit.canProceed_of_not_admits hadmits]
        exact iff_of_false hwait htakes

/-- With one request in two seconds the bucket is full at half a token, so half a second on the caller
takes none, and is told to wait a second. -/
theorem honest_half_second :
    Honest .saturating (RateRun.start.step .saturating ⟨0, .setLimit "k" 1 (1 / 2) 0⟩).manager "k"
      true 500000000 :=
  (honest_iff .saturating _ "k" true 500000000 (by rfl) (by decide +kernel)).mpr (by decide +kernel)

/-- A high-priority request was turned away, and the next token is there: a normal request may not
have it and is told to wait for no time at all. -/
theorem not_honest_of_kept_token :
    ¬ ∀ (cs : List TimedCall) (key : Key) (high : Bool) (now : ℕ) (l : RateLimit),
      Guarded.Allowed (RateRun.step .saturating) RateRun.Ordered .start cs →
      (Guarded.run (RateRun.step .saturating) .start cs).manager.find key = some l →
      0 < l.maxRps → (Guarded.run (RateRun.step .saturating) .start cs).clock ≤ now →
      (Guarded.run (RateRun.step .saturating) .start cs).manager.Honest .saturating key high now := by
  intro h
  have hkept := (h [⟨0, .setLimit "k" 1 1 0⟩, ⟨0, .startRequest "k" false⟩, ⟨0, .canProceed "k" true⟩]
    "k" false 1000000000 ⟨1, 1, 1, 1, 0, 0, 0, 1⟩ (by decide +kernel) (by decide +kernel)
    (by decide +kernel) (by decide)).start
  have hzero : ((Guarded.run (RateRun.step .saturating) .start [⟨0, .setLimit "k" 1 1 0⟩,
      ⟨0, .startRequest "k" false⟩, ⟨0, .canProceed "k" true⟩]).manager.startRequest .saturating "k"
      false 1000000000).1 = 0 := by decide +kernel
  rw [takesToken_iff (l := ⟨1, 1, 1, 1, 0, 0, 0, 1⟩) (by decide +kernel)] at hkept
  exact absurd (hkept.mp hzero) (by decide +kernel)

end RateManager

/-! ### The wait -/

/-- The call is about the key, or takes all limits away. -/
def TimedCall.Concerns (c : TimedCall) (key : Key) : Prop :=
  match c.call with
  | .init => False
  | .setLimit key' _ _ _ | .canProceed key' _ | .startRequest key' _ | .requestDone key'
  | .handle429 key' => key = key'
  | .destroy => True

/-- The limit of a key is left alone by all other calls. -/
theorem TimedCall.act_of_not_concerns {c : TimedCall} {key : Key} (h : ¬ c.Concerns key)
    (found : Option RateLimit) : c.act p key found = found := by
  obtain ⟨now, call⟩ := c
  cases call with
  | init => rfl
  | setLimit | canProceed | startRequest | requestDone | handle429 => exact if_neg h
  | destroy => exact absurd trivial h

/-- The time that was told has passed, and a whole token is there. -/
theorem RateLimit.one_le_level_of_waited {l : RateLimit} {now : ℕ} (hrate : 1 ≤ l.maxRps)
    (hnonneg : 0 ≤ l.tokens) (hnone : l.tokens < 1)
    (hnow : l.lastRefill + p.toUint64 l.waitTimeNs + 1 ≤ now) : 1 ≤ l.level p now := by
  have hpos : 0 < l.maxRps := zero_lt_one.trans_le hrate
  -- The wait is at most a second, so it fits.
  have hwait : l.waitTimeNs = some ((1 - l.tokens) / l.maxRps * 10 ^ 9) := if_neg hpos.ne'
  have hmissing : 0 ≤ (1 - l.tokens) / l.maxRps := div_nonneg (sub_nonneg.mpr hnone.le) hpos.le
  have hsecond : (1 - l.tokens) / l.maxRps ≤ 1 := by
    rw [div_le_one hpos]
    linarith
  have hfits : p.toUint64 l.waitTimeNs = ⌊(1 - l.tokens) / l.maxRps * 10 ^ 9⌋₊ := by
    rw [hwait]
    exact p.toUint64_of_fits (by linarith) (by linarith)
  rw [hfits] at hnow
  have hlast : l.lastRefill ≤ now := by omega
  have hlong : (1 - l.tokens) / l.maxRps * 10 ^ 9 < (now : ℚ) - l.lastRefill := by
    have hfloor := Nat.lt_floor_add_one ((1 - l.tokens) / l.maxRps * 10 ^ 9)
    have hcast : (l.lastRefill : ℚ) + ⌊(1 - l.tokens) / l.maxRps * 10 ^ 9⌋₊ + 1 ≤ now := by
      exact_mod_cast hnow
    linarith
  refine le_min hrate ?_
  rw [p.macroTimeDiff_of_le hlast]
  have hgain : 1 - l.tokens ≤ ((now : ℚ) - l.lastRefill) / 10 ^ 9 * l.maxRps := by
    rw [← div_le_iff₀ hpos, le_div_iff₀ (by positivity)]
    exact hlong.le
  linarith

namespace RateRun

open Guarded

variable {s : RateRun} {key : Key} {high : Bool} {t : ℕ} {l : RateLimit}

theorem find_run_of_not_concerns {cs : List TimedCall} (h : ∀ c ∈ cs, ¬ c.Concerns key) :
    (run (step p) s cs).manager.find key = s.manager.find key := by
  induction cs generalizing s with
  | nil => rfl
  | cons c cs ih =>
    obtain ⟨hc, hcs⟩ := List.forall_mem_cons.mp h
    rw [run_cons, ih hcs, find_step, TimedCall.act_of_not_concerns hc]

/-- Whoever asks at `t` and comes back later than it was told, with no call about the key in between,
is granted a token. -/
def WaitSuffices (p : Platform) (s : RateRun) (key : Key) (high : Bool) (t : ℕ) : Prop :=
  ∀ cs, Allowed (step p) Ordered (s.step p ⟨t, .startRequest key high⟩) cs →
    (∀ c ∈ cs, ¬ c.Concerns key) →
    ∀ t', (run (step p) (s.step p ⟨t, .startRequest key high⟩) cs).clock ≤ t' →
      t + (s.manager.startRequest p key high t).1 + 1 ≤ t' →
      (run (step p) (s.step p ⟨t, .startRequest key high⟩) cs).manager.TakesToken p key high t'

/-- **When the wait is enough.** Whoever is told to wait, and has nobody before it, is granted a token
after that time if and only if the bucket can hold one. -/
theorem waitSuffices_iff {cs : List TimedCall} (h : Allowed (step p) Ordered start cs)
    (hl : (run (step p) start cs).manager.find key = some l)
    (ht : (run (step p) start cs).clock ≤ t)
    (hwait : 0 < ((run (step p) start cs).manager.startRequest p key high t).1)
    (hturn : high = true ∨ l.highPriorityRequests = 0) :
    (run (step p) start cs).WaitSuffices p key high t ↔ 1 ≤ l.maxRps := by
  have hanswer : ((run (step p) start cs).manager.startRequest p key high t).1 =
      (l.startRequest p high t).1 := RateManager.onLimit_answer hl 0 _
  have hrefused : ¬ l.Admits p high t := by
    intro hadmits
    rw [hanswer, RateLimit.startRequest_of_admits hadmits] at hwait
    exact lt_irrefl 0 hwait
  have hnone : l.level p t < 1 := lt_of_not_ge fun hlevel => hrefused ⟨hlevel, hturn⟩
  -- The refused call brings the bucket up to date, and so it stays until the next call on the key.
  have hafter : ((run (step p) start cs).step p ⟨t, .startRequest key high⟩).manager.find key =
      some (l.refill p t) := by
    rw [find_step, hl]
    change (if key = key then some (l.startRequest p high t).2 else some l) = _
    rw [if_pos rfl, RateLimit.startRequest_of_not_admits hrefused]
  rw [WaitSuffices, hanswer, RateLimit.startRequest_of_not_admits hrefused]
  constructor
  · intro henough
    have htakes := henough [] trivial nofun _ ((Nat.le_add_right t _).trans (Nat.le_succ _)) le_rfl
    have hadmits := (RateManager.takesToken_iff hafter).mp htakes
    exact hadmits.1.trans (min_le_left _ _)
  · intro hone cs' _ hothers t' _ ht'
    have hfind : (run (step p) ((run (step p) start cs).step p ⟨t, .startRequest key high⟩)
        cs').manager.find key = some (l.refill p t) :=
      (find_run_of_not_concerns hothers).trans hafter
    have hmeters : (l.refill p t).Meters l.maxRps 0 0 t :=
      (metered_run h key l hl).refill ht (Nat.zero_le t)
    have hlevel : 1 ≤ (l.refill p t).level p t' :=
      RateLimit.one_le_level_of_waited hone hmeters.tokens_nonneg hnone ht'
    exact (RateManager.takesToken_iff hfind).mpr ⟨hlevel, hturn⟩

/-- With three requests in two seconds, the second caller is told a third of a second. -/
theorem waitSuffices_three_halves :
    (run (step .saturating) start [⟨0, .setLimit "k" 1 (3 / 2) 0⟩,
      ⟨0, .startRequest "k" true⟩]).WaitSuffices .saturating "k" true 0 :=
  (waitSuffices_iff (l := ⟨1, 3 / 2, 1, 0, 1 / 2, 0, 0, 1⟩) (by decide +kernel) (by decide +kernel)
    (by decide +kernel) (by decide +kernel) (by decide +kernel)).mpr (by decide +kernel)

/-- With one request in two seconds, the first caller is told a second, and would wait for ever. -/
theorem not_waitSuffices_half :
    ¬ ∀ (cs : List TimedCall) (key : Key) (high : Bool) (t : ℕ) (l : RateLimit),
      Allowed (step .saturating) Ordered start cs →
      (run (step .saturating) start cs).manager.find key = some l → 0 < l.maxRps →
      (run (step .saturating) start cs).clock ≤ t →
      0 < ((run (step .saturating) start cs).manager.startRequest .saturating key high t).1 →
      (high = true ∨ l.highPriorityRequests = 0) →
      (run (step .saturating) start cs).WaitSuffices .saturating key high t := by
  intro h
  have henough := h [⟨0, .setLimit "k" 1 (1 / 2) 0⟩] "k" false 0 ⟨1, 1 / 2, 0, 0, 1 / 2, 0, 0, 1⟩
    (by decide +kernel) (by decide +kernel) (by decide +kernel) (by decide +kernel)
    (by decide +kernel) (by decide +kernel)
  have htakes := henough [] trivial nofun 1000000001 (by decide +kernel) (by decide +kernel)
  rw [run_nil, RateManager.takesToken_iff (l := ⟨1, 1 / 2, 0, 0, 1 / 2, 0, 0, 1⟩)
    (by decide +kernel)] at htakes
  exact absurd htakes (by decide +kernel)

end RateRun

/-! ### High-priority requests that wait -/

namespace TimedCall

variable {c : TimedCall} {key : Key}

/-- `rate_manager_can_proceed` finds no token for a high-priority request, and counts it. -/
def turnedAway (p : Platform) (c : TimedCall) (key : Key) (found : Option RateLimit) : Bool :=
  match c.call, found with
  | .canProceed key' high, some l => key = key' ∧ high ∧ ¬ l.Admits p high c.now
  | _, _ => false

/-- `rate_manager_start_request` grants a high-priority request a token. -/
def granted (p : Platform) (c : TimedCall) (key : Key) (found : Option RateLimit) : Bool :=
  match c.call, found with
  | .startRequest key' high, some l => key = key' ∧ high ∧ l.TakesToken p high c.now
  | _, _ => false

/-- Only the two calls that announce and grant high-priority requests write their count. -/
theorem highPriorityRequests_act_le {found : Option RateLimit} {l' : RateLimit} {n : ℕ}
    (h : ∀ l, found = some l → l.highPriorityRequests ≤ n) (hact : c.act p key found = some l') :
    l'.highPriorityRequests ≤
      if c.turnedAway p key found then n + 1 else if c.granted p key found then n - 1 else n := by
  obtain ⟨now, call⟩ := c
  cases call with
  | init => exact h l' hact
  | setLimit key' maxConcurrent maxRps successAt =>
    by_cases heq : key = key'
    · obtain rfl := Option.some.inj ((if_pos heq).symm.trans hact)
      cases found with
      | none => exact Nat.zero_le n
      | some l => exact h l rfl
    · exact h l' ((if_neg heq).symm.trans hact)
  | requestDone key' | handle429 key' =>
    by_cases heq : key = key'
    · obtain ⟨l, hl, rfl⟩ := Option.map_eq_some_iff.mp ((if_pos heq).symm.trans hact)
      exact h l hl
    · exact h l' ((if_neg heq).symm.trans hact)
  | canProceed key' high =>
    by_cases heq : key = key'
    · obtain ⟨l, rfl, rfl⟩ := Option.map_eq_some_iff.mp ((if_pos heq).symm.trans hact)
      have hl : l.highPriorityRequests ≤ n := h l rfl
      rw [RateLimit.highPriorityRequests_canProceed]
      simp only [turnedAway, granted, heq, true_and, decide_eq_true_eq, Bool.false_eq_true, if_false]
      split <;> omega
    · have hl' : l'.highPriorityRequests ≤ n := h l' ((if_neg heq).symm.trans hact)
      cases found <;> simpa [turnedAway, granted, heq] using hl'
  | startRequest key' high =>
    by_cases heq : key = key'
    · obtain ⟨l, rfl, rfl⟩ := Option.map_eq_some_iff.mp ((if_pos heq).symm.trans hact)
      have hl : l.highPriorityRequests ≤ n := h l rfl
      rw [RateLimit.highPriorityRequests_startRequest]
      simp only [turnedAway, granted, heq, true_and, decide_eq_true_eq, Bool.false_eq_true, if_false,
        RateLimit.takesToken_iff]
      split <;> omega
    · have hl' : l'.highPriorityRequests ≤ n := h l' ((if_neg heq).symm.trans hact)
      cases found <;> simpa [turnedAway, granted, heq] using hl'
  | destroy => exact absurd hact (Option.some_ne_none l').symm

end TimedCall

/-- The high-priority requests of a key that were turned away and not granted since. -/
structure Crowd where
  rates : RateRun
  waiting : List ReqId

/-- A call on behalf of a request. -/
structure Visit where
  visitor : ReqId
  timed : TimedCall
deriving DecidableEq

namespace Crowd

open Guarded

variable {key : Key} {v : Visit} {s : Crowd}

/-- Nobody has called yet. -/
def start : Crowd := ⟨.start, []⟩

/-- The call turns its visitor away. -/
def turnedAway (p : Platform) (key : Key) (v : Visit) (s : Crowd) : Bool :=
  v.timed.turnedAway p key (s.rates.manager.find key)

/-- The call grants its visitor a token. -/
def granted (p : Platform) (key : Key) (v : Visit) (s : Crowd) : Bool :=
  v.timed.granted p key (s.rates.manager.find key)

/-- The next call. -/
def step (p : Platform) (key : Key) (v : Visit) (s : Crowd) : Crowd where
  rates := s.rates.step p v.timed
  waiting :=
    if s.turnedAway p key v then s.waiting.insert v.visitor
    else if s.granted p key v then s.waiting.erase v.visitor else s.waiting

/-- Nobody who waits is turned away again. -/
def Patient (p : Platform) (key : Key) (v : Visit) (s : Crowd) : Prop :=
  s.turnedAway p key v = true → v.visitor ∉ s.waiting

instance : Decidable (s.Patient p key v) := inferInstanceAs (Decidable (_ → _))

/-- Once no high-priority request waits none is counted, and a normal request for which there is a
token is granted it. -/
def Released (p : Platform) (key : Key) (s : Crowd) : Prop :=
  s.waiting = [] → ∀ l, s.rates.manager.find key = some l → l.highPriorityRequests = 0 ∧
    ∀ now, 1 ≤ l.level p now → s.rates.manager.TakesToken p key false now

/-- No more high-priority requests are counted than wait. -/
def Counted (key : Key) (s : Crowd) : Prop :=
  ∀ l, s.rates.manager.find key = some l → l.highPriorityRequests ≤ s.waiting.length

theorem Counted.step (h : s.Counted key) (hpatient : s.Patient p key v) :
    (s.step p key v).Counted key := by
  intro l' hl'
  have hact : v.timed.act p key (s.rates.manager.find key) = some l' :=
    (RateRun.find_step v.timed s.rates key).symm.trans hl'
  have hle := TimedCall.highPriorityRequests_act_le h hact
  by_cases haway : s.turnedAway p key v
  · have hnew : v.visitor ∉ s.waiting := hpatient haway
    rw [turnedAway] at haway
    rw [if_pos haway] at hle
    simpa only [Crowd.step, turnedAway, haway, if_true, List.length_insert_of_not_mem hnew] using hle
  · rw [turnedAway] at haway
    rw [if_neg haway] at hle
    by_cases hgranted : s.granted p key v
    · rw [granted] at hgranted
      rw [if_pos hgranted] at hle
      -- The count is lowered by one, and at most one request leaves.
      have herase : s.waiting.length - 1 ≤ (s.waiting.erase v.visitor).length :=
        List.le_length_erase
      simpa only [Crowd.step, turnedAway, granted, haway, hgranted, if_true, if_false,
        Bool.false_eq_true] using hle.trans herase
    · rw [granted] at hgranted
      rw [if_neg hgranted] at hle
      simpa only [Crowd.step, turnedAway, granted, haway, hgranted, if_false, Bool.false_eq_true]
        using hle

theorem Counted.released (h : s.Counted key) : s.Released p key := by
  intro hnobody l hl
  have hzero : l.highPriorityRequests = 0 := by
    have := h l hl
    rwa [hnobody, List.length_nil, Nat.le_zero] at this
  exact ⟨hzero, fun now hlevel => (RateManager.takesToken_iff hl).mpr ⟨hlevel, .inr hzero⟩⟩

/-- **Normal requests get their turn.** When no high-priority request of the key is turned away twice
before its grant, then whenever none waits any more, none is counted, and a normal request with a
token is granted. -/
theorem released_of_patient {vs : List Visit} (h : Allowed (step p key) (Patient p key) start vs) :
    (run (step p key) start vs).Released p key := by
  have hcounted : (run (step p key) start vs).Counted key :=
    h.invariant (P := Counted key) (fun _ _ hs hpatient => hs.step hpatient) nofun
  exact hcounted.released

/-- A request that is turned away once and then granted leaves nothing behind. -/
theorem released_once :
    (run (step .saturating "k") start
      [⟨0, 0, .setLimit "k" 1 1 0⟩, ⟨1, 0, .startRequest "k" false⟩, ⟨2, 0, .canProceed "k" true⟩,
        ⟨2, 1000000000, .startRequest "k" true⟩]).Released .saturating "k" :=
  released_of_patient (by decide +kernel)

/-- Request 2 is turned away twice and then granted. A second later there is a token and nobody
waits, and it is not granted to a normal request. -/
theorem not_released_twice :
    let visits : List Visit := [⟨0, 0, .setLimit "k" 1 1 0⟩, ⟨1, 0, .startRequest "k" false⟩,
      ⟨2, 0, .canProceed "k" true⟩, ⟨2, 500000000, .canProceed "k" true⟩,
      ⟨2, 1000000000, .startRequest "k" true⟩]
    Allowed (step .saturating "k") (fun v s => RateRun.Ordered v.timed s.rates) start visits ∧
      (run (step .saturating "k") start visits).waiting = [] ∧
      ¬ (run (step .saturating "k") start visits).Released .saturating "k" := by
  refine ⟨by decide +kernel, by decide +kernel, fun h => ?_⟩
  have hcount := (h (by decide +kernel) ⟨1, 1, 2, 1, 0, 1000000000, 0, 1⟩ (by decide +kernel)).1
  exact absurd hcount (by decide)

end Crowd

end CurlLoop
