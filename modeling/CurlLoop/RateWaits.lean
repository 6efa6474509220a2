import CurlLoop.RateAnswers

/-!
# The wait as a number

`rate_manager_can_proceed` and `rate_manager_start_request` compute the wait as
`(1.0 - tokens) / max_rps * 1e9`, a `double`, and convert it to `uint64_t`. The conversion is defined
for a number that is not negative and less than `2 ^ 64`. Nothing checks this. A rate of zero
divides by zero. A rate so small that a token takes longer than the type can say is accepted as well.
And a normal request that waits for the pending high-priority ones may find more than one token, so
that its wait is negative.

Below one request a second no token is ever taken, since a grant takes a whole one. The bucket stays
as full as `rate_manager_set_limit` made it, and the wait is a number that depends on the rate alone.

## Main definitions

* `RateLimit.canProceedWait`, `RateLimit.startRequestWait` — the number a call converts
* `RateLimit.WaitDefined` — what is claimed of it

## Main results

* `RateRun.waitDefined_iff`
-/

namespace CurlLoop

variable {p : Platform}

namespace RateLimit

/-- The number `rate_manager_can_proceed` converts, if it takes the waiting path. -/
def canProceedWait (p : Platform) (l : RateLimit) (high : Bool) (now : ℕ) : Option (Option ℚ) :=
  let l := l.refill p now
  if high then
    if 1 ≤ l.tokens then none else some l.announce.waitTimeNs
  else if 1 ≤ l.tokens ∧ l.highPriorityRequests = 0 then none
  else some l.waitTimeNs

/-- The number `rate_manager_start_request` converts, if it takes the waiting path. -/
def startRequestWait (p : Platform) (l : RateLimit) (high : Bool) (now : ℕ) : Option (Option ℚ) :=
  let l := l.refill p now
  if (high ∨ l.highPriorityRequests = 0 ∧ 1 ≤ l.tokens) ∧ 1 ≤ l.tokens then none
  else some l.waitTimeNs

/-- Whichever of the two functions is called and takes the waiting path, `max_rps` is not zero and
the number that is converted lies in the range of `uint64_t`. -/
def WaitDefined (p : Platform) (l : RateLimit) (high : Bool) (now : ℕ) : Prop :=
  ∀ wait, wait ∈ l.canProceedWait p high now ∨ wait ∈ l.startRequestWait p high now →
    l.maxRps ≠ 0 ∧ ∃ ns, wait = some ns ∧ 0 ≤ ns ∧ ns < 2 ^ 64

variable {l : RateLimit} {high : Bool} {now : ℕ}

/-- The number is the one the call answers with. -/
theorem canProceed_wait (l : RateLimit) (high : Bool) (now : ℕ) :
    (l.canProceed p high now).1 = ((l.canProceedWait p high now).map p.toUint64).getD 0 := by
  rw [canProceed, canProceedWait]
  split_ifs <;> rfl

theorem startRequest_wait (l : RateLimit) (high : Bool) (now : ℕ) :
    (l.startRequest p high now).1 = ((l.startRequestWait p high now).map p.toUint64).getD 0 := by
  rw [startRequest, startRequestWait]
  split_ifs <;> rfl

theorem canProceedWait_eq (l : RateLimit) (high : Bool) (now : ℕ) :
    l.canProceedWait p high now =
      if l.Admits p high now then none else some (l.refill p now).waitTimeNs := by
  cases high with
  | true =>
    have hadmits : l.Admits p true now ↔ 1 ≤ (l.refill p now).tokens := and_iff_left (.inl rfl)
    simp only [canProceedWait, if_true, hadmits]
    rfl
  | false =>
    have hadmits : l.Admits p false now ↔
        1 ≤ (l.refill p now).tokens ∧ (l.refill p now).highPriorityRequests = 0 :=
      and_congr_right' (or_iff_right Bool.false_ne_true)
    simp only [canProceedWait, Bool.false_eq_true, if_false, hadmits]

theorem startRequestWait_eq (l : RateLimit) (high : Bool) (now : ℕ) :
    l.startRequestWait p high now =
      if l.Admits p high now then none else some (l.refill p now).waitTimeNs := by
  by_cases h : l.Admits p high now
  · rw [if_pos h]
    exact if_pos ⟨h.2.imp_right fun hnone => ⟨hnone, h.1⟩, h.1⟩
  · rw [if_neg h]
    exact if_neg fun hgo => h ⟨hgo.2, hgo.1.imp_right And.left⟩

/-- Both functions take the waiting path at the same times, and there convert the same number. -/
theorem waitDefined_iff_of_not_admits (h : ¬ l.Admits p high now) :
    l.WaitDefined p high now ↔
      l.maxRps ≠ 0 ∧ 0 ≤ (1 - l.level p now) / l.maxRps * 10 ^ 9 ∧
        (1 - l.level p now) / l.maxRps * 10 ^ 9 < 2 ^ 64 := by
  rw [WaitDefined, canProceedWait_eq, startRequestWait_eq, if_neg h]
  simp only [or_self, Option.mem_some_iff, forall_eq']
  refine and_congr_right fun hrate => ?_
  have hwait : (l.refill p now).waitTimeNs =
      some ((1 - l.level p now) / l.maxRps * 10 ^ 9) := if_neg hrate
  simp only [hwait, Option.some.injEq, exists_eq_left']

theorem waitDefined_of_admits (h : l.Admits p high now) : l.WaitDefined p high now := by
  rw [WaitDefined, canProceedWait_eq, startRequestWait_eq, if_pos h]
  simp

/-- The number for a bucket that is full is in range when the rate is not too small. -/
theorem wait_slow {rate : ℚ} (hrate : 0 ≤ rate) (hslow : rate < 1) :
    (rate ≠ 0 ∧ 0 ≤ (1 - rate) / rate * 10 ^ 9 ∧ (1 - rate) / rate * 10 ^ 9 < 2 ^ 64) ↔
      10 ^ 9 < rate * (2 ^ 64 + 10 ^ 9) := by
  rcases hrate.eq_or_lt with rfl | hpos
  · norm_num
  · have hnonneg : 0 ≤ (1 - rate) / rate * 10 ^ 9 :=
      mul_nonneg (div_nonneg (sub_nonneg.mpr hslow.le) hrate) (by norm_num)
    rw [and_iff_right hpos.ne', and_iff_right hnonneg, div_mul_eq_mul_div, div_lt_iff₀ hpos]
    constructor <;> intro h <;> linarith

/-- A whole token a second comes soon enough, and the number is in range unless there is more than one
token. -/
theorem wait_fast {rate level : ℚ} (hrate : 1 ≤ rate) (hlevel : 0 ≤ level) :
    (rate ≠ 0 ∧ 0 ≤ (1 - level) / rate * 10 ^ 9 ∧ (1 - level) / rate * 10 ^ 9 < 2 ^ 64) ↔
      level ≤ 1 := by
  have hpos : 0 < rate := zero_lt_one.trans_le hrate
  have hsoon : (1 - level) / rate * 10 ^ 9 < 2 ^ 64 := by
    rw [div_mul_eq_mul_div, div_lt_iff₀ hpos]
    linarith
  rw [and_iff_right hpos.ne', and_iff_left hsoon, div_mul_eq_mul_div, le_div_iff₀ hpos, zero_mul]
  constructor <;> intro h <;> linarith

/-- Below one request a second the bucket is full. -/
def FullIfSlow (l : RateLimit) : Prop := l.maxRps < 1 → l.tokens = l.maxRps

namespace FullIfSlow

theorem refill (h : l.FullIfSlow) (hrate : 0 ≤ l.maxRps) (hlast : l.lastRefill ≤ now) :
    (l.refill p now).FullIfSlow := by
  intro hslow
  have helapsed : 0 ≤ p.macroTimeDiff now l.lastRefill := by
    rw [p.macroTimeDiff_seconds hlast]
    exact sub_nonneg.mpr (seconds_le hlast)
  change min l.maxRps (l.tokens + p.macroTimeDiff now l.lastRefill * l.maxRps) = l.maxRps
  rw [h hslow]
  exact min_eq_left (le_add_of_nonneg_right (mul_nonneg helapsed hrate))

theorem canProceed (h : (l.refill p now).FullIfSlow) (high : Bool) :
    (l.canProceed p high now).2.FullIfSlow := by
  rw [RateLimit.canProceed]
  split_ifs <;> exact h

/-- A grant takes a whole token, so there must be room for one. -/
theorem startRequest (h : (l.refill p now).FullIfSlow) (high : Bool) :
    (l.startRequest p high now).2.FullIfSlow := by
  by_cases hadmits : l.Admits p high now
  · rw [startRequest_of_admits hadmits]
    intro hslow
    have hone : 1 ≤ l.maxRps := hadmits.1.trans (min_le_left _ _)
    exact absurd hslow (not_lt.mpr hone)
  · rw [startRequest_of_not_admits hadmits]
    exact h

/-- One call. -/
theorem act {l' : RateLimit} {c : TimedCall} {key : Key} (h : l.FullIfSlow)
    (hrate : 0 ≤ l.maxRps) (hlast : l.lastRefill ≤ c.now)
    (hact : c.act p key (some l) = some l') : l'.FullIfSlow := by
  have hrefill : (l.refill p c.now).FullIfSlow := h.refill hrate hlast
  obtain ⟨now, call⟩ := c
  cases call with
  | init =>
    obtain rfl : l = l' := Option.some.inj hact
    exact h
  | setLimit key' maxConcurrent maxRps successAt =>
    rw [TimedCall.act] at hact
    dsimp only at hact
    split_ifs at hact
    · obtain rfl := Option.some.inj hact
      exact fun _ => rfl
    · exact Option.some.inj hact ▸ h
  | canProceed key' high =>
    rw [TimedCall.act] at hact
    dsimp only at hact
    split_ifs at hact
    · exact Option.some.inj hact ▸ hrefill.canProceed high
    · exact Option.some.inj hact ▸ h
  | startRequest key' high =>
    rw [TimedCall.act] at hact
    dsimp only at hact
    split_ifs at hact
    · exact Option.some.inj hact ▸ hrefill.startRequest high
    · exact Option.some.inj hact ▸ h
  | requestDone key' | handle429 key' =>
    rw [TimedCall.act] at hact
    dsimp only at hact
    split_ifs at hact
    · exact Option.some.inj hact ▸ h
    · exact Option.some.inj hact ▸ h
  | destroy => exact absurd hact (Option.some_ne_none l').symm

end FullIfSlow

end RateLimit

namespace RateRun

open Guarded

variable {s : RateRun} {c : TimedCall} {key : Key} {l : RateLimit} {high : Bool} {t : ℕ}

/-- Below one request a second, the bucket of a key is always full. -/
theorem fullIfSlow_run {cs : List TimedCall} (h : Allowed (step p) Ordered start cs)
    (hl : (run (step p) start cs).manager.find key = some l) : l.FullIfSlow := by
  have hboth : (run (step p) start cs).Metered key ∧
      ∀ l, (run (step p) start cs).manager.find key = some l → l.FullIfSlow := by
    refine h.invariant (P := fun s => s.Metered key ∧
      ∀ l, s.manager.find key = some l → l.FullIfSlow) ?_ ⟨metered_start key, nofun⟩
    rintro c s ⟨hmetered, hfull⟩ hc
    refine ⟨hmetered.step hc, fun l' hl' => ?_⟩
    rw [find_step] at hl'
    cases hfound : s.manager.find key with
    | some l =>
      rw [hfound] at hl'
      have hmeters := hmetered l hfound
      obtain ⟨-, -, -, hlast, -⟩ := id hmeters
      exact (hfull l hfound).act (hmeters.tokens_nonneg.trans hmeters.tokens_le)
        (hlast.trans hc.1) hl'
    | none =>
      rw [hfound] at hl'
      by_cases hset : c.Sets key
      · obtain ⟨maxConcurrent, maxRps, successAt, hcall⟩ := hset
        rw [TimedCall.act, hcall] at hl'
        obtain rfl := Option.some.inj ((if_pos rfl).symm.trans hl')
        exact fun _ => rfl
      · rw [TimedCall.act_none_of_not_sets p hset] at hl'
        exact absurd hl' (Option.some_ne_none l').symm
  exact hboth.2 l hl

/-- **When the wait is a number of the type.** After any calls, the wait a caller of a key may be told
is well defined if and only if the rate is at least the one that takes `2 ^ 64` nanoseconds for the
missing part of a token, and the caller does not find more than one token kept for somebody else. -/
theorem waitDefined_iff {cs : List TimedCall} (h : Allowed (step p) Ordered start cs)
    (hl : (run (step p) start cs).manager.find key = some l)
    (ht : (run (step p) start cs).clock ≤ t) :
    l.WaitDefined p high t ↔
      10 ^ 9 < l.maxRps * (2 ^ 64 + 10 ^ 9) ∧
        (high = true ∨ l.highPriorityRequests = 0 ∨ l.level p t ≤ 1) := by
  have hmeters := (metered_run h key l hl).refill (p := p) ht (Nat.zero_le t)
  have hfull : (l.refill p t).FullIfSlow := by
    obtain ⟨-, -, -, hlast, -⟩ := metered_run h key l hl
    exact (fullIfSlow_run h hl).refill (hmeters.tokens_nonneg.trans hmeters.tokens_le)
      (hlast.trans ht)
  have hnonneg : 0 ≤ l.level p t := hmeters.tokens_nonneg
  have hle : l.level p t ≤ l.maxRps := hmeters.tokens_le
  by_cases hadmits : l.Admits p high t
  · have hone : 1 ≤ l.maxRps := hadmits.1.trans hle
    refine iff_of_true (RateLimit.waitDefined_of_admits hadmits) ⟨?_, ?_⟩
    · linarith
    · exact hadmits.2.imp_right .inl
  rw [RateLimit.waitDefined_iff_of_not_admits hadmits]
  rcases lt_or_ge l.maxRps 1 with hslow | hfast
  · have hlevel : l.level p t = l.maxRps := hfull hslow
    rw [hlevel, RateLimit.wait_slow (hnonneg.trans hle) hslow]
    exact (and_iff_left (.inr (.inr hslow.le))).symm
  · rw [RateLimit.wait_fast hfast hnonneg, and_iff_right (by linarith)]
    constructor
    · exact fun hlevel => .inr (.inr hlevel)
    · rintro (hhigh | hnone | hlevel)
      · exact le_of_not_ge fun hone => hadmits ⟨hone, .inl hhigh⟩
      · exact le_of_not_ge fun hone => hadmits ⟨hone, .inr hnone⟩
      · exact hlevel

/-- One request a second, and the token was just taken: either function takes the waiting path and
converts a second. -/
theorem waitDefined_one :
    RateLimit.canProceedWait .saturating ⟨1, 1, 1, 0, 0, 0, 0, 1⟩ false 0 = some (some (10 ^ 9)) ∧
    RateLimit.startRequestWait .saturating ⟨1, 1, 1, 0, 0, 0, 0, 1⟩ false 0 = some (some (10 ^ 9)) ∧
    RateLimit.WaitDefined .saturating ⟨1, 1, 1, 0, 0, 0, 0, 1⟩ false 0 := by
  have hordered : Allowed (step .saturating) Ordered start
      [⟨0, .setLimit "k" 1 1 0⟩, ⟨0, .startRequest "k" false⟩] := by
    decide +kernel
  have hfind : (run (step .saturating) start
      [⟨0, .setLimit "k" 1 1 0⟩, ⟨0, .startRequest "k" false⟩]).manager.find "k" =
        some ⟨1, 1, 1, 0, 0, 0, 0, 1⟩ := by
    decide +kernel
  refine ⟨by decide +kernel, by decide +kernel, ?_⟩
  exact (waitDefined_iff hordered hfind (by decide +kernel)).mpr (by decide +kernel)

/-- Without a rate every caller is told to wait, and the wait is infinite. With two requests a second,
a normal request that comes a second after a high-priority one was turned away finds two tokens, and
its wait is negative. -/
theorem not_waitDefined :
    ¬ (∀ (cs : List TimedCall) (key : Key) (high : Bool) (t : ℕ) (l : RateLimit),
      Allowed (step .saturating) Ordered start cs →
      (run (step .saturating) start cs).manager.find key = some l →
      (run (step .saturating) start cs).clock ≤ t → l.WaitDefined .saturating high t) ∧
    (run (step .saturating) start [⟨0, .setLimit "k" 1 2 0⟩, ⟨0, .startRequest "k" false⟩,
      ⟨0, .startRequest "k" false⟩, ⟨0, .canProceed "k" true⟩]).manager.find "k" =
        some ⟨1, 2, 2, 1, 0, 0, 0, 1⟩ ∧
    ¬ RateLimit.WaitDefined .saturating ⟨1, 2, 2, 1, 0, 0, 0, 1⟩ false 1000000000 := by
  have hzero : ¬ RateLimit.WaitDefined .saturating ⟨1, 0, 0, 0, 0, 0, 0, 1⟩ false 0 :=
    fun h => (h none (.inl (by decide +kernel))).1 rfl
  have htwo : ¬ RateLimit.WaitDefined .saturating ⟨1, 2, 2, 1, 0, 0, 0, 1⟩ false 1000000000 := by
    intro h
    obtain ⟨-, ns, hns, hnonneg, -⟩ := h (some (-(10 ^ 9) / 2)) (.inl (by decide +kernel))
    obtain rfl := Option.some.inj hns
    norm_num at hnonneg
  refine ⟨fun h => hzero ?_, by decide +kernel, htwo⟩
  exact h [⟨0, .setLimit "k" 1 0 0⟩] "k" false 0 _ (by decide +kernel) (by decide +kernel)
    (by decide +kernel)

end RateRun

end CurlLoop
