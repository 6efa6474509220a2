import CurlLoop.EventLoop
import CurlLoop.Lib.XorShift
import Mathlib.Algebra.Order.Floor.Semiring
import Mathlib.Data.Rat.Floor
import Mathlib.Tactic.Positivity

/-!
# The delay before a retry

`compute_backoff_ms` and the default retry policy that calls it. The delay grows exponentially with
the number of consecutive retries: a power of `backoff_factor`, times 100 ms, of which the jitter
takes a part, raised to the floor and lowered to the cap of the request.

The power is converted to `uint64_t` before the cap is applied, and nothing bounds the exponent, so
`max_backoff_delay_ms` does not protect the conversion. A request that is retried without limit and
doubles its delay gets to `2 ^ 64` at the fifty-eighth retry in a row.

## Conventions

A `double` is read as an exact rational. The two operations of the function that C leaves undefined,
the conversion of a number of `2 ^ 64` or more and a remainder by zero, end it with a `BackoffFault`.
Sums and products of `uint64_t` wrap.

## Main definitions

* `xrng64`, `computeBackoffMs`
* `Env.jittered` — an environment in which `compute_backoff_ms` answers for itself
* `Loop.RetriesExactly` — the retry is scheduled at the time its delay says
* `Request.BackoffFits` — when it is

## Main results

* `surjective_xrng64` — the generator takes every value
* `xrng64_never_dies` — from its seed it never takes the value zero
* `Loop.retriesExactly_iff`
-/

namespace CurlLoop

/-! ### The generator -/

/-- `rng_state`. -/
abbrev RngState := BitVec 64

/-- `xrng64`: the number it returns, and the state it leaves. -/
def xrng64 (x : RngState) : BitVec 64 × RngState :=
  let x := x ^^^ (x >>> 12)
  let x := x ^^^ (x <<< 25)
  let x := x ^^^ (x >>> 27)
  (x * 2685821657736338717, x)

theorem xrng64_eq (x : RngState) :
    (xrng64 x).1 = XorShift.right 27 (XorShift.left 25 (XorShift.right 12 x)) *
      2685821657736338717 := rfl

theorem xrng64_state (x : RngState) :
    (xrng64 x).2 = XorShift.right 27 (XorShift.left 25 (XorShift.right 12 x)) := rfl

/-- The multiplier is odd, so it has an inverse. -/
theorem inverse_mul_multiplier : (6415128727920758069 : BitVec 64) * 2685821657736338717 = 1 := by
  decide

/-- **Every number is drawn in some state.** -/
theorem surjective_xrng64 (word : BitVec 64) : ∃ x, (xrng64 x).1 = word := by
  obtain ⟨c, hc⟩ := XorShift.surjective_mul inverse_mul_multiplier word
  obtain ⟨b, rfl⟩ := XorShift.surjective_right (by decide : 0 < 27) c
  obtain ⟨a, rfl⟩ := XorShift.surjective_left (by decide : 0 < 25) b
  obtain ⟨x, rfl⟩ := XorShift.surjective_right (by decide : 0 < 12) a
  exact ⟨x, (xrng64_eq x).trans hc⟩

theorem xrng64_state_eq_zero_iff (x : RngState) : (xrng64 x).2 = 0 ↔ x = 0 := by
  rw [xrng64_state, XorShift.right_eq_zero_iff (by decide), XorShift.left_eq_zero_iff (by decide),
    XorShift.right_eq_zero_iff (by decide)]

/-- The number is the new state times the multiplier, so it is zero where that is. -/
theorem xrng64_eq_zero_iff (x : RngState) : (xrng64 x).1 = 0 ↔ x = 0 := by
  rw [xrng64_eq, XorShift.mul_eq_zero_iff inverse_mul_multiplier, ← xrng64_state,
    xrng64_state_eq_zero_iff]

/-- What `rng_state` is initialised with. -/
def rngSeed : RngState := 88172645463393265

/-- `rng_state` after a number of calls of `xrng64`. -/
def rngAfter (n : ℕ) : RngState := (fun x => (xrng64 x).2)^[n] rngSeed

theorem rngAfter_succ (n : ℕ) : rngAfter (n + 1) = (xrng64 (rngAfter n)).2 :=
  Function.iterate_succ_apply' _ n rngSeed

theorem rngAfter_ne_zero (n : ℕ) : rngAfter n ≠ 0 :=
  XorShift.iterate_ne_zero xrng64_state_eq_zero_iff (by decide) n

/-- **The generator never dies.** A call leaves the state zero only where it was, and returns zero
only there, for the multiplier has an inverse. So neither the state nor a number drawn is ever
zero. -/
theorem xrng64_never_dies :
    (∀ x, (xrng64 x).2 = 0 ↔ x = 0) ∧ (∀ x, (xrng64 x).1 = 0 ↔ x = 0) ∧
      (∃ inverse : BitVec 64, inverse * 2685821657736338717 = 1) ∧
      ∀ n, rngAfter n ≠ 0 ∧ (xrng64 (rngAfter n)).1 ≠ 0 :=
  ⟨xrng64_state_eq_zero_iff, xrng64_eq_zero_iff, ⟨_, inverse_mul_multiplier⟩, fun n =>
    ⟨rngAfter_ne_zero n, mt (xrng64_eq_zero_iff _).mp (rngAfter_ne_zero n)⟩⟩

/-! ### The delay -/

/-- What `compute_backoff_ms` may do that C does not define. -/
inductive BackoffFault
  /-- A `double` is converted to `uint64_t` and does not fit. -/
  | conversion
  /-- A remainder by zero. -/
  | remainder
deriving DecidableEq, Repr

/-- The floor and the cap, where they are set. -/
def boundMs (minMs maxMs delay : ℕ) : ℕ :=
  let delay := if minMs ≠ 0 ∧ delay < minMs then minMs else delay
  if maxMs ≠ 0 ∧ delay > maxMs then maxMs else delay

/-- What the remainder of the jitter is taken by: the type wraps. -/
def jitterModulus (capMs : ℕ) (fullJitter : Bool) : ℕ :=
  if fullJitter then u64 (capMs + 1) else capMs / 2 + 1

/-- What the jitter leaves of `capMs`, by the number drawn. -/
def jittered (capMs : ℕ) (fullJitter : Bool) (word : BitVec 64) : ℕ :=
  let jitter := word.toNat % jitterModulus capMs fullJitter
  if fullJitter then jitter else capMs / 2 + jitter

/-- `compute_backoff_ms`. -/
def computeBackoffMs (attempt : ℤ) (factor : ℚ) (minMs maxMs : ℕ) (fullJitter : Bool)
    (rng : RngState) : Except BackoffFault (ℕ × RngState) :=
  let attempt := if attempt < 1 then 1 else attempt
  let base := (fun base : ℚ => base * if factor > 0 then factor else 2)^[attempt.toNat] 1
  let rawMs := base * 100
  if 2 ^ 64 ≤ rawMs then .error .conversion
  else
    let capMs := ⌊rawMs⌋₊
    let (word, rng) := xrng64 rng
    if jitterModulus capMs fullJitter = 0 then .error .remainder
    else .ok (boundMs minMs maxMs (jittered capMs fullJitter word), rng)

/-- The power of the factor in steps of 100 ms, before jitter. -/
def rawBackoffMs (factor : ℚ) (attempt : ℕ) : ℚ := factor ^ attempt * 100

/-- The longest delay the jitter leaves of `capMs`. -/
def jitterTop (capMs : ℕ) (fullJitter : Bool) : ℕ :=
  if fullJitter then capMs else capMs / 2 + capMs / 2

theorem jitterModulus_full {capMs : ℕ} (h : capMs + 1 < 2 ^ 64) :
    jitterModulus capMs true = capMs + 1 := by
  rw [jitterModulus, if_pos rfl, u64]
  omega

theorem jitterModulus_eq_zero_iff {capMs : ℕ} {fullJitter : Bool} (h : capMs < 2 ^ 64) :
    jitterModulus capMs fullJitter = 0 ↔ fullJitter = true ∧ capMs + 1 = 2 ^ 64 := by
  cases fullJitter with
  | true =>
    rw [jitterModulus, if_pos rfl, u64]
    simp only [true_and]
    omega
  | false => simp [jitterModulus]

theorem succ_lt_of_jitterModulus {capMs : ℕ} (hcap : capMs < 2 ^ 64)
    (h : jitterModulus capMs true ≠ 0) : capMs + 1 < 2 ^ 64 := by
  have hne : capMs + 1 ≠ 2 ^ 64 := fun heq => h ((jitterModulus_eq_zero_iff hcap).mpr ⟨rfl, heq⟩)
  omega

/-- The jitter stays below its top, and some number drawn takes it there. -/
theorem jittered_le {capMs : ℕ} {fullJitter : Bool} (hcap : capMs < 2 ^ 64)
    (h : jitterModulus capMs fullJitter ≠ 0) (word : BitVec 64) :
    jittered capMs fullJitter word ≤ jitterTop capMs fullJitter := by
  have hmod := Nat.mod_lt word.toNat (Nat.pos_of_ne_zero h)
  cases fullJitter with
  | true =>
    have hlt := succ_lt_of_jitterModulus hcap h
    rw [jitterModulus_full hlt] at hmod
    simp only [jittered, jitterTop, if_true, jitterModulus_full hlt]
    omega
  | false =>
    simp only [jitterModulus, Bool.false_eq_true, if_false] at hmod
    simp only [jittered, jitterTop, jitterModulus, Bool.false_eq_true, if_false]
    omega

theorem exists_jittered_eq {capMs : ℕ} {fullJitter : Bool} (hcap : capMs < 2 ^ 64)
    (h : jitterModulus capMs fullJitter ≠ 0) :
    ∃ word, jittered capMs fullJitter word = jitterTop capMs fullJitter := by
  have hmod : ∀ n < 2 ^ 64, (BitVec.ofNat 64 n).toNat % (n + 1) = n := fun n hn => by
    rw [BitVec.toNat_ofNat, Nat.mod_eq_of_lt hn, Nat.mod_eq_of_lt (Nat.lt_succ_self n)]
  cases fullJitter with
  | true =>
    have hlt := succ_lt_of_jitterModulus hcap h
    refine ⟨BitVec.ofNat 64 capMs, ?_⟩
    simp only [jittered, jitterTop, if_true, jitterModulus_full hlt]
    exact hmod capMs hcap
  | false =>
    refine ⟨BitVec.ofNat 64 (capMs / 2), ?_⟩
    simp only [jittered, jitterTop, jitterModulus, Bool.false_eq_true, if_false]
    rw [hmod _ ((Nat.div_le_self capMs 2).trans_lt hcap)]

theorem boundMs_mono (minMs maxMs : ℕ) : Monotone (boundMs minMs maxMs) := by
  intro a b h
  simp only [boundMs]
  split_ifs <;> omega

theorem le_boundMs {minMs maxMs : ℕ} (h : maxMs = 0 ∨ minMs ≤ maxMs) (delay : ℕ) :
    minMs ≤ boundMs minMs maxMs delay := by
  simp only [boundMs]
  split_ifs <;> omega

theorem boundMs_le (minMs maxMs delay : ℕ) : maxMs = 0 ∨ boundMs minMs maxMs delay ≤ maxMs := by
  simp only [boundMs]
  split_ifs <;> omega

section Compute

variable {attempt : ℤ} {factor : ℚ} {minMs maxMs : ℕ} {fullJitter : Bool}

/-- The exponent: the number of the attempt, and one where that is not positive. -/
def exponent (attempt : ℤ) : ℕ := (max attempt 1).toNat

/-- The power fits its type. With full jitter the cap is raised by one before the remainder is
taken, so it must not be the last number of the type. -/
def RawFits (rawMs : ℚ) (fullJitter : Bool) : Prop :=
  rawMs < if fullJitter then 2 ^ 64 - 1 else 2 ^ 64

instance (rawMs : ℚ) (fullJitter : Bool) : Decidable (RawFits rawMs fullJitter) :=
  inferInstanceAs (Decidable (_ < _))

theorem floor_lt_word {rawMs : ℚ} (hnonneg : 0 ≤ rawMs) (h : rawMs < 2 ^ 64) :
    ⌊rawMs⌋₊ < 2 ^ 64 := by
  rw [Nat.floor_lt hnonneg]
  exact_mod_cast h

theorem rawFits_iff {rawMs : ℚ} (hnonneg : 0 ≤ rawMs) :
    RawFits rawMs fullJitter ↔ rawMs < 2 ^ 64 ∧ jitterModulus ⌊rawMs⌋₊ fullJitter ≠ 0 := by
  cases fullJitter with
  | false =>
    rw [RawFits, if_neg Bool.false_ne_true]
    exact ⟨fun h => ⟨h, Nat.succ_ne_zero _⟩, And.left⟩
  | true =>
    have hlast : ⌊rawMs⌋₊ < 2 ^ 64 - 1 ↔ rawMs < 2 ^ 64 - 1 := by
      rw [Nat.floor_lt hnonneg]
      norm_num
    rw [RawFits, if_pos rfl]
    constructor
    · intro h
      have hlt : rawMs < 2 ^ 64 := by linarith
      refine ⟨hlt, fun hzero => ?_⟩
      have hfloor := hlast.mpr h
      have := ((jitterModulus_eq_zero_iff (floor_lt_word hnonneg hlt)).mp hzero).2
      omega
    · rintro ⟨hlt, hne⟩
      have hsucc := succ_lt_of_jitterModulus (floor_lt_word hnonneg hlt) hne
      exact hlast.mp (by omega)

theorem rawBackoffMs_nonneg (h : 0 < factor) (n : ℕ) : 0 ≤ rawBackoffMs factor n := by
  rw [rawBackoffMs]
  positivity

theorem base_eq (hfactor : 0 < factor) (attempt : ℤ) :
    (fun base : ℚ => base * if factor > 0 then factor else 2)^[
        (if attempt < 1 then 1 else attempt).toNat] 1 * 100 =
      rawBackoffMs factor (exponent attempt) := by
  have hmax : (if attempt < 1 then 1 else attempt) = max attempt 1 := by
    rw [max_def]
    split_ifs <;> omega
  rw [if_pos hfactor, mul_right_iterate, hmax, rawBackoffMs, exponent]
  dsimp only
  rw [one_mul]

/-- **What `compute_backoff_ms` does.** Nothing undefined happens exactly when the power fits, and
then the delay is what the jitter leaves of it, within the bounds of the request. -/
theorem computeBackoffMs_eq_ok_iff (hfactor : 0 < factor) {rng : RngState}
    {answer : ℕ × RngState} :
    computeBackoffMs attempt factor minMs maxMs fullJitter rng = .ok answer ↔
      RawFits (rawBackoffMs factor (exponent attempt)) fullJitter ∧
        answer = (boundMs minMs maxMs (jittered ⌊rawBackoffMs factor (exponent attempt)⌋₊
          fullJitter (xrng64 rng).1), (xrng64 rng).2) := by
  rw [rawFits_iff (rawBackoffMs_nonneg hfactor _)]
  simp only [computeBackoffMs]
  rw [base_eq hfactor]
  generalize rawBackoffMs factor (exponent attempt) = rawMs
  split_ifs with hraw hmod
  · simp [not_lt.mpr hraw]
  · simp [hmod]
  · rw [not_le] at hraw
    simp [hraw, hmod, eq_comm]

theorem computeBackoffMs_of_fits (minMs maxMs : ℕ) (hfactor : 0 < factor)
    (h : RawFits (rawBackoffMs factor (exponent attempt)) fullJitter) (rng : RngState) :
    computeBackoffMs attempt factor minMs maxMs fullJitter rng =
      .ok (boundMs minMs maxMs (jittered ⌊rawBackoffMs factor (exponent attempt)⌋₊ fullJitter
        (xrng64 rng).1), (xrng64 rng).2) :=
  (computeBackoffMs_eq_ok_iff hfactor).mpr ⟨h, rfl⟩

/-- A delay takes one number, so the generator goes on from its seed one call at a time. -/
theorem rng_of_computeBackoffMs {n delay : ℕ} {rng : RngState}
    (h : computeBackoffMs attempt factor minMs maxMs fullJitter (rngAfter n) = .ok (delay, rng)) :
    rng = rngAfter (n + 1) := by
  simp only [computeBackoffMs] at h
  rw [rngAfter_succ]
  -- Neither fault draws a number, and the exponent and the factor are no matter.
  split_ifs at h <;> exact (congrArg Prod.snd (Except.ok.inj h)).symm

end Compute

/-! ### The policy -/

/-- The largest delay the policy may choose at an attempt. -/
def Request.longestBackoffMs (q : Request) (attempt : ℤ) : ℕ :=
  boundMs q.minBackoffDelayMs q.maxBackoffDelayMs
    (jitterTop ⌊rawBackoffMs q.backoffFactor (exponent attempt)⌋₊ q.fullJitter)

/-- The power of the factor fits its type, and so does the time of a retry after the longest
delay. -/
def Request.BackoffFits (q : Request) (attempt : ℤ) (now : ℕ) : Prop :=
  RawFits (rawBackoffMs q.backoffFactor (exponent attempt)) q.fullJitter ∧
    now + q.longestBackoffMs attempt * 1000000 < 2 ^ 64

instance (q : Request) (attempt : ℤ) (now : ℕ) : Decidable (q.BackoffFits attempt now) :=
  inferInstanceAs (Decidable (_ ∧ _))

/-- `curl_event_request_enable_retries`. -/
def Request.enableRetries (q : Request) (maxRetries : ℤ) (backoffFactor : ℚ)
    (minDelayMs maxDelayMs : ℕ) (fullJitter : Bool) : Request :=
  { q with
    maxRetries := maxRetries
    backoffFactor := backoffFactor
    minBackoffDelayMs := minDelayMs
    maxBackoffDelayMs := maxDelayMs
    fullJitter := fullJitter
    onRetry := some (q.onRetry.getD .defaultEnhanced) }

/-- `compute_backoff_ms(req->current_retries, req->backoff_factor, …)`. -/
def Request.computeBackoffMs (q : Request) (rng : RngState) :
    Except BackoffFault (ℕ × RngState) :=
  CurlLoop.computeBackoffMs q.currentRetries q.backoffFactor q.minBackoffDelayMs
    q.maxBackoffDelayMs q.fullJitter rng

variable {ω β : Type}

/-- Ask what is outside the generator. -/
def outsideRng (f : ω → β × ω) (w : ω × RngState) : β × (ω × RngState) :=
  ((f w.1).1, ((f w.1).2, w.2))

/-- An environment in which `compute_backoff_ms` answers for itself. After a fault its answer is
whatever `lost` says. -/
def Env.jittered (lost : ℕ) (env : Env ω) : Env (ω × RngState) where
  macroNow := outsideRng env.macroNow
  rateManagerCanProceed key high := outsideRng (env.rateManagerCanProceed key high)
  rateManagerStartRequest key high := outsideRng (env.rateManagerStartRequest key high)
  rateManagerRequestDone key w := (env.rateManagerRequestDone key w.1, w.2)
  rateManagerHandle429 key := outsideRng (env.rateManagerHandle429 key)
  curlEasyInit := outsideRng env.curlEasyInit
  onPrepare r := outsideRng (env.onPrepare r)
  onRetry r q := outsideRng (env.onRetry r q)
  computeBackoffMs q w :=
    match q.computeBackoffMs w.2 with
    | .ok (delay, rng) => (delay, (w.1, rng))
    | .error _ => (lost, w)
  onComplete r := outsideRng (env.onComplete r)
  onFailure r easy code httpCode := outsideRng (env.onFailure r easy code httpCode)
  onAborted r := outsideRng (env.onAborted r)

namespace Loop

/-- The generator is in a given state. -/
def withRng (s : Loop (ω × RngState)) (rng : RngState) : Loop (ω × RngState) :=
  { s with world := (s.world.1, rng) }

/-- What a retry by the default policy owes a request, in whatever state the generator is: nothing
undefined happens, the request is due after exactly the delay, and the delay respects its floor and
its cap. -/
def RetriesExactly (lost : ℕ) (env : Env ω) (s : Loop (ω × RngState)) (r : ReqId) : Prop :=
  ∀ rng, ∃ delay rng',
    { s.req r with currentRetries := (s.req r).currentRetries + 1 }.computeBackoffMs rng =
        .ok (delay, rng') ∧
      ((s.withRng rng).defaultCalculateRetryEnhanced (env.jittered lost) r).1 = true ∧
      (((s.withRng rng).defaultCalculateRetryEnhanced (env.jittered lost) r).2.req r).nextRetryAt =
        (env.macroNow s.world.1).1 + delay * 1000000 ∧
      (s.req r).minBackoffDelayMs ≤ delay ∧
      ((s.req r).maxBackoffDelayMs = 0 ∨ delay ≤ (s.req r).maxBackoffDelayMs)

section Retry

variable {lost : ℕ} {env : Env ω} {s : Loop (ω × RngState)} {r : ReqId}

/-- What the default policy does where the delay is defined. -/
theorem defaultCalculateRetryEnhanced_jittered
    (hagain : (s.req r).maxRetries = -1 ∨ (s.req r).currentRetries < (s.req r).maxRetries)
    {rng rng' : RngState} {delay : ℕ}
    (h : { s.req r with currentRetries := (s.req r).currentRetries + 1 }.computeBackoffMs rng =
      .ok (delay, rng')) :
    ((s.withRng rng).defaultCalculateRetryEnhanced (env.jittered lost) r).1 = true ∧
      (((s.withRng rng).defaultCalculateRetryEnhanced (env.jittered lost) r).2.req r).nextRetryAt =
        u64 ((env.macroNow s.world.1).1 + delay * 1000000 : ℕ) := by
  have hask : (env.jittered lost).computeBackoffMs
      { s.req r with currentRetries := (s.req r).currentRetries + 1 } (s.world.1, rng) =
        (delay, (s.world.1, rng')) := by
    simp only [Env.jittered]
    rw [h]
  have hreq : (s.withRng rng).req = s.req := rfl
  rw [defaultCalculateRetryEnhanced, hreq, if_pos hagain]
  refine ⟨rfl, ?_⟩
  simp only [ask, withRng, hask, modifyReq, Function.update_self]
  exact congrArg u64 (by push_cast; rfl)

/-- **A retry is not scheduled in the past.** The default policy schedules the retry of a request it
admits at the exact time, in every state of the generator, if and only if the power of the factor
fits its type and the longest delay from now does. -/
theorem retriesExactly_iff (lost : ℕ) (env : Env ω) (s : Loop (ω × RngState)) (r : ReqId)
    (hfactor : 0 < (s.req r).backoffFactor)
    (hbounds : (s.req r).maxBackoffDelayMs = 0 ∨
      (s.req r).minBackoffDelayMs ≤ (s.req r).maxBackoffDelayMs)
    (hagain : (s.req r).maxRetries = -1 ∨ (s.req r).currentRetries < (s.req r).maxRetries) :
    s.RetriesExactly lost env r ↔
      (s.req r).BackoffFits ((s.req r).currentRetries + 1) (env.macroNow s.world.1).1 := by
  have hnonneg := rawBackoffMs_nonneg hfactor (exponent ((s.req r).currentRetries + 1))
  constructor
  · intro h
    obtain ⟨delay₀, rng₀, hok, -⟩ := h 0
    have hfits := ((computeBackoffMs_eq_ok_iff hfactor).mp hok).1
    obtain ⟨hlt, hmod⟩ := (rawFits_iff hnonneg).mp hfits
    -- Some state of the generator draws the longest delay.
    obtain ⟨word, hword⟩ := exists_jittered_eq (floor_lt_word hnonneg hlt) hmod
    obtain ⟨rng, rfl⟩ := surjective_xrng64 word
    obtain ⟨delay, rng', hok, -, hdue, -⟩ := h rng
    have hdelay := congrArg Prod.fst ((computeBackoffMs_eq_ok_iff hfactor).mp hok).2
    simp only [hword] at hdelay
    rw [(defaultCalculateRetryEnhanced_jittered hagain hok).2] at hdue
    refine ⟨hfits, ?_⟩
    rw [Request.longestBackoffMs, ← hdelay]
    exact u64_eq_iff.mp hdue
  · rintro ⟨hfits, hdue⟩ rng
    obtain ⟨hlt, hmod⟩ := (rawFits_iff hnonneg).mp hfits
    have hle := jittered_le (floor_lt_word hnonneg hlt) hmod (xrng64 rng).1
    have hlongest := boundMs_mono (s.req r).minBackoffDelayMs (s.req r).maxBackoffDelayMs hle
    have hok := computeBackoffMs_of_fits (s.req r).minBackoffDelayMs
      (s.req r).maxBackoffDelayMs hfactor hfits rng
    obtain ⟨htrue, hat⟩ := defaultCalculateRetryEnhanced_jittered hagain hok
    refine ⟨_, _, hok, htrue, hat.trans (u64_eq_iff.mpr ?_), le_boundMs hbounds _,
      boundMs_le _ _ _⟩
    exact (Nat.add_le_add_left (Nat.mul_le_mul_right _ hlongest) _).trans_lt hdue

end Retry

/-- A request that is retried without limit, no more than a minute after each failure, and failed a
number of times. The generator is in its first state. -/
def retriedTimes (n : ℤ) : Loop (Unit × RngState) :=
  curlEventLoopInit ⟨fun _ => { Request.init.enableRetries (-1) 2 0 60000 true with
    url := some "u", currentRetries := n }, fun _ => ⟨rfl, rfl, rfl, rfl, rfl, rfl⟩⟩
    ((), 88172645463393265)

/-- The first retry. -/
theorem retriesExactly_first : (retriedTimes 0).RetriesExactly 0 Env.uneventful 1 := by
  refine (retriesExactly_iff 0 Env.uneventful (retriedTimes 0) 1 ?_ ?_ ?_).mpr ⟨?_, ?_⟩
  · decide
  · decide
  · decide
  · change (2 : ℚ) ^ 1 * 100 < 2 ^ 64 - 1
    norm_num
  · have htop : boundMs 0 60000 ⌊(2 : ℚ) ^ 1 * 100⌋₊ = 200 := by norm_num [boundMs]
    have hlongest : ((retriedTimes 0).req 1).longestBackoffMs 1 = 200 := htop
    have hnow : (Env.uneventful.macroNow (retriedTimes 0).world.1).1 = 0 := rfl
    have hcount : ((retriedTimes 0).req 1).currentRetries + 1 = 1 := rfl
    rw [hcount, hlongest, hnow]
    norm_num

/-- The fifty-eighth failure in a row. The power is converted before the cap applies, and does not
fit. -/
theorem not_retriesExactly_57 : ¬ (retriedTimes 57).RetriesExactly 0 Env.uneventful 1 := by
  intro h
  obtain ⟨delay, rng, hok, -⟩ := h 88172645463393265
  have hfits : (2 : ℚ) ^ 58 * 100 < 2 ^ 64 - 1 :=
    ((computeBackoffMs_eq_ok_iff (by decide)).mp hok).1
  norm_num at hfits

end Loop

end CurlLoop
