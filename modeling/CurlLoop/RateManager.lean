import CurlLoop.State
import CurlLoop.Lib.GuardedRun
import CurlLoop.Lib.TokenBucket
import Mathlib.Data.Rat.Floor

/-!
# The rate manager

`rate_manager.c`: a token bucket for each rate-limit key, with a count of the requests that run and a
count of the high-priority requests that wait.

A `double` is an exact rational, and `none` stands for infinity, which a division by `max_rps = 0`
gives. The counts are `int` in C and natural numbers here: they start at zero and are lowered only
when they are positive. They have no upper bound here, so a run that takes one past the largest `int`
is left out. The map of limits is a function, since nothing depends on its order, and
`g_rate_manager` is `none` before `rate_manager_init` and after `rate_manager_destroy`.

A function holds the mutex while it works on a limit, so a run of the rate manager is a list of
calls, each with the reading of the clock it takes. `rate_manager_set_limit` reads the clock twice.
Two reads are made without the mutex: every function tests `g_rate_manager` before it locks, and
`rate_manager_handle_429` reads the `backoff_seconds` it answers with after it has unlocked. A run in
which another thread writes in between is left out.

## Main definitions

* `Platform` — the conversions the functions rely on
* `RateLimit` and its operations — `rate_limit_t`
* `RateManager` and its operations — `g_rate_manager`
* `TimedCall`, `RateRun` — runs
* `RateLimit.TakesToken` — a call of `rate_manager_start_request` that takes a token
* `RateLimit.Represents` — a limit as a token bucket

## Main results

* `RateManager.find_perform` — what a call does to the limit of one key
* `RateLimit.Meters.act` — a call as an operation on a bucket
* `RateRun.window` — the token bucket enforces the rate
-/

namespace CurlLoop

open Function (update update_apply)
open TokenBucket (Bucket)

/-- The conversions outside the language's exact arithmetic: the difference of two clock readings in
seconds, and a `double` converted to `uint64_t`, which C defines where the truncated value fits. -/
structure Platform where
  macroTimeDiff : ℕ → ℕ → ℚ
  toUint64 : Option ℚ → ℕ
  macroTimeDiff_of_le : ∀ {now last : ℕ}, last ≤ now →
    macroTimeDiff now last = ((now : ℚ) - last) / 10 ^ 9
  toUint64_of_fits : ∀ {x : ℚ}, -1 < x → x < 2 ^ 64 → toUint64 (some x) = ⌊x⌋₊

/-- A platform that converts a `double` out of range to the nearest number in range. -/
def Platform.saturating : Platform where
  macroTimeDiff now last := ((now : ℚ) - last) / 10 ^ 9
  toUint64 x := x.elim (2 ^ 64 - 1) fun x => if x < 2 ^ 64 then ⌊x⌋₊ else 2 ^ 64 - 1
  macroTimeDiff_of_le _ := rfl
  toUint64_of_fits _ h := if_pos h

/-! ### One limit -/

/-- `rate_limit_t`, less its key. -/
structure RateLimit where
  maxConcurrent : ℤ
  maxRps : ℚ
  currentRequests : ℕ
  highPriorityRequests : ℕ
  tokens : ℚ
  lastRefill : ℕ
  lastSuccess : ℕ
  backoffSeconds : ℤ
deriving DecidableEq

namespace RateLimit

/-- What `aml_calloc` returns. -/
def zero : RateLimit := ⟨0, 0, 0, 0, 0, 0, 0, 0⟩

/-- What `rate_manager_set_limit` writes. -/
def set (l : RateLimit) (maxConcurrent : ℤ) (maxRps : ℚ) (refillAt successAt : ℕ) : RateLimit :=
  { l with
    maxConcurrent := maxConcurrent
    maxRps := maxRps
    tokens := maxRps
    lastRefill := refillAt
    lastSuccess := successAt
    backoffSeconds := 1 }

variable (p : Platform)

/-- Refill the shared token bucket. -/
def refill (l : RateLimit) (now : ℕ) : RateLimit :=
  { l with
    tokens := min l.maxRps (l.tokens + p.macroTimeDiff now l.lastRefill * l.maxRps)
    lastRefill := now }

/-- `wait_time_ns`, infinite when no token will ever come. -/
def waitTimeNs (l : RateLimit) : Option ℚ :=
  if l.maxRps = 0 then none else some ((1 - l.tokens) / l.maxRps * 10 ^ 9)

/-- `limit->high_priority_requests++`. -/
def announce (l : RateLimit) : RateLimit :=
  { l with highPriorityRequests := l.highPriorityRequests + 1 }

/-- `rate_manager_can_proceed`, on the limit of the key. -/
def canProceed (l : RateLimit) (high : Bool) (now : ℕ) : ℕ × RateLimit :=
  let l := l.refill p now
  if high then
    if 1 ≤ l.tokens then (0, l) else (p.toUint64 l.announce.waitTimeNs, l.announce)
  else if 1 ≤ l.tokens ∧ l.highPriorityRequests = 0 then (0, l)
  else (p.toUint64 l.waitTimeNs, l)

/-- A token is taken, and a pending high-priority request is no longer pending. -/
def take (l : RateLimit) (high : Bool) : RateLimit :=
  { l with
    tokens := l.tokens - 1
    currentRequests := l.currentRequests + 1
    highPriorityRequests :=
      if high ∧ 0 < l.highPriorityRequests then l.highPriorityRequests - 1
      else l.highPriorityRequests }

/-- `rate_manager_start_request`, on the limit of the key. -/
def startRequest (l : RateLimit) (high : Bool) (now : ℕ) : ℕ × RateLimit :=
  let l := l.refill p now
  if (high ∨ l.highPriorityRequests = 0 ∧ 1 ≤ l.tokens) ∧ 1 ≤ l.tokens then (0, l.take high)
  else (p.toUint64 l.waitTimeNs, l)

/-- `rate_manager_request_done`, on the limit of the key. -/
def requestDone (l : RateLimit) (now : ℕ) : RateLimit :=
  { l with
    currentRequests := l.currentRequests - 1
    lastSuccess := now
    backoffSeconds := 1 }

/-- `rate_manager_handle_429`, on the limit of the key. -/
def handle429 (l : RateLimit) (now : ℕ) : ℤ × RateLimit :=
  let backoff := if p.macroTimeDiff now l.lastSuccess < 2 then 1 else min (l.backoffSeconds * 2) 60
  (backoff, { l with currentRequests := l.currentRequests - 1, backoffSeconds := backoff })

end RateLimit

/-! ### The manager -/

/-- `g_rate_manager`: the limits by their keys. -/
abbrev RateManager := Option (Key → Option RateLimit)

namespace RateManager

/-- `rate_limit_find`. -/
def find (g : RateManager) (key : Key) : Option RateLimit := g.bind fun limits => limits key

/-- `rate_manager_init`. -/
def init (g : RateManager) : RateManager := some (g.getD fun _ => none)

/-- The limit of a key is written, or inserted. -/
def put (g : RateManager) (key : Key) (l : RateLimit) : RateManager :=
  some (update (g.getD fun _ => none) key (some l))

/-- `rate_manager_set_limit`. -/
def setLimit (g : RateManager) (key : Key) (maxConcurrent : ℤ) (maxRps : ℚ)
    (refillAt successAt : ℕ) : RateManager :=
  g.init.put key (((g.init.find key).getD .zero).set maxConcurrent maxRps refillAt successAt)

/-- What the functions on one key have in common: the limit of the key is looked up, and without one
the call has a fixed answer and no effect. -/
def onLimit {β : Type} (g : RateManager) (key : Key) (absent : β)
    (f : RateLimit → β × RateLimit) : β × RateManager :=
  match g.find key with
  | none => (absent, g)
  | some l => ((f l).1, g.put key (f l).2)

variable (p : Platform)

/-- `rate_manager_can_proceed`. -/
def canProceed (g : RateManager) (key : Key) (high : Bool) (now : ℕ) : ℕ × RateManager :=
  g.onLimit key 0 fun l => l.canProceed p high now

/-- `rate_manager_start_request`. -/
def startRequest (g : RateManager) (key : Key) (high : Bool) (now : ℕ) : ℕ × RateManager :=
  g.onLimit key 0 fun l => l.startRequest p high now

/-- `rate_manager_request_done`. -/
def requestDone (g : RateManager) (key : Key) (now : ℕ) : RateManager :=
  (g.onLimit key () fun l => ((), l.requestDone now)).2

/-- `rate_manager_handle_429`. -/
def handle429 (g : RateManager) (key : Key) (now : ℕ) : ℤ × RateManager :=
  g.onLimit key 0 fun l => l.handle429 p now

/-- `rate_manager_destroy`. -/
def destroy (_ : RateManager) : RateManager := none

@[simp] theorem find_init (g : RateManager) (key : Key) : g.init.find key = g.find key := by
  cases g <;> rfl

theorem find_put (g : RateManager) (key key' : Key) (l : RateLimit) :
    (g.put key l).find key' = if key' = key then some l else g.find key' := by
  cases g <;> simp only [put, find, Option.bind_some, update_apply] <;> rfl

theorem find_onLimit {β : Type} (g : RateManager) (key key' : Key) (absent : β)
    (f : RateLimit → β × RateLimit) :
    (g.onLimit key absent f).2.find key' =
      if key' = key then (g.find key').map fun l => (f l).2 else g.find key' := by
  rw [onLimit]
  by_cases heq : key' = key
  · subst heq
    rw [if_pos rfl]
    cases h : g.find key' with
    | none => exact h
    | some l => exact (find_put g key' key' _).trans (if_pos rfl)
  · rw [if_neg heq]
    cases h : g.find key with
    | none => rfl
    | some l => exact (find_put g key key' _).trans (if_neg heq)

theorem onLimit_answer {β : Type} {g : RateManager} {key : Key} {l : RateLimit}
    (h : g.find key = some l) (absent : β) (f : RateLimit → β × RateLimit) :
    (g.onLimit key absent f).1 = (f l).1 := by
  rw [onLimit, h]

end RateManager

/-! ### Runs -/

/-- A call of the rate manager. -/
inductive RateCall
  | init
  /-- With the second reading of the clock. -/
  | setLimit (key : Key) (maxConcurrent : ℤ) (maxRps : ℚ) (successAt : ℕ)
  | canProceed (key : Key) (high : Bool)
  | startRequest (key : Key) (high : Bool)
  | requestDone (key : Key)
  | handle429 (key : Key)
  | destroy
deriving DecidableEq

/-- A call, and its reading of the clock. -/
structure TimedCall where
  now : ℕ
  call : RateCall
deriving DecidableEq

/-- The rate manager, and the latest reading of the clock. -/
structure RateRun where
  manager : RateManager
  clock : ℕ

variable (p : Platform)

/-- A call is carried out. -/
def RateManager.perform (g : RateManager) (c : TimedCall) : RateManager :=
  match c.call with
  | .init => g.init
  | .setLimit key maxConcurrent maxRps successAt =>
    g.setLimit key maxConcurrent maxRps c.now successAt
  | .canProceed key high => (g.canProceed p key high c.now).2
  | .startRequest key high => (g.startRequest p key high c.now).2
  | .requestDone key => g.requestDone key c.now
  | .handle429 key => (g.handle429 p key c.now).2
  | .destroy => g.destroy

namespace TimedCall

/-- The reading of the clock the call ends with. -/
def last (c : TimedCall) : ℕ :=
  match c.call with
  | .setLimit _ _ _ successAt => successAt
  | _ => c.now

/-- The rate the call sets. -/
def rate (c : TimedCall) : ℚ :=
  match c.call with
  | .setLimit _ _ maxRps _ => maxRps
  | _ => 0

/-- The call sets the limit of a key. -/
def Sets (c : TimedCall) (key : Key) : Prop :=
  ∃ maxConcurrent maxRps successAt, c.call = .setLimit key maxConcurrent maxRps successAt

instance (c : TimedCall) (key : Key) : Decidable (c.Sets key) :=
  match c with
  | ⟨now, .setLimit key' maxConcurrent maxRps successAt⟩ =>
    decidable_of_iff (key' = key)
      ⟨fun h => ⟨maxConcurrent, maxRps, successAt, h ▸ rfl⟩, fun ⟨_, _, _, h⟩ => by cases h; rfl⟩
  | ⟨_, .init⟩ | ⟨_, .destroy⟩ | ⟨_, .canProceed _ _⟩ | ⟨_, .startRequest _ _⟩
  | ⟨_, .requestDone _⟩ | ⟨_, .handle429 _⟩ => isFalse fun ⟨_, _, _, h⟩ => nomatch h

/-- The call is of none of the four functions that requests use. -/
def Administers (c : TimedCall) : Prop :=
  match c.call with
  | .init | .setLimit _ _ _ _ | .destroy => True
  | _ => False

instance (c : TimedCall) : Decidable c.Administers :=
  match c with
  | ⟨_, .init⟩ | ⟨_, .setLimit _ _ _ _⟩ | ⟨_, .destroy⟩ => inferInstanceAs (Decidable True)
  | ⟨_, .canProceed _ _⟩ | ⟨_, .startRequest _ _⟩ | ⟨_, .requestDone _⟩ | ⟨_, .handle429 _⟩ =>
    inferInstanceAs (Decidable False)

/-- What a call does to the limit of one key. -/
def act (c : TimedCall) (key : Key) (found : Option RateLimit) : Option RateLimit :=
  match c.call with
  | .init => found
  | .setLimit key' maxConcurrent maxRps successAt =>
    if key = key' then some ((found.getD .zero).set maxConcurrent maxRps c.now successAt) else found
  | .canProceed key' high =>
    if key = key' then found.map fun l => (l.canProceed p high c.now).2 else found
  | .startRequest key' high =>
    if key = key' then found.map fun l => (l.startRequest p high c.now).2 else found
  | .requestDone key' => if key = key' then found.map fun l => l.requestDone c.now else found
  | .handle429 key' => if key = key' then found.map fun l => (l.handle429 p c.now).2 else found
  | .destroy => none

/-- No other call makes a limit. -/
theorem act_none_of_not_sets {c : TimedCall} {key : Key} (h : ¬ c.Sets key) :
    c.act p key none = none := by
  obtain ⟨now, call⟩ := c
  cases call with
  | init | destroy => rfl
  | setLimit key' maxConcurrent maxRps successAt =>
    have hne : key ≠ key' := fun heq => h ⟨maxConcurrent, maxRps, successAt, heq ▸ rfl⟩
    exact if_neg hne
  | canProceed | startRequest | requestDone | handle429 => exact ite_self none

end TimedCall

/-- **One call, one key.** -/
theorem RateManager.find_perform (g : RateManager) (c : TimedCall) (key : Key) :
    (g.perform p c).find key = c.act p key (g.find key) := by
  obtain ⟨now, call⟩ := c
  cases call with
  | init => exact find_init g key
  | setLimit key' maxConcurrent maxRps successAt =>
    simp only [perform, setLimit, find_put, find_init, TimedCall.act]
    split
    · next h => rw [h]
    · rfl
  | canProceed key' high | startRequest key' high | requestDone key' | handle429 key' =>
    exact find_onLimit g key' key _ _
  | destroy => rfl

namespace RateRun

/-- Nothing has been called yet. -/
def start : RateRun := ⟨none, 0⟩

/-- The next call. -/
def step (c : TimedCall) (s : RateRun) : RateRun := ⟨s.manager.perform p c, c.last⟩

/-- The clock does not run backwards, and a rate is not negative. -/
def Ordered (c : TimedCall) (s : RateRun) : Prop :=
  s.clock ≤ c.now ∧ c.now ≤ c.last ∧ 0 ≤ c.rate

instance (c : TimedCall) (s : RateRun) : Decidable (Ordered c s) :=
  inferInstanceAs (Decidable (_ ∧ _))

end RateRun

/-! ### Taking a token -/

namespace RateLimit

/-- The tokens there are at a time. -/
def level (l : RateLimit) (now : ℕ) : ℚ := (l.refill p now).tokens

/-- `rate_manager_start_request` takes one token and counts the request. -/
def TakesToken (l : RateLimit) (high : Bool) (now : ℕ) : Prop :=
  (l.startRequest p high now).2.tokens = l.level p now - 1 ∧
    (l.startRequest p high now).2.currentRequests = l.currentRequests + 1

instance (l : RateLimit) (high : Bool) (now : ℕ) : Decidable (l.TakesToken p high now) :=
  inferInstanceAs (Decidable (_ ∧ _))

/-- There is a token, and nobody has precedence. -/
def Admits (l : RateLimit) (high : Bool) (now : ℕ) : Prop :=
  1 ≤ l.level p now ∧ (high = true ∨ l.highPriorityRequests = 0)

instance (l : RateLimit) (high : Bool) (now : ℕ) : Decidable (l.Admits p high now) :=
  inferInstanceAs (Decidable (_ ∧ _))

variable {p} {l : RateLimit} {high : Bool} {now : ℕ}

theorem startRequest_of_admits (h : l.Admits p high now) :
    l.startRequest p high now = (0, (l.refill p now).take high) :=
  if_pos ⟨h.2.imp_right fun hnone => ⟨hnone, h.1⟩, h.1⟩

theorem startRequest_of_not_admits (h : ¬ l.Admits p high now) :
    l.startRequest p high now = (p.toUint64 (l.refill p now).waitTimeNs, l.refill p now) :=
  if_neg fun hgo => h ⟨hgo.2, hgo.1.imp_right And.left⟩

theorem takesToken_iff : l.TakesToken p high now ↔ l.Admits p high now := by
  constructor
  · rintro ⟨-, hcount⟩
    by_contra h
    rw [startRequest_of_not_admits h] at hcount
    exact absurd hcount (Nat.ne_of_lt (Nat.lt_succ_self _))
  · intro h
    rw [TakesToken, startRequest_of_admits h]
    exact ⟨rfl, rfl⟩

end RateLimit

/-! ### A limit as a token bucket -/

/-- A reading of the clock in seconds. -/
def seconds (time : ℕ) : ℚ := (time : ℚ) / 10 ^ 9

theorem seconds_le {a b : ℕ} (h : a ≤ b) : seconds a ≤ seconds b :=
  div_le_div_of_nonneg_right (Nat.cast_le.mpr h) (by positivity)

theorem Platform.macroTimeDiff_seconds {now last : ℕ} (h : last ≤ now) :
    p.macroTimeDiff now last = seconds now - seconds last := by
  rw [p.macroTimeDiff_of_le h, seconds, seconds, sub_div]

namespace RateLimit

/-- The bucket a limit keeps. -/
structure Represents (l : RateLimit) (b : Bucket ℚ) : Prop where
  maxRps : l.maxRps = b.rate
  tokens : l.tokens = b.level
  lastRefill : seconds l.lastRefill = b.last

/-- The limit is a bucket of the given rate that was looked at by the time `clock`, and `n` tokens
were taken from it since `t`. -/
def Meters (l : RateLimit) (rate : ℚ) (t n clock : ℕ) : Prop :=
  ∃ b : Bucket ℚ, l.Represents b ∧ b.rate = rate ∧ l.lastRefill ≤ clock ∧ b.Spent (seconds t) n

namespace Meters

variable {l l' : RateLimit} {rate : ℚ} {t n clock now : ℕ}

theorem later (h : l.Meters rate t n clock) (hclock : clock ≤ now) : l.Meters rate t n now := by
  obtain ⟨b, hb, hrate, hlast, hspent⟩ := h
  exact ⟨b, hb, hrate, hlast.trans hclock, hspent⟩

/-- Only the three fields of the bucket matter. -/
theorem congr (h : l.Meters rate t n clock) (hrps : l'.maxRps = l.maxRps)
    (htokens : l'.tokens = l.tokens) (hrefill : l'.lastRefill = l.lastRefill) :
    l'.Meters rate t n clock := by
  obtain ⟨b, hb, hrate, hlast, hspent⟩ := h
  refine ⟨b, ⟨hrps.trans hb.maxRps, htokens.trans hb.tokens, ?_⟩, hrate, ?_, hspent⟩
  · rw [hrefill, hb.lastRefill]
  · rw [hrefill]
    exact hlast

/-- Any window begins with no token taken. -/
theorem reset (h : l.Meters rate t n clock) (t' : ℕ) : l.Meters rate t' 0 clock := by
  obtain ⟨b, hb, hrate, hlast, -⟩ := h
  exact ⟨b, hb, hrate, hlast, b.spent_zero _⟩

theorem tokens_nonneg (h : l.Meters rate t n clock) : 0 ≤ l.tokens := by
  obtain ⟨b, hb, -⟩ := h
  rw [hb.tokens]
  exact b.level_nonneg

theorem tokens_le (h : l.Meters rate t n clock) : l.tokens ≤ l.maxRps := by
  obtain ⟨b, hb, -⟩ := h
  rw [hb.tokens, hb.maxRps]
  exact b.level_le

theorem maxRps_eq (h : l.Meters rate t n clock) : l.maxRps = rate := by
  obtain ⟨b, hb, hrate, -⟩ := h
  exact hb.maxRps.trans hrate

theorem count_le (h : l.Meters rate t n clock) {t' : ℕ} (hclock : clock ≤ t') (ht : t ≤ t') :
    (n : ℚ) ≤ rate + rate * (seconds t' - seconds t) := by
  obtain ⟨b, hb, rfl, hlast, hspent⟩ := h
  have hlast' : b.last ≤ seconds t' := hb.lastRefill ▸ seconds_le (hlast.trans hclock)
  exact hspent.count_le hlast' (seconds_le ht)

variable {p} {high : Bool}

/-- The bucket of a limit that has just been refilled. -/
theorem represents_refill {b : Bucket ℚ} (hb : l.Represents b) (hlast : l.lastRefill ≤ now)
    (hnow : b.last ≤ seconds now) : (l.refill p now).Represents (b.refill hnow) where
  maxRps := hb.maxRps
  tokens := by
    change min l.maxRps (l.tokens + p.macroTimeDiff now l.lastRefill * l.maxRps) =
      min b.rate (b.level + (seconds now - b.last) * b.rate)
    rw [p.macroTimeDiff_seconds hlast, hb.maxRps, hb.tokens, hb.lastRefill]
  lastRefill := rfl

theorem refill (h : l.Meters rate t n clock) (hclock : clock ≤ now) (ht : t ≤ now) :
    (l.refill p now).Meters rate t n now := by
  obtain ⟨b, hb, hrate, hlast, hspent⟩ := h
  have hnow : b.last ≤ seconds now := hb.lastRefill ▸ seconds_le (hlast.trans hclock)
  exact ⟨b.refill hnow, represents_refill hb (hlast.trans hclock) hnow, hrate, le_rfl,
    hspent.refill hnow (seconds_le ht)⟩

theorem take (h : l.Meters rate t n clock) (hclock : clock ≤ now) (ht : t ≤ now)
    (hlevel : 1 ≤ l.level p now) : ((l.refill p now).take high).Meters rate t (n + 1) now := by
  obtain ⟨b, hb, hrate, hlast, hspent⟩ := h
  have hnow : b.last ≤ seconds now := hb.lastRefill ▸ seconds_le (hlast.trans hclock)
  have hrefill : (l.refill p now).Represents (b.refill hnow) :=
    represents_refill hb (hlast.trans hclock) hnow
  have hone : 1 ≤ (b.refill hnow).level := hrefill.tokens ▸ hlevel
  refine ⟨(b.refill hnow).take hone, ⟨hrefill.maxRps, ?_, rfl⟩, hrate, le_rfl,
    hspent.take hnow (seconds_le ht) hone⟩
  exact congrArg (· - 1) hrefill.tokens

theorem canProceed (h : l.Meters rate t n clock) (hclock : clock ≤ now) (ht : t ≤ now) :
    (l.canProceed p high now).2.Meters rate t n now := by
  have hrefill : (l.refill p now).Meters rate t n now := h.refill hclock ht
  rw [RateLimit.canProceed]
  split
  · split
    · exact hrefill
    · exact hrefill.congr rfl rfl rfl
  · split <;> exact hrefill

theorem startRequest (h : l.Meters rate t n clock) (hclock : clock ≤ now) (ht : t ≤ now) :
    (l.startRequest p high now).2.Meters rate t
      (n + if l.TakesToken p high now then 1 else 0) now := by
  by_cases hadmits : l.Admits p high now
  · rw [if_pos (takesToken_iff.mpr hadmits), startRequest_of_admits hadmits]
    exact h.take hclock ht hadmits.1
  · rw [if_neg (takesToken_iff.not.mpr hadmits), startRequest_of_not_admits hadmits]
    exact h.refill hclock ht

theorem set (l : RateLimit) (maxConcurrent : ℤ) (hrate : 0 ≤ rate) (refillAt successAt t : ℕ) :
    (l.set maxConcurrent rate refillAt successAt).Meters rate t 0 refillAt :=
  ⟨.full rate hrate (seconds refillAt), ⟨rfl, rfl, rfl⟩, rfl, le_rfl, Bucket.spent_zero _ _⟩

end Meters

end RateLimit

/-- The call is one of `rate_manager_start_request` on the key, and takes a token. -/
def TimedCall.takes (c : TimedCall) (key : Key) (found : Option RateLimit) : Bool :=
  match c.call, found with
  | .startRequest key' high, some l => key = key' ∧ l.TakesToken p high c.now
  | _, _ => false

namespace RateRun

variable {p} {s : RateRun} {c : TimedCall} {key : Key} {t : ℕ}

/-- Calls of `rate_manager_start_request` on a key that take a token, in a run from a state. -/
def grants (p : Platform) (key : Key) : RateRun → List TimedCall → ℕ
  | _, [] => 0
  | s, c :: cs =>
    (if c.takes p key (s.manager.find key) then 1 else 0) + grants p key (s.step p c) cs

/-- The limit of a key is a bucket. -/
def Metered (s : RateRun) (key : Key) : Prop :=
  ∀ l, s.manager.find key = some l → l.Meters l.maxRps 0 0 s.clock

end RateRun

variable {p}

theorem TimedCall.takes_none (c : TimedCall) (key : Key) : c.takes p key none = false := by
  obtain ⟨now, call⟩ := c
  cases call <;> rfl

theorem TimedCall.takes_eq_false_of_act {c : TimedCall} {key : Key} {l : RateLimit}
    (h : c.act p key (some l) = none) : c.takes p key (some l) = false := by
  obtain ⟨now, call⟩ := c
  cases call with
  | startRequest key' high =>
    by_cases heq : key = key'
    · exact absurd ((if_pos heq).symm.trans h) (Option.some_ne_none _)
    · exact absurd ((if_neg heq).symm.trans h) (Option.some_ne_none _)
  | init | setLimit | canProceed | requestDone | handle429 | destroy => rfl

/-- **One call on a bucket.** A call that does not set the limit of the key keeps its bucket, and the
token it takes is accounted for. -/
theorem RateLimit.Meters.act {l l' : RateLimit} {c : TimedCall} {key : Key} {rate : ℚ}
    {t n clock : ℕ} (h : l.Meters rate t n clock) (hclock : clock ≤ c.now) (ht : t ≤ c.now)
    (hset : ¬ c.Sets key) (hact : c.act p key (some l) = some l') :
    l'.Meters rate t (n + if c.takes p key (some l) then 1 else 0) c.now := by
  obtain ⟨now, call⟩ := c
  cases call with
  | init =>
    obtain rfl : l = l' := Option.some.inj hact
    exact h.later hclock
  | setLimit key' maxConcurrent maxRps successAt =>
    have hne : key ≠ key' := fun heq => hset ⟨maxConcurrent, maxRps, successAt, heq ▸ rfl⟩
    obtain rfl : l = l' := Option.some.inj ((if_neg hne).symm.trans hact)
    exact h.later hclock
  | canProceed key' high =>
    by_cases heq : key = key'
    · obtain rfl := Option.some.inj ((if_pos heq).symm.trans hact)
      exact h.canProceed hclock ht
    · obtain rfl : l = l' := Option.some.inj ((if_neg heq).symm.trans hact)
      exact h.later hclock
  | startRequest key' high =>
    by_cases heq : key = key'
    · obtain rfl := Option.some.inj ((if_pos heq).symm.trans hact)
      simpa only [TimedCall.takes, heq, true_and, decide_eq_true_eq] using h.startRequest hclock ht
    · obtain rfl : l = l' := Option.some.inj ((if_neg heq).symm.trans hact)
      simpa only [TimedCall.takes, heq, false_and, decide_false, Bool.false_eq_true, if_false,
        add_zero] using h.later hclock
  | requestDone key' | handle429 key' =>
    by_cases heq : key = key'
    · obtain rfl := Option.some.inj ((if_pos heq).symm.trans hact)
      exact (h.later hclock).congr rfl rfl rfl
    · obtain rfl : l = l' := Option.some.inj ((if_neg heq).symm.trans hact)
      exact h.later hclock
  | destroy => exact absurd hact (Option.some_ne_none l').symm

namespace RateRun

open Guarded

variable {s : RateRun} {c : TimedCall} {key : Key}

theorem find_step (c : TimedCall) (s : RateRun) (key : Key) :
    (s.step p c).manager.find key = c.act p key (s.manager.find key) :=
  s.manager.find_perform p c key

theorem metered_start (key : Key) : start.Metered key := nofun

theorem Metered.step (h : s.Metered key) (hc : Ordered c s) : (s.step p c).Metered key := by
  intro l' hl'
  rw [find_step] at hl'
  by_cases hset : c.Sets key
  · obtain ⟨maxConcurrent, maxRps, successAt, hcall⟩ := hset
    rw [TimedCall.act, hcall] at hl'
    obtain rfl := Option.some.inj ((if_pos rfl).symm.trans hl')
    have hrate : 0 ≤ maxRps := by
      have := hc.2.2
      rwa [TimedCall.rate, hcall] at this
    exact (RateLimit.Meters.set _ maxConcurrent hrate c.now successAt 0).later hc.2.1
  · cases hl : s.manager.find key with
    | some l =>
      rw [hl] at hl'
      have hmeters := ((h l hl).act hc.1 (Nat.zero_le _) hset hl').reset 0
      rw [hmeters.maxRps_eq]
      exact hmeters.later hc.2.1
    | none =>
      rw [hl] at hl'
      rw [TimedCall.act_none_of_not_sets p hset] at hl'
      exact absurd hl' (Option.some_ne_none l').symm

theorem metered_run {cs : List TimedCall} (h : Allowed (step p) Ordered start cs) (key : Key) :
    (run (step p) start cs).Metered key :=
  h.invariant (P := (Metered · key)) (fun _ _ hs hc => hs.step hc) (metered_start key)

/-- Without a limit there is nothing to grant. -/
theorem grants_of_none {cs : List TimedCall} (hnone : s.manager.find key = none)
    (hset : ∀ c ∈ cs, ¬ c.Sets key) : s.grants p key cs = 0 := by
  induction cs generalizing s with
  | nil => rfl
  | cons c cs ih =>
    obtain ⟨hc, hcs⟩ := List.forall_mem_cons.mp hset
    have hnext : (s.step p c).manager.find key = none := by
      rw [find_step, hnone, TimedCall.act_none_of_not_sets p hc]
    rw [grants, hnone, c.takes_none, ih hnext hcs]
    rfl

/-- The bound for a window in which `n` tokens have been taken already. -/
theorem grants_le {cs : List TimedCall} {l : RateLimit} {rate : ℚ} {t₁ t₂ n clock : ℕ}
    (hl : s.manager.find key = some l) (h : l.Meters rate t₁ n clock) (hclock : clock ≤ s.clock)
    (hn : (n : ℚ) ≤ rate + rate * (seconds t₂ - seconds t₁))
    (has : Allowed (step p) Ordered s cs) (hset : ∀ c ∈ cs, ¬ c.Sets key)
    (hwindow : ∀ c ∈ cs, t₁ ≤ c.now ∧ c.now ≤ t₂) :
    ((n + s.grants p key cs : ℕ) : ℚ) ≤ rate + rate * (seconds t₂ - seconds t₁) := by
  induction cs generalizing s l n clock with
  | nil => exact hn
  | cons c cs ih =>
    obtain ⟨hc, hcs⟩ := List.forall_mem_cons.mp hset
    obtain ⟨⟨ht₁, ht₂⟩, hwindow⟩ := List.forall_mem_cons.mp hwindow
    obtain ⟨hordered, has⟩ := has
    have hfind := find_step c s key (p := p)
    rw [hl] at hfind
    rw [grants, hl, ← Nat.add_assoc]
    cases hl' : c.act p key (some l) with
    | some l' =>
      have hmeters := h.act (hclock.trans hordered.1) ht₁ hc hl'
      exact ih (hfind.trans hl') hmeters hordered.2.1 (hmeters.count_le ht₂ (ht₁.trans ht₂)) has
        hcs hwindow
    | none =>
      -- Only `rate_manager_destroy` takes a limit away, and it takes no token.
      rw [grants_of_none (hfind.trans hl') hcs, c.takes_eq_false_of_act hl']
      exact hn

/-- **The token bucket enforces the rate.** After any sequence of calls a limit holds between zero
and `max_rps` tokens, and in a window of time in which it is not set again, at most
`max_rps + max_rps * (t₂ - t₁)` calls of `rate_manager_start_request` take one. -/
theorem window {pre cs : List TimedCall} (h : Allowed (step p) Ordered start (pre ++ cs))
    {l : RateLimit} (hl : (run (step p) start pre).manager.find key = some l) {t₁ t₂ : ℕ}
    (ht : t₁ ≤ t₂) (hwindow : ∀ c ∈ cs, t₁ ≤ c.now ∧ c.now ≤ t₂)
    (hset : ∀ c ∈ cs, ¬ c.Sets key) :
    (0 ≤ l.tokens ∧ l.tokens ≤ l.maxRps) ∧
      ((run (step p) start pre).grants p key cs : ℚ) ≤
        l.maxRps + l.maxRps * (((t₂ : ℚ) - t₁) / 10 ^ 9) := by
  obtain ⟨hpre, hcs⟩ := allowed_append.mp h
  have hmeters := metered_run hpre key l hl
  refine ⟨⟨hmeters.tokens_nonneg, hmeters.tokens_le⟩, ?_⟩
  have hrate : 0 ≤ l.maxRps := hmeters.tokens_nonneg.trans hmeters.tokens_le
  have hgain : 0 ≤ seconds t₂ - seconds t₁ := sub_nonneg.mpr (seconds_le ht)
  have hzero : ((0 : ℕ) : ℚ) ≤ l.maxRps + l.maxRps * (seconds t₂ - seconds t₁) := by
    rw [Nat.cast_zero]
    exact add_nonneg hrate (mul_nonneg hrate hgain)
  have hbound := grants_le hl (hmeters.reset t₁) le_rfl hzero hcs hset hwindow
  rwa [Nat.zero_add, seconds, seconds, ← sub_div] at hbound

/-- One token is there when the limit is set, and a second one a second later. -/
theorem window_two :
    grants .saturating "k" (run (step .saturating) start [⟨5, .setLimit "k" 1 1 5⟩])
        [⟨5, .startRequest "k" false⟩, ⟨6, .startRequest "k" true⟩,
          ⟨1000000005, .startRequest "k" false⟩] = 2 ∧
      ((grants .saturating "k" (run (step .saturating) start [⟨5, .setLimit "k" 1 1 5⟩])
        [⟨5, .startRequest "k" false⟩, ⟨6, .startRequest "k" true⟩,
          ⟨1000000005, .startRequest "k" false⟩] : ℕ) : ℚ) ≤
        1 + 1 * (((1000000005 : ℕ) - (5 : ℕ)) / 10 ^ 9) := by
  refine ⟨by decide +kernel, ?_⟩
  have hlimit : (run (step .saturating) start [⟨5, .setLimit "k" 1 1 5⟩]).manager.find "k" =
      some ⟨1, 1, 0, 0, 1, 5, 5, 1⟩ := rfl
  refine (window ?_ hlimit ?_ ?_ ?_).2
  · decide +kernel
  · decide
  · decide
  · simp [TimedCall.Sets]

end RateRun

end CurlLoop
