import CurlLoop.RateManager

/-!
# The concurrency limit of a key

`rate_manager_set_limit` takes the number of requests of a key that may run at a time. The limit
keeps it in `max_concurrent`, and counts the requests that run in `current_requests`: a grant raises
the count, and `rate_manager_request_done` and `rate_manager_handle_429` lower it. The count is
right. No function compares it with `max_concurrent`, so a grant depends on the tokens alone.

## Main definitions

* `InFlight`, `InFlight.step` — the requests of a key that were granted and have not ended
* `InFlight.Respected` — they are no more than `max_concurrent`
* `InFlight.HasRoom` — a start that finds a token finds `current_requests` below `max_concurrent`

## Main results

* `InFlight.accurate_run` — `current_requests` is the number of requests that run
* `InFlight.respected_iff`
-/

namespace CurlLoop

variable {p : Platform}

namespace RateLimit

theorem maxConcurrent_canProceed (l : RateLimit) (high : Bool) (now : ℕ) :
    (l.canProceed p high now).2.maxConcurrent = l.maxConcurrent := by
  rw [canProceed]
  split <;> split <;> rfl

theorem currentRequests_canProceed (l : RateLimit) (high : Bool) (now : ℕ) :
    (l.canProceed p high now).2.currentRequests = l.currentRequests := by
  rw [canProceed]
  split <;> split <;> rfl

theorem maxConcurrent_startRequest (l : RateLimit) (high : Bool) (now : ℕ) :
    (l.startRequest p high now).2.maxConcurrent = l.maxConcurrent := by
  rw [startRequest]
  split <;> rfl

/-- A grant is counted. -/
theorem currentRequests_startRequest (l : RateLimit) (high : Bool) (now : ℕ) :
    (l.startRequest p high now).2.currentRequests =
      if l.Admits p high now then l.currentRequests + 1 else l.currentRequests := by
  by_cases h : l.Admits p high now
  · rw [startRequest_of_admits h, if_pos h]
    rfl
  · rw [startRequest_of_not_admits h, if_neg h]
    rfl

end RateLimit

namespace TimedCall

variable {c : TimedCall} {key : Key}

/-- `rate_manager_start_request` is called about a key whose next token is the caller's. -/
def findsToken (p : Platform) (c : TimedCall) (key : Key) (l : RateLimit) : Bool :=
  match c.call with
  | .startRequest key' high => key = key' ∧ l.Admits p high c.now
  | _ => false

/-- The call ends a request of the key. -/
def ends (c : TimedCall) (key : Key) : Bool :=
  match c.call with
  | .requestDone key' | .handle429 key' => key = key'
  | _ => false

/-- The functions that requests use write no `max_concurrent`. -/
theorem maxConcurrent_act (h : ¬ c.Administers) {l l' : RateLimit}
    (hact : c.act p key (some l) = some l') : l'.maxConcurrent = l.maxConcurrent := by
  obtain ⟨now, call⟩ := c
  cases call with
  | init | setLimit | destroy => exact absurd trivial h
  | canProceed key' high =>
    by_cases heq : key = key'
    · rw [← Option.some.inj ((if_pos heq).symm.trans hact)]
      exact l.maxConcurrent_canProceed high now
    · rw [← Option.some.inj ((if_neg heq).symm.trans hact)]
  | startRequest key' high =>
    by_cases heq : key = key'
    · rw [← Option.some.inj ((if_pos heq).symm.trans hact)]
      exact l.maxConcurrent_startRequest high now
    · rw [← Option.some.inj ((if_neg heq).symm.trans hact)]
  | requestDone key' | handle429 key' =>
    by_cases heq : key = key'
    · rw [← Option.some.inj ((if_pos heq).symm.trans hact)]
      rfl
    · rw [← Option.some.inj ((if_neg heq).symm.trans hact)]

/-- What a call does to the count of a limit it keeps. -/
theorem currentRequests_act {l l' : RateLimit} (hact : c.act p key (some l) = some l') :
    l'.currentRequests =
      if c.findsToken p key l then l.currentRequests + 1
      else if c.ends key then l.currentRequests - 1 else l.currentRequests := by
  obtain ⟨now, call⟩ := c
  cases call with
  | init => rw [← Option.some.inj hact]; rfl
  | destroy => exact absurd hact (Option.some_ne_none l').symm
  | setLimit key' maxConcurrent maxRps successAt =>
    by_cases heq : key = key'
    · rw [← Option.some.inj ((if_pos heq).symm.trans hact)]
      rfl
    · rw [← Option.some.inj ((if_neg heq).symm.trans hact)]
      rfl
  | canProceed key' high =>
    by_cases heq : key = key'
    · rw [← Option.some.inj ((if_pos heq).symm.trans hact)]
      exact l.currentRequests_canProceed high now
    · rw [← Option.some.inj ((if_neg heq).symm.trans hact)]
      rfl
  | startRequest key' high =>
    by_cases heq : key = key'
    · rw [← Option.some.inj ((if_pos heq).symm.trans hact)]
      simp only [RateLimit.currentRequests_startRequest, findsToken, ends, heq, true_and,
        decide_eq_true_eq, Bool.false_eq_true, if_false]
    · rw [← Option.some.inj ((if_neg heq).symm.trans hact)]
      simp only [findsToken, ends, heq, false_and, decide_false, Bool.false_eq_true, if_false]
  | requestDone key' | handle429 key' =>
    by_cases heq : key = key'
    · rw [← Option.some.inj ((if_pos heq).symm.trans hact)]
      exact (if_pos (decide_eq_true heq)).symm
    · rw [← Option.some.inj ((if_neg heq).symm.trans hact)]
      simp only [findsToken, ends, heq, decide_false, Bool.false_eq_true, if_false]

/-- A limit that a call makes has no requests. -/
theorem currentRequests_act_none (c : TimedCall) (key : Key) :
    (c.act p key none).elim 0 RateLimit.currentRequests = 0 := by
  by_cases hset : c.Sets key
  · obtain ⟨maxConcurrent, maxRps, successAt, hcall⟩ := hset
    rw [act, hcall]
    dsimp only
    rw [if_pos rfl]
    rfl
  · rw [act_none_of_not_sets p hset]
    rfl

/-- Only `rate_manager_destroy` takes a limit away. -/
theorem act_some_ne_none (h : c.call ≠ .destroy) (l : RateLimit) :
    c.act p key (some l) ≠ none := by
  obtain ⟨now, call⟩ := c
  cases call with
  | init => exact Option.some_ne_none l
  | setLimit key' | canProceed key' | startRequest key' | requestDone key' | handle429 key' =>
    by_cases heq : key = key'
    · rw [act]
      exact ne_of_eq_of_ne (if_pos heq) (Option.some_ne_none _)
    · rw [act]
      exact ne_of_eq_of_ne (if_neg heq) (Option.some_ne_none _)
  | destroy => exact absurd rfl h

/-- A call takes a token when it is made about a key whose next token is the caller's. -/
theorem takes_some {l : RateLimit} : c.takes p key (some l) = c.findsToken p key l := by
  obtain ⟨now, call⟩ := c
  cases call with
  | startRequest key' high => simp only [takes, findsToken, RateLimit.takesToken_iff]
  | init | setLimit | canProceed | requestDone | handle429 | destroy => rfl

end TimedCall

/-- The rate manager, and how many requests of a key were granted and have not ended. -/
structure InFlight where
  rates : RateRun
  outstanding : ℕ

namespace InFlight

open Guarded

variable {c : TimedCall} {key : Key} {s : InFlight}

/-- Nothing has been called yet. -/
def start : InFlight := ⟨.start, 0⟩

/-- The next call. A request that ends was granted before, if any was. The requests of a limit that
`rate_manager_destroy` frees are not those of the next limit of the key. -/
def step (p : Platform) (key : Key) (c : TimedCall) (s : InFlight) : InFlight where
  rates := s.rates.step p c
  outstanding :=
    if c.call = .destroy then 0
    else if c.takes p key (s.rates.manager.find key) then s.outstanding + 1
    else if c.ends key then s.outstanding - 1 else s.outstanding

/-- The limit of the key, if there is one, counts the requests that run. -/
def Accurate (key : Key) (s : InFlight) : Prop :=
  s.outstanding = (s.rates.manager.find key).elim 0 RateLimit.currentRequests

/-- No more requests of the key run than may. -/
def Respected (key : Key) (s : InFlight) : Prop :=
  ∀ l, s.rates.manager.find key = some l → (s.outstanding : ℤ) ≤ l.maxConcurrent

/-- A request that finds a token finds `current_requests` below `max_concurrent`. -/
def HasRoom (p : Platform) (key : Key) (c : TimedCall) (s : InFlight) : Prop :=
  ∀ l ∈ s.rates.manager.find key, c.findsToken p key l = true →
    (l.currentRequests : ℤ) < l.maxConcurrent

instance : Decidable (s.HasRoom p key c) :=
  inferInstanceAs (Decidable (∀ l ∈ s.rates.manager.find key, _ → _))

theorem accurate_start (key : Key) : start.Accurate key := rfl

theorem Accurate.step (h : s.Accurate key) (c : TimedCall) : (s.step p key c).Accurate key := by
  have hfind : (s.rates.step p c).manager.find key = c.act p key (s.rates.manager.find key) :=
    RateRun.find_step c s.rates key
  change (if c.call = .destroy then 0
    else if c.takes p key (s.rates.manager.find key) then s.outstanding + 1
    else if c.ends key then s.outstanding - 1 else s.outstanding) =
      ((s.rates.step p c).manager.find key).elim 0 RateLimit.currentRequests
  rw [hfind, h]
  by_cases hdestroy : c.call = .destroy
  · rw [if_pos hdestroy, TimedCall.act, hdestroy]
    rfl
  rw [if_neg hdestroy]
  cases hl : s.rates.manager.find key with
  | none =>
    rw [c.takes_none, if_neg Bool.false_ne_true, TimedCall.currentRequests_act_none]
    exact ite_self 0
  | some l =>
    rw [TimedCall.takes_some]
    cases hl' : c.act p key (some l) with
    | none => exact absurd hl' (TimedCall.act_some_ne_none hdestroy l)
    | some l' => exact (TimedCall.currentRequests_act hl').symm

/-- The count is right. -/
theorem accurate_run (cs : List TimedCall) (key : Key) :
    (run (step p key) start cs).Accurate key := by
  suffices ∀ s : InFlight, s.Accurate key → (run (step p key) s cs).Accurate key from
    this start (accurate_start key)
  induction cs with
  | nil => exact fun _ h => h
  | cons c cs ih => exact fun _ h => ih _ (h.step c)

/-- A limit that requests use stays, with the same `max_concurrent`. -/
theorem find_step_of_not_administers {l : RateLimit} (hl : s.rates.manager.find key = some l)
    (hc : ¬ c.Administers) : ∃ l', (s.step p key c).rates.manager.find key = some l' ∧
      c.act p key (some l) = some l' ∧ l'.maxConcurrent = l.maxConcurrent := by
  have hstays : c.act p key (some l) ≠ none := by
    refine TimedCall.act_some_ne_none (fun hdestroy => hc ?_) l
    rw [TimedCall.Administers, hdestroy]
    trivial
  obtain ⟨l', hl'⟩ := Option.ne_none_iff_exists'.mp hstays
  refine ⟨l', ?_, hl', TimedCall.maxConcurrent_act hc hl'⟩
  rw [← hl', ← hl]
  exact RateRun.find_step c s.rates key

/-- The key has a limit, and no more requests run than it says. -/
def Keeps (key : Key) (maxConcurrent : ℤ) (s : InFlight) : Prop :=
  s.Accurate key ∧ ∃ l, s.rates.manager.find key = some l ∧ l.maxConcurrent = maxConcurrent ∧
    (s.outstanding : ℤ) ≤ l.maxConcurrent

variable {maxConcurrent : ℤ}

theorem Keeps.respected (h : s.Keeps key maxConcurrent) : s.Respected key := by
  obtain ⟨-, l, hl, -, hle⟩ := h
  intro l' hl'
  rwa [← Option.some.inj (hl.symm.trans hl')]

/-- A grant is the only thing that raises the count. -/
theorem Keeps.step (h : s.Keeps key maxConcurrent) (hc : ¬ c.Administers)
    (hroom : s.HasRoom p key c) : (s.step p key c).Keeps key maxConcurrent := by
  obtain ⟨haccurate, l, hl, hmax, hle⟩ := h
  obtain ⟨l', hl', hact, hmax'⟩ := find_step_of_not_administers (p := p) hl hc
  refine ⟨haccurate.step c, l', hl', hmax'.trans hmax, ?_⟩
  have hcount : (s.step p key c).outstanding = l'.currentRequests := by
    have := haccurate.step c (p := p)
    rwa [Accurate, hl', Option.elim_some] at this
  have hbefore : s.outstanding = l.currentRequests := by rwa [Accurate, hl] at haccurate
  rw [hcount, TimedCall.currentRequests_act hact, hmax']
  rw [hbefore] at hle
  split
  · next hfinds =>
    have := hroom l hl hfinds
    push_cast
    omega
  · split
    · omega
    · exact hle

/-- The limit is exceeded by the first grant beyond it. -/
theorem Keeps.not_respected (h : s.Keeps key maxConcurrent) (hc : ¬ c.Administers)
    (hroom : ¬ s.HasRoom p key c) : ¬ (s.step p key c).Respected key := by
  obtain ⟨haccurate, l, hl, -, -⟩ := h
  obtain ⟨l', hl', hact, hmax'⟩ := find_step_of_not_administers (p := p) hl hc
  have hcount : (s.step p key c).outstanding = l'.currentRequests := by
    have := haccurate.step c (p := p)
    rwa [Accurate, hl', Option.elim_some] at this
  rw [HasRoom, hl] at hroom
  simp only [Option.mem_some_iff, forall_eq', Classical.not_imp, not_lt] at hroom
  obtain ⟨hfinds, hfull⟩ := hroom
  intro hrespected
  have hle := hrespected l' hl'
  rw [hcount, TimedCall.currentRequests_act hact, if_pos hfinds, hmax'] at hle
  push_cast at hle
  omega

/-- **The limit is respected as long as the callers respect it.** At most `max_concurrent` requests
of the key run, whatever is granted and ended, if and only if no more than that run when the calls
begin, and each call that finds a token finds fewer than that. -/
theorem respected_iff {pre cs : List TimedCall} {l : RateLimit}
    (hl : (run (step p key) start pre).rates.manager.find key = some l)
    (hcs : ∀ c ∈ cs, ¬ c.Administers) :
    (∀ as, as <+: cs → (run (step p key) start (pre ++ as)).Respected key) ↔
      (l.currentRequests : ℤ) ≤ l.maxConcurrent ∧
        Allowed (step p key) (HasRoom p key) (run (step p key) start pre) cs := by
  have haccurate := accurate_run (p := p) pre key
  rw [Accurate, hl, Option.elim_some] at haccurate
  by_cases hnow : (l.currentRequests : ℤ) ≤ l.maxConcurrent
  · have hbegin : (run (step p key) start pre).Keeps key l.maxConcurrent :=
      ⟨accurate_run pre key, l, hl, rfl, haccurate ▸ hnow⟩
    rw [and_iff_right hnow, ← forall_prefix_iff_allowed (P := Respected key)
      (fun _ h => h.respected) (fun _ _ h hc hroom => h.step hc hroom)
      (fun _ _ h hc hroom => h.not_respected hc hroom) hbegin (allowed_of_forall hcs)]
    simp only [run_append]
  · refine iff_of_false (fun hall => ?_) fun h => hnow h.1
    have hstart := hall [] List.nil_prefix l
    rw [List.append_nil, haccurate] at hstart
    exact hnow (hstart hl)

/-- Two requests may run, and the third starts when one has ended. -/
theorem respected_two :
    (run (step .saturating "k") start ([⟨0, .setLimit "k" 2 5 0⟩] ++
      [⟨1, .startRequest "k" false⟩, ⟨2, .startRequest "k" false⟩, ⟨3, .requestDone "k"⟩,
        ⟨4, .startRequest "k" true⟩])).Respected "k" :=
  (respected_iff (l := ⟨2, 5, 0, 0, 5, 0, 0, 1⟩) (by decide +kernel) (by decide +kernel)).mpr
    (by decide +kernel) _ (List.prefix_refl _)

/-- One request may run at a time, with five tokens a second. Two start at once. -/
theorem not_respected_one :
    ¬ ∀ (pre cs : List TimedCall) (key : Key) (l : RateLimit),
      (run (step .saturating key) start pre).rates.manager.find key = some l →
      0 < l.maxConcurrent → (run (step .saturating key) start pre).outstanding = 0 →
      (∀ c ∈ cs, ¬ c.Administers) →
      (run (step .saturating key) start (pre ++ cs)).Respected key := by
  intro h
  have htwo := h [⟨0, .setLimit "k" 1 5 0⟩] [⟨1, .startRequest "k" false⟩, ⟨1, .startRequest "k" false⟩]
    "k" ⟨1, 5, 0, 0, 5, 0, 0, 1⟩ (by decide +kernel) (by decide) (by decide +kernel)
    (by decide +kernel) ⟨1, 5, 2, 0, 3, 1, 0, 1⟩ (by decide +kernel)
  exact absurd htwo (by decide +kernel)

end InFlight

end CurlLoop
