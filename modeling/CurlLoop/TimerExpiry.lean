import CurlLoop.Scheduler
import CurlLoop.Traffic
import Mathlib.Tactic.Linarith

/-!
# How long an iteration sleeps

`calculate_next_timer_expiry` sets the timer for one request, the first of `inactive_requests` or the
first of `refresh_requests`, and returns the whole milliseconds until it is due, at most `max_value`.
When there is one of either, the first inactive request counts only if it is ready to go now. One
that is not due yet is not ready, so the timer is then set for the first refresh request even if that
is due later. `rate_limited_requests` is not looked at.

## Main definitions

* `Loop.timerSetFor` — the time the timer is set for
* `Loop.WakesInTime` — the sleep ends before the first request is due
* `Loop.NoneBefore` — no request is due a whole millisecond before the timer

## Main results

* `Loop.wakesInTime_iff`
* `Loop.noneBefore_iff_heads` — which requests decide when the maps are in order
-/

namespace CurlLoop

namespace Loop

variable {ω : Type} {env : Env ω} {s : Loop ω} {maxValue : ℕ} {m : MapId}

/-- Whole milliseconds from one time to another. -/
def msUntil (now time : ℕ) : ℕ := (time - now) / 1000000

/-- The time the timer is set for: that of the first request of the map that is not empty. Of two
first requests it is the earlier one, as signed numbers, when the inactive request is ready, and that
of the refresh request otherwise. -/
def timerSetFor (env : Env ω) (s : Loop ω) : Option ℕ :=
  match (s.maps .inactive).head?, (s.maps .refresh).head? with
  | none, none => none
  | none, some f => some (s.req f).nextRetryAt
  | some i, none => some (s.req i).nextRetryAt
  | some i, some f =>
    if (s.requestReady env i).1 then
      some (u64 (min (toLong (s.req i).nextRetryAt) (toLong (s.req f).nextRetryAt)))
    else some (s.req f).nextRetryAt

/-- The clock when the sleep is computed. -/
def timerClock (env : Env ω) (s : Loop ω) : ℕ := (env.macroNow (s.nextExpiry env).2.world).1

/-- The sleep is at most `max_value`, and over when the first request of the three maps is due. -/
structure WakesInTime (env : Env ω) (s : Loop ω) (maxValue : ℕ) : Prop where
  le_max : (s.calculateNextTimerExpiry env maxValue).1 ≤ maxValue
  in_time : ∀ m, m ≠ .queued → ∀ r ∈ s.maps m,
    s.timerClock env + (s.calculateNextTimerExpiry env maxValue).1 * 1000000 ≤
      max (s.timerClock env) (s.req r).nextRetryAt

/-- The request is not due a whole millisecond before the timer, or not within `max_value`. -/
def NotBefore (env : Env ω) (s : Loop ω) (maxValue : ℕ) (r : ReqId) : Prop :=
  maxValue ≤ msUntil (s.timerClock env) (s.req r).nextRetryAt ∨
    ∃ time ∈ s.timerSetFor env,
      msUntil (s.timerClock env) time ≤ msUntil (s.timerClock env) (s.req r).nextRetryAt

/-- No request of the three maps is due a whole millisecond before the timer, and within
`max_value`. -/
def NoneBefore (env : Env ω) (s : Loop ω) (maxValue : ℕ) : Prop :=
  ∀ m, m ≠ .queued → ∀ r ∈ s.maps m, s.NotBefore env maxValue r

theorem nextExpiry_fst (env : Env ω) (s : Loop ω) : (s.nextExpiry env).1 = s.timerSetFor env := by
  rw [nextExpiry, timerSetFor]
  cases (s.maps .inactive).head? with
  | none => cases (s.maps .refresh).head? <;> rfl
  | some i =>
    cases (s.maps .refresh).head? with
    | none => rfl
    | some f =>
      obtain ⟨w, hw⟩ := requestReady_eq env s i
      dsimp only
      by_cases hready : (s.requestReady env i).1 = true
      · rw [if_pos hready, if_pos hready, hw]
      · rw [if_neg hready, if_neg hready, hw]

/-- **What is returned.** -/
theorem calculateNextTimerExpiry_fst (env : Env ω) (s : Loop ω) (maxValue : ℕ) :
    (s.calculateNextTimerExpiry env maxValue).1 =
      (s.timerSetFor env).elim maxValue fun time =>
        min (msUntil (s.timerClock env) time) maxValue := by
  have hnext := nextExpiry_fst env s
  rw [calculateNextTimerExpiry, timerClock, ← hnext]
  rcases s.nextExpiry env with ⟨_ | time, t⟩
  · rfl
  · change (if time < (env.macroNow t.world).1 then (0, (t.ask env.macroNow).2)
      else (min ((time - (env.macroNow t.world).1) / 1000000) maxValue,
        (t.ask env.macroNow).2)).1 = min (msUntil (env.macroNow t.world).1 time) maxValue
    split
    · next hpast =>
      rw [msUntil, Nat.sub_eq_zero_of_le hpast.le, Nat.zero_div, Nat.zero_min]
    · rfl

/-- A sleep of so many milliseconds is over in time if no more lie between. -/
theorem sleep_le_iff (now due n : ℕ) : now + n * 1000000 ≤ max now due ↔ n ≤ msUntil now due := by
  rw [msUntil, Nat.le_div_iff_mul_le (by decide)]
  omega

/-- **When the loop does not oversleep.** For every state, clock and limit. -/
theorem wakesInTime_iff (env : Env ω) (s : Loop ω) (maxValue : ℕ) :
    s.WakesInTime env maxValue ↔ s.NoneBefore env maxValue := by
  have hone : ∀ r, s.timerClock env + (s.calculateNextTimerExpiry env maxValue).1 * 1000000 ≤
      max (s.timerClock env) (s.req r).nextRetryAt ↔ s.NotBefore env maxValue r := by
    intro r
    rw [sleep_le_iff, calculateNextTimerExpiry_fst, NotBefore]
    cases s.timerSetFor env with
    | none => simp
    | some time => simp [or_comm]
  constructor
  · intro h m hm r hr
    exact (hone r).mp (h.in_time m hm r hr)
  · intro h
    refine ⟨?_, fun m hm r hr => (hone r).mpr (h m hm r hr)⟩
    rw [calculateNextTimerExpiry_fst]
    cases s.timerSetFor env with
    | none => exact le_rfl
    | some time => exact min_le_right _ _

theorem msUntil_mono {now a b : ℕ} (h : a ≤ b) : msUntil now a ≤ msUntil now b :=
  Nat.div_le_div_right (Nat.sub_le_sub_right h now)

/-- Whoever is due no earlier than a request that is not before the timer is not before it either. -/
theorem NotBefore.mono {a b : ReqId} (h : s.NotBefore env maxValue a)
    (hle : (s.req a).nextRetryAt ≤ (s.req b).nextRetryAt) : s.NotBefore env maxValue b := by
  have hms : msUntil (s.timerClock env) (s.req a).nextRetryAt ≤
      msUntil (s.timerClock env) (s.req b).nextRetryAt := msUntil_mono hle
  rcases h with hmax | ⟨time, htime, hle'⟩
  · exact .inl (hmax.trans hms)
  · exact .inr ⟨time, htime, hle'.trans hms⟩

/-- In a map that is in order, the first request decides. -/
theorem notBefore_iff_head (h : s.InOrder m) :
    (∀ r ∈ s.maps m, s.NotBefore env maxValue r) ↔
      ∀ r ∈ (s.maps m).head?, s.NotBefore env maxValue r := by
  rw [InOrder] at h
  cases hmap : s.maps m with
  | nil => simp
  | cons a l =>
    rw [hmap] at h
    simp only [List.head?_cons, Option.mem_some_iff, forall_eq', List.forall_mem_cons]
    refine ⟨And.left, fun ha => ⟨ha, fun b hb => ha.mono ?_⟩⟩
    exact (List.pairwise_cons.mp h).1 b hb

theorem toLong_of_lt {n : ℕ} (h : n < 2 ^ 63) : toLong n = n := by
  refine Int.bmod_eq_of_le_mul_two ?_ ?_ <;> norm_num <;> omega

/-- **Which requests decide.** When the maps are in order and no time exceeds the range of `long`:
the first rate-limited request, and the first inactive one if it is not ready and there is a refresh
request. -/
theorem noneBefore_iff_heads (horder : ∀ m, m ≠ .queued → s.InOrder m)
    (hlong : ∀ r, (s.req r).nextRetryAt < 2 ^ 63) :
    s.NoneBefore env maxValue ↔
      (∀ l ∈ (s.maps .rateLimited).head?, s.NotBefore env maxValue l) ∧
      ∀ i ∈ (s.maps .inactive).head?, ∀ f ∈ (s.maps .refresh).head?,
        (s.requestReady env i).1 = false → s.NotBefore env maxValue i := by
  have hheads : s.NoneBefore env maxValue ↔ ∀ m, m ≠ .queued → ∀ r ∈ (s.maps m).head?,
      s.NotBefore env maxValue r :=
    forall₂_congr fun m hm => notBefore_iff_head (horder m hm)
  have hset : ∀ {r time}, s.timerSetFor env = some time → time ≤ (s.req r).nextRetryAt →
      s.NotBefore env maxValue r :=
    fun htime hle => .inr ⟨_, htime, msUntil_mono hle⟩
  have hmin : ∀ i f, u64 (min (toLong (s.req i).nextRetryAt) (toLong (s.req f).nextRetryAt)) =
      min (s.req i).nextRetryAt (s.req f).nextRetryAt := by
    intro i f
    have hi := hlong i
    rw [toLong_of_lt hi, toLong_of_lt (hlong f), ← Nat.cast_min]
    exact u64_eq_iff.mpr ((min_le_left _ _).trans_lt (hi.trans (by decide)))
  rw [hheads]
  constructor
  · intro h
    exact ⟨h .rateLimited (by decide), fun i hi _ _ _ => h .inactive (by decide) i hi⟩
  · rintro ⟨hlimited, hinactive⟩ m hm r hr
    cases m with
    | queued => exact absurd rfl hm
    | rateLimited => exact hlimited r hr
    | inactive =>
      cases hf : (s.maps .refresh).head? with
      | none => exact hset (by rw [timerSetFor, hr, hf]) le_rfl
      | some f =>
        cases hready : (s.requestReady env r).1 with
        | false => exact hinactive r hr f hf hready
        | true =>
          refine hset (by rw [timerSetFor, hr, hf]; exact if_pos hready) ?_
          rw [hmin]
          exact min_le_left _ _
    | refresh =>
      cases hi : (s.maps .inactive).head? with
      | none => exact hset (by rw [timerSetFor, hr, hi]) le_rfl
      | some i =>
        cases hready : (s.requestReady env i).1 with
        | false =>
          have hrefused : ¬ (s.requestReady env i).1 = true := Bool.eq_false_iff.mp hready
          exact hset (by rw [timerSetFor, hr, hi]; exact if_neg hrefused) le_rfl
        | true =>
          refine hset (by rw [timerSetFor, hr, hi]; exact if_pos hready) ?_
          rw [hmin]
          exact min_le_right _ _

end Loop

/-- The clock stands still, and the rate manager tells whoever asks to wait. -/
def Env.waitFor (n : ℕ) : Env Unit :=
  { Env.uneventful with rateManagerCanProceed := fun _ _ _ => (n, ()) }

namespace Loop

/-- Request 1 is parked for five milliseconds, and the loop sleeps for two hundred. -/
theorem not_wakesInTime_rateLimited :
    let mem : Memory := ⟨fun _ => { Request.init with url := some "u", rateLimit := some "k" },
      fun _ => ⟨rfl, rfl, rfl, rfl, rfl, rfl⟩⟩
    let s := Guarded.run (Loop.act (Env.waitFor 5000000)) (curlEventLoopInit mem ())
      [.call (.api (.submit 1 0)), .processCancelledAndPendingRequests, .moveInactiveRequestsToQueue]
    s.hazards = [] ∧ s.maps .rateLimited = [1] ∧ (s.req 1).nextRetryAt = 5000000 ∧
      s.timerClock (Env.waitFor 5000000) = 0 ∧ ¬ s.WakesInTime (Env.waitFor 5000000) 200 := by
  intro mem s
  refine ⟨by decide +kernel, by decide +kernel, by decide +kernel, by decide +kernel, fun h => ?_⟩
  exact absurd (h.in_time .rateLimited (by decide) 1 (by decide +kernel)) (by decide +kernel)

end Loop

end CurlLoop
