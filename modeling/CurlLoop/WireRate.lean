import CurlLoop.LifePasses
import CurlLoop.RateSlots
import CurlLoop.Refresh
import CurlLoop.Stranded
import CurlLoop.TurnTaking

/-!
# The rate of a key on the wire

The token bucket of a key bounds how many calls of `rate_manager_start_request` take a token. What a
server sees is not these calls but the requests that are started. Between the two are the passes of
the loop: a request is started when it is pending, when it is due in one of the maps, or when the
scan of the parked requests lets it go, and each of these ways goes through
`curl_event_loop_request_start`, which asks for a token first. A token may be taken for a request that
cannot be set up, and a request may go ahead without a token if the time it is told to wait is
rounded to nothing, as in `CurlLoop.RateSlots`.

So in any part of a run in which the limit of a key is left alone, the requests started under the key
are no more than the bucket holds and gains, and those that went ahead without a token. The bucket
gains by the clock of the loop, from the first state to the last. Its tokens are exact rationals, as
everywhere in the rate manager, while the code keeps them in a `double`.

The relation `Yields` says this of two states. It is proved for the steps of a path and composed.

## Main definitions

* `Env.ClockGoesOn` — time does not run backwards
* `RatedWorld.Draws` — tokens are taken from the bucket of a key
* `Loop.startsUnder` — how often requests under a key were started
* `Loop.Ruled` — the guard of a run

## Main results

* `Path.yields` — along a path, starts are paid for
* `startsUnder_le` — the rate of a key on the wire
-/

namespace CurlLoop

variable {ω : Type}

/-- Time does not run backwards, whatever is asked. -/
structure Env.ClockGoesOn (env : Env ω) (clock : ω → ℕ) : Prop where
  clock_le_now : ∀ w, clock w ≤ (env.macroNow w).1
  now_le_clock : ∀ w, (env.macroNow w).1 ≤ clock (env.macroNow w).2
  curlEasyInit : ∀ w, clock w ≤ clock (env.curlEasyInit w).2
  onPrepare : ∀ r w, clock w ≤ clock (env.onPrepare r w).2
  onRetry : ∀ r q w, clock w ≤ clock (env.onRetry r q w).2
  computeBackoffMs : ∀ q w, clock w ≤ clock (env.computeBackoffMs q w).2
  onComplete : ∀ r w, clock w ≤ clock (env.onComplete r w).2
  onFailure : ∀ r easy code httpCode w, clock w ≤ clock (env.onFailure r easy code httpCode w).2
  onAborted : ∀ r w, clock w ≤ clock (env.onAborted r w).2

theorem Env.clockGoesOn_ticking : Env.ticking.ClockGoesOn id where
  clock_le_now _ := le_rfl
  now_le_clock w := Nat.le_add_right w 1000000
  curlEasyInit _ := le_rfl
  onPrepare _ _ := le_rfl
  onRetry _ _ _ := le_rfl
  computeBackoffMs _ _ := le_rfl
  onComplete _ _ := le_rfl
  onFailure _ _ _ _ _ := le_rfl
  onAborted _ _ := le_rfl

/-! ### The bucket of a key -/

namespace RatedWorld

variable {w w' w'' : RatedWorld ω} {key key' : Key} {env : Env ω} {p : Platform} {clock : ω → ℕ}
  {n n' u u' : ℕ}

/-- How often a request under the key went ahead without a token. -/
def unearned (w : RatedWorld ω) (key : Key) : ℕ := w.strays.count (.unearned key)

/-- From one world to a later one, `n` tokens of a key were taken, and `u` requests under it went
ahead without one. -/
structure Draws (clock : ω → ℕ) (key : Key) (n u : ℕ) (w w' : RatedWorld ω) : Prop where
  later : clock w.outside ≤ clock w'.outside
  unearned : w'.unearned key = w.unearned key + u
  absent : w.manager.find key = none → w'.manager.find key = none
  present : ∀ l, w.manager.find key = some l → ∃ l', w'.manager.find key = some l' ∧
    ∀ rate t k, t ≤ clock w.outside → l.Meters rate t k (clock w.outside) →
      l'.Meters rate t (k + n) (clock w'.outside)

theorem Draws.trans (h : Draws clock key n u w w') (h' : Draws clock key n' u' w' w'') :
    Draws clock key (n + n') (u + u') w w'' where
  later := h.later.trans h'.later
  unearned := by rw [h'.unearned, h.unearned, Nat.add_assoc]
  absent hnone := h'.absent (h.absent hnone)
  present l hl := by
    obtain ⟨l', hl', hmeters⟩ := h.present l hl
    obtain ⟨l'', hl'', hmeters'⟩ := h'.present l' hl'
    refine ⟨l'', hl'', fun rate t k ht hk => ?_⟩
    rw [← Nat.add_assoc]
    exact hmeters' rate t _ (ht.trans h.later) (hmeters rate t k ht hk)

/-- The limits are left alone. -/
theorem draws_of_manager (hmanager : w'.manager = w.manager)
    (hunearned : w'.unearned key = w.unearned key)
    (hlater : clock w.outside ≤ clock w'.outside) : Draws clock key 0 0 w w' where
  later := hlater
  unearned := hunearned
  absent hnone := by
    rw [hmanager]
    exact hnone
  present l hl := by
    rw [hmanager]
    exact ⟨l, hl, fun _ _ _ _ hk => hk.later hlater⟩

theorem Draws.refl (clock : ω → ℕ) (key : Key) (w : RatedWorld ω) : Draws clock key 0 0 w w :=
  draws_of_manager rfl rfl le_rfl

/-- What is outside is asked. -/
theorem draws_within {β : Type} {f : ω → β × ω} (hf : ∀ o, clock o ≤ clock (f o).2)
    (w : RatedWorld ω) : Draws clock key 0 0 w (w.within f).2 :=
  draws_of_manager rfl rfl (hf w.outside)

/-- A call about a key that takes no token keeps every bucket. -/
theorem draws_consult {β : Type} {f : ℕ → RateManager → β × RateManager}
    {c : ℕ → RateLimit → RateLimit} (hclock : env.ClockGoesOn clock)
    (hf : ∀ now g, (f now g).2.find key =
      if key = key' then (g.find key).map (c now) else g.find key)
    (hc : ∀ {l : RateLimit} {rate : ℚ} {t k time now : ℕ}, time ≤ now → t ≤ now →
      l.Meters rate t k time → (c now l).Meters rate t k now) (w : RatedWorld ω) :
    Draws clock key 0 0 w (w.consult env key' f).2 := by
  rw [consult]
  split
  · exact .refl clock key w
  · have hnow := hclock.clock_le_now w.outside
    have hend := hclock.now_le_clock w.outside
    have hfind := hf (env.macroNow w.outside).1 w.manager
    refine ⟨hnow.trans hend, rfl, fun hnone => ?_, fun l hl => ?_⟩
    · rw [hnone] at hfind
      exact hfind.trans (ite_self none)
    · rw [hl] at hfind
      by_cases heq : key = key'
      · rw [if_pos heq] at hfind
        exact ⟨_, hfind, fun rate t k ht hk => (hc hnow (ht.trans hnow) hk).later hend⟩
      · rw [if_neg heq] at hfind
        exact ⟨l, hfind, fun rate t k _ hk => hk.later (hnow.trans hend)⟩

theorem draws_canProceed (hclock : env.ClockGoesOn clock) (high : Bool) (w : RatedWorld ω) :
    Draws clock key 0 0 w ((env.rated p).rateManagerCanProceed key' high w).2 :=
  draws_consult (f := fun now g => g.canProceed p key' high now)
    (c := fun now l => (l.canProceed p high now).2) hclock
    (fun _ _ => RateManager.find_onLimit ..) (fun htime ht hk => hk.canProceed htime ht) w

theorem draws_requestDone (hclock : env.ClockGoesOn clock) (w : RatedWorld ω) :
    Draws clock key 0 0 w ((env.rated p).rateManagerRequestDone key' w) :=
  draws_consult (f := fun now g => ((), g.requestDone key' now))
    (c := fun now l => l.requestDone now) hclock (fun _ _ => RateManager.find_onLimit ..)
    (fun htime _ hk => (hk.later htime).congr rfl rfl rfl) w

theorem draws_handle429 (hclock : env.ClockGoesOn clock) (w : RatedWorld ω) :
    Draws clock key 0 0 w ((env.rated p).rateManagerHandle429 key' w).2 :=
  draws_consult (f := fun now g => g.handle429 p key' now)
    (c := fun now l => (l.handle429 p now).2) hclock (fun _ _ => RateManager.find_onLimit ..)
    (fun htime _ hk => (hk.later htime).congr rfl rfl rfl) w

theorem Draws.of_asked (hclock : env.ClockGoesOn clock) (h : Asked (env.rated p) w w') :
    Draws clock key 0 0 w w' := by
  induction h with
  | refl => exact .refl clock key w
  | macroNow _ ih =>
    exact ih.trans (draws_within (fun o => (hclock.clock_le_now o).trans (hclock.now_le_clock o)) _)
  | canProceed key' high _ ih => exact ih.trans (draws_canProceed hclock high _)
  | onRetry r q _ ih => exact ih.trans (draws_within (hclock.onRetry r q) _)
  | backoff q _ ih => exact ih.trans (draws_within (hclock.computeBackoffMs q) _)
  | onComplete r _ ih => exact ih.trans (draws_within (hclock.onComplete r) _)
  | onFailure r easy code httpCode _ ih =>
    exact ih.trans (draws_within (hclock.onFailure r easy code httpCode) _)
  | onAborted r _ ih => exact ih.trans (draws_within (hclock.onAborted r) _)

/-- **What is paid for a start.** A request whose key has a limit goes ahead with a token, or is
recorded to have none. -/
theorem draws_startRequest (hclock : env.ClockGoesOn clock) (key key' : Key) (high : Bool)
    (w : RatedWorld ω) : ∃ n u, Draws clock key n u w (w.startRequest p env key' high).2 ∧
      (key' = key → (w.manager.find key).isSome → (w.startRequest p env key' high).1 = 0 →
        n + u = 1) := by
  rw [startRequest]
  cases hl : w.manager.find key' with
  | none =>
    refine ⟨0, 0, .refl clock key w, fun heq hsome => ?_⟩
    rw [← heq, hl] at hsome
    cases hsome
  | some l =>
    dsimp only
    have hnow := hclock.clock_le_now w.outside
    have hend := hclock.now_le_clock w.outside
    have hfind : (w.manager.startRequest p key' high (env.macroNow w.outside).1).2.find key =
        if key = key' then (w.manager.find key).map fun l =>
          (l.startRequest p high (env.macroNow w.outside).1).2 else w.manager.find key :=
      RateManager.find_onLimit ..
    -- The buckets do not depend on what is recorded.
    have hdraws : ∀ (v : RatedWorld ω) (u : ℕ),
        v.manager = (w.manager.startRequest p key' high (env.macroNow w.outside).1).2 →
        v.outside = (env.macroNow w.outside).2 → v.unearned key = w.unearned key + u →
        Draws clock key (if key = key' ∧ l.TakesToken p high (env.macroNow w.outside).1 then 1
          else 0) u w v := by
      intro v u hmanager houtside hu
      rw [← hmanager] at hfind
      refine ⟨houtside ▸ hnow.trans hend, hu, fun hnone => ?_, fun k hk => ?_⟩
      · rw [hfind, hnone]
        exact ite_self none
      · rw [houtside, hfind, hk]
        by_cases heq : key = key'
        · obtain rfl : l = k := Option.some.inj (hl.symm.trans (heq ▸ hk))
          rw [if_pos heq]
          refine ⟨_, rfl, fun rate t m ht hm => ?_⟩
          have hpaid : (l.startRequest p high (env.macroNow w.outside).1).2.Meters rate t
              (m + if l.TakesToken p high (env.macroNow w.outside).1 then 1 else 0)
              (clock (env.macroNow w.outside).2) := (hm.startRequest hnow (ht.trans hnow)).later hend
          simpa only [heq, true_and] using hpaid
        · rw [if_neg heq, if_neg fun hand => heq hand.1]
          exact ⟨k, rfl, fun rate t m _ hm => hm.later (hnow.trans hend)⟩
    by_cases htakes : l.TakesToken p high (env.macroNow w.outside).1
    · rw [if_pos htakes]
      refine ⟨_, 0, hdraws _ 0 rfl rfl rfl, fun heq _ _ => ?_⟩
      rw [if_pos ⟨heq.symm, htakes⟩]
    · rw [if_neg htakes]
      split
      · refine ⟨_, if key' = key then 1 else 0, hdraws _ _ rfl rfl ?_, fun heq _ _ => ?_⟩
        · simp only [unearned, List.count_cons]
          by_cases heq : key' = key
          · simp [heq]
          · simp [heq]
        · rw [if_neg fun hand => htakes hand.2, if_pos heq]
      · rename_i hwait
        exact ⟨_, 0, hdraws _ 0 rfl rfl rfl, fun _ _ hzero => absurd hzero hwait⟩

/-- Setting a request up takes no token. -/
theorem draws_setUp (ok : Bool) {outside : ω} (hlater : clock w.outside ≤ clock outside) :
    Draws clock key 0 0 w (setUp ok { w with outside := outside }) := by
  refine draws_of_manager rfl ?_ hlater
  cases ok with
  | true => rfl
  | false =>
    have hnot : (w.granted.toList.map Stray.unused).count (.unearned key) = 0 :=
      List.count_eq_zero_of_not_mem (by simp)
    exact (List.count_append ..).trans (by rw [hnot, Nat.zero_add]; rfl)

end RatedWorld

/-- So the clock of a loop with a rate manager goes on. -/
theorem Env.ClockGoesOn.rated {env : Env ω} {clock : ω → ℕ} (h : env.ClockGoesOn clock)
    (p : Platform) : (env.rated p).ClockRuns fun w => clock w.outside where
  clock_le_now w := h.clock_le_now w.outside
  now_le_clock w := h.now_le_clock w.outside
  startRequest key high w := by
    obtain ⟨n, u, hdraws, -⟩ := RatedWorld.draws_startRequest (p := p) h key key high w
    exact hdraws.later
  onPrepare r w := by
    refine (h.onPrepare r w.outside).trans (le_of_eq ?_)
    show _ = clock (if (env.onPrepare r w.outside).1 then _ else _ : RatedWorld ω).outside
    split <;> rfl
  curlEasyInit w := h.curlEasyInit w.outside

/-! ### Starts under a key -/

/-- The event is the start of a request under the key. -/
def Event.startsUnder (keyOf : ReqId → Option Key) (key : Key) : Event → Bool
  | .started r => keyOf r = some key
  | _ => false

namespace Loop

section

variable {s t u : Loop ω} {r : ReqId} {env : Env ω} {key : Key}

/-- How often a request under the key was started. -/
def startsUnder (s : Loop ω) (key : Key) : ℕ :=
  s.trace.countP (Event.startsUnder (fun r => (s.req r).rateLimit) key)

/-- Whoever was started was accepted. -/
def Issued (s : Loop ω) : Prop := ∀ r, .started r ∈ s.trace → r ∈ s.accepted

/-- The starts that were made are counted under the same keys. -/
theorem startsUnder_of_keys {l : List Event} (hs : s.Issued) (htrace : t.trace = l ++ s.trace)
    (hkey : ∀ b ∈ s.accepted, (t.req b).rateLimit = (s.req b).rateLimit) (key : Key) :
    t.startsUnder key =
      l.countP (Event.startsUnder (fun r => (t.req r).rateLimit) key) + s.startsUnder key := by
  rw [startsUnder, startsUnder, htrace, List.countP_append]
  congr 1
  refine List.countP_congr fun e he => ?_
  cases e with
  | started r => simp only [Event.startsUnder, hkey r (hs r he)]
  | onComplete | onFailure | nullCall => exact Iff.rfl

/-- Nobody is started, the requests there are keep their keys, and the outside world is asked. -/
structure Idles (env : Env ω) (s t : Loop ω) : Prop where
  startless : Startless s t
  accepted : s.accepted ⊆ t.accepted
  keys : ∀ b ∈ s.accepted, (t.req b).rateLimit = (s.req b).rateLimit
  world : Asked env s.world t.world

theorem Idles.refl (env : Env ω) (s : Loop ω) : Idles env s s :=
  ⟨.refl s, List.Subset.refl _, fun _ _ => rfl, .refl _⟩

theorem Idles.trans (h : Idles env s t) (h' : Idles env t u) : Idles env s u where
  startless := h.startless.trans h'.startless
  accepted := List.Subset.trans h.accepted h'.accepted
  keys b hb := (h'.keys b (h.accepted hb)).trans (h.keys b hb)
  world := h.world.trans h'.world

theorem Aside.idles (h : Aside env s t) (hs : Startless s t) : Idles env s t where
  startless := hs
  accepted := by
    rw [show t.accepted = s.accepted from congrArg Traffic.accepted h.traffic]
    exact List.Subset.refl _
  keys b _ := congrArg AttemptState.rateLimit (h.attempt b)
  world := h.world

theorem Winds.idles (h : Winds env r s t) (hs : Startless s t) (haccepted : s.accepted ⊆ t.accepted) :
    Idles env s t :=
  ⟨hs, haccepted, fun b _ => h.rateLimit b, h.world⟩

theorem idles_destroy (env : Env ω) (s : Loop ω) (r : ReqId) :
    Idles env s (s.curlEventRequestDestroy r) := by
  refine (winds_destroy env s r).idles (.of_trace (trace_destroy s r)) ?_
  rw [accepted_destroy]
  exact List.Subset.refl _

theorem idles_cancelledRound (env : Env ω) (s : Loop ω) (r : ReqId) :
    Idles env s (s.cancelledRound r) where
  startless := .of_trace (trace_cancelledRound s r)
  accepted := by
    rw [accepted_cancelledRound]
    exact List.Subset.refl _
  keys b _ := (winds_destroy env (s.dropFromMap (cancelledMap (s.req r)) r) r).rateLimit b
  world := by
    rw [world_cancelledRound]
    exact .refl _

theorem startless_tellComplete (env : Env ω) (s : Loop ω) (r : ReqId) :
    Startless s (s.tellComplete env r).2.2 := by
  rw [tellComplete]
  split
  · exact adds_emit s (e := .onComplete r) trivial
  · exact adds_emit s (e := .nullCall r) trivial

theorem startless_hear (env : Env ω) (s : Loop ω) (m : Message) (r : ReqId) :
    Startless s (s.hear env m r).2.2 := by
  rw [hear]
  split
  · exact startless_tellComplete env (s.pickUp m.easy r) r
  · rw [tellFailure]
    split
    · exact adds_emit (s.pickUp m.easy r) (e := .onFailure r m.result m.httpCode) trivial
    · exact .of_trace rfl

theorem idles_hear (env : Env ω) (s : Loop ω) (m : Message) (r : ReqId) :
    Idles env s (s.hear env m r).2.2 := by
  have haside : Idles env (s.pickUp m.easy r) (s.hear env m r).2.2 :=
    (aside_hear env s m r).idles (startless_hear env s m r)
  exact ⟨haside.startless, haside.accepted, haside.keys, haside.world⟩

theorem Errands.idles {calls : ApiCall → Prop} {busy : ReqId → Prop}
    (h : Errands env calls busy s t) : Idles env s t := by
  induction h with
  | refl => exact .refl env s
  | calm _ ha ih =>
    exact ih.trans (ha.toAside.idles (.of_trace (congrArg Chronicle.trace ha.chronicle)))
  | @cancel t r _ _ _ ih =>
    have haside : Aside env t (t.curlEventLoopCancel r).2 := aside_cancel t r
    exact ih.trans (haside.idles (.of_trace (trace_apiCall env t (.cancel r))))
  | @arrives t u r c _ ha _ _ _ _ ih =>
    have haccepted : u.accepted = r :: t.accepted := congrArg Traffic.accepted ha.traffic
    refine ih.trans ⟨.of_trace ha.trace, ?_, fun b hb => ?_, ha.world⟩
    · rw [haccepted]
      exact List.subset_cons_self r _
    · rw [ha.others b (ne_of_mem_of_not_mem hb ha.fresh)]

theorem Interlude.idles {calls : ApiCall → Prop} {held : Option ReqId}
    (h : Interlude env calls held s t) : Idles env s t := by
  induction h with
  | refl => exact .refl env s
  | errands _ he ih => exact ih.trans he.idles
  | @abort t u r _ _ _ he _ ih =>
    have htold := (aside_callOnAborted env t r).idles (startless_callOnAborted env t r)
    exact ((ih.trans htold).trans he.idles).trans (idles_destroy env u r)

/-- What a start tells. -/
theorem trace_start (env : Env ω) (s : Loop ω) (r : ReqId) :
    (s.curlEventLoopRequestStart env r).trace =
      if (s.admission env r).1 = 0 ∧ ((s.admission env r).2.setupCurlHandle env r).1 = true
      then .started r :: s.trace else s.trace := by
  obtain ⟨n, w, hask⟩ := admission_eq env s r
  rw [start_eq, hask]
  split
  · rename_i hwait
    rw [if_neg fun hand => hwait hand.1]
    rfl
  · rename_i hgo
    obtain ⟨w', hfail | hok⟩ := setupCurlHandle_eq env ({ s with world := w } : Loop ω) r
    · rw [hfail, if_neg (by simp), if_neg (by simp), trace_destroy]
      rfl
    · rw [hok, if_pos rfl, if_pos ⟨not_not.mp hgo, rfl⟩]
      rfl

theorem rateLimit_start (env : Env ω) (s : Loop ω) (r b : ReqId) :
    ((s.curlEventLoopRequestStart env r).req b).rateLimit = (s.req b).rateLimit := by
  cases comes_start env s r with
  | parked _ hw => exact hw.rateLimit b
  | failed _ _ hw => exact hw.rateLimit b
  | attached _ _ _ _ hother hself _ =>
    rcases eq_or_ne b r with rfl | hb
    · exact congrArg AttemptState.rateLimit hself
    · exact congrArg AttemptState.rateLimit (hother b hb)

end

/-! ### Starts are paid for -/

section

variable {s t u : Loop (RatedWorld ω)} {r : ReqId} {env : Env ω} {p : Platform} {key : Key}
  {clock : ω → ℕ}

/-- Between two states the requests that were started under a key were paid for with tokens, or
recorded to have none, if the key has a limit. -/
structure Yields (clock : ω → ℕ) (key : Key) (s t : Loop (RatedWorld ω)) : Prop where
  issued : s.Issued → t.Issued
  paid : s.Issued → ∃ n u, s.world.Draws clock key n u t.world ∧
    ((s.world.manager.find key).isSome → t.startsUnder key ≤ s.startsUnder key + (n + u))

theorem Yields.refl (clock : ω → ℕ) (key : Key) (s : Loop (RatedWorld ω)) : Yields clock key s s :=
  ⟨fun h => h, fun _ => ⟨0, 0, .refl clock key s.world, fun _ => le_rfl⟩⟩

theorem Yields.trans (h : Yields clock key s t) (h' : Yields clock key t u) :
    Yields clock key s u := by
  refine ⟨fun hs => h'.issued (h.issued hs), fun hs => ?_⟩
  obtain ⟨n, k, hdraws, hpaid⟩ := h.paid hs
  obtain ⟨n', k', hdraws', hpaid'⟩ := h'.paid (h.issued hs)
  refine ⟨n + n', k + k', hdraws.trans hdraws', fun hsome => ?_⟩
  have hlimit : (t.world.manager.find key).isSome := by
    obtain ⟨l, hl⟩ := Option.isSome_iff_exists.mp hsome
    obtain ⟨l', hl', -⟩ := hdraws.present l hl
    rw [hl']
    rfl
  have hfirst := hpaid hsome
  have hthen := hpaid' hlimit
  omega

theorem Idles.yields (hclock : env.ClockGoesOn clock) (h : Idles (env.rated p) s t) :
    Yields clock key s t := by
  obtain ⟨es, htrace, hnot⟩ := h.startless
  refine ⟨fun hs r hr => ?_, fun hs => ?_⟩
  · rw [htrace] at hr
    rcases List.mem_append.mp hr with hr | hr
    · exact (hnot _ hr).elim
    · exact h.accepted (hs r hr)
  · refine ⟨0, 0, .of_asked hclock h.world, fun _ => le_of_eq ?_⟩
    have hnone : es.countP (Event.startsUnder (fun r => (t.req r).rateLimit) key) = 0 := by
      refine List.countP_eq_zero.mpr fun e he => ?_
      cases e with
      | started r => exact (hnot _ he).elim
      | onComplete | onFailure | nullCall => exact Bool.false_ne_true
    rw [startsUnder_of_keys hs htrace h.keys, hnone, Nat.zero_add]
    rfl

/-- The rate manager is told of the end of an attempt. -/
theorem yields_told (hclock : env.ClockGoesOn clock) (s : Loop (RatedWorld ω)) (r : ReqId)
    (httpCode : ℤ) : Yields clock key s { s with world := s.told (env.rated p) r httpCode } := by
  refine ⟨fun hs => hs, fun hs => ⟨0, 0, ?_, fun _ => le_rfl⟩⟩
  show s.world.Draws clock key 0 0 (s.told (env.rated p) r httpCode)
  rw [told]
  cases (s.req r).rateLimit with
  | none => exact .refl clock key s.world
  | some key' =>
    dsimp only
    split
    · exact RatedWorld.draws_handle429 hclock s.world
    · exact RatedWorld.draws_requestDone hclock s.world

theorem yields_settle (hclock : env.ClockGoesOn clock) (s : Loop (RatedWorld ω)) (r : ReqId)
    (httpCode : ℤ) (success : Bool) (retryIn : ℤ) :
    Yields clock key s (s.settle (env.rated p) r httpCode success retryIn) := by
  have hrest : Idles (env.rated p) { s with world := s.told (env.rated p) r httpCode }
      (s.settle (env.rated p) r httpCode success retryIn) :=
    (winds_settle (env.rated p) s r httpCode success retryIn).idles
      (startless_settle (env.rated p) s r httpCode success retryIn)
      (evolves_settle (q := False) (env.rated p) s r httpCode success retryIn).accepted.subset
  exact (yields_told hclock s r httpCode).trans (hrest.yields hclock)

/-- The admission of a request: what the rate manager answers, and what is paid. -/
theorem draws_admission (hclock : env.ClockGoesOn clock) (key : Key) (s : Loop (RatedWorld ω))
    (r : ReqId) : ∃ n u, s.world.Draws clock key n u (s.admission (env.rated p) r).2.world ∧
      ((s.req r).rateLimit = some key → (s.world.manager.find key).isSome →
        (s.admission (env.rated p) r).1 = 0 → n + u = 1) := by
  rw [admission]
  cases (s.req r).rateLimit with
  | none => exact ⟨0, 0, .refl clock key s.world, fun hkey => absurd hkey (Option.some_ne_none key).symm⟩
  | some key' =>
    obtain ⟨n, u, hdraws, hpaid⟩ := RatedWorld.draws_startRequest (p := p) hclock key key'
      (s.req r).rateLimitHighPriority s.world
    exact ⟨n, u, hdraws, fun hkey => hpaid (Option.some.inj hkey)⟩

/-- **A start is paid for.** -/
theorem yields_start (hclock : env.ClockGoesOn clock) (hr : r ∈ s.accepted) :
    Yields clock key s (s.curlEventLoopRequestStart (env.rated p) r) := by
  have hkeys := rateLimit_start (env.rated p) s r
  have htrace := trace_start (env.rated p) s r
  obtain ⟨n, u, hdraws, hpaid⟩ := draws_admission (p := p) hclock key s r
  -- What the rest of the start does to the bucket.
  have hworld : s.world.Draws clock key n u (s.curlEventLoopRequestStart (env.rated p) r).world := by
    have hsetup : RatedWorld.Draws clock key 0 0 (s.admission (env.rated p) r).2.world
        ((s.admission (env.rated p) r).2.setupCurlHandle (env.rated p) r).2.world := by
      have hlater := clock_setupCurlHandle (hclock.rated p) (s.admission (env.rated p) r).2 r
      obtain ⟨outside, heq⟩ := world_setupCurlHandle (p := p) env (s.admission (env.rated p) r).2 r
      rw [heq] at hlater ⊢
      exact RatedWorld.draws_setUp _ hlater
    cases comes_start (env.rated p) s r with
    | parked _ hw => exact hdraws.trans (.of_asked hclock hw.world)
    | failed _ _ hw => exact (hdraws.trans hsetup).trans (.of_asked hclock hw.world)
    | attached _ _ _ _ _ _ hw => exact (hdraws.trans hsetup).trans (.of_asked hclock hw)
  have haccepted := accepted_start (env.rated p) s r
  generalize s.curlEventLoopRequestStart (env.rated p) r = t at *
  by_cases hgo : (s.admission (env.rated p) r).1 = 0 ∧
      ((s.admission (env.rated p) r).2.setupCurlHandle (env.rated p) r).1 = true
  · rw [if_pos hgo] at htrace
    refine ⟨fun hs b hb => ?_, fun hs => ⟨n, u, hworld, fun hsome => ?_⟩⟩
    · rw [haccepted]
      rw [htrace] at hb
      rcases List.mem_cons.mp hb with heq | hb
      · rw [Event.started.inj heq]
        exact hr
      · exact hs b hb
    · rw [startsUnder_of_keys (l := [.started r]) hs htrace fun b _ => hkeys b,
        List.countP_singleton]
      by_cases hkey : (s.req r).rateLimit = some key
      · have hone := hpaid hkey hsome hgo.1
        split <;> omega
      · rw [if_neg (by simpa [Event.startsUnder, hkeys r] using hkey)]
        omega
  · rw [if_neg hgo] at htrace
    refine ⟨fun hs b hb => ?_, fun hs => ⟨n, u, hworld, fun _ => ?_⟩⟩
    · rw [haccepted]
      rw [htrace] at hb
      exact hs b hb
    · rw [startsUnder_of_keys (l := []) hs htrace fun b _ => hkeys b, List.countP_nil]
      omega

/-- **Along a path, starts are paid for.** -/
theorem Path.yields {W : Regime (RatedWorld ω)} (hclock : env.ClockGoesOn clock)
    (hp : Path (env.rated p) W s t) : Yields clock key s t := by
  induction hp with
  | refl => exact .refl clock key s
  | interlude _ hi ih => exact ih.trans (hi.idles.yields hclock)
  | drop r _ _ _ _ _ _ ih => exact ih.trans ((idles_cancelledRound (env.rated p) _ r).yields hclock)
  | discard r _ _ _ ih => exact ih.trans ((idles_destroy (env.rated p) _ r).yields hclock)
  | start r _ hr _ _ ih => exact ih.trans (yields_start hclock hr.live.1)
  | @complete t u m a _ _ _ _ _ hi _ ih =>
    exact ((ih.trans ((idles_hear (env.rated p) t m a.priv).yields hclock)).trans
      (hi.idles.yields hclock)).trans
      (yields_settle hclock u a.priv m.httpCode (Message.success m) _)
  | @injected t u r _ _ hi _ ih =>
    refine (ih.trans ?_).trans ((idles_destroy (env.rated p) u r).yields hclock)
    refine Yields.trans ?_ (hi.idles.yields hclock)
    split
    · exact ((aside_tellComplete (env.rated p) t r).idles
        (startless_tellComplete (env.rated p) t r)).yields hclock
    · exact .refl clock key t

/-! ### Runs -/

/-- The guard of a run: the loop is not destroyed, at most resources are freed while requests wait
for them, and a limit is set at a time that has come, with a rate that is not negative. -/
def Ruled (p : Platform) (env : Env ω) (clock : ω → ℕ) : RatedAction → Loop (RatedWorld ω) → Prop
  | .act a, s => a ≠ .destroy ∧ ∀ x ∈ (act (env.rated p) a s).hazards, x.IsAbandoned
  | .limits c, s => c.Administers ∧ c.now ≤ clock s.world.outside ∧ 0 ≤ c.rate

instance (p : Platform) (env : Env ω) (clock : ω → ℕ) (a : RatedAction)
    (s : Loop (RatedWorld ω)) : Decidable (Ruled p env clock a s) :=
  match a with
  | .act _ => inferInstanceAs (Decidable (_ ∧ _))
  | .limits _ => inferInstanceAs (Decidable (_ ∧ _))

/-- The limit of the key is neither set nor taken away. -/
def LeavesLimit (key : Key) : RatedAction → Prop
  | .act _ => True
  | .limits c => ¬ c.Sets key ∧ c.call ≠ .destroy

instance (key : Key) (a : RatedAction) : Decidable (LeavesLimit key a) :=
  match a with
  | .act _ => inferInstanceAs (Decidable True)
  | .limits _ => inferInstanceAs (Decidable (_ ∧ _))

/-- What a run keeps: the limit of the key, if there is one, is a bucket. -/
structure Policed (clock : ω → ℕ) (key : Key) (s : Loop (RatedWorld ω)) : Prop where
  atRest : s.AtRest False
  issued : s.Issued
  metered : ∀ l, s.world.manager.find key = some l →
    l.Meters l.maxRps 0 0 (clock s.world.outside)

theorem Yields.policed (h : Yields clock key s t) (hs : s.Policed clock key)
    (ht : t.AtRest False) : t.Policed clock key := by
  refine ⟨ht, h.issued hs.issued, fun l' hl' => ?_⟩
  obtain ⟨n, u, hdraws, -⟩ := h.paid hs.issued
  cases hl : s.world.manager.find key with
  | none =>
    rw [hdraws.absent hl] at hl'
    cases hl'
  | some l =>
    obtain ⟨k, hk, hmeters⟩ := hdraws.present l hl
    obtain rfl := Option.some.inj (hk.symm.trans hl')
    have hbucket := (hmeters l.maxRps 0 0 (Nat.zero_le _) (hs.metered l hl)).reset 0
    rw [hbucket.maxRps_eq]
    exact hbucket

/-- Nothing but the limits was changed. -/
theorem yields_limits {g : RateManager} (hfind : g.find key = s.world.manager.find key) :
    Yields clock key s { s with world := { s.world with manager := g } } := by
  refine ⟨fun hs => hs, fun _ => ⟨0, 0, ⟨le_rfl, rfl, ?_, fun l hl => ?_⟩, fun _ => le_rfl⟩⟩
  · exact hfind.trans
  · exact ⟨l, hfind.trans hl, fun _ _ _ _ hk => hk⟩

/-- A call about the limits that leaves the key alone. -/
theorem find_limits {c : TimedCall} (hc : c.Administers) (hleaves : LeavesLimit key (.limits c))
    (g : RateManager) : (g.perform p c).find key = g.find key := by
  obtain ⟨hset, hdestroy⟩ := hleaves
  rw [RateManager.find_perform]
  obtain ⟨now, call⟩ := c
  cases call with
  | init => rfl
  | setLimit key' maxConcurrent maxRps successAt =>
    have hne : key ≠ key' := fun heq => hset ⟨maxConcurrent, maxRps, successAt, heq ▸ rfl⟩
    exact if_neg hne
  | destroy => exact absurd rfl hdestroy
  | canProceed | startRequest | requestDone | handle429 => exact hc.elim

/-- **One action.** -/
theorem Policed.ratedAct (hclock : env.ClockGoesOn clock) (h : s.Policed clock key)
    {a : RatedAction} (ha : Ruled p env clock a s) :
    (Loop.ratedAct p env a s).Policed clock key ∧
      (LeavesLimit key a → Yields clock key s (Loop.ratedAct p env a s)) := by
  cases a with
  | act a =>
    have hspared : (Loop.act (env.rated p) a s).Spared False := .of_abandoned ha.2
    have hyields : Yields clock key s (Loop.act (env.rated p) a s) :=
      (h.atRest.path_act (watched_anything ha.1) hspared).yields hclock
    exact ⟨hyields.policed h (h.atRest.act ha.1 hspared), fun _ => hyields⟩
  | limits c =>
    obtain ⟨hadministers, hnow, hrate⟩ := ha
    have hatRest : (Loop.ratedAct p env (.limits c) s).AtRest False := by
      obtain ⟨v, C, hwf, hv⟩ := h.atRest
      exact ⟨v, C, ⟨hwf.located, hwf.marked⟩, hv⟩
    have hleft : LeavesLimit key (.limits c) →
        Yields clock key s (Loop.ratedAct p env (.limits c) s) := fun hleaves =>
      yields_limits (find_limits hadministers hleaves _)
    refine ⟨?_, hleft⟩
    by_cases hleaves : LeavesLimit key (.limits c)
    · exact (hleft hleaves).policed h hatRest
    refine ⟨hatRest, h.issued, fun l hl => ?_⟩
    have hfind := s.world.manager.find_perform p c key
    rw [show (s.world.manager.perform p c).find key = some l from hl] at hfind
    by_cases hset : c.Sets key
    · obtain ⟨maxConcurrent, maxRps, successAt, hcall⟩ := hset
      rw [TimedCall.act, hcall] at hfind
      obtain rfl := Option.some.inj (hfind.trans (if_pos rfl))
      have hpos : 0 ≤ maxRps := by
        rwa [TimedCall.rate, hcall] at hrate
      exact (RateLimit.Meters.set _ maxConcurrent hpos c.now successAt 0).later hnow
    · have hdestroy : c.call = .destroy := by
        by_contra hno
        exact hleaves ⟨hset, hno⟩
      rw [TimedCall.act, hdestroy] at hfind
      cases hfind

theorem policed_init (mem : Memory) (world : ω) (clock : ω → ℕ) (key : Key) :
    Policed clock key (curlEventLoopInit mem (⟨none, world, none, []⟩ : RatedWorld ω)) :=
  ⟨(evened_init mem world key).atRest, fun _ hr => absurd hr List.not_mem_nil,
    fun l hl => absurd hl (Option.some_ne_none l).symm⟩

/-- A run in which the limit is left alone. -/
theorem Policed.run (hclock : env.ClockGoesOn clock) (h : s.Policed clock key)
    {as : List RatedAction} (has : Guarded.Allowed (Loop.ratedAct p env) (Ruled p env clock) s as)
    (hleaves : ∀ a ∈ as, LeavesLimit key a) :
    Yields clock key s (Guarded.run (Loop.ratedAct p env) s as) := by
  induction as generalizing s with
  | nil => exact .refl clock key s
  | cons a as ih =>
    obtain ⟨ha, has⟩ := has
    obtain ⟨hpoliced, hyields⟩ := h.ratedAct hclock ha
    exact (hyields (hleaves a List.mem_cons_self)).trans
      (ih hpoliced has fun b hb => hleaves b (List.mem_cons_of_mem a hb))

/-- **The rate of a key on the wire.** In any part of a run in which the limit of a key is left alone,
no more requests under the key are started than the bucket can hold and gain by the clock of the
loop, and those that went ahead without a token. The tokens and the rate, `double` in C, are exact
rationals here: what rounding adds to a bucket is not counted. -/
theorem startsUnder_le (p : Platform) (env : Env ω) (clock : ω → ℕ)
    (hclock : env.ClockGoesOn clock) (mem : Memory) (world : ω) (key : Key)
    (pre as : List RatedAction) (has : Guarded.Allowed (ratedAct p env) (Ruled p env clock)
      (curlEventLoopInit mem ⟨none, world, none, []⟩) (pre ++ as))
    (hleaves : ∀ a ∈ as, LeavesLimit key a) :
    let s := Guarded.run (ratedAct p env) (curlEventLoopInit mem ⟨none, world, none, []⟩) pre
    let t := Guarded.run (ratedAct p env) (curlEventLoopInit mem ⟨none, world, none, []⟩)
      (pre ++ as)
    ∀ l, s.world.manager.find key = some l →
      (t.startsUnder key : ℚ) ≤ s.startsUnder key +
        (l.maxRps + l.maxRps *
          (((clock t.world.outside : ℚ) - clock s.world.outside) / 10 ^ 9)) +
        ((t.world.unearned key : ℚ) - s.world.unearned key) := by
  intro s t l hl
  obtain ⟨hpre, hpost⟩ := Guarded.allowed_append.mp has
  have hs : s.Policed clock key :=
    hpre.invariant (fun _ _ hs ha => (hs.ratedAct hclock ha).1) (policed_init mem world clock key)
  have hyields : Yields clock key s t := by
    have hrun := hs.run hclock hpost hleaves
    rwa [← Guarded.run_append] at hrun
  obtain ⟨n, u, hdraws, hpaid⟩ := hyields.paid hs.issued
  obtain ⟨l', -, hmeters⟩ := hdraws.present l hl
  have hbucket := hmeters l.maxRps (clock s.world.outside) 0 le_rfl ((hs.metered l hl).reset _)
  have hrate := hbucket.count_le le_rfl hdraws.later
  rw [Nat.zero_add, seconds, seconds, ← sub_div] at hrate
  have hstarts : (t.startsUnder key : ℚ) ≤ s.startsUnder key + (n + u) := by
    exact_mod_cast hpaid (by rw [hl]; rfl)
  have hunearned : (t.world.unearned key : ℚ) = s.world.unearned key + u := by
    exact_mod_cast hdraws.unearned
  linarith

/-- Two tokens a second: of three requests two are started at once, and the third waits. -/
theorem startsUnder_le_two :
    let pre : List RatedAction := [.limits ⟨0, .setLimit "k" 1 2 0⟩]
    let as : List RatedAction := [.act (.call (.api (.submit 1 0))),
      .act (.call (.api (.submit 2 0))), .act (.call (.api (.submit 3 0))),
      .act .processCancelledAndPendingRequests]
    let s := Guarded.run (ratedAct .saturating Env.ticking) (curlEventLoopInit
      (Memory.keyed fun _ => some "k") ⟨none, 0, none, []⟩) pre
    let t := Guarded.run (ratedAct .saturating Env.ticking) (curlEventLoopInit
      (Memory.keyed fun _ => some "k") ⟨none, 0, none, []⟩) (pre ++ as)
    t.startsUnder "k" = 2 ∧ (t.startsUnder "k" : ℚ) ≤ s.startsUnder "k" +
      (2 + 2 * ((((id t.world.outside : ℕ) : ℚ) - (id s.world.outside : ℕ)) / 10 ^ 9)) +
      ((t.world.unearned "k" : ℚ) - s.world.unearned "k") :=
  ⟨by decide +kernel, startsUnder_le .saturating Env.ticking id Env.clockGoesOn_ticking
    (Memory.keyed fun _ => some "k") 0 "k" _ _ (by decide +kernel) (by decide +kernel)
    ⟨1, 2, 0, 0, 2, 0, 0, 1⟩ (by decide +kernel)⟩

end

end Loop

end CurlLoop
