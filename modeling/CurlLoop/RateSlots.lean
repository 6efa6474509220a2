import CurlLoop.RateCapacity
import CurlLoop.Scheduler
import CurlLoop.Paths

/-!
# The running requests of a key

`rate_manager_start_request` counts a request when it takes a token for it. The count is lowered by
`rate_manager_request_done` and `rate_manager_handle_429`, which `process_completed_requests` calls
about every request that finishes. Between the phases of a loop the count of a key should be the
number of its requests that are active.

There are ways out of an attempt that lower nothing: a request that was counted and then cannot be
set up, and an active request that is cancelled. And there is a way in that counts nothing: a request
that finds no token, and is told to wait for a time that is rounded to nothing. Where none of these is
taken, the numbers agree.

The rate manager of this file is that of `CurlLoop.RateManager`, put in the place of the answers of
an environment. Beside the state of `rate_manager.c` the world records the starts that go astray;
nothing reads the record.

## Main definitions

* `RatedWorld`, `Env.rated` — a loop with the rate manager
* `RatedAction`, `Loop.ratedAct` — runs in which limits are set as well
* `Loop.Underway`, `Loop.Tallied` — the invariants, of the transfers and of the count
* `Loop.Fair` — a step that takes none of the ways above

## Main results

* `Tallied.path` — the invariants along a path
* `balanced_of_fair` — every run
-/

namespace CurlLoop

open Function (update)

/-! ### A world with a rate manager -/

/-- A start that went astray. -/
inductive Stray
  /-- A token was taken, and the request could not be set up. -/
  | unused (key : Key)
  /-- The request went ahead without a token. -/
  | unearned (key : Key)
deriving DecidableEq, Repr

/-- The key of the request. -/
def Stray.key : Stray → Key
  | .unused key => key
  | .unearned key => key

/-- `g_rate_manager`, and what is outside of it. -/
structure RatedWorld (ω : Type) where
  manager : RateManager
  outside : ω
  /-- The key of the token that was taken for the request that is being set up. -/
  granted : Option Key
  /-- The starts that went astray, newest first. -/
  strays : List Stray

variable {ω β : Type}

namespace RatedWorld

/-- Ask what is outside. -/
def within (f : ω → β × ω) (w : RatedWorld ω) : β × RatedWorld ω :=
  ((f w.outside).1, { w with outside := (f w.outside).2 })

/-- A call about a key, which reads the clock if the key has a limit. -/
def consult (env : Env ω) (key : Key) (f : ℕ → RateManager → β × RateManager) (w : RatedWorld ω) :
    β × RatedWorld ω :=
  match w.manager.find key with
  | none => ((f 0 w.manager).1, w)
  | some _ =>
    let (now, outside) := env.macroNow w.outside
    ((f now w.manager).1, { w with manager := (f now w.manager).2, outside := outside })

/-- The request a token was taken for is set up, or not. -/
def setUp (ok : Bool) (w : RatedWorld ω) : RatedWorld ω :=
  { w with
    granted := none
    strays := if ok then w.strays else w.granted.toList.map .unused ++ w.strays }

/-- `rate_manager_start_request`, and the record of it. -/
def startRequest (p : Platform) (env : Env ω) (key : Key) (high : Bool) (w : RatedWorld ω) :
    ℕ × RatedWorld ω :=
  match w.manager.find key with
  | none => (0, w)
  | some l =>
    let (now, outside) := env.macroNow w.outside
    let (wait, manager) := w.manager.startRequest p key high now
    let w := { w with manager := manager, outside := outside }
    (wait, if l.TakesToken p high now then { w with granted := some key }
      else if wait = 0 then { w with strays := .unearned key :: w.strays } else w)

/-- `current_requests` of a key, if it has a limit. -/
def current (w : RatedWorld ω) (key : Key) : Option ℕ :=
  (w.manager.find key).map RateLimit.currentRequests

end RatedWorld

/-- An environment in which `rate_manager.c` answers for itself. -/
def Env.rated (p : Platform) (env : Env ω) : Env (RatedWorld ω) where
  macroNow := RatedWorld.within env.macroNow
  rateManagerCanProceed key high := RatedWorld.consult env key fun now g =>
    g.canProceed p key high now
  rateManagerStartRequest := RatedWorld.startRequest p env
  rateManagerRequestDone key w :=
    (w.consult env key fun now g => ((), g.requestDone key now)).2
  rateManagerHandle429 key := RatedWorld.consult env key fun now g => g.handle429 p key now
  curlEasyInit w :=
    let (ok, w) := w.within env.curlEasyInit
    (ok, w.setUp ok)
  onPrepare r w :=
    let (ok, w) := w.within (env.onPrepare r)
    (ok, if ok then w else w.setUp false)
  onRetry r q := RatedWorld.within (env.onRetry r q)
  computeBackoffMs q := RatedWorld.within (env.computeBackoffMs q)
  onComplete r := RatedWorld.within (env.onComplete r)
  onFailure r easy code httpCode := RatedWorld.within (env.onFailure r easy code httpCode)
  onAborted r := RatedWorld.within (env.onAborted r)

/-- What happens to a loop and to the limits. -/
inductive RatedAction
  | act (a : Action)
  /-- A call of `rate_manager_init`, `rate_manager_set_limit` or `rate_manager_destroy`. -/
  | limits (c : TimedCall)
deriving DecidableEq

/-- A limit that is set keeps its count, and a new one begins with none. -/
theorem TimedCall.current_administers {c : TimedCall} (h : c.Administers) {p : Platform} {key : Key}
    {g : RateManager} {n : ℕ}
    (hn : ((g.perform p c).find key).map RateLimit.currentRequests = some n) :
    (g.find key).map RateLimit.currentRequests = some n ∨
      (g.find key).map RateLimit.currentRequests = none ∧ c.Sets key ∧ n = 0 := by
  rw [RateManager.find_perform] at hn
  obtain ⟨now, call⟩ := c
  cases call with
  | init => exact .inl hn
  | setLimit key' maxConcurrent maxRps successAt =>
    rw [act] at hn
    dsimp only at hn
    split at hn
    · rename_i heq
      cases hl : g.find key with
      | none =>
        rw [hl] at hn
        exact .inr ⟨rfl, ⟨maxConcurrent, maxRps, successAt, heq ▸ rfl⟩, (Option.some.inj hn).symm⟩
      | some l =>
        rw [hl] at hn
        exact .inl hn
    · exact .inl hn
  | destroy => exact absurd hn (Option.some_ne_none n).symm
  | canProceed | startRequest | requestDone | handle429 => exact h.elim

/-! ### What the calls do to the counts -/

namespace RateManager

variable {g : RateManager} {key key' : Key} {p : Platform}

/-- `current_requests` of a key after a call about one. -/
theorem current_onLimit (f : RateLimit → β × RateLimit) (absent : β) :
    ((g.onLimit key absent f).2.find key').map RateLimit.currentRequests =
      if key' = key then (g.find key').map fun l => (f l).2.currentRequests
      else (g.find key').map RateLimit.currentRequests := by
  rw [find_onLimit]
  split
  · rw [Option.map_map]
    rfl
  · rfl

end RateManager

namespace RatedWorld

variable {w w' w'' : RatedWorld ω} {key : Key} {env : Env ω} {p : Platform}

/-- The counts and the record are left alone. -/
structure Even (w w' : RatedWorld ω) : Prop where
  current : w'.current = w.current
  granted : w'.granted = w.granted
  strays : w'.strays = w.strays

theorem Even.refl (w : RatedWorld ω) : w.Even w := ⟨rfl, rfl, rfl⟩

theorem Even.trans (h : w.Even w') (h' : w'.Even w'') : w.Even w'' :=
  ⟨h'.current.trans h.current, h'.granted.trans h.granted, h'.strays.trans h.strays⟩

theorem even_within (f : ω → β × ω) (w : RatedWorld ω) : w.Even (w.within f).2 :=
  ⟨rfl, rfl, rfl⟩

/-- A call that counts nothing. -/
theorem even_consult {f : ℕ → RateManager → β × RateManager}
    (hf : ∀ now g key', ((f now g).2.find key').map RateLimit.currentRequests =
      (g.find key').map RateLimit.currentRequests) (w : RatedWorld ω) :
    w.Even (w.consult env key f).2 := by
  rw [consult]
  split
  · exact .refl w
  · exact ⟨funext fun key' => hf _ _ key', rfl, rfl⟩

/-- The rate manager is only asked. -/
theorem even_canProceed (high : Bool) (w : RatedWorld ω) :
    w.Even (w.consult env key fun now g => g.canProceed p key high now).2 := by
  refine even_consult (fun now g key' => ?_) w
  rw [RateManager.canProceed, RateManager.current_onLimit]
  simp only [RateLimit.currentRequests_canProceed]
  exact ite_self _

theorem Even.of_asked (h : Asked (env.rated p) w w') : w.Even w' := by
  induction h with
  | refl => exact .refl w
  | macroNow _ ih => exact ih.trans (even_within _ _)
  | canProceed key high _ ih => exact ih.trans (even_canProceed high _)
  | onRetry r q _ ih => exact ih.trans (even_within _ _)
  | backoff q _ ih => exact ih.trans (even_within _ _)
  | onComplete r _ ih => exact ih.trans (even_within _ _)
  | onFailure r easy code httpCode _ ih => exact ih.trans (even_within _ _)
  | onAborted r _ ih => exact ih.trans (even_within _ _)

/-- A request is reported to have ended. -/
structure Ended (key : Key) (w w' : RatedWorld ω) : Prop where
  current : w'.current = update w.current key ((w.current key).map (· - 1))
  granted : w'.granted = w.granted
  strays : w'.strays = w.strays

theorem ended_consult {f : ℕ → RateManager → β × RateManager}
    (hf : ∀ now g key', ((f now g).2.find key').map RateLimit.currentRequests =
      if key' = key then (g.find key').map (fun l => l.currentRequests - 1)
      else (g.find key').map RateLimit.currentRequests) (w : RatedWorld ω) :
    Ended key w (w.consult env key f).2 := by
  rw [consult]
  split
  · rename_i hnone
    refine ⟨?_, rfl, rfl⟩
    have hcur : w.current key = none := by rw [current, hnone, Option.map_none]
    rw [hcur, Option.map_none, ← hcur, Function.update_eq_self]
  · refine ⟨funext fun key' => (hf _ _ key').trans ?_, rfl, rfl⟩
    rw [Function.update_apply]
    split
    · rename_i heq
      rw [heq, current, Option.map_map]
      rfl
    · rfl

theorem ended_requestDone (env : Env ω) (key : Key) (w : RatedWorld ω) :
    Ended key w ((env.rated p).rateManagerRequestDone key w) :=
  ended_consult (fun _ _ _ => RateManager.current_onLimit _ _) w

theorem ended_handle429 (env : Env ω) (key : Key) (w : RatedWorld ω) :
    Ended key w ((env.rated p).rateManagerHandle429 key w).2 :=
  ended_consult (fun _ _ _ => RateManager.current_onLimit _ _) w

/-- What the rate manager answers to a request that is to start. -/
inductive Admitted (key : Key) (w : RatedWorld ω) : ℕ → RatedWorld ω → Prop
  /-- The key has no limit. -/
  | unlimited : w.current key = none → Admitted key w 0 w
  /-- A token was taken, and the request counted. -/
  | granted {n : ℕ} {w' : RatedWorld ω} : w.current key = some n →
    w'.current = update w.current key (some (n + 1)) → w'.granted = some key →
    w'.strays = w.strays → Admitted key w 0 w'
  /-- The request is to wait. -/
  | refused {wait : ℕ} {w' : RatedWorld ω} : wait ≠ 0 → w.Even w' → Admitted key w wait w'
  /-- There was no token, and the time to wait is nothing. -/
  | unearned {w' : RatedWorld ω} : w'.current = w.current → w'.granted = w.granted →
    w'.strays = .unearned key :: w.strays → Admitted key w 0 w'

theorem admitted_startRequest (p : Platform) (env : Env ω) (key : Key) (high : Bool)
    (w : RatedWorld ω) : Admitted key w (w.startRequest p env key high).1
      (w.startRequest p env key high).2 := by
  rw [startRequest]
  cases hl : w.manager.find key with
  | none =>
    refine .unlimited ?_
    rw [current, hl, Option.map_none]
  | some l =>
    dsimp only
    have hcur : ∀ now key', ((w.manager.startRequest p key high now).2.find key').map
        RateLimit.currentRequests = if key' = key
          then some (l.startRequest p high now).2.currentRequests else w.current key' := by
      intro now key'
      rw [RateManager.startRequest, RateManager.current_onLimit]
      split
      · rename_i heq
        rw [heq, hl, Option.map_some]
      · rfl
    have hwait : ∀ now, (w.manager.startRequest p key high now).1 =
        (l.startRequest p high now).1 := fun now => RateManager.onLimit_answer hl _ _
    have hkey : w.current key = some l.currentRequests := by rw [current, hl, Option.map_some]
    by_cases htakes : l.TakesToken p high (env.macroNow w.outside).1
    · have hgo := RateLimit.startRequest_of_admits (RateLimit.takesToken_iff.mp htakes)
      rw [if_pos htakes, hwait, hgo]
      refine .granted hkey (funext fun key' => ?_) rfl rfl
      rw [Function.update_apply]
      refine (hcur _ key').trans ?_
      rw [htakes.2]
    · have hstay := RateLimit.startRequest_of_not_admits (mt RateLimit.takesToken_iff.mpr htakes)
      have hsame : ∀ key', ((w.manager.startRequest p key high
          (env.macroNow w.outside).1).2.find key').map RateLimit.currentRequests =
            w.current key' := by
        intro key'
        rw [hcur, hstay]
        split
        · rename_i heq
          rw [heq, hkey]
          rfl
        · rfl
      rw [if_neg htakes]
      by_cases hzero : (w.manager.startRequest p key high (env.macroNow w.outside).1).1 = 0
      · rw [hzero, if_pos rfl]
        exact .unearned (funext hsame) rfl rfl
      · rw [if_neg hzero]
        exact .refused hzero ⟨funext hsame, rfl, rfl⟩

/-- No start of a request under the key went astray. -/
def Unstrayed (w : RatedWorld ω) (key : Key) : Prop := ∀ x ∈ w.strays, x.key ≠ key

/-- A start under a key, as the counts of all keys see it: where none under `key` goes astray, the
request is counted if it is set up. -/
structure Begun (key' : Key) (ok : Bool) (key : Key) (w w' : RatedWorld ω) : Prop where
  granted : w'.granted = none
  limited : (w'.current key).isSome → (w.current key).isSome
  unstrayed : w'.Unstrayed key → w.Unstrayed key
  current : w'.Unstrayed key →
    w'.current key = (w.current key).map (· + if ok = true ∧ key' = key then 1 else 0)

theorem Begun.of_even {key' : Key} {ok : Bool} (h : w.Even w') (hg : w.granted = none)
    (hkey : ok = true → key' ≠ key) : Begun key' ok key w w' where
  granted := h.granted.trans hg
  limited hsome := h.current ▸ hsome
  unstrayed hclean := by
    rw [Unstrayed, h.strays] at hclean
    exact hclean
  current _ := by
    rw [h.current, if_neg fun hand => hkey hand.1 hand.2]
    exact (Option.map_id' ..).symm

theorem Begun.trans {key' : Key} {ok : Bool} (h : Begun key' ok key w w') (h' : w'.Even w'') :
    Begun key' ok key w w'' := by
  have hclean : w''.Unstrayed key → w'.Unstrayed key := fun hclean => by
    rw [Unstrayed, h'.strays] at hclean
    exact hclean
  refine ⟨h'.granted.trans h.granted, fun hsome => h.limited (h'.current ▸ hsome),
    fun hc => h.unstrayed (hclean hc), fun hc => ?_⟩
  rw [h'.current]
  exact h.current (hclean hc)

/-- The answer of the rate manager, and then the setting up. -/
theorem Admitted.begun {key' : Key} (h : Admitted key' w 0 w') (hg : w.granted = none) (ok : Bool)
    (outside : ω) : Begun key' ok key w (setUp ok { w' with outside := outside }) := by
  have hcurrent : (setUp ok { w' with outside := outside }).current = w'.current := rfl
  have hnone : ∀ strays, w'.granted = none → w'.strays = strays →
      (setUp ok { w' with outside := outside }).strays = strays := by
    intro strays hgranted hstrays
    rw [RatedWorld.setUp]
    dsimp only
    rw [hgranted, hstrays]
    exact ite_self _
  generalize hzero : 0 = n at h
  cases h with
  | unlimited hlimit =>
    have hstrays := hnone w.strays hg rfl
    refine ⟨rfl, fun hsome => hsome, fun hclean => ?_, fun _ => ?_⟩
    · rw [Unstrayed, hstrays] at hclean
      exact hclean
    · rw [hcurrent]
      by_cases heq : key' = key
      · rw [← heq, hlimit]
        rfl
      · rw [if_neg fun hand => heq hand.2]
        exact (Option.map_id' ..).symm
  | granted hlimit hraised hgranted hstrays =>
    have hkey : key' ≠ key → w'.current key = w.current key := fun hne => by
      rw [hraised, Function.update_of_ne hne.symm]
    refine ⟨rfl, fun hsome => ?_, fun hclean x hx => hclean x ?_, fun hclean => ?_⟩
    · rw [hcurrent] at hsome
      by_cases heq : key' = key
      · rw [← heq, hlimit]
        rfl
      · rwa [hkey heq] at hsome
    · rw [← hstrays] at hx
      cases ok with
      | true => exact hx
      | false => exact List.mem_append_right _ hx
    · rw [hcurrent]
      by_cases heq : key' = key
      · cases ok with
        | true =>
          rw [if_pos ⟨rfl, heq⟩, ← heq, hraised, Function.update_self, hlimit]
          rfl
        | false =>
          have hunused : Stray.unused key' ∈
              (RatedWorld.setUp false { w' with outside := outside }).strays := by
            refine List.mem_append_left _ ?_
            rw [hgranted]
            exact List.mem_singleton_self _
          exact absurd heq (hclean _ hunused)
      · rw [if_neg fun hand => heq hand.2, hkey heq]
        exact (Option.map_id' ..).symm
  | refused hwait _ => exact absurd hzero.symm hwait
  | unearned hsame hgranted hstrays =>
    have hstrays' := hnone _ (hgranted.trans hg) hstrays
    refine ⟨rfl, fun hsome => hsame ▸ hsome, fun hclean x hx => hclean x ?_, fun hclean => ?_⟩
    · rw [hstrays']
      exact List.mem_cons_of_mem _ hx
    · have heq : key' ≠ key := hclean (.unearned key') (hstrays' ▸ List.mem_cons_self)
      rw [hcurrent, hsame, if_neg fun hand => heq hand.2]
      exact (Option.map_id' ..).symm

end RatedWorld

/-! ### Transfers under way -/

namespace Loop

variable {s t u : Loop ω} {r : ReqId} {env : Env ω} {held : Option ReqId} {W : Watch}

/-- A transfer that was not reported belongs to an active request, and active requests are attached.
A request that is held is not among them. -/
structure Underway (held : Option ReqId) (s : Loop ω) : Prop where
  once : (s.maps .queued).Nodup
  owner : ∀ a ∈ s.multi.transfers, a.reported = false →
    a.priv ∈ s.maps .queued ∧ (s.req a.priv).easyHandle = some a.easy
  multiHandle : ∀ r ∈ s.maps .queued, (s.req r).multiHandle = true
  apart : ∀ r, held = some r → r ∉ s.maps .queued

/-- What is done with a request that is not active: it may lose its handle, and the outside world is
asked. -/
structure Winds (env : Env ω) (r : ReqId) (s t : Loop ω) : Prop where
  queued : t.maps .queued = s.maps .queued
  rateLimit : ∀ b, (t.req b).rateLimit = (s.req b).rateLimit
  others : ∀ b, b ≠ r → (t.req b).attempt = (s.req b).attempt
  transfers : t.multi.transfers ⊆ s.multi.transfers
  world : Asked env s.world t.world

theorem Winds.trans (h : Winds env r s t) (h' : Winds env r t u) : Winds env r s u where
  queued := h'.queued.trans h.queued
  rateLimit b := (h'.rateLimit b).trans (h.rateLimit b)
  others b hb := (h'.others b hb).trans (h.others b hb)
  transfers := List.Subset.trans h'.transfers h.transfers
  world := h.world.trans h'.world

theorem Aside.winds (h : Aside env s t) (r : ReqId) : Winds env r s t where
  queued := h.queued
  rateLimit b := congrArg AttemptState.rateLimit (h.attempt b)
  others b _ := h.attempt b
  transfers := by
    rw [show t.multi = s.multi from congrArg Traffic.multi h.traffic]
    exact List.Subset.refl _
  world := h.world

/-- The request is written, but for its key. -/
theorem winds_modifyReq (env : Env ω) (s : Loop ω) (r : ReqId) {f : Request → Request}
    (hf : (f (s.req r)).rateLimit = (s.req r).rateLimit) : Winds env r s (s.modifyReq r f) := by
  have hother : ∀ b, b ≠ r → (s.modifyReq r f).req b = s.req b := fun b hb =>
    Function.update_of_ne hb ..
  refine ⟨rfl, fun b => ?_, fun b hb => ?_, List.Subset.refl _, .refl _⟩
  · rcases eq_or_ne b r with rfl | hb
    · have hself : (s.modifyReq b f).req b = f (s.req b) := Function.update_self ..
      rw [hself, hf]
    · rw [hother b hb]
  · rw [hother b hb]

theorem winds_cleanup (env : Env ω) (s : Loop ω) (r : ReqId) :
    Winds env r s (s.curlEventLoopRequestCleanup r) := by
  have hmod := winds_modifyReq env s r (f := Request.cleaned) rfl
  exact ⟨hmod.queued, hmod.rateLimit, hmod.others, fun a ha => (transfers_cleanup ha).1, .refl _⟩

theorem winds_destroy (env : Env ω) (s : Loop ω) (r : ReqId) :
    Winds env r s (s.curlEventRequestDestroy r) := by
  have hclean := winds_cleanup env s r
  have hrelease := winds_modifyReq env (s.curlEventLoopRequestCleanup r) r
    (f := fun q => q.setRetained false) rfl
  have h := hclean.trans hrelease
  exact ⟨h.queued, h.rateLimit, h.others, h.transfers, h.world⟩

theorem winds_enqueueRequest (env : Env ω) (s : Loop ω) (r : ReqId) :
    Winds env r s (s.enqueueRequest r) := (aside_enqueueRequest s r).winds r

theorem winds_finish (env : Env ω) (s : Loop ω) (r : ReqId) (success : Bool) :
    Winds env r s (s.finish r success) := by
  have main : ∀ t : Loop ω, Aside env s t →
      Winds env r s (if (t.req r).shouldRefresh then ((t.modifyReq r fun q =>
        { q with currentRetries := 0 }).curlEventLoopRequestCleanup r).enqueueRequest r
        else t.curlEventRequestDestroy r) := by
    intro t ht
    split
    · have hmod := winds_modifyReq env t r (f := fun q => { q with currentRetries := 0 }) rfl
      exact (((ht.winds r).trans hmod).trans (winds_cleanup env _ r)).trans
        (winds_enqueueRequest env _ r)
    · exact (ht.winds r).trans (winds_destroy env t r)
  rw [Loop.finish]
  cases success with
  | true => exact main s.countCompleted (.idle rfl rfl rfl rfl)
  | false => exact main s (.refl env s)

theorem winds_reschedule (env : Env ω) (s : Loop ω) (r : ReqId) (success : Bool) (retryIn : ℤ) :
    Winds env r s (s.reschedule env r success retryIn) := by
  have hcount : ∀ u : Loop ω, Aside env u u.countRetried := fun u => .idle rfl rfl rfl rfl
  have main : ∀ p : Bool × Loop ω, Aside env s p.2 →
      Winds env r s (if p.1 then (p.2.curlEventLoopRequestCleanup r).countRetried.enqueueRequest r
        else p.2.finish r success) := by
    intro p hp
    split
    · exact (((hp.winds r).trans (winds_cleanup env _ r)).trans ((hcount _).winds r)).trans
        (winds_enqueueRequest env _ r)
    · exact (hp.winds r).trans (winds_finish env p.2 r success)
  rw [Loop.reschedule]
  split
  · have hdue : Winds env r s ((s.ask env.macroNow).2.modifyReq r fun q =>
        q.dueAt (macroNowAddSeconds (s.ask env.macroNow).1 retryIn)) :=
      (aside_answer s r (Asked.refl _).macroNow rfl fun hr => hr).winds r
    exact (hdue.trans (winds_cleanup env _ r)).trans (winds_enqueueRequest env _ r)
  · refine main (if retryIn < 0 then s.callOnRetry env r else (false, s)) ?_
    split
    · exact aside_callOnRetry env s r
    · exact .refl env s

/-- The world after the rate manager was told of the end of a request. -/
def told (env : Env ω) (s : Loop ω) (r : ReqId) (httpCode : ℤ) : ω :=
  match (s.req r).rateLimit with
  | none => s.world
  | some key => if httpCode = 429 then (env.rateManagerHandle429 key s.world).2
    else env.rateManagerRequestDone key s.world

/-- The rate manager is told first, and the rest is as for any request. -/
theorem winds_settle (env : Env ω) (s : Loop ω) (r : ReqId) (httpCode : ℤ) (success : Bool)
    (retryIn : ℤ) : Winds env r { s with world := s.told env r httpCode }
      (s.settle env r httpCode success retryIn) := by
  rw [Loop.settle, told]
  cases (s.req r).rateLimit with
  | none => exact winds_reschedule env s r success retryIn
  | some key =>
    dsimp only
    split
    · exact ((aside_world (Asked.refl _).macroNow).trans (aside_parkRateLimited _ r _)).winds r
    · exact winds_reschedule env _ r success retryIn

/-- The invariant is about the transfers and the active requests only. -/
theorem Underway.of_rest (h : Underway held s) (hq : t.maps .queued = s.maps .queued)
    (htransfers : t.multi.transfers ⊆ s.multi.transfers)
    (hattempt : ∀ b ∈ s.maps .queued, (t.req b).attempt = (s.req b).attempt) :
    Underway held t := by
  refine ⟨?_, fun a ha hrep => ?_, fun b hb => ?_, ?_⟩
  · rw [hq]
    exact h.once
  · obtain ⟨hmem, heasy⟩ := h.owner a (htransfers ha) hrep
    rw [hq]
    refine ⟨hmem, ?_⟩
    exact (congrArg AttemptState.easyHandle (hattempt a.priv hmem)).trans heasy
  · rw [hq] at hb
    exact (congrArg AttemptState.multiHandle (hattempt b hb)).trans (h.multiHandle b hb)
  · rw [hq]
    exact h.apart

theorem Underway.aside (h : Underway held s) (ha : Aside env s t) : Underway held t := by
  refine h.of_rest ha.queued ?_ fun b _ => ha.attempt b
  rw [show t.multi = s.multi from congrArg Traffic.multi ha.traffic]
  exact List.Subset.refl _

/-- Whatever is done with a request that is not active. -/
theorem Underway.winds (h : Underway held s) (hr : r ∉ s.maps .queued) (hw : Winds env r s t) :
    Underway held t :=
  h.of_rest hw.queued hw.transfers fun b hb => hw.others b (ne_of_mem_of_not_mem hb hr)

theorem Underway.arrives (h : Underway held s) (ha : Arrives env r s t)
    (hr : r ∉ s.maps .queued) : Underway held t := by
  refine h.of_rest (congrArg Traffic.queued ha.traffic) ?_ fun b hb => ?_
  · rw [show t.multi = s.multi from congrArg Traffic.multi ha.traffic]
    exact List.Subset.refl _
  · rw [ha.others b (ne_of_mem_of_not_mem hb hr)]

/-- The message of a transfer is read, and its request taken in hand. -/
theorem Underway.receive (h : Underway none s) {m : Message} {a : Transfer}
    (ha : s.transferOf m = some a) : Underway (some a.priv)
      (((s.reportMessage m.easy).eraseMap .queued a.priv).addNum .queued (-1)) := by
  obtain ⟨hmem, heasy, hrep⟩ := mem_of_transferOf ha
  have hqueued : (((s.reportMessage m.easy).eraseMap .queued a.priv).addNum .queued (-1)).maps
      .queued = (s.maps .queued).erase a.priv :=
    congrArg Traffic.queued (traffic_eraseQueued (s.reportMessage m.easy) a.priv)
  refine ⟨?_, fun b hb hrep' => ?_, fun b hb => ?_, ?_⟩
  · rw [hqueued]
    exact h.once.erase a.priv
  · obtain ⟨c, hc, rfl⟩ := List.mem_map.mp hb
    -- the other transfers with the handle count as reported too
    have hne : c.easy ≠ m.easy := fun heq => by
      rw [if_pos heq] at hrep'
      exact absurd hrep' (by simp)
    rw [if_neg hne] at hrep' ⊢
    obtain ⟨hcq, hce⟩ := h.owner c hc hrep'
    have hpriv : c.priv ≠ a.priv := fun heq => by
      rw [heq, (h.owner a hmem hrep).2] at hce
      exact hne ((Option.some.inj hce).symm.trans heasy)
    rw [hqueued]
    exact ⟨(List.mem_erase_of_ne hpriv).mpr hcq, hce⟩
  · rw [hqueued] at hb
    exact h.multiHandle b (List.mem_of_mem_erase hb)
  · rintro b ⟨⟩
    rw [hqueued]
    exact fun hin => (h.once.mem_erase_iff.mp hin).1 rfl

/-- A cancelled request is taken out of its map, and its handle detached. -/
theorem Underway.cancelledRound (h : Underway none s) (env : Env ω) (r : ReqId) :
    Underway none (s.cancelledRound r) := by
  rw [Loop.cancelledRound, cancelledMap]
  split
  · rename_i hflag
    have hqueued : ((s.dropFromMap .queued r).curlEventRequestDestroy r).maps .queued =
        (s.maps .queued).erase r :=
      congrArg Traffic.queued (traffic_eraseQueued
        (s.beware (r ∉ s.maps .queued) (.misplaced r)) r)
    have hother : ∀ b ∈ (s.maps .queued).erase r,
        (((s.dropFromMap .queued r).curlEventRequestDestroy r).req b) = s.req b := fun b hb => by
      rw [req_destroy]
      exact Function.update_of_ne (h.once.mem_erase_iff.mp hb).1 _ _
    refine ⟨?_, fun a ha hrep => ?_, fun b hb => ?_,
      fun b hb => absurd hb (Option.some_ne_none b).symm⟩
    · rw [hqueued]
      exact h.once.erase r
    · obtain ⟨hmem, hne⟩ := transfers_destroy ha
      obtain ⟨hin, heasy⟩ := h.owner a hmem hrep
      have hpriv : a.priv ≠ r := fun heq => hne hflag (heq ▸ heasy)
      have hin' : a.priv ∈ (s.maps .queued).erase r := (List.mem_erase_of_ne hpriv).mpr hin
      rw [hqueued, hother _ hin']
      exact ⟨hin', heasy⟩
    · rw [hqueued] at hb
      rw [hother b hb]
      exact h.multiHandle b (List.mem_of_mem_erase hb)
  · rename_i hflag
    have hr : r ∉ s.maps .queued := fun hr => hflag (h.multiHandle r hr)
    have hother := waitingMap_ne_queued (s.req r)
    have hqueued : (s.dropFromMap (waitingMap (s.req r)) r).maps .queued = s.maps .queued :=
      Function.update_of_ne hother.symm ..
    have hdrop : Underway none (s.dropFromMap (waitingMap (s.req r)) r) :=
      h.of_rest hqueued (List.Subset.refl _) fun _ _ => rfl
    exact hdrop.winds (hqueued ▸ hr) (winds_destroy env _ r)

/-- What a start comes to, whether the request has kept a handle or not. -/
inductive Comes (env : Env ω) (r : ReqId) (s t : Loop ω) : Prop
  /-- The rate manager tells it to wait. -/
  | parked : (s.admission env r).1 ≠ 0 → Winds env r { s with world := (s.admission env r).2.world } t →
    Comes env r s t
  /-- It cannot be set up, and is destroyed. -/
  | failed : (s.admission env r).1 = 0 → ((s.admission env r).2.setupCurlHandle env r).1 = false →
    Winds env r { s with world := ((s.admission env r).2.setupCurlHandle env r).2.world } t →
    Comes env r s t
  /-- It has a transfer. -/
  | attached : (s.admission env r).1 = 0 →
    ((s.admission env r).2.setupCurlHandle env r).1 = true →
    (t.maps .queued).Perm (r :: s.maps .queued) →
    t.multi.transfers = ⟨s.multi.nextEasy, r, false⟩ :: s.multi.transfers →
    (∀ b, b ≠ r → (t.req b).attempt = (s.req b).attempt) →
    (t.req r).attempt = ⟨some s.multi.nextEasy, true, (s.req r).rateLimit, (s.req r).depHead⟩ →
    Asked env ((s.admission env r).2.setupCurlHandle env r).2.world t.world → Comes env r s t

theorem comes_start (env : Env ω) (s : Loop ω) (r : ReqId) :
    Comes env r s (s.curlEventLoopRequestStart env r) := by
  obtain ⟨n, w, hask⟩ := admission_eq env s r
  rw [start_eq]
  split
  · rename_i hwait
    refine .parked hwait ?_
    rw [hask]
    exact (aside_parkRateLimited _ r _).winds r
  · rename_i hgo
    have hzero : (s.admission env r).1 = 0 := not_not.mp hgo
    obtain ⟨w', hfail | hok⟩ := setupCurlHandle_eq env (s.admission env r).2 r
    · rw [hfail, if_neg (by simp)]
      refine .failed hzero (by rw [hfail]) ?_
      rw [hfail, hask]
      exact (winds_modifyReq env { s with world := w' } r rfl).trans (winds_destroy env _ r)
    · have hperm := perm_activate env ((s.admission env r).2.setupCurlHandle env r).2 r
      have htraffic := traffic_launched env s r w w'
      rw [hok] at hperm
      rw [hok, if_pos rfl]
      rw [hask] at hperm hok ⊢
      obtain ⟨hself, hother⟩ :
          ((activate env (newHandle ({ ({ s with world := w } : Loop ω).modifyReq r Request.reset
            with world := w' } : Loop ω) r) r).req r).attempt = _ ∧ _ :=
        ⟨(congrFun (congrArg Traffic.attempt htraffic) r).trans (Function.update_self ..),
          fun b (hb : b ≠ r) => (congrFun (congrArg Traffic.attempt htraffic) b).trans
            (Function.update_of_ne hb _ _)⟩
      refine .attached hzero ?_ hperm ?_ hother hself ?_
      · rw [hask, hok]
      · exact congrArg (fun t => t.multi.transfers) htraffic
      · rw [hask, hok]
        exact (Asked.refl _).macroNow

theorem Underway.start (h : Underway none s) (env : Env ω) (hr : r ∉ s.maps .queued) :
    Underway none (s.curlEventLoopRequestStart env r) := by
  have hworld : ∀ w : ω, Underway none ({ s with world := w } : Loop ω) := fun _ =>
    ⟨h.once, h.owner, h.multiHandle, h.apart⟩
  cases comes_start env s r with
  | parked _ hw => exact (hworld (s.admission env r).2.world).winds hr hw
  | failed _ _ hw =>
    exact (hworld ((s.admission env r).2.setupCurlHandle env r).2.world).winds hr hw
  | attached _ _ hperm htransfers hother hself _ =>
    refine ⟨?_, fun a ha hrep => ?_, fun b hb => ?_, nofun⟩
    · exact hperm.nodup_iff.mpr (List.nodup_cons.mpr ⟨hr, h.once⟩)
    · rw [htransfers] at ha
      rw [hperm.mem_iff]
      rcases List.mem_cons.mp ha with rfl | ha
      · exact ⟨List.mem_cons_self, congrArg AttemptState.easyHandle hself⟩
      · obtain ⟨hin, heasy⟩ := h.owner a ha hrep
        have hpriv := hother a.priv (ne_of_mem_of_not_mem hin hr)
        exact ⟨List.mem_cons_of_mem r hin, (congrArg AttemptState.easyHandle hpriv).trans heasy⟩
    · rcases List.mem_cons.mp (hperm.mem_iff.mp hb) with rfl | hb
      · exact congrArg AttemptState.multiHandle hself
      · have hsame := hother b (ne_of_mem_of_not_mem hb hr)
        exact (congrArg AttemptState.multiHandle hsame).trans (h.multiHandle b hb)

theorem Underway.settle (h : Underway (some r) s) {httpCode : ℤ} {success : Bool} {retryIn : ℤ} :
    Underway none (s.settle env r httpCode success retryIn) := by
  have hworld : Underway none ({ s with world := s.told env r httpCode } : Loop ω) :=
    ⟨h.once, h.owner, h.multiHandle, nofun⟩
  exact hworld.winds (h.apart r rfl) (winds_settle env s r httpCode success retryIn)

/-! ### The count of a key -/

/-- The active requests under a key. -/
def active (s : Loop ω) (key : Key) : ℕ :=
  (s.maps .queued).countP fun r => (s.req r).rateLimit = some key

/-- The request that is held, if it is under the key. -/
def heldUnder (s : Loop ω) (key : Key) : Option ReqId → ℕ
  | some r => if (s.req r).rateLimit = some key then 1 else 0
  | none => 0

theorem active_congr {key : Key} (hq : t.maps .queued = s.maps .queued)
    (hkey : ∀ r ∈ s.maps .queued, (t.req r).rateLimit = (s.req r).rateLimit) :
    t.active key = s.active key := by
  rw [active, active, hq]
  refine List.countP_congr fun r hr => ?_
  rw [hkey r hr]

/-- An active request is taken out of the map. -/
theorem active_erase (key : Key) (hr : r ∈ s.maps .queued)
    (hq : t.maps .queued = (s.maps .queued).erase r)
    (hkey : ∀ b ∈ (s.maps .queued).erase r, (t.req b).rateLimit = (s.req b).rateLimit) :
    s.active key = t.active key + if (s.req r).rateLimit = some key then 1 else 0 := by
  have hrest : t.active key =
      ((s.maps .queued).erase r).countP fun b => (s.req b).rateLimit = some key := by
    rw [active, hq]
    refine List.countP_congr fun b hb => ?_
    rw [hkey b hb]
  rw [hrest, active, (List.perm_cons_erase hr).countP_eq, List.countP_cons]
  simp only [decide_eq_true_eq]

/-- A request that was not active is now. -/
theorem active_cons {key : Key} (hperm : (t.maps .queued).Perm (r :: s.maps .queued))
    (hkey : ∀ b, (t.req b).rateLimit = (s.req b).rateLimit) :
    t.active key = s.active key + if (s.req r).rateLimit = some key then 1 else 0 := by
  have hsame : (fun b => decide ((t.req b).rateLimit = some key)) =
      fun b => decide ((s.req b).rateLimit = some key) := by
    funext b
    rw [hkey b]
  rw [active, active, hperm.countP_eq, hsame, List.countP_cons]
  simp only [decide_eq_true_eq]

end Loop

namespace Loop

variable {s t : Loop (RatedWorld ω)} {r : ReqId} {env : Env ω} {p : Platform} {key : Key}
  {held : Option ReqId} {limited : Prop}

/-- No active request under the key is cancelled, if the key has a limit. -/
def underKey (key : Key) (limited : Prop) : Watch where
  drop a := limited → ¬ (a.multiHandle = true ∧ a.rateLimit = some key)
  settle _ _ := True

/-- The count of a key is the number of its requests that are active or held. -/
def Accounted (key : Key) (held : Option ReqId) (s : Loop (RatedWorld ω)) : Prop :=
  ∀ n, s.world.current key = some n → n = s.active key + s.heldUnder key held

/-- What a run keeps, of the transfers and of the count of a key. -/
structure Tallied (key : Key) (limited : Prop) (held : Option ReqId)
    (s : Loop (RatedWorld ω)) : Prop where
  underway : s.Underway held
  granted : s.world.granted = none
  limited : (s.world.current key).isSome → limited
  accounted : s.world.Unstrayed key → s.Accounted key held

/-- A step without a start or an end. -/
theorem Tallied.of_even (h : Tallied key limited held s) (hunder : t.Underway held)
    (hw : s.world.Even t.world) (hq : t.maps .queued = s.maps .queued)
    (hkey : ∀ r, r ∈ s.maps .queued ∨ held = some r → (t.req r).rateLimit = (s.req r).rateLimit) :
    Tallied key limited held t where
  underway := hunder
  granted := hw.granted.trans h.granted
  limited := by
    rw [hw.current]
    exact h.limited
  accounted hclean n hn := by
    rw [RatedWorld.Unstrayed, hw.strays] at hclean
    rw [hw.current] at hn
    have hheld : t.heldUnder key held = s.heldUnder key held := by
      cases held with
      | none => rfl
      | some r => rw [heldUnder, heldUnder, hkey r (.inr rfl)]
    rw [active_congr hq fun r hr => hkey r (.inl hr), hheld]
    exact h.accounted hclean n hn

/-- A message is read: its request is held and no longer active. -/
theorem Tallied.receive (h : Tallied key limited none s) {m : Message} {a : Transfer}
    (ha : s.transferOf m = some a) : Tallied key limited (some a.priv)
      (((s.reportMessage m.easy).eraseMap .queued a.priv).addNum .queued (-1)) where
  underway := h.underway.receive ha
  granted := h.granted
  limited := h.limited
  accounted hclean n hn := by
    obtain ⟨hmem, -, hrep⟩ := mem_of_transferOf ha
    have hactive := active_erase key (h.underway.owner a hmem hrep).1
      (congrArg Traffic.queued (traffic_eraseQueued (s.reportMessage m.easy) a.priv))
      (t := ((s.reportMessage m.easy).eraseMap .queued a.priv).addNum .queued (-1))
      fun _ _ => rfl
    exact (h.accounted hclean n hn).trans hactive

/-- The rate manager is told of the end of a request that is held. -/
theorem Tallied.settle (h : Tallied key limited (some r) s) {httpCode : ℤ} {success : Bool}
    {retryIn : ℤ} : Tallied key limited none (s.settle (env.rated p) r httpCode success retryIn) := by
  have hw := winds_settle (env.rated p) s r httpCode success retryIn
  have hworld := RatedWorld.Even.of_asked hw.world
  have hactive : (s.settle (env.rated p) r httpCode success retryIn).active key = s.active key :=
    active_congr hw.queued fun b _ => hw.rateLimit b
  suffices htold : (s.told (env.rated p) r httpCode).granted = none ∧
      (s.told (env.rated p) r httpCode).strays = s.world.strays ∧
      (s.told (env.rated p) r httpCode).current key = (s.world.current key).map
        (· - s.heldUnder key (some r)) by
    obtain ⟨hgranted, hstrays, hcurrent⟩ := htold
    refine ⟨h.underway.settle, hworld.granted.trans hgranted, fun hsome => h.limited ?_,
      fun hclean n hn => ?_⟩
    · rw [hworld.current] at hsome
      rwa [show ({ s with world := s.told (env.rated p) r httpCode } : Loop _).world.current key =
        _ from hcurrent, Option.isSome_map] at hsome
    · rw [RatedWorld.Unstrayed, hworld.strays] at hclean
      rw [hworld.current] at hn
      obtain ⟨n', hn', rfl⟩ := Option.map_eq_some_iff.mp (hcurrent.symm.trans hn)
      have hcount := h.accounted (fun x hx => hclean x (hstrays.symm ▸ hx)) n' hn'
      rw [hactive, hcount]
      exact Nat.add_sub_cancel ..
  rw [told, heldUnder]
  cases hkey : (s.req r).rateLimit with
  | none =>
    refine ⟨h.granted, rfl, ?_⟩
    rw [if_neg nofun]
    exact (Option.map_id' ..).symm
  | some key' =>
    have htold : RatedWorld.Ended key' s.world (if httpCode = 429
        then ((env.rated p).rateManagerHandle429 key' s.world).2
        else (env.rated p).rateManagerRequestDone key' s.world) := by
      split
      · exact RatedWorld.ended_handle429 env key' s.world
      · exact RatedWorld.ended_requestDone env key' s.world
    refine ⟨htold.granted.trans h.granted, htold.strays, ?_⟩
    rw [htold.current, Function.update_apply]
    by_cases heq : key = key'
    · rw [if_pos heq, if_pos (congrArg some heq.symm), heq]
    · rw [if_neg heq, if_neg fun hsome => heq (Option.some.inj hsome).symm]
      exact (Option.map_id' ..).symm

/-- Setting a request up uses the token that was taken for it. -/
theorem world_setupCurlHandle (env : Env ω) (s : Loop (RatedWorld ω)) (r : ReqId) : ∃ outside,
    (s.setupCurlHandle (env.rated p) r).2.world = RatedWorld.setUp
      (s.setupCurlHandle (env.rated p) r).1 { s.world with outside := outside } := by
  have hinit : ∀ t : Loop (RatedWorld ω), (∃ o, t.world = { s.world with outside := o }) →
      ∃ outside, (if (t.ask (env.rated p).curlEasyInit).1 = true
          then (true, (t.ask (env.rated p).curlEasyInit).2.newHandle r)
          else (false, (t.ask (env.rated p).curlEasyInit).2)).2.world =
        RatedWorld.setUp (if (t.ask (env.rated p).curlEasyInit).1 = true
          then (true, (t.ask (env.rated p).curlEasyInit).2.newHandle r)
          else (false, (t.ask (env.rated p).curlEasyInit).2)).1
            { s.world with outside := outside } := by
    rintro t ⟨o, ho⟩
    have hworld : (t.ask (env.rated p).curlEasyInit).2.world =
        RatedWorld.setUp (t.ask (env.rated p).curlEasyInit).1
          { s.world with outside := (env.curlEasyInit o).2 } := by
      show ((env.rated p).curlEasyInit t.world).2 =
        RatedWorld.setUp ((env.rated p).curlEasyInit t.world).1 _
      rw [ho]
      rfl
    refine ⟨(env.curlEasyInit o).2, ?_⟩
    split
    · rename_i hok
      rw [hok] at hworld
      exact hworld
    · rename_i hok
      rw [Bool.not_eq_true] at hok
      rw [hok] at hworld
      exact hworld
  rw [setupCurlHandle]
  dsimp only
  split
  · have hask : ((s.modifyReq r Request.reset).ask ((env.rated p).onPrepare r)).2.world =
        if (env.onPrepare r s.world.outside).1
          then { s.world with outside := (env.onPrepare r s.world.outside).2 }
          else RatedWorld.setUp false
            { s.world with outside := (env.onPrepare r s.world.outside).2 } := rfl
    split
    · rename_i hok
      exact hinit _ ⟨_, hask.trans (if_pos hok)⟩
    · rename_i hok
      exact ⟨_, hask.trans (if_neg hok)⟩
  · exact hinit _ ⟨_, rfl⟩

/-- A start, given what it did to the world and to the active requests. -/
theorem Tallied.of_begun (h : Tallied key limited none s) (hunder : t.Underway none) {key' : Key}
    {ok : Bool} (hbegun : RatedWorld.Begun key' ok key s.world t.world)
    (hactive : t.active key = s.active key + if ok = true ∧ key' = key then 1 else 0) :
    Tallied key limited none t where
  underway := hunder
  granted := hbegun.granted
  limited hsome := h.limited (hbegun.limited hsome)
  accounted hclean n hn := by
    rw [hbegun.current hclean] at hn
    obtain ⟨n', hn', rfl⟩ := Option.map_eq_some_iff.mp hn
    have hcount := h.accounted (hbegun.unstrayed hclean) n' hn'
    rw [hactive, hcount]
    rfl

/-- What the setting up leaves of the counts, after an answer about the key of the request. -/
theorem begun_setup (hg : s.world.granted = none) (hgo : (s.admission (env.rated p) r).1 = 0)
    (key : Key) : ∃ key', RatedWorld.Begun key'
      ((s.admission (env.rated p) r).2.setupCurlHandle (env.rated p) r).1 key s.world
      ((s.admission (env.rated p) r).2.setupCurlHandle (env.rated p) r).2.world ∧
      (key' = key ↔ (s.req r).rateLimit = some key) := by
  obtain ⟨outside, hworld⟩ := world_setupCurlHandle (p := p) env (s.admission (env.rated p) r).2 r
  rw [hworld]
  cases hkey : (s.req r).rateLimit with
  | none =>
    have hsame : (s.admission (env.rated p) r).2.world = s.world := by
      rw [admission, hkey]
    obtain ⟨key', hne⟩ : ∃ key' : Key, key' ≠ key := by
      by_cases hempty : key = ""
      · exact ⟨"a", hempty ▸ by decide⟩
      · exact ⟨"", Ne.symm hempty⟩
    refine ⟨key', ?_, iff_of_false hne (Option.some_ne_none key).symm⟩
    rw [hsame]
    refine .of_even ⟨rfl, ?_, ?_⟩ hg fun _ => hne
    · exact hg.symm
    · rw [RatedWorld.setUp]
      dsimp only
      rw [hg]
      exact ite_self _
  | some key' =>
    have hadmitted := RatedWorld.admitted_startRequest p env key' (s.req r).rateLimitHighPriority
      s.world
    have hask : s.admission (env.rated p) r =
        s.ask ((env.rated p).rateManagerStartRequest key' (s.req r).rateLimitHighPriority) := by
      rw [admission, hkey]
    have hzero : (s.world.startRequest p env key' (s.req r).rateLimitHighPriority).1 = 0 := by
      rw [hask] at hgo
      exact hgo
    rw [hzero] at hadmitted
    refine ⟨key', ?_, ⟨congrArg some, Option.some.inj⟩⟩
    rw [hask]
    exact hadmitted.begun hg _ outside

/-- A request is told to wait. -/
theorem even_admission (hstay : (s.admission (env.rated p) r).1 ≠ 0) :
    s.world.Even (s.admission (env.rated p) r).2.world := by
  cases hkey : (s.req r).rateLimit with
  | none =>
    rw [admission, hkey] at hstay
    exact absurd rfl hstay
  | some key' =>
    have hadmitted := RatedWorld.admitted_startRequest p env key' (s.req r).rateLimitHighPriority
      s.world
    have hask : s.admission (env.rated p) r =
        s.ask ((env.rated p).rateManagerStartRequest key' (s.req r).rateLimitHighPriority) := by
      rw [admission, hkey]
    rw [hask] at hstay ⊢
    have hwait : (s.world.startRequest p env key' (s.req r).rateLimitHighPriority).1 ≠ 0 := hstay
    show s.world.Even (s.world.startRequest p env key' (s.req r).rateLimitHighPriority).2
    generalize s.world.startRequest p env key' (s.req r).rateLimitHighPriority = a at *
    obtain ⟨wait, w⟩ := a
    cases hadmitted with
    | refused _ heven => exact heven
    | unlimited _ => exact absurd rfl hwait
    | granted _ _ _ _ => exact absurd rfl hwait
    | unearned _ _ _ => exact absurd rfl hwait

theorem Tallied.start (h : Tallied key limited none s) (hr : r ∉ s.maps .queued) :
    Tallied key limited none (s.curlEventLoopRequestStart (env.rated p) r) := by
  have hunder := h.underway.start (env.rated p) hr
  cases comes_start (env.rated p) s r with
  | parked hstay hw =>
    exact h.of_even hunder ((even_admission hstay).trans (.of_asked hw.world)) hw.queued
      fun b _ => hw.rateLimit b
  | failed hgo hfail hw =>
    obtain ⟨key', hbegun, -⟩ := begun_setup h.granted hgo key
    rw [hfail] at hbegun
    refine h.of_begun hunder (hbegun.trans (.of_asked hw.world)) ?_
    rw [if_neg fun hand => Bool.noConfusion hand.1]
    exact active_congr hw.queued fun b _ => hw.rateLimit b
  | attached hgo hok hperm _ hother hself hworld =>
    obtain ⟨key', hbegun, hkey⟩ := begun_setup h.granted hgo key
    rw [hok] at hbegun
    refine h.of_begun hunder (hbegun.trans (.of_asked hworld)) ?_
    have hsame : ∀ b, ((s.curlEventLoopRequestStart (env.rated p) r).req b).rateLimit =
        (s.req b).rateLimit := fun b => by
      rcases eq_or_ne b r with rfl | hb
      · exact congrArg AttemptState.rateLimit hself
      · exact congrArg AttemptState.rateLimit (hother b hb)
    rw [active_cons hperm hsame]
    simp only [hkey, true_and]

/-- A cancelled request is no active request under the key, if the key has a limit. -/
theorem Tallied.cancelledRound (h : Tallied key limited none s) (env : Env ω) (p : Platform)
    (hr : s.Mapped r) (hw : (underKey key limited).drop (s.req r).attempt) :
    Tallied key limited none (s.cancelledRound r) := by
  have hunder := h.underway.cancelledRound (env.rated p) r
  have hreq : ∀ b, ((s.cancelledRound r).req b).rateLimit = (s.req b).rateLimit := fun b =>
    (winds_destroy (env.rated p) (s.dropFromMap (cancelledMap (s.req r)) r) r).rateLimit b
  have hworld := world_cancelledRound s r
  refine ⟨hunder, ?_, ?_, fun hclean n hn => ?_⟩
  · rw [hworld]
    exact h.granted
  · rw [hworld]
    exact h.limited
  rw [hworld] at hclean hn
  refine (h.accounted hclean n hn).trans ?_
  have hlimited : limited := h.limited (by
    rw [show s.world.current key = some n from hn]
    rfl)
  rw [Mapped, cancelledMap] at hr
  suffices hsame : s.active key = (s.cancelledRound r).active key from congrArg (· + 0) hsame
  split at hr
  · rename_i hflag
    have hqueued : (s.cancelledRound r).maps .queued = (s.maps .queued).erase r := by
      have hmap : cancelledMap (s.req r) = .queued := by rw [cancelledMap, if_pos hflag]
      rw [Loop.cancelledRound, hmap]
      exact congrArg Traffic.queued (traffic_eraseQueued
        (s.beware (r ∉ s.maps .queued) (.misplaced r)) r)
    rw [active_erase key hr hqueued fun b _ => hreq b,
      if_neg fun hkey : (s.req r).rateLimit = some key => hw hlimited ⟨hflag, hkey⟩, Nat.add_zero]
  · rename_i hflag
    have hqueued : (s.cancelledRound r).maps .queued = s.maps .queued := by
      have hmap : cancelledMap (s.req r) = waitingMap (s.req r) := by rw [cancelledMap, if_neg hflag]
      rw [Loop.cancelledRound, hmap]
      exact Function.update_of_ne (waitingMap_ne_queued (s.req r)).symm ..
    exact (active_congr hqueued fun b _ => hreq b).symm

theorem kept_tallied (env : Env ω) (p : Platform) (key : Key) (limited : Prop) :
    Kept (env.rated p) (underKey key limited) (Tallied (ω := ω) key limited) where
  aside h ha := h.of_even (h.underway.aside ha) (.of_asked ha.world) ha.queued
    fun r _ => congrArg AttemptState.rateLimit (ha.attempt r)
  arrives {held s t r} h ha hq hr := by
    refine h.of_even (h.underway.arrives ha hq) (.of_asked ha.world)
      (congrArg Traffic.queued ha.traffic) fun b hb => ?_
    have hbr : b ≠ r := by
      rcases hb with hb | hb
      · exact ne_of_mem_of_not_mem hb hq
      · rintro rfl
        exact hr hb
    rw [ha.others b hbr]
  destroy {held s r} h hr _ := by
    have hw := winds_destroy (env.rated p) s r
    exact h.of_even (h.underway.winds hr.queued hw) (.refl _) hw.queued fun b _ => hw.rateLimit b
  drop h hm _ hw := h.cancelledRound env p hm hw
  start h hr := h.start hr.queued
  receive h ha := h.receive ha
  settle h _ _ := h.settle

/-- **The invariant along a path.** -/
theorem Tallied.path (h : Tallied key limited none s)
    (hp : Path (env.rated p) (underKey key limited).regime s t) : Tallied key limited none t :=
  hp.kept (kept_tallied env p key limited) h

/-! ### Runs -/

/-- An action on the loop, or a call about the limits. -/
def ratedAct (p : Platform) (env : Env ω) : RatedAction → Loop (RatedWorld ω) → Loop (RatedWorld ω)
  | .act a, s => act (env.rated p) a s
  | .limits c, s => { s with world := { s.world with manager := s.world.manager.perform p c } }

/-- The step meets no hazard but a resource freed while requests wait for it. No active request of
the key is cancelled while the key has a limit, no start of one goes astray, and the key gets a limit
when none is active. -/
def Fair (p : Platform) (env : Env ω) (key : Key) : RatedAction → Loop (RatedWorld ω) → Prop
  | .act a, s => s.Watched (env.rated p) (underKey key (s.world.current key).isSome) a ∧
      (∀ x ∈ (act (env.rated p) a s).hazards, x.IsAbandoned) ∧
      (act (env.rated p) a s).world.Unstrayed key
  | .limits c, s => c.Administers ∧ (c.Sets key → s.world.current key = none → s.active key = 0)

instance (a : AttemptState) [Decidable limited] : Decidable ((underKey key limited).drop a) :=
  inferInstanceAs (Decidable (_ → _))

instance (a : AttemptState) (code : ℤ) : Decidable ((underKey key limited).settle a code) :=
  inferInstanceAs (Decidable True)

instance (w : RatedWorld ω) (key : Key) : Decidable (w.Unstrayed key) :=
  inferInstanceAs (Decidable (∀ x ∈ w.strays, x.key ≠ key))

instance (p : Platform) (env : Env ω) (key : Key) (a : RatedAction) (s : Loop (RatedWorld ω)) :
    Decidable (Fair p env key a s) :=
  match a with
  | .act _ => inferInstanceAs (Decidable (_ ∧ _))
  | .limits _ => inferInstanceAs (Decidable (_ ∧ (_ → _)))

/-- `current_requests` of the key, if it has a limit, is the number of its active requests. -/
def Balanced (key : Key) (s : Loop (RatedWorld ω)) : Prop :=
  ∀ l, s.world.manager.find key = some l → l.currentRequests = s.active key

/-- What a run keeps. -/
structure Evened (key : Key) (s : Loop (RatedWorld ω)) : Prop where
  atRest : s.AtRest False
  tallied : Tallied key (s.world.current key).isSome none s
  unstrayed : s.world.Unstrayed key

theorem Evened.ratedAct (h : Evened key s) {a : RatedAction} (ha : Fair p env key a s) :
    Evened key (Loop.ratedAct p env a s) := by
  cases a with
  | act a =>
    obtain ⟨hwatched, hhazards, hclean⟩ := ha
    have hspared : (Loop.act (env.rated p) a s).Spared False := .of_abandoned hhazards
    have hne : a ≠ .destroy := by
      rintro rfl
      exact hwatched
    have htallied := h.tallied.path (h.atRest.path_act hwatched hspared)
    exact ⟨h.atRest.act hne hspared, ⟨htallied.underway, htallied.granted, fun hsome => hsome,
      htallied.accounted⟩, hclean⟩
  | limits c =>
    obtain ⟨v, C, hwf, hv⟩ := h.atRest
    refine ⟨⟨v, C, ⟨hwf.located, hwf.marked⟩, hv⟩, ⟨?_, h.tallied.granted, fun hsome => hsome,
      fun _ n hn => ?_⟩, h.unstrayed⟩
    · exact ⟨h.tallied.underway.once, h.tallied.underway.owner, h.tallied.underway.multiHandle,
        nofun⟩
    · have hkeep := TimedCall.current_administers ha.1 hn
      show n = s.active key + 0
      rcases hkeep with hold | ⟨hnone, hsets, hzero⟩
      · exact h.tallied.accounted h.unstrayed n hold
      · rw [hzero, ha.2 hsets hnone]

theorem Evened.balanced (h : Evened key s) : s.Balanced key := by
  intro l hl
  refine h.tallied.accounted h.unstrayed l.currentRequests ?_
  rw [RatedWorld.current, hl, Option.map_some]

theorem evened_init (mem : Memory) (world : ω) (key : Key) :
    Evened key (curlEventLoopInit mem (⟨none, world, none, []⟩ : RatedWorld ω)) := by
  have hatRest : (curlEventLoopInit mem (⟨none, world, none, []⟩ : RatedWorld ω)).AtRest False := by
    obtain ⟨v, C, hwf, hv⟩ := resting_init mem (⟨none, world, none, []⟩ : RatedWorld ω)
    exact ⟨v, C, hwf, hv.hand, fun q _ => hv.detached q⟩
  refine ⟨hatRest, ⟨⟨List.nodup_nil, nofun, nofun, nofun⟩, rfl, fun hsome => hsome, ?_⟩, nofun⟩
  intro _ n hn
  exact absurd hn nofun

/-- **Concurrency accounting balances** for a key in every state of a run in which no start of a
request under the key goes astray and no active one is cancelled. -/
theorem balanced_of_fair (p : Platform) (env : Env ω) (mem : Memory) (world : ω) (key : Key)
    (as : List RatedAction) (has : Guarded.Allowed (ratedAct p env) (Fair p env key)
      (curlEventLoopInit mem ⟨none, world, none, []⟩) as) : ∀ pre, pre <+: as →
    (Guarded.run (ratedAct p env) (curlEventLoopInit mem ⟨none, world, none, []⟩) pre).Balanced
      key := by
  rintro pre ⟨post, rfl⟩
  exact ((Guarded.allowed_append.mp has).1.invariant (P := Evened key)
    (fun _ _ hs ha => hs.ratedAct ha) (evened_init mem world key)).balanced

/-- A limit of two requests a second. The pending list is a stack: request 3 is answered with 429 and
parked, request 2 fails, and request 1 finds no token and waits. -/
theorem balanced_of_fair_throttled :
    (Guarded.run (ratedAct .saturating Env.uneventful) (curlEventLoopInit
      (Memory.keyed fun _ => some "k") ⟨none, (), none, []⟩) [.limits ⟨0, .setLimit "k" 2 2 0⟩,
        .act (.call (.api (.submit 1 0))), .act (.call (.api (.submit 2 0))),
        .act (.call (.api (.submit 3 0))), .act .processCancelledAndPendingRequests,
        .act (.processCompletedRequests [⟨0, .ok, 429⟩, ⟨1, .ok, 500⟩]),
        .act .moveInactiveRequestsToQueue]).Balanced "k" :=
  balanced_of_fair .saturating Env.uneventful (Memory.keyed fun _ => some "k") () "k" _
    (by decide +kernel) _ (List.prefix_refl _)

/-- A request that is cancelled while it is active keeps its place in the count, and so does a
request whose `on_prepare` refuses it. -/
theorem not_balanced_cancelled :
    let limits : RatedAction := .limits ⟨0, .setLimit "k" 2 2 0⟩
    let run := Guarded.run (ratedAct .saturating Env.uneventful) (curlEventLoopInit
      (Memory.keyed fun _ => some "k") ⟨none, (), none, []⟩)
    let refusing := Guarded.run
      (ratedAct .saturating { Env.uneventful with onPrepare := fun _ _ => (false, ()) })
      (curlEventLoopInit ⟨fun _ => { Request.init with
        url := some "u", rateLimit := some "k", onPrepare := true }, fun _ =>
        ⟨rfl, rfl, rfl, rfl, rfl, rfl⟩⟩ ⟨none, (), none, []⟩)
    ¬ (run [limits, .act (.call (.api (.submit 1 0))), .act .processCancelledAndPendingRequests,
        .act (.call (.api (.cancel 1))), .act .processCancelledAndPendingRequests]).Balanced "k" ∧
      ¬ (refusing [limits, .act (.call (.api (.submit 1 0))),
        .act .processCancelledAndPendingRequests]).Balanced "k" := by
  intro limits run refusing
  have hcancelled : (run [limits, .act (.call (.api (.submit 1 0))),
      .act .processCancelledAndPendingRequests, .act (.call (.api (.cancel 1))),
      .act .processCancelledAndPendingRequests]).world.current "k" = some 1 ∧
      (run [limits, .act (.call (.api (.submit 1 0))), .act .processCancelledAndPendingRequests,
        .act (.call (.api (.cancel 1))), .act .processCancelledAndPendingRequests]).active "k" =
          0 := by decide +kernel
  have hrefused : (refusing [limits, .act (.call (.api (.submit 1 0))),
      .act .processCancelledAndPendingRequests]).world.current "k" = some 1 ∧
      (refusing [limits, .act (.call (.api (.submit 1 0))),
        .act .processCancelledAndPendingRequests]).active "k" = 0 := by decide +kernel
  refine ⟨fun h => ?_, fun h => ?_⟩
  · obtain ⟨l, hl, hcount⟩ := Option.map_eq_some_iff.mp hcancelled.1
    exact absurd ((hcount.symm.trans (h l hl)).trans hcancelled.2) one_ne_zero
  · obtain ⟨l, hl, hcount⟩ := Option.map_eq_some_iff.mp hrefused.1
    exact absurd ((hcount.symm.trans (h l hl)).trans hrefused.2) one_ne_zero

end Loop

end CurlLoop
