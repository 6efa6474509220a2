import CurlLoop.Traffic

/-!
# The path of an action

An action of the loop does one thing after another, and most of them leave the transfers alone. Here
it is shown once that an action follows a path of a few kinds of steps, so that what is to be proved
of runs is proved for each kind.

Calls may come in at any time: from outside, or from a callback while its request is in the hand of
a pass. They are the errands of the path: something calm, the cancellation of a request, or the
arrival of one. A publication may also fail a request that waits for the resource, which is told of
it and destroyed. The other steps belong to the passes. A request is dropped because it is cancelled,
started if there is a slot and its dependencies are ready, or completed: its message is read, its
callback told, calls come in while it is *held*, and it is settled.

A path is recorded only where no hazard is met, and each step records what the loop knew when it was
taken. The passes were shown to keep the invariant of the scheduler, which is where these facts come
from.

## Main definitions

* `Regime` — which calls are made, attempts given up and messages read
* `Loop.Errands`, `Loop.Interlude`, `Loop.Path`
* `Loop.Admits` — an action under a regime
* `Loop.Kept` — what is to be shown of an invariant of the transfers

## Main results

* `AtRest.path_admits`, `Resting.path_act` — an action that meets no hazard follows a path
* `Path.kept` — an invariant of the transfers holds along a path
-/

namespace CurlLoop

open Function (update)

/-- A restriction on a run: which calls are made, which attempts are given up when their request is
cancelled, and which messages are read. -/
structure Regime (ω : Type) where
  calls : ApiCall → Prop
  drop : AttemptState → Prop
  read : Loop ω → Message → Prop

/-- A restriction on what happens to transfers: which are given up when their request is cancelled,
and which response codes they finish with. -/
structure Watch where
  drop : AttemptState → Prop
  settle : AttemptState → ℤ → Prop

/-- The callbacks make only calls of one kind. -/
structure Env.Makes {ω : Type} (env : Env ω) (calls : ApiCall → Prop) : Prop where
  onComplete : ∀ r w c, .api c ∈ (env.onComplete r w).1.calls → calls c
  onFailure : ∀ r easy code httpCode w c,
    .api c ∈ (env.onFailure r easy code httpCode w).1.calls → calls c
  onAborted : ∀ r w, ∀ c ∈ (env.onAborted r w).1.calls, calls c

/-- A call is of one kind, unless it is none that is safe from any thread. -/
def Call.Among (calls : ApiCall → Prop) : Call → Prop
  | .api c => calls c
  | _ => True

/-- The terms of a request that `curl_event_request_submit` took. -/
def Terms.submitted (q : Terms) : Terms :=
  { q with onRetry := if q.onRetry = none ∧ q.maxRetries ≠ 0 then some .defaultEnhanced
      else q.onRetry }

/-- Whoever is busy is in the hand of a pass. -/
def View.Holds (v : View) (busy : ReqId → Prop) : Prop := ∀ r, busy r → r ∈ v .hand

/-- It stays there while another request is taken up as well. -/
theorem View.Holds.takeUp {v : View} {busy : ReqId → Prop} (h : v.Holds busy) (p : Place)
    (l : List ReqId) (r : ReqId) :
    View.Holds (update (update v (.detached p) l) .hand (r :: v .hand))
      (fun b => busy b ∨ b = r) := by
  rintro b (hb | rfl)
  · rw [Function.update_self]
    exact List.mem_cons_of_mem r (h b hb)
  · rw [Function.update_self]
    exact List.mem_cons_self

variable {ω : Type}

/-- And while calls come in. -/
theorem View.Holds.undisturbed {v v' : View} {busy : ReqId → Prop} {s t : Loop ω} {strict : Prop}
    (h : v.Holds busy) (hu : Loop.Undisturbed strict v v' s t) : v'.Holds busy := fun r hr => by
  rw [hu.hand]
  exact h r hr

/-- The calls of a callback that is told of a failure come from what it replies. -/
theorem Env.Makes.callOnAborted {env : Env ω} {calls : ApiCall → Prop}
    (hm : env.Makes calls) (s : Loop ω) (r : ReqId) :
    ∀ c ∈ (s.callOnAborted env r).1, calls c := by
  rw [Loop.callOnAborted]
  split
  · exact hm.onAborted r _
  · exact fun c hc => absurd hc List.not_mem_nil

namespace Loop

variable {s t u : Loop ω} {r : ReqId} {m : MapId} {env : Env ω}

/-! ### Steps -/

/-- The request is owned, in no map and not first in line for a resource. -/
structure Aloof (s : Loop ω) (r : ReqId) : Prop where
  live : s.Live r
  maps : ∀ m, r ∉ s.maps m
  heads : ∀ id, s.resources.blockedHead id ≠ some r

theorem Aloof.queued (h : s.Aloof r) : r ∉ s.maps .queued := h.maps .queued

theorem Aloof.notWaiting (h : s.Aloof r) : s.NotWaiting r := ⟨h.maps .inactive, h.maps .refresh⟩

theorem Aloof.congr (h : s.Aloof r) (ha : t.accepted = s.accepted) (hd : t.destroyed = s.destroyed)
    (hm : t.maps = s.maps) (hres : t.resources = s.resources) : t.Aloof r :=
  ⟨⟨ha ▸ h.live.1, hd ▸ h.live.2⟩, hm ▸ h.maps, hres ▸ h.heads⟩

/-- How a request comes in. -/
inductive Entry (r : ReqId) (s t : Loop ω) : ApiCall → Prop
  | submit (priority : ℤ) :
    t.metrics = { s.metrics with totalRequests := s.metrics.totalRequests + 1 } →
    (t.req r).terms = (s.req r).terms.submitted → Entry r s t (.submit r priority)
  | loopSubmit (priority : ℤ) :
    t.metrics = { s.metrics with totalRequests := s.metrics.totalRequests + 1 } →
    (t.req r).terms = (s.req r).terms → Entry r s t (.loopSubmit r priority)
  | inject (b : ReqId) : t.metrics = s.metrics → (t.req r).terms = (s.req b).injected.terms →
    Entry r s t (.inject r b)

/-- A request arrives that was not there before, and has no transfer. -/
structure Arrives (env : Env ω) (r : ReqId) (s t : Loop ω) : Prop where
  fresh : r ∉ s.accepted
  traffic : t.traffic = { s.traffic with
    accepted := r :: s.accepted
    attempt := update s.traffic.attempt r (t.req r).attempt }
  easyHandle : (t.req r).easyHandle = none
  multiHandle : (t.req r).multiHandle = false
  world : Asked env s.world t.world
  others : ∀ b, b ≠ r → t.req b = s.req b
  resources : t.resources = s.resources
  maps : t.maps = s.maps
  num : t.num = s.num
  trace : t.trace = s.trace
  maxConcurrentRequests : t.maxConcurrentRequests = s.maxConcurrentRequests

/-- What calls do while some requests are busy, but for the requests they fail. -/
inductive Errands (env : Env ω) (calls : ApiCall → Prop) (busy : ReqId → Prop) (s : Loop ω) :
    Loop ω → Prop
  | refl : Errands env calls busy s s
  | calm {t u : Loop ω} : Errands env calls busy s t → Calm env t u → Errands env calls busy s u
  | cancel {t : Loop ω} (r : ReqId) : Errands env calls busy s t → t.Live r → calls (.cancel r) →
    Errands env calls busy s (t.curlEventLoopCancel r).2
  | arrives {t u : Loop ω} (r : ReqId) (c : ApiCall) : Errands env calls busy s t →
    Arrives env r t u → Entry r t u c → calls c → (∀ m, r ∉ t.maps m) → ¬ busy r →
    Errands env calls busy s u

/-- What calls do while a request is held, or none is. A request that waits for a resource may be
told that it failed, and destroyed. -/
inductive Interlude (env : Env ω) (calls : ApiCall → Prop) (held : Option ReqId) (s : Loop ω) :
    Loop ω → Prop
  | refl : Interlude env calls held s s
  | errands {t u : Loop ω} : Interlude env calls held s t →
    Errands env calls (held = some ·) t u → Interlude env calls held s u
  | abort {t u : Loop ω} (r : ReqId) : Interlude env calls held s t → t.Aloof r → held ≠ some r →
    Errands env calls (fun b => held = some b ∨ b = r) (t.callOnAborted env r).2 u → u.Aloof r →
    Interlude env calls held s (u.curlEventRequestDestroy r)

/-- What an action does to the transfers. -/
inductive Path (env : Env ω) (W : Regime ω) (s : Loop ω) : Loop ω → Prop
  | refl : Path env W s s
  | interlude {t u : Loop ω} : Path env W s t → Interlude env W.calls none t u → Path env W s u
  /-- A request on the cancelled list is destroyed. -/
  | drop {t : Loop ω} (r : ReqId) : Path env W s t → t.Live r → t.Mapped r →
    (∀ id, t.resources.blockedHead id ≠ some r) → (t.req r).isCancelled = true →
    W.drop (t.req r).attempt → Path env W s (t.cancelledRound r)
  /-- A request that was cancelled while it was pending is destroyed. -/
  | discard {t : Loop ω} (r : ReqId) : Path env W s t → t.Aloof r →
    (t.req r).isCancelled = true → Path env W s (t.curlEventRequestDestroy r)
  | start {t : Loop ω} (r : ReqId) : Path env W s t → t.Aloof r →
    sizeT (t.num .queued) < t.maxConcurrentRequests →
    t.resources.curlResourceAllReadyList (t.req r).depHead = true →
    Path env W s (t.curlEventLoopRequestStart env r)
  | complete {t u : Loop ω} (m : Message) (a : Transfer) : Path env W s t →
    t.transferOf m = some a → a.priv ∈ t.maps .queued → t.Live a.priv → W.read t m →
    Interlude env W.calls (some a.priv) (t.hear env m a.priv).2.2 u → u.Aloof a.priv →
    Path env W s (u.settle env a.priv m.httpCode (Message.success m) (t.hear env m a.priv).1)
  /-- An injected request is told that it is complete, and destroyed. -/
  | injected {t u : Loop ω} (r : ReqId) : Path env W s t → t.Aloof r →
    Interlude env W.calls (some r)
      (if (t.req r).onComplete then (t.tellComplete env r).2.2 else t) u → u.Aloof r →
    Path env W s (u.curlEventRequestDestroy r)

variable {W : Regime ω} {calls : ApiCall → Prop} {busy : ReqId → Prop} {held : Option ReqId}

theorem Errands.trans (h : Errands env calls busy s t) (h' : Errands env calls busy t u) :
    Errands env calls busy s u := by
  induction h' with
  | refl => exact h
  | calm _ ha ih => exact ih.calm ha
  | cancel r _ hl hc ih => exact ih.cancel r hl hc
  | arrives r c _ ha he hc hm hr ih => exact ih.arrives r c ha he hc hm hr

theorem Interlude.trans (h : Interlude env calls held s t) (h' : Interlude env calls held t u) :
    Interlude env calls held s u := by
  induction h' with
  | refl => exact h
  | errands _ he ih => exact ih.errands he
  | abort r _ hr hne he hu ih => exact ih.abort r hr hne he hu

/-- Nobody needs to be held. -/
theorem Interlude.free (h : Interlude env calls held s t) : Interlude env calls none s t := by
  have herrands : ∀ {busy busy' : ReqId → Prop} {s t : Loop ω}, (∀ b, busy' b → busy b) →
      Errands env calls busy s t → Errands env calls busy' s t := by
    intro busy busy' s t hbusy he
    induction he with
    | refl => exact .refl
    | calm _ ha ih => exact ih.calm ha
    | cancel r _ hl hc ih => exact ih.cancel r hl hc
    | arrives r c _ ha he hc hm hr ih => exact ih.arrives r c ha he hc hm fun hr' => hr (hbusy r hr')
  induction h with
  | refl => exact .refl
  | errands _ he ih => exact ih.errands (herrands (fun _ hb => nomatch hb) he)
  | abort r _ ht _ he hu ih =>
    refine ih.abort r ht nofun (herrands (fun b hb => ?_) he) hu
    exact hb.elim (fun h => nomatch h) .inr

theorem Calm.errands (h : Calm env s t) : Errands env calls busy s t := Errands.refl.calm h

theorem Errands.interlude (h : Errands env calls (held = some ·) s t) :
    Interlude env calls held s t := Interlude.refl.errands h

theorem Calm.interlude (h : Calm env s t) : Interlude env calls held s t := h.errands.interlude

theorem Interlude.path (h : Interlude env W.calls none s t) : Path env W s t :=
  Path.refl.interlude h

theorem Calm.path (h : Calm env s t) : Path env W s t := h.interlude.path

theorem Path.trans (h : Path env W s t) (h' : Path env W t u) : Path env W s u := by
  induction h' with
  | refl => exact h
  | interlude _ hi ih => exact ih.interlude hi
  | drop r _ hl hm hh hc hw ih => exact ih.drop r hl hm hh hc hw
  | discard r _ hr hc ih => exact ih.discard r hr hc
  | start r _ hr hn hd ih => exact ih.start r hr hn hd
  | complete m a _ ha hq hl hw hi hu ih => exact ih.complete m a ha hq hl hw hi hu
  | injected r _ hr hi hu ih => exact ih.injected r hr hi hu

/-! ### Calls -/

variable {v v' : View} {C : List ReqId} {l : List ReqId} {p : Place} {strict : Prop}

/-- A request that is elsewhere is not in a map. -/
theorem WF.notMem_map (h : s.WF v C) (hr : r ∈ v p) (hp : p ≠ .map m) : r ∉ s.maps m := by
  intro hm
  rw [h.located.maps] at hm
  exact hp (h.located.placed.inj hr hm)

/-- A request that is elsewhere is not first in line. -/
theorem Located.heads_ne (h : Located s v) (hr : r ∈ v p) (hp : ∀ id, p ≠ .blocked id) (id : ResId) :
    s.resources.blockedHead id ≠ some r := by
  intro hid
  have hhead := (h.linked.blocked id).head_eq
  rw [hid] at hhead
  exact hp id (h.placed.inj hr (List.mem_of_head? hhead.symm))

theorem WF.aloof (h : s.WF v C) (hr : r ∈ v p) (hp : ∀ m, p ≠ .map m)
    (hb : ∀ id, p ≠ .blocked id) : s.Aloof r :=
  ⟨h.located.live_of_mem hr, fun m => h.notMem_map hr (hp m), h.located.heads_ne hr hb⟩

theorem WF.notMem_map_of_fresh (h : s.WF v C) (hr : r ∉ s.accepted) (m : MapId) : r ∉ s.maps m := by
  intro hm
  rw [h.located.maps] at hm
  exact hr (h.located.accepted_of_mem hm)

theorem WF.errands_arrives (h : s.WF v C) (hbusy : v.Holds busy) {c : ApiCall} (hc : calls c)
    (he : Entry r s t c) (ha : Arrives env r s t) : Errands env calls busy s t :=
  Errands.refl.arrives r c ha he hc (h.notMem_map_of_fresh ha.fresh) fun hr =>
    ha.fresh (h.located.accepted_of_mem (hbusy r hr))

/-- A request that was not accepted yet arrives on the pending list. -/
theorem arrives_pushPending (hr : r ∉ s.accepted) {w : ω} (hw : Asked env s.world w)
    {f : Request → Request} (hf : (f (s.req r)).Unsubmitted) :
    Arrives env r s ((({ s with world := w } : Loop ω).modifyReq r f).pushPending r) := by
  have hreq : ((({ s with world := w } : Loop ω).modifyReq r f).pushPending r).req =
      update s.req r ((f (s.req r)).setPending true) := by
    change update (update s.req r (f (s.req r))) r
      ((update s.req r (f (s.req r)) r).setPending true) = _
    rw [Function.update_self, Function.update_idem]
  refine ⟨hr, ?_, ?_, ?_, hw, fun b hb => ?_, rfl, rfl, rfl, rfl, rfl⟩
  · rw [traffic, hreq, Function.update_self]
    have hattempt : (fun b => (update s.req r ((f (s.req r)).setPending true) b).attempt) =
        update s.traffic.attempt r ((f (s.req r)).setPending true).attempt := by
      funext b
      rcases eq_or_ne b r with rfl | hbr
      · rw [Function.update_self, Function.update_self]
      · rw [Function.update_of_ne hbr, Function.update_of_ne hbr]
        rfl
    rw [hattempt]
    rfl
  · rw [hreq, Function.update_self]
    exact hf.easyHandle
  · rw [hreq, Function.update_self]
    exact hf.multiHandle
  · rw [hreq, Function.update_of_ne hb]

/-- What is written to it first decides its terms. -/
theorem terms_pushPending (s : Loop ω) (r : ReqId) (w : ω) (f : Request → Request) :
    (((({ s with world := w } : Loop ω).modifyReq r f).pushPending r).req r).terms =
      (f (s.req r)).terms := by
  change (update (update s.req r (f (s.req r))) r
    ((update s.req r (f (s.req r)) r).setPending true) r).terms = _
  rw [Function.update_self, Function.update_self]
  rfl

theorem WF.errands_submit (h : s.WF v C) (hbusy : v.Holds busy) {priority : ℤ}
    (hc : calls (.submit r priority))
    (hz : (s.curlEventRequestSubmit env r priority).2.Spared strict) :
    Errands env calls busy s (s.curlEventRequestSubmit env r priority).2 := by
  rw [curlEventRequestSubmit] at hz ⊢
  dsimp only at hz ⊢
  split
  · exact .refl
  · split
    · exact .refl
    · rename_i hurl hbusy'
      rw [if_neg hurl, if_neg hbusy'] at hz
      have hr : r ∉ s.accepted := notMem_of_pushPending hz
      have hun := h.located.unsubmitted r hr
      refine h.errands_arrives hbusy hc (.submit priority rfl (terms_pushPending s r _ _))
        (arrives_pushPending hr (Asked.refl _).macroNow ?_)
      exact ⟨hun.multiHandle, hun.easyHandle, hun.isInjected, hun.isCancelled, hun.isPending,
        hun.depsRetained⟩

theorem WF.errands_loopSubmit (h : s.WF v C) (hbusy : v.Holds busy) {priority : ℤ}
    (hc : calls (.loopSubmit r priority))
    (hz : (s.curlEventLoopSubmit env r priority).Spared strict) :
    Errands env calls busy s (s.curlEventLoopSubmit env r priority) := by
  have hr : r ∉ s.accepted := notMem_of_pushPending hz
  have hun := h.located.unsubmitted r hr
  refine h.errands_arrives hbusy hc (.loopSubmit priority rfl (terms_pushPending s r _ _))
    (arrives_pushPending hr (Asked.refl _).macroNow ?_)
  exact ⟨hun.multiHandle, hun.easyHandle, hun.isInjected, hun.isCancelled, hun.isPending,
    hun.depsRetained⟩

theorem WF.errands_inject (h : s.WF v C) (hbusy : v.Holds busy) {b : ReqId}
    (hc : calls (.inject r b)) (hz : (s.curlEventLoopInject r b).Spared strict) :
    Errands env calls busy s (s.curlEventLoopInject r b) := by
  have hr : r ∉ s.accepted := notMem_of_inject hz
  have hreq : (s.curlEventLoopInject r b).req = update s.req r (s.req b).injected := rfl
  have hself : (s.curlEventLoopInject r b).req r = (s.req b).injected := by
    rw [hreq, Function.update_self]
  refine h.errands_arrives hbusy hc (.inject b rfl (congrArg Request.terms hself))
    ⟨hr, ?_, ?_, ?_, .refl _, fun b hb => ?_, rfl, rfl, rfl, rfl, rfl⟩
  · rw [traffic, hreq, Function.update_self]
    have hattempt : (fun c => (update s.req r (s.req b).injected c).attempt) =
        update s.traffic.attempt r (s.req b).injected.attempt := by
      funext c
      rcases eq_or_ne c r with rfl | hcr
      · rw [Function.update_self, Function.update_self]
      · rw [Function.update_of_ne hcr, Function.update_of_ne hcr]
        rfl
    rw [hattempt]
    rfl
  · rw [hself]
    rfl
  · rw [hself]
    rfl
  · rw [hreq, Function.update_of_ne hb]

/-- A request that is cancelled without a hazard is owned. -/
theorem live_of_cancel (hz : (s.curlEventLoopCancel r).2.Spared strict) : s.Live r := by
  rw [curlEventLoopCancel] at hz
  dsimp only at hz
  by_contra hno
  split at hz
  · exact hz.not_of_beware (by simp) hno
  · split at hz
    · exact hz.not_of_beware (by simp) hno
    · exact hz.beware.2.not_of_beware (by simp) hno

theorem WF.errands_apiCall (h : s.WF v C) (hbusy : v.Holds busy) (c : ApiCall) (hc : calls c)
    (hz : (s.apiCall env c).Spared strict) : Errands env calls busy s (s.apiCall env c) := by
  cases c with
  | submit r priority => exact h.errands_submit hbusy hc hz
  | loopSubmit r priority => exact h.errands_loopSubmit hbusy hc hz
  | cancel r =>
    exact Errands.refl.cancel r (live_of_cancel hz) hc
  | inject w r => exact h.errands_inject hbusy hc hz
  | registerAsync thread payload cleanup =>
    refine Calm.errands (Aside.calm ⟨rfl, .refl _, fun _ hr => hr, fun _ _ hr => .inl hr⟩ ?_ ?_ ?_)
    · rfl
    · rfl
    · exact fun _ => rfl
  | publishAsync thread id payload cleanup => exact .calm .refl (.idle rfl rfl rfl rfl rfl rfl)
  | releaseAsync thread id => exact .calm .refl (.idle rfl rfl rfl rfl rfl rfl)

theorem WF.errands_apiCalls (h : s.WF v C) (hbusy : v.Holds busy) (cs : List ApiCall)
    (hcs : ∀ c ∈ cs, calls c) (hz : (s.apiCalls env cs).Spared strict) :
    Errands env calls busy s (s.apiCalls env cs) := by
  induction cs generalizing s v C with
  | nil => exact .refl
  | cons c cs ih =>
    have hmono := (evolves_foldl (fun s c => evolves_apiCall env s c) cs
      (s.apiCall env c)).spared hz
    obtain ⟨v₁, C₁, hwf, hund⟩ := h.apiCall c hmono
    exact (h.errands_apiCall hbusy c (hcs c List.mem_cons_self) hmono).trans
      (ih hwf (hbusy.undisturbed hund) (fun c hc => hcs c (List.mem_cons_of_mem _ hc)) hz)

/-- One of the requests a publication finds waiting. -/
theorem WF.interlude_wakeOrFail {id : ResId} {failed : Bool} (h : s.WF v C)
    (hheld : v.Holds (held = some ·)) (hm : env.Makes calls)
    (hp : v (.detached (.blocked id)) = r :: l) (hz : (s.wakeOrFail env failed r).Spared strict) :
    Interlude env calls held s (s.wakeOrFail env failed r) := by
  have hhand : update (update v (.detached (.blocked id)) l) .hand (r :: v .hand) .hand =
      r :: v .hand := Function.update_self ..
  have hr : r ∈ update (update v (.detached (.blocked id)) l) .hand (r :: v .hand) .hand :=
    hhand ▸ List.mem_cons_self
  have hwf := (h.takeUp hp).setNextPending_hand hr none
  have hother : held ≠ some r := fun heq => by
    have := h.located.placed.inj (hheld r heq) (hp ▸ List.mem_cons_self)
    exact absurd this (by simp)
  have hunlink : Calm env s (s.setNextPending r none) := calm_setNextPending s r none
  rw [Loop.wakeOrFail] at hz ⊢
  dsimp only at hz ⊢
  split
  · rename_i hfailed
    rw [if_pos hfailed] at hz
    obtain ⟨w, tr, heq⟩ := callOnAborted_eq env (s.setNextPending r none) r
    have hcalled : ({ s.setNextPending r none with world := w, trace := tr } : Loop ω).WF _ C :=
      ⟨hwf.located, hwf.marked⟩
    rw [← heq] at hcalled
    have hz' := (evolves_destroy (q := False) _ r).spared hz
    have hcalls := hcalled.errands_apiCalls (hheld.takeUp _ l r)
      ((s.setNextPending r none).callOnAborted env r).1 (hm.callOnAborted _ r) hz'
    obtain ⟨v₁, C₁, hwf', hund⟩ := hcalled.apiCalls
      ((s.setNextPending r none).callOnAborted env r).1 hz'
    have hr₁ : r ∈ v₁ .hand := (hund.hand.trans hhand) ▸ List.mem_cons_self
    exact hunlink.interlude.abort r (hwf.aloof hr (by simp) (by simp)) hother hcalls
      (hwf'.aloof hr₁ (by simp) (by simp))
  · have hrequeue : Calm env (s.setNextPending r none)
        ((s.setNextPending r none).requeuePending r) := .idle rfl rfl rfl rfl rfl rfl
    exact (hunlink.trans hrequeue).interlude

theorem WF.interlude_publish (h : s.WF v C) (hheld : v.Holds (held = some ·))
    (hm : env.Makes calls) {id : ResId} (hid : v (.detached (.blocked id)) = [])
    (payload : Option Payload) (cleanup : Bool)
    (hz : (s.curlEventResPublish env id payload cleanup).Spared strict) :
    Interlude env calls held s (s.curlEventResPublish env id payload cleanup) := by
  have hdet : (s.setResources (s.resources.publishPayload id payload cleanup).2).WF
      (update (update v (.blocked id) []) (.detached (.blocked id)) (v (.blocked id))) C :=
    ⟨h.located.detachBlocked hid (Resources.blockedHead_publishPayload s.resources id _ _)
      (Resources.blockedTail_publishPayload s.resources id _ _)
      fun _ hj => Resources.awaited_publishPayload _ _ hj, h.marked⟩
  have hlist : update (update v (.blocked id) []) (.detached (.blocked id)) (v (.blocked id))
      (.detached (.blocked id)) = v (.blocked id) := Function.update_self ..
  have hstart : View.Holds (update (update v (.blocked id) []) (.detached (.blocked id))
      (v (.blocked id))) (held = some ·) := fun b hb => by
    rw [Function.update_of_ne (by simp), Function.update_of_ne (by simp)]
    exact hheld b hb
  obtain ⟨v', C', -, -, -, hpath⟩ := hdet.forEachHandled (p := .blocked id)
    (f := Loop.wakeOrFail env payload.isNone)
    (P := fun v' t => v'.Holds (held = some ·) ∧ Interlude env calls held s t) (.inr (by simp))
    (fun r t ht => (evolves_wakeOrFail env payload.isNone r t).spared ht)
    (fun r l v₁ C₁ t ht hp hP hz => by
      obtain ⟨v₂, C₂, hwf, hh⟩ := ht.wakeOrFail hp hz
      refine ⟨v₂, C₂, hwf, hh, fun b hb => ?_, hP.2.trans (ht.interlude_wakeOrFail hP.1 hm hp hz)⟩
      rw [hh.hand]
      exact hP.1 b hb)
    (a := (s.resources.publishPayload id payload cleanup).1) (by
      rw [hlist, Resources.publishPayload_fst]
      exact h.located.linked.blocked id) ⟨hstart, (calm_setResources
        (Resources.subHeads_publishPayload s.resources id payload cleanup)).interlude⟩ hz
  exact hpath

theorem WF.interlude_call (h : s.WF v C) (hheld : v.Holds (held = some ·)) (hm : env.Makes calls)
    (hv : v.NoneWoken) (c : Call) (hc : c.Among calls) (hz : (s.call env c).Spared strict) :
    Interlude env calls held s (s.call env c) := by
  cases c with
  | api c => exact (h.errands_apiCall hheld c hc hz).interlude
  | declare => exact (calm_declare s).interlude
  | register payload cleanup =>
    have hdeclare : Interlude env calls held s s.curlEventResDeclare.2 := (calm_declare s).interlude
    exact hdeclare.trans (h.declare.interlude_publish hheld hm (hv _) payload cleanup hz)
  | publish id payload cleanup => exact h.interlude_publish hheld hm (hv id) payload cleanup hz
  | addref id =>
    exact (calm_setResources (Resources.sameWaiters_addref s.resources id).subHeads).interlude
  | release id => exact (calm_release s id).interlude
  | autoreleaseOwner id enable =>
    exact (calm_setResources
      (Resources.sameWaiters_autoreleaseOwner s.resources id enable).subHeads).interlude

/-- The calls of a callback. -/
theorem WF.interlude_calls (h : s.WF v C) (hheld : v.Holds (held = some ·)) (hm : env.Makes calls)
    (hv : v.NoneWoken) (cs : List Call) (hcs : ∀ c ∈ cs, c.Among calls)
    (hz : (s.calls env cs).Spared strict) : Interlude env calls held s (s.calls env cs) := by
  induction cs generalizing s v C with
  | nil => exact .refl
  | cons c cs ih =>
    have hmono := (evolves_foldl (fun s c => evolves_call env s c) cs
      (s.call env c)).spared hz
    obtain ⟨v₁, C₁, hwf, hund⟩ := h.call hv c hmono
    exact (h.interlude_call hheld hm hv c (hcs c List.mem_cons_self) hmono).trans
      (ih hwf (hheld.undisturbed hund) (hund.noneWoken hv)
        (fun c hc => hcs c (List.mem_cons_of_mem _ hc)) hz)

/-- An operation of the inbox. -/
theorem WF.interlude_applyOp (h : s.WF v C) (hheld : v.Holds (held = some ·))
    (hm : env.Makes calls) (hv : v.NoneWoken) (op : ResOp) (hz : (s.applyOp env op).Spared strict) :
    Interlude env calls held s (s.applyOp env op) := by
  have hop : ({ s with applied := op :: s.applied } : Loop ω).WF v C := ⟨h.located, h.marked⟩
  have hrecord : Calm env s { s with applied := op :: s.applied } := .idle rfl rfl rfl rfl rfl rfl
  rw [Loop.applyOp] at hz ⊢
  cases hk : op.kind with
  | release => exact (hrecord.trans (calm_release _ op.id)).interlude
  | register | publish =>
    rw [hk] at hz
    exact hrecord.interlude.trans
      (hop.interlude_publish hheld hm (hv op.id) op.payload op.cleanup hz)

/-- The calls of a callback are of the kind the callbacks make. -/
theorem among_tellComplete (hm : env.Makes calls) (s : Loop ω) (r : ReqId) :
    ∀ c ∈ (s.tellComplete env r).2.1, c.Among calls := by
  rw [tellComplete]
  split
  · intro c hc
    cases c with
    | api c => exact hm.onComplete r _ c hc
    | _ => trivial
  · exact fun c hc => absurd hc List.not_mem_nil

theorem among_tellFailure (hm : env.Makes calls) (s : Loop ω) (r : ReqId) (msg : Message) :
    ∀ c ∈ (s.tellFailure env r msg).2.1, c.Among calls := by
  rw [tellFailure]
  split
  · intro c hc
    cases c with
    | api c => exact hm.onFailure r _ _ _ _ c hc
    | _ => trivial
  · exact fun c hc => absurd hc List.not_mem_nil

theorem among_hear (hm : env.Makes calls) (s : Loop ω) (msg : Message) (r : ReqId) :
    ∀ c ∈ (s.hear env msg r).2.1, c.Among calls := by
  rw [hear]
  split
  · exact among_tellComplete hm _ r
  · exact among_tellFailure hm _ r msg

/-! ### The first pass -/

theorem holds_none (v : View) : v.Holds ((none : Option ReqId) = some ·) := fun _ h => nomatch h

/-- Whoever is ready is started. -/
theorem path_start_ready (hr : s.Aloof r) (hready : (s.requestReady env r).1 = true) :
    Path env W (s.requestReady env r).2 ((s.requestReady env r).2.curlEventLoopRequestStart env r) := by
  obtain ⟨hslot, hdeps⟩ := slot_of_requestReady hready
  obtain ⟨w, hw⟩ := requestReady_eq env s r
  rw [hw]
  exact Path.refl.start r (hr.congr rfl rfl rfl rfl) hslot hdeps

/-- The request in hand is scheduled. -/
theorem WF.path_schedulePending (h : s.WF v C) (hh : v .hand = r :: l)
    (hm : (s.req r).multiHandle = false) (hp : (s.req r).isPending = false) :
    Path env W s (s.schedulePending env r) := by
  have hr : r ∈ v .hand := hh ▸ List.mem_cons_self
  obtain ⟨hret, -, hsame⟩ := h.retainDepsOnce hr
  have hwait := hret.checkAndBlock hh (hsame.multiHandle.trans hm) (hsame.isPending.trans hp)
    ((s.retainDepsOnce r).req r).depHead
  have hblock : Calm env s ((s.retainDepsOnce r).requestWaitingOnDependencies r).2 :=
    (calm_retainDepsOnce s r).trans (calm_checkAndBlockList _ fun _ hid =>
      retains_retainDepsOnce (h.located.accepted_of_mem hr) hid)
  rw [Loop.schedulePending]
  dsimp only
  split
  · exact hblock.path
  · rename_i hfree
    have hfree' : ((s.retainDepsOnce r).curlResourceCheckAndBlockList r
        ((s.retainDepsOnce r).req r).depHead).1 = false := Bool.eq_false_iff.mpr hfree
    rw [hfree'] at hwait
    have haloof := hwait.1.aloof hr (by simp) (by simp)
    have hready := hblock.trans (calm_requestReady env _ r)
    split
    · rename_i hgo
      exact hready.path.trans (path_start_ready haloof hgo)
    · exact (hready.trans (calm_enqueueRequest _ r)).path

theorem WF.path_pendingRound (h : s.WF v C) (hh : v .hand = r :: l)
    (hm : (s.req r).multiHandle = false) : Path env W s (s.pendingRound env r) := by
  have hr : r ∈ v .hand := hh ▸ List.mem_cons_self
  have hwf : ((s.modifyReq r fun q => q.setPending false).setNextPending r none).WF v C :=
    (h.modifyReq_hand hr fun hc => hc).setNextPending_hand hr none
  have hmark : Calm env s ((s.modifyReq r fun q => q.setPending false).setNextPending r none) :=
    (calm_modifyReq s r rfl rfl rfl fun hr => hr).trans (calm_setNextPending _ r none)
  have hreq : ((s.modifyReq r fun q => q.setPending false).setNextPending r none).req r =
      (s.req r).setPending false := Function.update_self ..
  rw [Loop.pendingRound]
  split
  · rename_i hcancelled
    exact hmark.path.discard r (hwf.aloof hr (by simp) (by simp)) hcancelled
  · refine hmark.path.trans (hwf.path_schedulePending hh ?_ ?_)
    · rw [hreq]
      exact hm
    · rw [hreq]
      rfl

/-- The walk over the cancelled list, when each request on it is in its map. -/
theorem Located.path_walkCancelled (h : Located s v)
    (hC : CancelledList s.req s.nextCancelled C.head? s.accepted s.destroyed C)
    (hnone : s.cancelledRequests = none) (hmapped : ∀ b ∈ C, s.Mapped b)
    (hdrop : ∀ b ∈ C, W.drop (s.req b).attempt) :
    Path env W s (s.forEachCancelled C.head? Loop.cancelledRound) := by
  have hlen : C.length ≤ s.accepted.length :=
    (List.subperm_of_subset hC.nodup fun b hb => (hC.live b hb).1).length_le
  have key := Intrusive.forEach_rule (k := fun (t : Loop ω) r => t.nextCancelled r)
    (f := fun r t => Loop.cancelledRound r (t.follow r)) (G := fun _ => True)
    (P := fun l t => (∃ v', WalkCancelled s v C l t v') ∧ (∀ b ∈ l, t.req b = s.req b) ∧
      Path env W s t) (fun _ _ _ => trivial) (fun r l t ht _ => ?_)
    hlen hC.chain ⟨⟨v, h, hC, hnone, fun _ h => h, hmapped, fun b hb hb' => absurd hb hb', rfl, rfl,
      fun _ _ => rfl, fun _ _ _ h => h, fun _ _ => rfl⟩, fun _ _ => rfl, .refl⟩ trivial
  · exact key.2.2
  · obtain ⟨⟨v', ht⟩, hreq, hpath⟩ := ht
    have hr : r ∈ v' (.map (cancelledMap (t.req r))) := by
      rw [← ht.located.maps]
      exact ht.mapped r List.mem_cons_self
    have hrl : r ∉ l := (List.nodup_cons.mp ht.marked.nodup).1
    rw [ht.located.follow hr]
    refine ⟨⟨ht.round, fun b hb => ?_, hpath.drop r (ht.located.live_of_mem hr)
      (ht.mapped r List.mem_cons_self) (ht.located.heads_ne hr (by simp))
      (ht.marked.cancelled r List.mem_cons_self) ?_⟩,
      fun b _ => congrFun (nextCancelled_cancelledRound t r) b⟩
    · rw [req_cancelledRound t (ne_of_mem_of_not_mem hb hrl)]
      exact hreq b (List.mem_cons_of_mem r hb)
    · rw [hreq r List.mem_cons_self]
      exact hdrop r (ht.subset List.mem_cons_self)

theorem AtRest.path_processCancelledAndPendingRequests (h : s.AtRest strict)
    (hdrop : ∀ r ∈ s.cancelledList, W.drop (s.req r).attempt)
    (hz : (s.processCancelledAndPendingRequests env).Spared strict) :
    Path env W s (s.processCancelledAndPendingRequests env) := by
  obtain ⟨v, C, hwf, hv⟩ := h
  rw [hwf.marked.cancelledList_eq] at hdrop
  have hempty := hv.detached .pending (.inr (by simp))
  have hmapped := hwf.mapped_cancelled hempty hz
  obtain ⟨hloc, hC⟩ := hwf.detachBoth hempty
  obtain ⟨v₁, hwalk, -, hchain⟩ := hwf.sweepCancelled hempty hmapped
  rw [Loop.processCancelledAndPendingRequests] at hz ⊢
  rw [hwf.marked.chain.head_eq] at hz ⊢
  have hfirst : Path env W s.detachCancelled.detachPending
      (s.detachCancelled.detachPending.forEachCancelled C.head? Loop.cancelledRound) :=
    hloc.path_walkCancelled hC rfl hmapped hdrop
  have hdetach : Calm env s s.detachCancelled.detachPending := .idle rfl rfl rfl rfl rfl rfl
  obtain ⟨v₂, C₂, -, -, hpath⟩ := hwalk.wf.forEachHandled (p := .pending)
    (f := Loop.pendingRound env) (P := fun _ t => Path env W s t) (.inr (by simp))
    (fun r t ht => (evolves_pendingRound (q := False) env r t).spared ht)
    (fun r l v C t ht hp hP hz => by
      obtain ⟨v', hwf', hh, _⟩ := ht.walkPending_round hp hz
      have hround : Path env W t (t.pendingRound env r) :=
        (ht.takeUp hp).path_pendingRound (Function.update_self ..)
          (ht.located.fits (.detached .pending) r (hp ▸ List.mem_cons_self))
      exact ⟨v', C, hwf', hh, hP.trans hround⟩)
    hchain (hdetach.path.trans hfirst) hz
  exact hpath

/-! ### The second pass -/

theorem path_rateLimitedRound (env : Env ω) (now : ℕ) (p : List ReqId × Loop ω)
    (hr : p.2.Aloof r) {p' : List ReqId × Loop ω}
    (hp : rateLimitedRound env now r p = .done p' ∨ rateLimitedRound env now r p = .yield p') :
    Path env W p.2 p'.2 := by
  have hf : Calm env p.2 (p.2.follow r) := calm_follow p.2 r
  have hr' : (p.2.follow r).Aloof r := by
    rw [follow, if_neg hr.live.2]
    exact hr
  have hl := hf.trans (calm_requestIsRateLimited env (p.2.follow r) p.1 hr'.notWaiting)
  have hready := hl.trans (calm_requestReady env _ r)
  rw [rateLimitedRound] at hp
  dsimp only at hp
  split at hp
  · obtain rfl : p' = _ := by simpa [eq_comm] using hp
    exact hf.path
  · split at hp
    · obtain rfl : p' = _ := by simpa [eq_comm] using hp
      exact hl.path
    · rename_i hfree
      split at hp
      · rename_i hgo
        obtain rfl : p' = _ := by simpa [eq_comm] using hp
        refine hready.path.trans (path_start_ready ?_ hgo)
        obtain ⟨w, hw⟩ | ⟨w, due, hw⟩ := requestIsRateLimited_cases env (p.2.follow r) p.1 r
        · rw [hw]
          exact hr'.congr rfl rfl rfl rfl
        · rw [hw] at hfree
          exact absurd rfl hfree
      · obtain rfl : p' = _ := by simpa [eq_comm] using hp
        exact hready.path

theorem AtRest.path_moveRateLimited (h : s.AtRest strict)
    (hz : (s.moveRateLimited env).Spared strict) : Path env W s (s.moveRateLimited env) := by
  obtain ⟨v, C, hwf, hv⟩ := h
  have hstart : Sorting strict (s.maps .rateLimited,
      ((s.setMap .rateLimited []).ask env.macroNow).2) := by
    have hdet := hwf.located.detachMap (m := .rateLimited) (by simp)
      (hv.detached _ (.inr (by simp)))
    refine ⟨_, C, ⟨hdet, hwf.marked⟩, ?_, hv.detach (by simp) (by simp)⟩
    rw [Function.update_self, hwf.located.maps]
  have hdetach : Calm env s ((s.setMap .rateLimited []).ask env.macroNow).2 :=
    (calm_setRateLimited s []).trans (calm_world (Asked.refl _).macroNow)
  have haloof : ∀ {r : ReqId} {p : List ReqId × Loop ω}, Sorting strict p → p.1.head? = some r →
      p.2.Aloof r := by
    rintro r p ⟨v, C, hwf, hp, -⟩ hr
    exact hwf.aloof (p := .detached (.map .rateLimited)) (hp ▸ List.mem_of_head? hr) nofun nofun
  have h1 := fun n => OrderedMap.whileFirst_rule
    (g := fun p : List ReqId × Loop ω => p.1.head?)
    (f := rateLimitedRound env (env.macroNow s.world).1)
    (P := fun p => p.2.Spared strict → Sorting strict p ∧ Path env W s p.2)
    (fun r p p' hP hr hb hz' => by
      obtain ⟨hsort, hpath⟩ :=
        hP ((evolves_rateLimitedRound (q := False) env _ r p p' (.inl hb)).spared hz')
      exact ⟨hsort.round hr (.inl hb) hz',
        hpath.trans (path_rateLimitedRound env _ p (haloof hsort hr) (.inl hb))⟩)
    (fun r p p' hP hr hb hz' => by
      obtain ⟨hsort, hpath⟩ :=
        hP ((evolves_rateLimitedRound (q := False) env _ r p p' (.inr hb)).spared hz')
      exact ⟨hsort.round hr (.inr hb) hz',
        hpath.trans (path_rateLimitedRound env _ p (haloof hsort hr) (.inr hb))⟩)
    (n := n) (fun _ => ⟨hstart, hdetach.path⟩)
  have h2 := fun n n' => OrderedMap.whileFirst_rule
    (g := fun p : List ReqId × Loop ω => (p.2.maps .rateLimited).head?)
    (f := mergeRound) (P := fun p => p.2.Spared strict → Path env W s p.2)
    (fun r p p' _ _ hb => by simp [mergeRound] at hb)
    (fun r p p' hP hr hb hz' => by
      obtain rfl := ForInStep.yield.inj hb
      have herase : Calm env p.2 ((p.2.follow r).eraseMap .rateLimited r) :=
        (calm_follow p.2 r).trans (calm_eraseMap _ (by decide) r)
      exact (hP (hz'.of_suffix (hazards_follow p.2 r ▸ List.suffix_rfl))).trans herase.path)
    (n := n') (fun hz' => (h1 n hz').2)
  rw [Loop.moveRateLimited] at hz ⊢
  exact (h2 _ _ hz).trans (calm_setRateLimited _ _).path

/-- What the invariant says of a request in a map. -/
theorem AtRest.mapped (h : s.AtRest strict) (hr : r ∈ s.maps m) :
    s.Live r ∧ (s.maps m).Nodup ∧ (∀ m', m' ≠ m → r ∉ s.maps m') ∧
      ∀ id, s.resources.blockedHead id ≠ some r := by
  obtain ⟨v, C, hwf, -⟩ := h
  rw [hwf.located.maps] at hr
  refine ⟨hwf.located.live_of_mem hr, ?_, fun m' hm => ?_, hwf.located.heads_ne hr nofun⟩
  · rw [hwf.located.maps]
    exact hwf.located.placed.nodup _
  · exact hwf.notMem_map hr fun heq => hm (Place.map.inj heq).symm

theorem path_waitingRound (h : s.AtRest strict) (hm : m = .refresh ∨ m = .inactive)
    (hr : r ∈ s.maps m) {s' : Loop ω}
    (hs : waitingRound env m r s = .done s' ∨ waitingRound env m r s = .yield s') :
    Path env W s s' := by
  obtain ⟨hlive, honce, hother, hheads⟩ := h.mapped hr
  have hqueued : m ≠ .queued := by rcases hm with rfl | rfl <;> decide
  have hlimited : m ≠ .rateLimited := by rcases hm with rfl | rfl <;> decide
  rw [waitingRound, follow, if_neg hlive.2] at hs
  dsimp only at hs
  have hl := calm_waitingLimited env s hqueued hlimited honce hother
  have hready := hl.trans (calm_requestReady env _ r)
  split at hs
  · obtain rfl : s' = _ := by simpa [eq_comm] using hs
    exact (hl.trans (calm_addNum _ hqueued (-1))).path
  · rename_i hfree
    obtain ⟨w, hw⟩ | ⟨w, due, hw⟩ := requestIsRateLimited_cases env s (s.maps m) r
    · rw [hw] at hs hready
      split at hs
      · rename_i hgo
        obtain rfl : s' = _ := by simpa [eq_comm] using hs
        obtain ⟨hslot, hdeps⟩ := slot_of_requestReady hgo
        obtain ⟨w', hw'⟩ := requestReady_eq env
          (({ s with world := w } : Loop ω).setMap m (s.maps m)) r
        have hnum := (hready.trans (calm_eraseMap _ hqueued r)).trans (calm_addNum _ hqueued (-1))
        rw [hw'] at hnum ⊢
        refine hnum.path.start r ⟨hlive, fun m' => ?_, hheads⟩ ?_ hdeps
        · change r ∉ update (update s.maps m (s.maps m)) m ((update s.maps m (s.maps m) m).erase r) m'
          rcases eq_or_ne m' m with rfl | hne
          · rw [Function.update_self, Function.update_self]
            exact fun hmem => (honce.mem_erase_iff.mp hmem).1 rfl
          · rw [Function.update_of_ne hne, Function.update_of_ne hne]
            exact hother m' hne
        · change sizeT (update s.num m (s.num m + -1) .queued) < s.maxConcurrentRequests
          rw [Function.update_of_ne hqueued.symm]
          exact hslot
      · obtain rfl : s' = _ := by simpa [eq_comm] using hs
        exact hready.path
    · rw [hw] at hfree
      exact absurd rfl hfree

theorem AtRest.path_moveWaiting (h : s.AtRest strict) (hm : m = .refresh ∨ m = .inactive)
    (hz : (s.moveWaiting env m).Spared strict) : Path env W s (s.moveWaiting env m) := by
  have key := OrderedMap.whileFirst_rule (g := fun t : Loop ω => (t.maps m).head?)
    (f := Loop.waitingRound env m)
    (P := fun t : Loop ω => t.Spared strict → t.AtRest strict ∧ Path env W s t)
    (fun r t t' hP hr hb hz' => by
      obtain ⟨hrest, hpath⟩ :=
        hP ((evolves_waitingRound (q := False) env m r t t' (.inl hb)).spared hz')
      exact ⟨hrest.waitingRound hm hr (.inl hb) hz',
        hpath.trans (path_waitingRound hrest hm (List.mem_of_head? hr) (.inl hb))⟩)
    (fun r t t' hP hr hb hz' => by
      obtain ⟨hrest, hpath⟩ :=
        hP ((evolves_waitingRound (q := False) env m r t t' (.inr hb)).spared hz')
      exact ⟨hrest.waitingRound hm hr (.inr hb) hz',
        hpath.trans (path_waitingRound hrest hm (List.mem_of_head? hr) (.inr hb))⟩)
    (n := (s.maps m).length) (fun _ => ⟨h, .refl⟩)
  exact (key hz).2

theorem AtRest.path_moveInactiveRequestsToQueue (h : s.AtRest strict)
    (hz : (s.moveInactiveRequestsToQueue env).Spared strict) :
    Path env W s (s.moveInactiveRequestsToQueue env) := by
  have hz₂ := (evolves_moveWaiting (q := False) env .inactive _).spared hz
  have hz₁ := (evolves_moveWaiting (q := False) env .refresh _).spared hz₂
  have h₁ := h.moveRateLimited hz₁
  have hlimited : Path env W s (s.moveRateLimited env) := h.path_moveRateLimited hz₁
  exact (hlimited.trans (h₁.path_moveWaiting (.inl rfl) hz₂)).trans
    ((h₁.moveWaiting (.inl rfl) hz₂).path_moveWaiting (.inr rfl) hz)

/-! ### The third pass -/

/-- The callback of a finished request is called while the request is held, and makes its calls. -/
theorem WF.heard (h : s.WF v C) (env : Env ω) {msg : Message} {a : Transfer}
    (ha : s.transferOf msg = some a) :
    (s.hear env msg a.priv).2.2.WF (update (update v (.map .queued) ((v (.map .queued)).erase
      a.priv)) .hand (a.priv :: v .hand)) C ∧
    s.receive env msg a.priv = ((s.hear env msg a.priv).1,
      (s.hear env msg a.priv).2.2.calls env (s.hear env msg a.priv).2.1) := by
  obtain ⟨hmem, heasy, hrep⟩ := mem_of_transferOf ha
  have hqueued := h.mem_queued_of_transferOf ha
  have herase := (h.reportMessage a.easy).eraseMap hqueued (h.reported hmem hrep)
  rw [heasy] at herase
  obtain ⟨w, tr, hheard⟩ := hear_eq env s msg a.priv
  refine ⟨?_, receive_eq_heard env ((h.reportMessage msg.easy).located.follow hqueued)⟩
  rw [hheard]
  exact ⟨herase.located, herase.marked⟩

theorem WF.interlude_receive (h : s.WF v C) (hm : env.Makes calls) (hv : v.NoneWoken)
    {msg : Message} {a : Transfer} (ha : s.transferOf msg = some a)
    (hz : (s.receive env msg a.priv).2.Spared strict) :
    (s.receive env msg a.priv).1 = (s.hear env msg a.priv).1 ∧
      Interlude env calls (some a.priv) (s.hear env msg a.priv).2.2
        (s.receive env msg a.priv).2 := by
  have hheld : View.Holds (update (update v (.map .queued) ((v (.map .queued)).erase a.priv)) .hand
      (a.priv :: v .hand)) (some a.priv = some ·) := by
    rintro r ⟨⟩
    rw [Function.update_self]
    exact List.mem_cons_self
  obtain ⟨htold, heq⟩ := h.heard env ha
  rw [heq] at hz ⊢
  exact ⟨rfl, htold.interlude_calls hheld hm (hv.hold (by simp) _ _) _
    (among_hear hm s msg a.priv) hz⟩

/-- What a message about a transfer does: calls come in while its request is held, which is then
settled. -/
theorem AtRest.completedRound_eq (h : s.AtRest strict) (hm : env.Makes calls) {msg : Message}
    {a : Transfer} (ha : s.transferOf msg = some a) (hz : (s.completedRound env msg).Spared strict) :
    a.priv ∈ s.maps .queued ∧ s.Live a.priv ∧ ∃ u : Loop ω,
      Interlude env calls (some a.priv) (s.hear env msg a.priv).2.2 u ∧ u.Aloof a.priv ∧
      s.completedRound env msg = u.settle env a.priv msg.httpCode (Message.success msg)
        (s.hear env msg a.priv).1 := by
  obtain ⟨v, C, hwf, hv⟩ := h
  rw [Loop.completedRound] at hz ⊢
  rw [ha] at hz ⊢
  dsimp only at hz ⊢
  have hz' := (evolves_settle (q := False) env _ _ _ _ _).spared hz
  obtain ⟨hans, hcall⟩ := hwf.interlude_receive hm hv.noneWoken ha hz'
  obtain ⟨v₁, C₁, hwf₁, hund⟩ := hwf.receive env hv.noneWoken ha hz'
  have hhand : a.priv ∈ v₁ .hand := by
    rw [hund.hand, Function.update_self]
    exact List.mem_cons_self
  have hqueued := hwf.mem_queued_of_transferOf ha
  refine ⟨?_, hwf.located.live_of_mem hqueued, _, hcall, hwf₁.aloof hhand (by simp) (by simp), ?_⟩
  · rw [hwf.located.maps]
    exact hqueued
  · rw [hans]

theorem AtRest.path_completedRound (h : s.AtRest strict) (hm : env.Makes W.calls) {msg : Message}
    (hw : W.read s msg) (hz : (s.completedRound env msg).Spared strict) :
    Path env W s (s.completedRound env msg) := by
  cases ha : s.transferOf msg with
  | none =>
    rw [Loop.completedRound, ha]
    exact .refl
  | some a =>
    obtain ⟨hqueued, hlive, u, hcall, hu, heq⟩ := h.completedRound_eq hm ha hz
    rw [heq]
    exact Path.refl.complete msg a ha hqueued hlive hw hcall hu

/-- One round over the detached injected list. -/
theorem WF.path_injectedRound (h : s.WF v C) (hm : env.Makes W.calls)
    (hv : v.SlackBut strict .injected) (hp : v (.detached .injected) = r :: l)
    (hz : (s.injectedRound env r).Spared strict) : Path env W s (s.injectedRound env r) := by
  have hhand : update (update v (.detached .injected) l) .hand (r :: v .hand) .hand =
      r :: v .hand := Function.update_self ..
  have hnone := (hv.noneWoken (by simp)).hold (p := .detached .injected) (by simp) l (r :: v .hand)
  have hfirst : s.Aloof r :=
    h.aloof (p := .detached .injected) (hp ▸ List.mem_cons_self) (by simp) (by simp)
  rw [Loop.injectedRound] at hz ⊢
  split
  · rename_i hset
    rw [if_pos hset] at hz
    have hz' := (evolves_destroy (q := False) _ r).spared hz
    obtain ⟨v₁, C₁, hwf, hund⟩ := (h.takeUp hp).callback hnone (callOnComplete_eq env s r) hz'
    have hr : r ∈ v₁ .hand := (hund.hand.trans hhand) ▸ List.mem_cons_self
    have haloof : (s.callOnComplete env r).2.Aloof r := hwf.aloof hr (by simp) (by simp)
    rw [callOnComplete_eq_told] at hz' haloof ⊢
    obtain ⟨w, tr, heq⟩ := tellComplete_eq env s r
    have htold : (s.tellComplete env r).2.2.WF
        (update (update v (.detached .injected) l) .hand (r :: v .hand)) C := by
      rw [heq]
      exact ⟨(h.takeUp hp).located, (h.takeUp hp).marked⟩
    refine Path.refl.injected r hfirst ?_ haloof
    rw [if_pos hset]
    have hheld : View.Holds (update (update v (.detached .injected) l) .hand (r :: v .hand))
        (some r = some ·) := by
      rintro b ⟨⟩
      rw [Function.update_self]
      exact List.mem_cons_self
    exact htold.interlude_calls hheld hm hnone _ (among_tellComplete hm s r) hz'
  · rename_i hset
    refine Path.refl.injected r hfirst ?_ hfirst
    rw [if_neg hset]
    exact .refl

theorem AtRest.path_processInjected (h : s.AtRest strict) (hm : env.Makes W.calls)
    (hz : (s.processInjected env).Spared strict) : Path env W s (s.processInjected env) := by
  obtain ⟨v, C, hwf, hv⟩ := h
  have hdet : s.detachInjected.WF
      (update (update v .injected []) (.detached .injected) (v .injected)) C :=
    ⟨hwf.located.detachInjected (hv.detached .injected (.inr (by simp))), hwf.marked⟩
  have hdetach : Calm env s s.detachInjected := .idle rfl rfl rfl rfl rfl rfl
  obtain ⟨v₂, C₂, -, -, -, hpath⟩ := hdet.forEachHandled (p := .injected)
    (f := Loop.injectedRound env)
    (P := fun v t => v.SlackBut strict .injected ∧ Path env W s t) (.inr (by simp))
    (fun r t ht => (evolves_injectedRound env r t).spared ht)
    (fun r l v C t ht hp hP hz => by
      obtain ⟨v', C', hwf', hh⟩ := ht.injectedRound hP.1 hp hz
      exact ⟨v', C', hwf', hh, hh.slackBut hP.1,
        hP.2.trans (ht.path_injectedRound hm hP.1 hp hz)⟩)
    (a := s.injectedRequests) (by
      rw [Function.update_self]
      exact hwf.located.linked.injected) ⟨hv.detach (by simp) (by simp), hdetach.path⟩ hz
  exact hpath

theorem AtRest.path_processCompletedRequests (h : s.AtRest strict) (hm : env.Makes W.calls)
    {msgs : List Message}
    (hw : Guarded.Allowed (fun m s => s.completedRound env m) (fun m s => W.read s m) s msgs)
    (hz : (s.processCompletedRequests env msgs).Spared strict) :
    Path env W s (s.processCompletedRequests env msgs) := by
  have hz' := (evolves_processInjected env _).spared hz
  have hmsgs : (msgs.foldl (fun s m => s.completedRound env m) s).AtRest strict ∧
      Path env W s (msgs.foldl (fun s m => s.completedRound env m) s) := by
    clear hz
    induction msgs generalizing s with
    | nil => exact ⟨h, .refl⟩
    | cons msg msgs ih =>
      have hmono := (evolves_foldl (fun s m => evolves_completedRound env s m) msgs
        (s.completedRound env msg)).spared hz'
      obtain ⟨hrest, hpath⟩ := ih (h.completedRound msg hmono) hw.2 hz'
      exact ⟨hrest, (h.path_completedRound hm hw.1 hmono).trans hpath⟩
  exact hmsgs.2.trans (hmsgs.1.path_processInjected hm hz)

/-! ### Actions -/

/-- The action is one of the regime, and not the destruction of the loop. -/
def Admits (env : Env ω) (W : Regime ω) : Action → Loop ω → Prop
  | .call c, _ => c.Among W.calls
  | .processCancelledAndPendingRequests, s => ∀ r ∈ s.cancelledList, W.drop (s.req r).attempt
  | .processCompletedRequests msgs, s =>
    Guarded.Allowed (fun m s => s.completedRound env m) (fun m s => W.read s m) s msgs
  | .destroy, _ => False
  | _, _ => True

/-- **An action follows a path**, if it meets no hazard but that it abandons requests. -/
theorem AtRest.path_admits {a : Action} (h : s.AtRest strict) (hm : env.Makes W.calls)
    (hw : s.Admits env W a) (hz : (Loop.act env a s).Spared strict) :
    Path env W s (Loop.act env a s) := by
  cases a with
  | call c =>
    obtain ⟨v, C, hwf, hv⟩ := h
    exact (hwf.interlude_call (holds_none v) hm hv.noneWoken c hw hz).path
  | setOwnerThread => exact Calm.path (.idle rfl rfl rfl rfl rfl rfl)
  | takeInbox => exact Calm.path (.idle rfl rfl rfl rfl rfl rfl)
  | applyOp op =>
    obtain ⟨v, C, hwf, hv⟩ := h
    exact (hwf.interlude_applyOp (holds_none v) hm hv.noneWoken op hz).path
  | processCancelledAndPendingRequests => exact h.path_processCancelledAndPendingRequests hw hz
  | moveInactiveRequestsToQueue => exact h.path_moveInactiveRequestsToQueue hz
  | processCompletedRequests msgs => exact h.path_processCompletedRequests hm hw hz
  | calculateNextTimerExpiry => exact (calm_calculateNextTimerExpiry env s 200).path
  | start => exact Calm.path (.idle rfl rfl rfl rfl rfl rfl)
  | stop => exact Calm.path (.idle rfl rfl rfl rfl rfl rfl)
  | destroy => exact hw.elim

/-- The message is about a request whose transfer may finish so. -/
def Settles (W : Watch) (s : Loop ω) (msg : Message) : Prop :=
  ∀ a ∈ s.transferOf msg, W.settle (s.req a.priv).attempt msg.httpCode

end Loop

/-- Any call may be made. -/
def Watch.regime (W : Watch) : Regime ω := ⟨fun _ => True, W.drop, Loop.Settles W⟩

theorem Env.makes_anything (env : Env ω) : env.Makes fun _ => True :=
  ⟨fun _ _ _ _ => trivial, fun _ _ _ _ _ _ _ => trivial, fun _ _ _ _ => trivial⟩

namespace Loop

variable {s t u : Loop ω} {r : ReqId} {env : Env ω} {W : Watch} {held : Option ReqId}
  {strict : Prop}

/-- The action does to the transfers only what the watch admits, and is not the destruction of the
loop. -/
def Watched (env : Env ω) (W : Watch) : Action → Loop ω → Prop
  | .processCancelledAndPendingRequests, s => ∀ r ∈ s.cancelledList, W.drop (s.req r).attempt
  | .processCompletedRequests msgs, s =>
    Guarded.Allowed (fun m s => s.completedRound env m) (fun m s => s.Settles W m) s msgs
  | .destroy, _ => False
  | _, _ => True

instance [∀ a code, Decidable (W.settle a code)] (m : Message) (s : Loop ω) :
    Decidable (s.Settles W m) :=
  inferInstanceAs (Decidable (∀ a ∈ s.transferOf m, W.settle (s.req a.priv).attempt m.httpCode))

instance [∀ a, Decidable (W.drop a)] [∀ a code, Decidable (W.settle a code)] (env : Env ω) :
    ∀ (a : Action) (s : Loop ω), Decidable (s.Watched env W a)
  | .processCancelledAndPendingRequests, s =>
    inferInstanceAs (Decidable (∀ r ∈ s.cancelledList, W.drop (s.req r).attempt))
  | .processCompletedRequests msgs, s => inferInstanceAs (Decidable
      (Guarded.Allowed (fun m s => Loop.completedRound env s m) (fun m s => s.Settles W m) s msgs))
  | .destroy, _ => inferInstanceAs (Decidable False)
  | .call _, _ | .setOwnerThread, _ | .takeInbox, _ | .applyOp _, _
  | .moveInactiveRequestsToQueue, _ | .calculateNextTimerExpiry, _ | .start, _ | .stop, _ =>
    inferInstanceAs (Decidable True)

theorem Watched.admits {a : Action} (h : s.Watched env W a) : s.Admits env W.regime a := by
  cases a with
  | call c =>
    cases c <;> trivial
  | processCancelledAndPendingRequests => exact h
  | processCompletedRequests msgs => exact h
  | destroy => exact h
  | _ => trivial

/-- An action under a watch. -/
theorem AtRest.path_act {a : Action} (h : s.AtRest strict) (hw : s.Watched env W a)
    (hz : (Loop.act env a s).Spared strict) : Path env W.regime s (Loop.act env a s) :=
  h.path_admits env.makes_anything hw.admits hz

theorem Resting.path_act {a : Action} (h : s.Resting) (hw : s.Watched env W a)
    (hz : (Loop.act env a s).hazards = []) : Path env W.regime s (Loop.act env a s) :=
  (atRest_true.mpr h).path_act hw (.of_nil hz)

/-! ### Invariants of the transfers -/

/-- What is to be shown of an invariant of the transfers, which may know whether a request is
held. -/
structure Kept (env : Env ω) (W : Watch) (P : Option ReqId → Loop ω → Prop) : Prop where
  aside : ∀ {held : Option ReqId} {s t : Loop ω}, P held s → Aside env s t → P held t
  arrives : ∀ {held : Option ReqId} {s t : Loop ω} {r : ReqId}, P held s → Arrives env r s t →
    r ∉ s.maps .queued → held ≠ some r → P held t
  destroy : ∀ {held : Option ReqId} {s : Loop ω} {r : ReqId}, P held s → s.Aloof r →
    held ≠ some r → P held (s.curlEventRequestDestroy r)
  drop : ∀ {s : Loop ω} {r : ReqId}, P none s → s.Mapped r →
    (∀ id, s.resources.blockedHead id ≠ some r) → W.drop (s.req r).attempt →
    P none (s.cancelledRound r)
  start : ∀ {s : Loop ω} {r : ReqId}, P none s → s.Aloof r → P none (s.curlEventLoopRequestStart env r)
  receive : ∀ {s : Loop ω} {m : Message} {a : Transfer}, P none s → s.transferOf m = some a →
    P (some a.priv) (s.pickUp m.easy a.priv)
  settle : ∀ {s : Loop ω} {r : ReqId} {httpCode : ℤ} {success : Bool} {retryIn : ℤ},
    P (some r) s → s.Aloof r → W.settle (s.req r).attempt httpCode →
    P none (s.settle env r httpCode success retryIn)

variable {P : Option ReqId → Loop ω → Prop}

theorem Errands.kept {calls : ApiCall → Prop} {busy : ReqId → Prop} (hP : Kept env W P)
    (hbusy : ∀ r, held = some r → busy r) (h : P held s) (he : Errands env calls busy s t) :
    P held t := by
  induction he with
  | refl => exact h
  | calm _ ha ih => exact hP.aside ih ha.toAside
  | cancel r _ _ _ ih => exact hP.aside ih (aside_cancel _ r)
  | arrives r _ _ ha _ _ hm hr ih =>
    exact hP.arrives ih ha (hm .queued) fun hheld => hr (hbusy r hheld)

theorem Interlude.kept {calls : ApiCall → Prop} (hP : Kept env W P) (h : P held s)
    (hi : Interlude env calls held s t) : P held t := by
  induction hi with
  | refl => exact h
  | errands _ he ih => exact he.kept hP (fun _ hr => hr) ih
  | abort r _ _ hne he hu ih =>
    exact hP.destroy (he.kept hP (fun _ hr => .inl hr) (hP.aside ih (aside_callOnAborted env _ r)))
      hu hne

/-- A request that is held keeps its attempt while calls come in. -/
theorem Errands.attempt_held {calls : ApiCall → Prop} {busy : ReqId → Prop} (hr : busy r)
    (he : Errands env calls busy s t) : (t.req r).attempt = (s.req r).attempt := by
  induction he with
  | refl => rfl
  | calm _ ha ih => exact (ha.attempt r).trans ih
  | @cancel t b _ _ _ ih =>
    have haside : Aside env t (t.curlEventLoopCancel b).2 := aside_cancel t b
    exact (haside.attempt r).trans ih
  | arrives b _ _ ha _ _ _ hb ih =>
    have hne : r ≠ b := fun heq => hb (heq ▸ hr)
    rw [ha.others r hne]
    exact ih

theorem Interlude.attempt_held {calls : ApiCall → Prop}
    (h : Interlude env calls (some r) s t) : (t.req r).attempt = (s.req r).attempt := by
  induction h with
  | refl => rfl
  | errands _ he ih => exact (he.attempt_held (by rfl)).trans ih
  | @abort t u b _ _ hb he _ ih =>
    have hne : r ≠ b := fun heq => hb (heq ▸ rfl)
    rw [req_destroy, Function.update_of_ne hne]
    exact (he.attempt_held (by exact .inl rfl)).trans
      (((aside_callOnAborted env t b).attempt r).trans ih)

/-- **An invariant of the transfers holds along a path.** -/
theorem Path.kept (hP : Kept env W P) (h : P none s) (hp : Path env W.regime s t) : P none t := by
  induction hp with
  | refl => exact h
  | interlude _ hi ih => exact hi.kept hP ih
  | drop r _ _ hm hh _ hw ih => exact hP.drop ih hm hh hw
  | discard r _ hr _ ih => exact hP.destroy ih hr nofun
  | start r _ hr _ _ ih => exact hP.start ih hr
  | @complete t u m a _ ha _ _ hw hi hu ih =>
    have hheard := hi.kept hP (hP.aside (hP.receive ih ha) (aside_hear env t m a.priv))
    refine hP.settle hheard hu ?_
    rw [hi.attempt_held, (aside_hear env t m a.priv).attempt a.priv]
    exact hw a ha
  | @injected t u r _ _ hi hu ih =>
    refine hP.destroy (hi.free.kept hP ?_) hu nofun
    split
    · exact hP.aside ih (aside_tellComplete env t r)
    · exact ih

end Loop

end CurlLoop
