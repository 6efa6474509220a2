import CurlLoop.Lib.Turns
import CurlLoop.Scheduler
import CurlLoop.Traffic

/-!
# Who is served first

A priority given to a submission makes the request due that many seconds earlier, and the maps of
waiting requests are ordered by the time a request is due. So a request with a higher priority
should be started first. The pending list is a stack, though, and a pending request that is due is
started where it is met while a slot is free, before anybody in a map is looked at.

A pass over requests without rate limits and without dependencies offers the free slots to a *line*:
the pending requests that are due, the one submitted last first, then the due requests at the front
of the three maps. Who refuses to be set up is destroyed and takes no slot. Whose turn comes before
the slots are gone is what `Queueing.turns` says. The law holds of a pass exactly if nobody who is
started in his turn is due later than a request the slots do not reach.

## Main definitions

* `Loop.Steady` — the answers of the outside world that a pass at one moment relies on
* `Loop.HigherFirst` — the law
* `Loop.line`, `Loop.reached` — the requests that are offered a slot, and those whose turn comes

## Main results

* `Loop.tally_pass` — what a pass does to a loop without rate limits and dependencies
* `Loop.higherFirst_iff` — when the law holds
-/

namespace CurlLoop

open Function (update)
open Queueing (turns turns_cons)

variable {ω : Type}

/-! ### What a pass reads -/

/-- The request has neither a rate limit nor a dependency. -/
def Request.Plain (q : Request) : Prop := q.rateLimit = none ∧ q.depHead = []

instance (q : Request) : Decidable q.Plain := inferInstanceAs (Decidable (_ ∧ _))

/-- The fields of a request that decide when and whether it is started are the same. -/
structure Request.SameTerms (q q' : Request) : Prop where
  nextRetryAt : q'.nextRetryAt = q.nextRetryAt
  rateLimit : q'.rateLimit = q.rateLimit
  depHead : q'.depHead = q.depHead
  onPrepare : q'.onPrepare = q.onPrepare
  isCancelled : q'.isCancelled = q.isCancelled

theorem Request.SameTerms.refl (q : Request) : q.SameTerms q := ⟨rfl, rfl, rfl, rfl, rfl⟩

theorem Request.SameTerms.trans {q q' q'' : Request} (h : q.SameTerms q') (h' : q'.SameTerms q'') :
    q.SameTerms q'' where
  nextRetryAt := h'.nextRetryAt.trans h.nextRetryAt
  rateLimit := h'.rateLimit.trans h.rateLimit
  depHead := h'.depHead.trans h.depHead
  onPrepare := h'.onPrepare.trans h.onPrepare
  isCancelled := h'.isCancelled.trans h.isCancelled

theorem Request.Plain.congr {q q' : Request} (h : q.Plain) (hq : q.SameTerms q') : q'.Plain :=
  ⟨hq.rateLimit.trans h.1, hq.depHead.trans h.2⟩

/-- Whether `setup_curl_handle` succeeds for a request, asked in a world. -/
def Env.setsUp (env : Env ω) (r : ReqId) (q : Request) (w : ω) : Bool :=
  let answer := if q.onPrepare then env.onPrepare r w else (true, w)
  answer.1 && (env.curlEasyInit answer.2).1

namespace Loop

variable {s t u : Loop ω} {v v' : View} {C l gone seen : List ReqId} {r : ReqId} {m : MapId}
  {env : Env ω} {W : ω → Prop} {ok : ReqId → Bool} {time : ℕ}

/-- The reading of the clock. -/
def now (env : Env ω) (s : Loop ω) : ℕ := (env.macroNow s.world).1

/-- The request is due at a time. -/
def due (s : Loop ω) (time : ℕ) (r : ReqId) : Bool := decide ((s.req r).nextRetryAt ≤ time)

/-- A pass takes place at one moment. All the worlds it can come to are in `W`. In these the clock
agrees with its reading at the start about which requests of the loop are due, and `ok` tells for
which of them a handle can be set up. -/
structure Steady (env : Env ω) (W : ω → Prop) (ok : ReqId → Bool) (s : Loop ω) : Prop where
  here : W s.world
  macroNow : ∀ w, W w → W (env.macroNow w).2
  onPrepare : ∀ w r, W w → W (env.onPrepare r w).2
  curlEasyInit : ∀ w, W w → W (env.curlEasyInit w).2
  due : ∀ w r, W w → s.Live r → s.due (env.macroNow w).1 r = s.due (s.now env) r
  setsUp : ∀ w r, W w → s.Live r → env.setsUp r (s.req r) w = ok r

/-- The request is pending. -/
def IsPending (s : Loop ω) (r : ReqId) : Prop := r ∈ s.pendingChain s.pendingRequests

instance (s : Loop ω) (r : ReqId) : Decidable (s.IsPending r) :=
  inferInstanceAs (Decidable (_ ∈ _))

/-- The pass has to do with the request: it is pending, or waits in one of the maps, and not just for
its time in the rate-limited map. -/
def Concerns (env : Env ω) (s : Loop ω) (r : ReqId) : Prop :=
  s.IsPending r ∨ r ∈ s.maps .refresh ∨ r ∈ s.maps .inactive ∨
    r ∈ s.maps .rateLimited ∧ s.due (s.now env) r = true

/-- `process_cancelled_and_pending_requests` followed by `move_inactive_requests_to_queue`. -/
def servicePass (env : Env ω) (s : Loop ω) : Loop ω :=
  (s.processCancelledAndPendingRequests env).moveInactiveRequestsToQueue env

/-- **The law.** If a pass starts one request and leaves another, which was due and was pending or
inactive at its start, then the first is due no later than the second. -/
def HigherFirst (env : Env ω) (s : Loop ω) : Prop :=
  ∀ a ∈ (s.servicePass env).maps .queued, a ∉ s.maps .queued →
    ∀ b, s.IsPending b ∨ b ∈ s.maps .inactive → s.due (s.now env) b = true →
      (s.servicePass env).Live b → b ∉ (s.servicePass env).maps .queued →
      (s.req a).nextRetryAt ≤ (s.req b).nextRetryAt

/-! ### The line -/

/-- The requests at the front of a map that are due, when the cancelled ones are gone. -/
def front (s : Loop ω) (time : ℕ) (m : MapId) : List ReqId :=
  ((s.maps m).filter fun r => r ∉ s.cancelledList).takeWhile (s.due time)

/-- The requests that are offered a slot, in order. -/
def line (env : Env ω) (s : Loop ω) : List ReqId :=
  ((s.pendingChain s.pendingRequests).filter fun r =>
      !(s.req r).isCancelled && s.due (s.now env) r) ++
    (s.front (s.now env) .rateLimited ++
      (s.front (s.now env) .refresh ++ (s.front (s.now env) .inactive ++ [])))

/-- The slots that are free when the cancelled requests are gone. -/
def freeSlots (s : Loop ω) : ℕ :=
  s.maxConcurrentRequests - ((s.maps .queued).filter fun r => r ∉ s.cancelledList).length

/-- The requests whose turn comes. -/
def reached (env : Env ω) (ok : ReqId → Bool) (s : Loop ω) : List ReqId :=
  turns ok s.freeSlots (s.line env)

/-- The request is cancelled when the pass begins. -/
def Dropped (s : Loop ω) (r : ReqId) : Prop :=
  r ∈ s.cancelledList ∨ s.IsPending r ∧ (s.req r).isCancelled = true

/-! ### Starting one request -/

theorem sameTerms_modifyReq (s : Loop ω) (r : ReqId) {f : Request → Request}
    (hf : (s.req r).SameTerms (f (s.req r))) (b : ReqId) :
    (s.req b).SameTerms ((s.modifyReq r f).req b) := by
  rcases eq_or_ne b r with rfl | hb
  · have hreq : (s.modifyReq b f).req b = f (s.req b) := Function.update_self ..
    rw [hreq]
    exact hf
  · have hreq : (s.modifyReq r f).req b = s.req b := Function.update_of_ne hb ..
    rw [hreq]
    exact .refl _

theorem sameTerms_destroy (s : Loop ω) (r b : ReqId) :
    (s.req b).SameTerms ((s.curlEventRequestDestroy r).req b) := by
  rw [req_destroy]
  exact sameTerms_modifyReq s r (f := fun q => q.cleaned.setRetained false) ⟨rfl, rfl, rfl, rfl, rfl⟩ b

/-- What offering a free slot to a request does to the loop. -/
structure Offered (W : ω → Prop) (r : ReqId) (granted : Bool) (s t : Loop ω) : Prop where
  world : W t.world
  terms : ∀ b, (s.req b).SameTerms (t.req b)
  accepted : t.accepted = s.accepted
  room : t.maxConcurrentRequests = s.maxConcurrentRequests
  nextPending : t.nextPending = s.nextPending
  maps : ∀ m, m ≠ .queued → t.maps m = s.maps m
  active : (t.maps .queued).Perm (if granted then r :: s.maps .queued else s.maps .queued)
  num : t.num .queued = s.num .queued + if granted then 1 else 0
  destroyed : t.destroyed = if granted then s.destroyed else r :: s.destroyed

/-- What happens to a request that is set up, and to one that is not. -/
theorem setupCurlHandle_steady (hst : Steady env W ok s) (hw : W t.world) (r : ReqId)
    (hterms : (s.req r).SameTerms (t.req r)) (hr : s.Live r) :
    ∃ w, W w ∧ t.setupCurlHandle env r =
      if ok r then (true, ({ t.modifyReq r Request.reset with world := w } : Loop ω).newHandle r)
      else (false, { t.modifyReq r Request.reset with world := w }) := by
  have hok := hst.setsUp t.world r hw hr
  have hprep : (((t.modifyReq r Request.reset).req r).onPrepare) = (s.req r).onPrepare := by
    have hreq : (t.modifyReq r Request.reset).req r = (t.req r).reset := Function.update_self ..
    rw [hreq]
    exact hterms.onPrepare
  rw [Env.setsUp] at hok
  rw [setupCurlHandle]
  dsimp only at hok ⊢
  rw [hprep]
  cases hp : (s.req r).onPrepare with
  | false =>
    rw [hp] at hok
    refine ⟨(env.curlEasyInit t.world).2, hst.curlEasyInit _ hw, ?_⟩
    rw [← hok]
    cases he : (env.curlEasyInit t.world).1 <;> simp [Loop.ask, he, modifyReq]
  | true =>
    rw [hp] at hok
    have hw' := hst.onPrepare t.world r hw
    cases ha : (env.onPrepare r t.world).1 with
    | false =>
      refine ⟨(env.onPrepare r t.world).2, hw', ?_⟩
      rw [← hok]
      simp [Loop.ask, ha, modifyReq]
    | true =>
      refine ⟨(env.curlEasyInit (env.onPrepare r t.world).2).2, hst.curlEasyInit _ hw', ?_⟩
      rw [← hok]
      cases he : (env.curlEasyInit (env.onPrepare r t.world).2).1 <;>
        simp [Loop.ask, ha, he, modifyReq]

theorem offered_activate (s : Loop ω) (r : ReqId) (hw : W (env.macroNow s.world).2) :
    Offered W r true s (s.activate env r) where
  world := hw
  terms := sameTerms_modifyReq s r (f := fun q => q.activated (s.now env)) ⟨rfl, rfl, rfl, rfl, rfl⟩
  accepted := rfl
  room := rfl
  nextPending := rfl
  maps _ hm := Function.update_of_ne hm _ _
  active := by
    rw [if_pos rfl]
    show (update s.maps .queued (OrderedMap.insertMulti _ r (s.maps .queued)) .queued).Perm _
    rw [Function.update_self]
    exact OrderedMap.insertMulti_perm ..
  num := by
    rw [if_pos rfl]
    show update s.num .queued (s.num .queued + 1) .queued = _
    exact Function.update_self ..
  destroyed := rfl

/-- A request without a rate limit is started, unless a handle cannot be set up for it. -/
theorem offered_start (hst : Steady env W ok s) (hw : W t.world)
    (hterms : (s.req r).SameTerms (t.req r)) (hr : s.Live r) (hplain : (s.req r).Plain) :
    Offered W r (ok r) t (t.curlEventLoopRequestStart env r) := by
  have hask : t.admission env r = (0, t) := by
    rw [admission, hterms.rateLimit, hplain.1]
  obtain ⟨w, hw', hset⟩ := setupCurlHandle_steady hst hw r hterms hr
  have hreset := sameTerms_modifyReq t r (f := Request.reset) ⟨rfl, rfl, rfl, rfl, rfl⟩
  rw [start_eq, hask]
  dsimp only
  rw [if_neg (by simp), hset]
  cases ok r with
  | false =>
    exact ⟨hw', fun b => (hreset b).trans (sameTerms_destroy _ r b), rfl, rfl, rfl, fun _ _ => rfl,
      .refl _, (add_zero _).symm, rfl⟩
  | true =>
    rw [if_pos rfl]
    dsimp only
    rw [if_pos rfl]
    have hhandle := sameTerms_modifyReq ({ t.modifyReq r Request.reset with world := w } : Loop ω) r
      (f := fun q => q.withHandle t.multi.nextEasy) ⟨rfl, rfl, rfl, rfl, rfl⟩
    have hact : Offered W r true (({ t.modifyReq r Request.reset with world := w } :
        Loop ω).newHandle r) ((({ t.modifyReq r Request.reset with world := w } :
        Loop ω).newHandle r).activate env r) := offered_activate _ r (hst.macroNow _ hw')
    exact ⟨hact.world, fun b => ((hreset b).trans (hhandle b)).trans (hact.terms b), hact.accepted,
      hact.room, hact.nextPending, hact.maps, hact.active, hact.num, hact.destroyed⟩

/-! ### Keeping the tally -/

/-- A step that starts and destroys nobody. -/
structure Idle (W : ω → Prop) (s t : Loop ω) : Prop where
  world : W s.world → W t.world
  terms : ∀ b, (s.req b).SameTerms (t.req b)
  accepted : t.accepted = s.accepted
  room : t.maxConcurrentRequests = s.maxConcurrentRequests
  active : t.maps .queued = s.maps .queued
  num : t.num .queued = s.num .queued
  destroyed : t.destroyed = s.destroyed

theorem Idle.trans (h : Idle W s t) (h' : Idle W t u) : Idle W s u where
  world hw := h'.world (h.world hw)
  terms b := (h.terms b).trans (h'.terms b)
  accepted := h'.accepted.trans h.accepted
  room := h'.room.trans h.room
  active := h'.active.trans h.active
  num := h'.num.trans h.num
  destroyed := h'.destroyed.trans h.destroyed

theorem idle_ask {w : ω} (s : Loop ω) (hw : W w) : Idle W s { s with world := w } :=
  ⟨fun _ => hw, fun _ => .refl _, rfl, rfl, rfl, rfl, rfl⟩

theorem idle_follow (s : Loop ω) (r : ReqId) : Idle W s (s.follow r) := by
  rw [follow]
  split
  · exact ⟨fun hw => hw, fun _ => .refl _, rfl, rfl, rfl, rfl, rfl⟩
  · exact ⟨fun hw => hw, fun _ => .refl _, rfl, rfl, rfl, rfl, rfl⟩

theorem idle_setMap (s : Loop ω) (hm : m ≠ .queued) (map : List ReqId) :
    Idle W s (s.setMap m map) :=
  ⟨fun hw => hw, fun _ => .refl _, rfl, rfl, Function.update_of_ne hm.symm _ _, rfl, rfl⟩

theorem idle_addNum (s : Loop ω) (hm : m ≠ .queued) (d : ℤ) : Idle W s (s.addNum m d) :=
  ⟨fun hw => hw, fun _ => .refl _, rfl, rfl, rfl, Function.update_of_ne hm.symm _ _, rfl⟩

theorem idle_enqueueRequest (s : Loop ω) (r : ReqId) : Idle W s (s.enqueueRequest r) :=
  (idle_setMap s (waitingMap_ne_queued _) _).trans (idle_addNum _ (waitingMap_ne_queued _) 1)

/-- What has become of a loop when the requests in `seen` have had their turn. Of the requests that
were active at the start `kept` are left, and `gone` are destroyed without having had a turn. -/
structure Tally (W : ω → Prop) (ok : ReqId → Bool) (s : Loop ω) (kept gone seen : List ReqId)
    (t : Loop ω) : Prop where
  world : W t.world
  terms : ∀ b, (s.req b).SameTerms (t.req b)
  accepted : t.accepted = s.accepted
  room : t.maxConcurrentRequests = s.maxConcurrentRequests
  active : (t.maps .queued).Perm (seen.filter ok ++ kept)
  num : t.num .queued = (t.maps .queued).length
  fits : (t.maps .queued).length < 2 ^ 64
  destroyed : ∀ b, b ∈ t.destroyed ↔ b ∈ gone ∨ b ∈ seen ∧ ok b = false

variable {kept : List ReqId}

/-- The slots that are free. -/
def free (s : Loop ω) : ℕ := s.maxConcurrentRequests - (s.maps .queued).length

theorem Tally.idle (h : Tally W ok s kept gone seen t) (hi : Idle W t u) :
    Tally W ok s kept gone seen u where
  world := hi.world h.world
  terms b := (h.terms b).trans (hi.terms b)
  accepted := hi.accepted.trans h.accepted
  room := hi.room.trans h.room
  active := hi.active ▸ h.active
  num := by rw [hi.num, hi.active, h.num]
  fits := hi.active ▸ h.fits
  destroyed := hi.destroyed ▸ h.destroyed

theorem Idle.free (h : Idle W s t) : t.free = s.free := by
  rw [Loop.free, Loop.free, h.room, h.active]

/-- The code finds all slots taken when they are. -/
theorem Tally.full_iff (h : Tally W ok s kept gone seen t) :
    sizeT (t.num .queued) ≥ t.maxConcurrentRequests ↔ t.free = 0 := by
  have hsize : sizeT (t.num .queued) = (t.maps .queued).length := by
    have hlt : ((t.maps .queued).length : ℤ) < 2 ^ 64 := by exact_mod_cast h.fits
    rw [sizeT, h.num, Int.emod_eq_of_lt (Int.natCast_nonneg _) hlt, Int.toNat_natCast]
  rw [hsize, free]
  omega

/-- A request has its turn. -/
theorem Tally.offered (h : Tally W ok s kept gone seen t) (ho : Offered W r (ok r) t u)
    (hmax : s.maxConcurrentRequests < 2 ^ 64) (hfree : 0 < t.free) :
    Tally W ok s kept gone (seen ++ [r]) u ∧ u.free = t.free - if ok r then 1 else 0 := by
  have hroom := h.room
  have hfits := h.fits
  have hlen : (u.maps .queued).length = (t.maps .queued).length + if ok r then 1 else 0 := by
    rw [ho.active.length_eq]
    split <;> rfl
  have hactive : (u.maps .queued).Perm ((seen ++ [r]).filter ok ++ kept) := by
    refine ho.active.trans ?_
    rw [List.filter_append]
    cases hok : ok r with
    | false =>
      rw [if_neg (by simp), List.filter_cons_of_neg (by simp [hok]), List.filter_nil,
        List.append_nil]
      exact h.active
    | true =>
      rw [if_pos rfl, List.filter_cons_of_pos hok, List.filter_nil, List.append_assoc]
      exact (h.active.cons r).trans List.perm_middle.symm
  rw [free] at hfree
  refine ⟨⟨ho.world, fun b => (h.terms b).trans (ho.terms b), ho.accepted.trans h.accepted,
    ho.room.trans h.room, hactive, ?_, ?_, fun b => ?_⟩, ?_⟩
  · rw [ho.num, h.num, hlen]
    split <;> simp
  · rw [hlen]
    split <;> omega
  · rw [ho.destroyed, List.mem_append, List.mem_singleton]
    cases hok : ok r with
    | false =>
      rw [if_neg (by simp), List.mem_cons, h.destroyed]
      constructor
      · rintro (rfl | hg | ⟨hs, hb⟩)
        · exact .inr ⟨.inr rfl, hok⟩
        · exact .inl hg
        · exact .inr ⟨.inl hs, hb⟩
      · rintro (hg | ⟨hs | rfl, hb⟩)
        · exact .inr (.inl hg)
        · exact .inr (.inr ⟨hs, hb⟩)
        · exact .inl rfl
    | true =>
      rw [if_pos rfl, h.destroyed]
      constructor
      · rintro (hg | ⟨hs, hb⟩)
        · exact .inl hg
        · exact .inr ⟨.inl hs, hb⟩
      · rintro (hg | ⟨hs | rfl, hb⟩)
        · exact .inl hg
        · exact .inr ⟨hs, hb⟩
        · rw [hok] at hb
          contradiction
  · rw [free, free, ho.room, hlen]
    omega

/-- A request that was cancelled while it was pending is destroyed. -/
theorem Tally.destroy (h : Tally W ok s kept gone seen t) (r : ReqId) :
    Tally W ok s kept (r :: gone) seen (t.curlEventRequestDestroy r) where
  world := h.world
  terms b := (h.terms b).trans (sameTerms_destroy t r b)
  accepted := h.accepted
  room := h.room
  active := h.active
  num := h.num
  fits := h.fits
  destroyed b := by
    rw [destroyed_destroy, List.mem_cons, List.mem_cons, h.destroyed, or_assoc]

/-- A request without a rate limit and without dependencies is ready when a slot is free and it is
due. -/
theorem Tally.requestReady (h : Tally W ok s kept gone seen t) (hst : Steady env W ok s)
    (hr : s.Live r) (hplain : (s.req r).Plain) :
    t.free = 0 ∧ t.requestReady env r = (false, t) ∨
    0 < t.free ∧ ∃ w, W w ∧
      t.requestReady env r = (s.due (s.now env) r, { t with world := w }) := by
  have hplain' := hplain.congr (h.terms r)
  rw [Loop.requestReady]
  dsimp only
  by_cases hfull : sizeT (t.num .queued) ≥ t.maxConcurrentRequests
  · rw [if_pos hfull]
    exact .inl ⟨h.full_iff.mp hfull, rfl⟩
  · rw [if_neg hfull]
    have hfree : t.free ≠ 0 := fun h0 => hfull (h.full_iff.mpr h0)
    refine .inr ⟨Nat.pos_of_ne_zero hfree, (env.macroNow t.world).2, hst.macroNow _ h.world, ?_⟩
    rw [hplain'.1, hplain'.2]
    dsimp only
    rw [if_neg (lt_irrefl 0), if_neg (by simp [Resources.curlResourceAllReadyList])]
    have hdue := hst.due t.world r h.world hr
    rw [due, ← (h.terms r).nextRetryAt] at hdue
    rw [← hdue]
    rfl

/-- A request without a rate limit is not throttled. -/
theorem requestIsRateLimited_none (env : Env ω) (root : List ReqId)
    (h : (s.req r).rateLimit = none) :
    s.requestIsRateLimited env root r = (false, root, s) := by
  rw [requestIsRateLimited]
  dsimp only
  rw [h]

/-! ### The rate-limited map -/

/-- One round over the detached rate-limited map. -/
theorem Tally.rateLimitedRound (h : Tally W ok s kept gone seen t) (hst : Steady env W ok s)
    (hmax : s.maxConcurrentRequests < 2 ^ 64) (hr : s.Live r)
    (htime : s.due time r = s.due (s.now env) r)
    (hplain : s.due (s.now env) r = true → (s.req r).Plain) (l : List ReqId) :
    (s.due (s.now env) r = true ∧ 0 < t.free ∧ ∃ u,
      Loop.rateLimitedRound env time r (r :: l, t) = .yield (l, u) ∧
      Tally W ok s kept gone (seen ++ [r]) u ∧ (∀ m, m ≠ .queued → u.maps m = t.maps m) ∧
      u.free = t.free - if ok r then 1 else 0) ∨
    ((s.due (s.now env) r = false ∨ t.free = 0) ∧ ∃ u,
      Loop.rateLimitedRound env time r (r :: l, t) = .done (r :: l, u) ∧
      Tally W ok s kept gone seen u ∧ u.maps = t.maps ∧ u.free = t.free) := by
  have hidle : Idle W t (t.follow r) := idle_follow t r
  have hmaps : (t.follow r).maps = t.maps := maps_follow t r
  have hf := h.idle hidle
  rw [Loop.rateLimitedRound]
  dsimp only
  rw [← hidle.free]
  generalize t.follow r = t' at hidle hmaps hf ⊢
  have hlt : time < (t'.req r).nextRetryAt ↔ s.due (s.now env) r = false := by
    rw [← htime, due, decide_eq_false_iff_not, not_le, (hf.terms r).nextRetryAt]
  by_cases hlate : s.due (s.now env) r = false
  · rw [if_pos (hlt.mpr hlate)]
    exact .inr ⟨.inl hlate, t', rfl, hf, hmaps, rfl⟩
  · rw [if_neg fun h' => hlate (hlt.mp h')]
    have hdue : s.due (s.now env) r = true := by simpa using hlate
    have hplain := hplain hdue
    rw [requestIsRateLimited_none env _ (hplain.congr (hf.terms r)).1]
    dsimp only
    rw [if_neg (by simp)]
    obtain ⟨hfull, hready⟩ | ⟨hfree, w, hw, hready⟩ := hf.requestReady hst hr hplain
    · rw [hready]
      exact .inr ⟨.inr hfull, t', rfl, hf, hmaps, rfl⟩
    · rw [hready, hdue]
      dsimp only
      rw [if_pos rfl, List.erase_cons_head]
      have ho : Offered W r (ok r) { t' with world := w }
          (({ t' with world := w } : Loop ω).curlEventLoopRequestStart env r) :=
        offered_start hst hw (hf.terms r) hr hplain
      obtain ⟨htally, hfree'⟩ := (hf.idle (idle_ask t' hw)).offered ho hmax hfree
      exact .inl ⟨rfl, hfree, _, rfl, htally, fun m hm => (ho.maps m hm).trans (congrFun hmaps m),
        hfree'⟩

/-- The loop over the detached rate-limited map lets those due at its front have their turn. -/
theorem Tally.drainRateLimited (h : Tally W ok s kept gone seen t) (hst : Steady env W ok s)
    (hmax : s.maxConcurrentRequests < 2 ^ 64) {root : List ReqId}
    (hroot : ∀ b ∈ root, s.Live b ∧ (s.due (s.now env) b = true → (s.req b).Plain))
    (htime : ∀ b, s.Live b → s.due time b = s.due (s.now env) b) (rest : List ReqId) :
    let p := OrderedMap.whileFirst (fun p => p.1.head?) (Loop.rateLimitedRound env time)
      root.length (root, t)
    ∃ seen', Tally W ok s kept gone seen' p.2 ∧ (∀ m, m ≠ .queued → p.2.maps m = t.maps m) ∧
      seen ++ turns ok t.free (root.takeWhile (s.due (s.now env)) ++ rest) =
        seen' ++ turns ok p.2.free rest := by
  have hdrain := Queueing.whileFirst_turns ok (s.due (s.now env))
    (fun p : List ReqId × Loop ω => p.2.free)
    (fun l seen p => p.1 = l ∧ Tally W ok s kept gone seen p.2 ∧
      (∀ m, m ≠ .queued → p.2.maps m = t.maps m) ∧
      ∀ b ∈ l, s.Live b ∧ (s.due (s.now env) b = true → (s.req b).Plain))
    (g := fun p => p.1.head?) (f := Loop.rateLimitedRound env time) (s := (root, t))
    (fun hI => by rw [hI.1]) (fun {a l seen p} hI => ?_) (le_refl _)
    ⟨rfl, h, fun _ _ => rfl, hroot⟩ rest
  · obtain ⟨-, seen', ⟨-, htally, hmaps, -⟩, hturns⟩ := hdrain
    exact ⟨seen', htally, hmaps, hturns⟩
  · obtain ⟨root, t'⟩ := p
    obtain ⟨rfl, htally, hmaps, hl⟩ := hI
    obtain ⟨hlive, hplain⟩ := hl a List.mem_cons_self
    have hl' : ∀ b ∈ l, s.Live b ∧ (s.due (s.now env) b = true → (s.req b).Plain) :=
      fun b hb => hl b (List.mem_cons_of_mem a hb)
    obtain ⟨hdue, hfree, u, hu, hu', hm, hfree'⟩ | ⟨hstop, u, hu, hu', hm, hfree'⟩ :=
      htally.rateLimitedRound hst hmax hlive (htime a hlive) hplain l
    · exact .inl ⟨hdue, hfree, _, hu, ⟨rfl, hu', fun m hq => (hm m hq).trans (hmaps m hq), hl'⟩,
        hfree'⟩
    · exact .inr ⟨hstop, _, hu, ⟨rfl, hu', fun m hq => (congrFun hm m).trans (hmaps m hq), hl⟩,
        hfree'⟩

/-- The first part of `move_inactive_requests_to_queue`. Nobody is throttled again, so there is
nothing to merge. -/
theorem Tally.moveRateLimited (h : Tally W ok s kept gone seen t) (hst : Steady env W ok s)
    (hmax : s.maxConcurrentRequests < 2 ^ 64)
    (hroot : ∀ b ∈ t.maps .rateLimited, s.Live b ∧ (s.due (s.now env) b = true → (s.req b).Plain))
    (rest : List ReqId) :
    ∃ seen', Tally W ok s kept gone seen' (t.moveRateLimited env) ∧
      (∀ m, m ≠ .queued → m ≠ .rateLimited → (t.moveRateLimited env).maps m = t.maps m) ∧
      seen ++ turns ok t.free ((t.maps .rateLimited).takeWhile (s.due (s.now env)) ++ rest) =
        seen' ++ turns ok (t.moveRateLimited env).free rest := by
  have hlim : MapId.rateLimited ≠ .queued := by simp
  have hset : Idle W t (t.setMap .rateLimited []) := idle_setMap t hlim []
  have hask : Idle W t ((t.setMap .rateLimited []).ask env.macroNow).2 :=
    hset.trans (idle_ask _ (hst.macroNow _ (hset.world h.world)))
  have htime : ∀ b, s.Live b →
      s.due ((t.setMap .rateLimited []).ask env.macroNow).1 b = s.due (s.now env) b :=
    fun b hb => hst.due _ b (hset.world h.world) hb
  obtain ⟨seen', htally, hmaps, hturns⟩ :=
    (h.idle hask).drainRateLimited hst hmax hroot htime rest
  rw [hask.free] at hturns
  rw [Loop.moveRateLimited]
  dsimp only
  generalize OrderedMap.whileFirst (fun p : List ReqId × Loop ω => p.1.head?) _ _ _ = p
    at htally hmaps hturns ⊢
  have hempty : ((t.setMap .rateLimited []).ask env.macroNow).2.maps =
      update t.maps .rateLimited [] := rfl
  rw [hempty] at hmaps
  have hnone : p.2.maps .rateLimited = [] := (hmaps _ hlim).trans (Function.update_self ..)
  have hput : Idle W p.2 (p.2.setMap .rateLimited p.1) := idle_setMap p.2 hlim p.1
  rw [hnone, List.length_nil, OrderedMap.whileFirst]
  refine ⟨seen', htally.idle hput, fun m hq hm => ?_, ?_⟩
  · rw [← Function.update_of_ne hm [] t.maps]
    exact (Function.update_of_ne hm _ _).trans (hmaps m hq)
  · rw [hput.free]
    exact hturns

/-! ### The other maps of waiting requests -/

/-- One round of the loop over `refresh_requests` or `inactive_requests`. -/
theorem Tally.waitingRound (h : Tally W ok s kept gone seen t) (hst : Steady env W ok s)
    (hmax : s.maxConcurrentRequests < 2 ^ 64) (hm : m ≠ .queued) (hr : s.Live r)
    (hplain : (s.req r).Plain) (ht : t.maps m = r :: l) :
    (s.due (s.now env) r = true ∧ 0 < t.free ∧ ∃ u, Loop.waitingRound env m r t = .yield u ∧
      Tally W ok s kept gone (seen ++ [r]) u ∧ u.maps m = l ∧
      (∀ m', m' ≠ .queued → m' ≠ m → u.maps m' = t.maps m') ∧
      u.free = t.free - if ok r then 1 else 0) ∨
    ((s.due (s.now env) r = false ∨ t.free = 0) ∧ ∃ u, Loop.waitingRound env m r t = .done u ∧
      Tally W ok s kept gone seen u ∧ u.maps = t.maps ∧ u.free = t.free) := by
  have hidle : Idle W t (t.follow r) := idle_follow t r
  have hmaps : (t.follow r).maps = t.maps := maps_follow t r
  have hf := h.idle hidle
  rw [Loop.waitingRound]
  dsimp only
  rw [← hidle.free]
  generalize t.follow r = t' at hidle hmaps hf ⊢
  rw [requestIsRateLimited_none env _ (hplain.congr (hf.terms r)).1]
  dsimp only
  rw [setMap_self, if_neg (by simp)]
  obtain ⟨hfull, hready⟩ | ⟨hfree, w, hw, hready⟩ := hf.requestReady hst hr hplain
  · rw [hready]
    exact .inr ⟨.inr hfull, t', rfl, hf, hmaps, rfl⟩
  · rw [hready]
    dsimp only
    have hask : Idle W t' { t' with world := w } := idle_ask t' hw
    cases hdue : s.due (s.now env) r with
    | false =>
      rw [if_neg (by simp)]
      exact .inr ⟨.inl rfl, _, rfl, hf.idle hask, hmaps, hask.free⟩
    | true =>
      rw [if_pos rfl]
      have hout : Idle W t' ((({ t' with world := w } : Loop ω).eraseMap m r).addNum m (-1)) :=
        hask.trans ((idle_setMap _ hm _).trans (idle_addNum _ hm _))
      have hoffer := offered_start hst (hout.world hf.world) ((hf.idle hout).terms r) hr hplain
      obtain ⟨htally, hfree'⟩ := (hf.idle hout).offered hoffer hmax (hout.free ▸ hfree)
      rw [hout.free] at hfree'
      refine .inl ⟨rfl, hfree, _, rfl, htally, (hoffer.maps m hm).trans ?_,
        fun m' hq hm' => (hoffer.maps m' hq).trans ?_, hfree'⟩
      · show update t'.maps m ((t'.maps m).erase r) m = l
        rw [Function.update_self, hmaps, ht, List.erase_cons_head]
      · show update t'.maps m ((t'.maps m).erase r) m' = t.maps m'
        rw [Function.update_of_ne hm', hmaps]

/-- The second and third part of `move_inactive_requests_to_queue` let those due at the front of a
map have their turn. -/
theorem Tally.moveWaiting (h : Tally W ok s kept gone seen t) (hst : Steady env W ok s)
    (hmax : s.maxConcurrentRequests < 2 ^ 64) (hm : m ≠ .queued)
    (hmap : ∀ b ∈ t.maps m, s.Live b ∧ (s.req b).Plain) (rest : List ReqId) :
    ∃ seen', Tally W ok s kept gone seen' (t.moveWaiting env m) ∧
      (∀ m', m' ≠ .queued → m' ≠ m → (t.moveWaiting env m).maps m' = t.maps m') ∧
      seen ++ turns ok t.free ((t.maps m).takeWhile (s.due (s.now env)) ++ rest) =
        seen' ++ turns ok (t.moveWaiting env m).free rest := by
  have hdrain := Queueing.whileFirst_turns ok (s.due (s.now env)) (fun u : Loop ω => u.free)
    (fun l seen u => u.maps m = l ∧ Tally W ok s kept gone seen u ∧
      (∀ m', m' ≠ .queued → m' ≠ m → u.maps m' = t.maps m') ∧
      ∀ b ∈ l, s.Live b ∧ (s.req b).Plain)
    (g := fun u : Loop ω => (u.maps m).head?) (f := Loop.waitingRound env m) (s := t)
    (fun hI => by rw [hI.1]) (fun {a l seen u} hI => ?_) (le_refl _)
    ⟨rfl, h, fun _ _ _ => rfl, hmap⟩ rest
  · obtain ⟨-, seen', ⟨-, htally, hmaps, -⟩, hturns⟩ := hdrain
    exact ⟨seen', htally, hmaps, hturns⟩
  · obtain ⟨hu, htally, hmaps, hl⟩ := hI
    obtain ⟨hlive, hplain⟩ := hl a List.mem_cons_self
    have hl' : ∀ b ∈ l, s.Live b ∧ (s.req b).Plain :=
      fun b hb => hl b (List.mem_cons_of_mem a hb)
    obtain ⟨hdue, hfree, u', hu', htally', hrest, hother, hfree'⟩ |
        ⟨hstop, u', hu', htally', hsame, hfree'⟩ :=
      htally.waitingRound hst hmax hm hlive hplain hu
    · exact .inl ⟨hdue, hfree, u', hu', ⟨hrest, htally', fun m' hq hm' =>
        (hother m' hq hm').trans (hmaps m' hq hm'), hl'⟩, hfree'⟩
    · exact .inr ⟨hstop, u', hu', ⟨(congrFun hsame m).trans hu, htally', fun m' hq hm' =>
        (congrFun hsame m').trans (hmaps m' hq hm'), hl⟩, hfree'⟩

/-- **The second pass.** Those due at the front of the maps have their turn, map by map. -/
theorem Tally.moveInactiveRequestsToQueue (h : Tally W ok s kept gone seen t)
    (hst : Steady env W ok s) (hmax : s.maxConcurrentRequests < 2 ^ 64)
    (hroot : ∀ b ∈ t.maps .rateLimited, s.Live b ∧ (s.due (s.now env) b = true → (s.req b).Plain))
    (hrefresh : ∀ b ∈ t.maps .refresh, s.Live b ∧ (s.req b).Plain)
    (hinactive : ∀ b ∈ t.maps .inactive, s.Live b ∧ (s.req b).Plain) :
    Tally W ok s kept gone (seen ++ turns ok t.free
      ((t.maps .rateLimited).takeWhile (s.due (s.now env)) ++
        ((t.maps .refresh).takeWhile (s.due (s.now env)) ++
          ((t.maps .inactive).takeWhile (s.due (s.now env)) ++ []))))
      (t.moveInactiveRequestsToQueue env) := by
  obtain ⟨seen₁, h₁, hm₁, hturns₁⟩ := h.moveRateLimited hst hmax hroot
    ((t.maps .refresh).takeWhile (s.due (s.now env)) ++
      ((t.maps .inactive).takeWhile (s.due (s.now env)) ++ []))
  have hrefresh₁ := hm₁ .refresh (by simp) (by simp)
  have hinactive₁ := hm₁ .inactive (by simp) (by simp)
  rw [hturns₁, ← hrefresh₁]
  rw [← hrefresh₁] at hrefresh
  obtain ⟨seen₂, h₂, hm₂, hturns₂⟩ := h₁.moveWaiting hst hmax (m := .refresh) (by simp) hrefresh
    ((t.maps .inactive).takeWhile (s.due (s.now env)) ++ [])
  have hinactive₂ := (hm₂ .inactive (by simp) (by simp)).trans hinactive₁
  rw [hturns₂, ← hinactive₂]
  rw [← hinactive₂] at hinactive
  obtain ⟨seen₃, h₃, -, hturns₃⟩ := h₂.moveWaiting hst hmax (m := .inactive) (by simp) hinactive []
  rw [hturns₃, Queueing.turns_nil, List.append_nil]
  exact h₃

/-! ### The pending list -/

/-- The due requests at the front of the maps of `t`, by the times at which they are due in `s`. -/
def waitingLine (time : ℕ) (s t : Loop ω) : List ReqId :=
  (t.maps .rateLimited).takeWhile (s.due time) ++ ((t.maps .refresh).takeWhile (s.due time) ++
    ((t.maps .inactive).takeWhile (s.due time) ++ []))

theorem waitingMap_ne_rateLimited (q : Request) : waitingMap q ≠ .rateLimited := by
  rw [waitingMap]
  split <;> simp

/-- A pending request is started if a slot is free and it is due, and put on a map if not. -/
theorem Tally.schedulePending (h : Tally W ok s kept gone seen t) (hst : Steady env W ok s)
    (hmax : s.maxConcurrentRequests < 2 ^ 64) (hr : s.Live r) (hplain : (s.req r).Plain) :
    (s.due (s.now env) r = true ∧ 0 < t.free ∧
      Tally W ok s kept gone (seen ++ [r]) (t.schedulePending env r) ∧
      (t.schedulePending env r).nextPending = t.nextPending ∧
      (∀ m, m ≠ .queued → (t.schedulePending env r).maps m = t.maps m) ∧
      (t.schedulePending env r).free = t.free - if ok r then 1 else 0) ∨
    ((s.due (s.now env) r = false ∨ t.free = 0) ∧
      Tally W ok s kept gone seen (t.schedulePending env r) ∧
      (t.schedulePending env r).nextPending = t.nextPending ∧
      (∃ m, m ≠ .queued ∧ m ≠ .rateLimited ∧ (t.schedulePending env r).maps = update t.maps m
        (OrderedMap.insertMulti (fun b => (s.req b).nextRetryAt) r (t.maps m))) ∧
      (t.schedulePending env r).free = t.free) := by
  have hplain' := hplain.congr (h.terms r)
  have hret : t.retainDepsOnce r = t := by
    rw [retainDepsOnce, if_neg fun hd => hd.2 hplain'.2]
  have hwait : t.requestWaitingOnDependencies r = (false, t) := by
    rw [requestWaitingOnDependencies, hplain'.2, curlResourceCheckAndBlockList]
  have hput : ∀ u : Loop ω, u.req = t.req → u.maps = t.maps → ∃ m, m ≠ .queued ∧ m ≠ .rateLimited ∧
      (u.enqueueRequest r).maps = update t.maps m
        (OrderedMap.insertMulti (fun b => (s.req b).nextRetryAt) r (t.maps m)) := by
    intro u hreq hmaps
    have hkey : (fun b => (u.req b).nextRetryAt) = fun b => (s.req b).nextRetryAt := by
      funext b
      rw [hreq]
      exact (h.terms b).nextRetryAt
    refine ⟨waitingMap (u.req r), waitingMap_ne_queued _, waitingMap_ne_rateLimited _, ?_⟩
    rw [← hkey, ← hmaps]
    rfl
  rw [Loop.schedulePending, hret, hwait]
  dsimp only
  rw [if_neg (by simp)]
  obtain ⟨hfull, hready⟩ | ⟨hfree, w, hw, hready⟩ := h.requestReady hst hr hplain
  · rw [hready, if_neg (by simp)]
    have hidle : Idle W t (t.enqueueRequest r) := idle_enqueueRequest t r
    exact .inr ⟨.inr hfull, h.idle hidle, rfl, hput t rfl rfl, hidle.free⟩
  · rw [hready]
    dsimp only
    have hask : Idle W t { t with world := w } := idle_ask t hw
    cases hdue : s.due (s.now env) r with
    | false =>
      rw [if_neg (by simp)]
      have hidle := hask.trans (idle_enqueueRequest { t with world := w } r)
      exact .inr ⟨.inl rfl, h.idle hidle, rfl, hput _ rfl rfl, hidle.free⟩
    | true =>
      rw [if_pos rfl]
      have hoffer := offered_start hst hw ((h.idle hask).terms r) hr hplain
      obtain ⟨htally, hfree'⟩ := (h.idle hask).offered hoffer hmax (hask.free ▸ hfree)
      rw [hask.free] at hfree'
      exact .inl ⟨rfl, hfree, htally, hoffer.nextPending, hoffer.maps, hfree'⟩

theorem waitingLine_congr (hu : ∀ m, m ≠ .queued → u.maps m = t.maps m) :
    waitingLine time s u = waitingLine time s t := by
  rw [waitingLine, waitingLine, hu .rateLimited (by simp), hu .refresh (by simp),
    hu .inactive (by simp)]

/-- A request that is not due is put behind those at the front of a map. -/
theorem waitingLine_insert (hr : s.due time r = false)
    (hu : u.maps = update t.maps m
      (OrderedMap.insertMulti (fun b => (s.req b).nextRetryAt) r (t.maps m))) :
    waitingLine time s u = waitingLine time s t := by
  have hlate : time < (s.req r).nextRetryAt := not_le.mp (of_decide_eq_false hr)
  have hmap : ∀ m', (u.maps m').takeWhile (s.due time) = (t.maps m').takeWhile (s.due time) := by
    intro m'
    rw [hu]
    rcases eq_or_ne m' m with rfl | hm
    · rw [Function.update_self]
      exact @OrderedMap.takeWhile_insertMulti _ (fun b => (s.req b).nextRetryAt) r time hlate _
    · rw [Function.update_of_ne hm]
  rw [waitingLine, waitingLine, hmap, hmap, hmap]

/-- The state of the walk over the pending list `pending` when `l` is left of it. The turns of
`all` are being taken. -/
structure Walking (env : Env ω) (W : ω → Prop) (ok : ReqId → Bool) (s : Loop ω)
    (kept before pending all gone seen l : List ReqId) (t : Loop ω) : Prop where
  tally : Tally W ok s kept gone seen t
  order : all = seen ++ turns ok t.free (l.filter (fun b =>
    !(s.req b).isCancelled && s.due (s.now env) b) ++ waitingLine (s.now env) s t)
  gone : ∀ b, b ∈ gone ↔ b ∈ before ∨ b ∈ pending ∧ b ∉ l ∧ (s.req b).isCancelled = true
  nodup : l.Nodup
  subset : l ⊆ pending
  root : ∀ b ∈ t.maps .rateLimited, s.Live b ∧ (s.due (s.now env) b = true → (s.req b).Plain)
  waiting : ∀ m, m ≠ .queued → m ≠ .rateLimited → ∀ b ∈ t.maps m, s.Live b ∧ (s.req b).Plain

variable {before pending all : List ReqId}

/-- One round of the walk over the pending list. -/
theorem Walking.round (h : Walking env W ok s kept before pending all gone seen (r :: l) t)
    (hst : Steady env W ok s) (hmax : s.maxConcurrentRequests < 2 ^ 64)
    (hfit : ∀ b ∈ pending, s.Live b ∧ ((s.req b).isCancelled = false → (s.req b).Plain)) :
    ∃ gone seen, Walking env W ok s kept before pending all gone seen l
      (Loop.pendingRound env r (t.follow r)) ∧
      ∀ b ∈ l, (Loop.pendingRound env r (t.follow r)).nextPending b = t.nextPending b := by
  obtain ⟨hrl, hl⟩ := List.nodup_cons.mp h.nodup
  have hsub : l ⊆ pending := fun b hb => h.subset (List.mem_cons_of_mem r hb)
  have hrP : r ∈ pending := h.subset List.mem_cons_self
  obtain ⟨hlive, hplain⟩ := hfit r hrP
  have hidle : Idle W t (((t.follow r).modifyReq r fun q => q.setPending false).setNextPending r
      none) := by
    refine (idle_follow t r).trans ⟨fun hw => hw, fun b => ?_, rfl, rfl, rfl, rfl, rfl⟩
    exact sameTerms_modifyReq _ r (f := fun q => q.setPending false) ⟨rfl, rfl, rfl, rfl, rfl⟩ b
  have hlink : ∀ b ∈ l, (((t.follow r).modifyReq r fun q => q.setPending false).setNextPending r
      none).nextPending b = t.nextPending b := by
    intro b hb
    have hbr : b ≠ r := ne_of_mem_of_not_mem hb hrl
    have hfollow : (t.follow r).nextPending = t.nextPending := by
      rw [follow]
      split <;> rfl
    rw [← hfollow]
    exact Function.update_of_ne hbr none (t.follow r).nextPending
  have hmaps : (((t.follow r).modifyReq r fun q => q.setPending false).setNextPending r
      none).maps = t.maps := maps_follow t r
  rw [Loop.pendingRound]
  have hu := h.tally.idle hidle
  have hfree := hidle.free
  generalize ((t.follow r).modifyReq r fun q => q.setPending false).setNextPending r none = u
    at hidle hlink hmaps hu hfree ⊢
  have hline : waitingLine (s.now env) s u = waitingLine (s.now env) s t :=
    waitingLine_congr fun m _ => congrFun hmaps m
  have horder := h.order
  rw [← hfree, ← hline] at horder
  rw [(hu.terms r).isCancelled]
  cases hc : (s.req r).isCancelled with
  | true =>
    rw [List.filter_cons_of_neg (by simp [hc])] at horder
    rw [if_pos rfl]
    refine ⟨r :: gone, seen, ⟨hu.destroy r, horder, fun b => ?_, hl, hsub, ?_, fun m hq hm => ?_⟩,
      hlink⟩
    · rw [List.mem_cons, h.gone, List.mem_cons]
      constructor
      · rintro (rfl | hb | ⟨hb, hbl, hbc⟩)
        · exact .inr ⟨hrP, hrl, hc⟩
        · exact .inl hb
        · exact .inr ⟨hb, fun hbl' => hbl (.inr hbl'), hbc⟩
      · rintro (hb | ⟨hb, hbl, hbc⟩)
        · exact .inr (.inl hb)
        · rcases eq_or_ne b r with rfl | hbr
          · exact .inl rfl
          · exact .inr (.inr ⟨hb, not_or.mpr ⟨hbr, hbl⟩, hbc⟩)
    · rw [maps_destroy, hmaps]
      exact h.root
    · rw [maps_destroy, hmaps]
      exact h.waiting m hq hm
  | false =>
    rw [if_neg (by simp)]
    have hgone : ∀ b, b ∈ gone ↔
        b ∈ before ∨ b ∈ pending ∧ b ∉ l ∧ (s.req b).isCancelled = true := by
      intro b
      rw [h.gone, List.mem_cons]
      refine or_congr_right (and_congr_right fun _ => ⟨?_, ?_⟩)
      · rintro ⟨hbl, hbc⟩
        exact ⟨fun hbl' => hbl (.inr hbl'), hbc⟩
      · rintro ⟨hbl, hbc⟩
        refine ⟨?_, hbc⟩
        rintro (rfl | hbl')
        · rw [hc] at hbc
          contradiction
        · exact hbl hbl'
    obtain ⟨hdue, hpos, htally, hnext, hrest, hfree'⟩ |
        ⟨hstop, htally, hnext, ⟨m, hmq, hmr, hrest⟩, hfree'⟩ :=
      hu.schedulePending hst hmax hlive (hplain hc)
    · rw [List.filter_cons_of_pos (by simp [hc, hdue]), List.cons_append, turns_cons hpos,
        ← hfree', List.append_cons] at horder
      refine ⟨gone, seen ++ [r], ⟨htally, ?_, hgone, hl, hsub, ?_, fun m hq hm => ?_⟩,
        fun b hb => ?_⟩
      · rw [waitingLine_congr hrest]
        exact horder
      · rw [hrest _ (by simp), hmaps]
        exact h.root
      · rw [hrest m hq, hmaps]
        exact h.waiting m hq hm
      · rw [hnext]
        exact hlink b hb
    · refine ⟨gone, seen, ⟨htally, ?_, hgone, hl, hsub, ?_, fun m' hq hm => ?_⟩, fun b hb => ?_⟩
      · rw [hfree']
        rcases hstop with hlate | hfull
        · rw [List.filter_cons_of_neg (by simp [hlate])] at horder
          rw [waitingLine_insert hlate hrest]
          exact horder
        · rw [hfull, Queueing.turns_zero] at horder ⊢
          exact horder
      · rw [hrest, Function.update_of_ne hmr.symm, hmaps]
        exact h.root
      · rw [hrest, hmaps]
        rcases eq_or_ne m' m with rfl | hne
        · rw [Function.update_self]
          intro b hb
          rcases OrderedMap.mem_insertMulti.mp hb with rfl | hb
          · exact ⟨hlive, hplain hc⟩
          · exact h.waiting m' hq hm b hb
        · rw [Function.update_of_ne hne]
          exact h.waiting m' hq hm
      · rw [hnext]
        exact hlink b hb

/-! ### The cancelled list -/

/-- What the walk over the cancelled list does not do. -/
structure Swept (s t : Loop ω) : Prop where
  world : t.world = s.world
  terms : ∀ b, (s.req b).SameTerms (t.req b)
  accepted : t.accepted = s.accepted
  room : t.maxConcurrentRequests = s.maxConcurrentRequests
  maps : ∀ m, (t.maps m).Sublist (s.maps m)
  offset : t.offset = s.offset

theorem Swept.round (h : Swept s t) (hr : t.Mapped r) : Swept s (t.cancelledRound r) where
  world := (world_cancelledRound t r).trans h.world
  terms b := by
    refine (h.terms b).trans ?_
    exact sameTerms_destroy (t.dropFromMap (cancelledMap (t.req r)) r) r b
  accepted := (accepted_cancelledRound t r).trans h.accepted
  room := (maxConcurrentRequests_cancelledRound t r).trans h.room
  maps m := by
    rw [maps_cancelledRound]
    rcases eq_or_ne m (cancelledMap (t.req r)) with rfl | hm
    · rw [Function.update_self]
      exact List.erase_sublist.trans (h.maps _)
    · rw [Function.update_of_ne hm]
      exact h.maps m
  offset := (offset_cancelledRound hr).trans h.offset

/-- The walk over the cancelled list, when each request on it is in its map. -/
theorem Located.sweep (h : Located s v)
    (hC : CancelledList s.req s.nextCancelled C.head? s.accepted s.destroyed C)
    (hnone : s.cancelledRequests = none) (hmapped : ∀ b ∈ C, s.Mapped b) :
    ∃ v', WalkCancelled s v C [] (s.forEachCancelled C.head? Loop.cancelledRound) v' ∧
      Swept s (s.forEachCancelled C.head? Loop.cancelledRound) := by
  have hlen : C.length ≤ s.accepted.length :=
    (List.subperm_of_subset hC.nodup fun b hb => (hC.live b hb).1).length_le
  have hstart : WalkCancelled s v C C s v := ⟨h, hC, hnone, fun _ h => h, hmapped,
    fun b hb hb' => absurd hb hb', rfl, rfl, fun _ _ => rfl, fun _ _ _ h => h, fun _ _ => rfl⟩
  refine Intrusive.forEach_rule (G := fun _ => True)
    (P := fun l t => ∃ v', WalkCancelled s v C l t v' ∧ Swept s t) (fun _ _ _ => trivial)
    (fun r l t ht _ => ?_) hlen hC.chain
    ⟨v, hstart, rfl, fun _ => .refl _, rfl, rfl, fun _ => .refl _, rfl⟩ trivial
  obtain ⟨v', hwalk, hswept⟩ := ht
  have hmap : t.Mapped r := hwalk.mapped r List.mem_cons_self
  have hr : r ∈ v' (.map (cancelledMap (t.req r))) := by
    rw [← hwalk.located.maps]
    exact hmap
  rw [hwalk.located.follow hr]
  obtain ⟨v'', hwalk'⟩ := hwalk.round
  exact ⟨⟨v'', hwalk', hswept.round hmap⟩,
    fun b _ => congrFun (nextCancelled_cancelledRound t r) b⟩

/-- The cancelled requests are out of the maps after the walk, and everybody else is still there. -/
theorem WalkCancelled.maps_eq (h : WalkCancelled s v C [] t v') (hloc : Located s v)
    (hs : Swept s t) (m : MapId) : t.maps m = (s.maps m).filter fun b => b ∉ C := by
  have hmem : ∀ b, b ∈ t.maps m ↔ b ∈ s.maps m ∧ b ∉ C := by
    intro b
    constructor
    · intro hb
      refine ⟨(hs.maps m).subset hb, fun hbC => ?_⟩
      rw [h.located.maps] at hb
      exact (h.located.live_of_mem hb).2 (h.done b hbC (by simp))
    · rintro ⟨hb, hbC⟩
      rw [hloc.maps] at hb
      rw [h.located.maps]
      exact h.stays _ b hbC hb
  have hnd : (s.maps m).Nodup := by
    rw [hloc.maps]
    exact hloc.placed.nodup _
  have hperm : (t.maps m).Perm ((s.maps m).filter fun b => b ∉ C) := by
    rw [List.perm_ext_iff_of_nodup ((hs.maps m).nodup hnd) (hnd.filter _)]
    intro b
    rw [hmem, List.mem_filter, decide_eq_true_iff]
  have hsub : (t.maps m).Sublist ((s.maps m).filter fun b => b ∉ C) := by
    have hall : (t.maps m).filter (fun b => b ∉ C) = t.maps m :=
      List.filter_eq_self.mpr fun b hb => decide_eq_true ((hmem b).mp hb).2
    rw [← hall]
    exact (hs.maps m).filter _
  exact hsub.eq_of_length hperm.length_eq

/-! ### The pass -/

/-- What the walk over the pending list finds when the cancelled requests are gone. -/
theorem WalkCancelled.walking (h : WalkCancelled s.detachCancelled.detachPending
      (update (update v .pending []) (.detached .pending) (v .pending)) C [] t v')
    (hs : Swept s.detachCancelled.detachPending t) (hwf : s.WF v C) (hcount : s.Counted)
    (hloc : Located s.detachCancelled.detachPending
      (update (update v .pending []) (.detached .pending) (v .pending)))
    (hsize : s.num .queued < 2 ^ 64) (hplain : ∀ b, s.Concerns env b → (s.req b).Plain)
    (hst : Steady env W ok s) :
    Walking env W ok s ((s.maps .queued).filter fun b => b ∉ s.cancelledList) t.destroyed
      (s.pendingChain s.pendingRequests) (s.reached env ok) t.destroyed []
      (s.pendingChain s.pendingRequests) t := by
  have hlist : s.cancelledList = C := hwf.marked.cancelledList_eq
  have hchain : s.pendingChain s.pendingRequests = v .pending :=
    Intrusive.walk_eq hwf.located.linked.pending (hwf.located.length_le .pending)
  have hmaps : ∀ m, t.maps m = (s.maps m).filter fun b => b ∉ s.cancelledList := by
    intro m
    rw [hlist]
    exact h.maps_eq hloc hs m
  have hmem : ∀ {m : MapId} {b : ReqId}, b ∈ t.maps m → b ∈ s.maps m ∧ s.Live b := by
    intro m b hb
    have hb' : b ∈ s.maps m := (hs.maps m).subset hb
    refine ⟨hb', ?_⟩
    rw [hwf.located.maps] at hb'
    exact hwf.located.live_of_mem hb'
  have hcounted : t.Counted := hcount.of_offset hs.offset
  have hqueued : s.num .queued = (s.maps .queued).length := hcount .queued (by simp)
  have htally : Tally W ok s ((s.maps .queued).filter fun b => b ∉ s.cancelledList) t.destroyed []
      t := by
    refine ⟨hs.world ▸ hst.here, hs.terms, hs.accepted, hs.room, ?_, hcounted .queued (by simp),
      ?_, fun b => by simp⟩
    · rw [hmaps]
      exact .refl _
    · have hle : (t.maps .queued).length ≤ (s.maps .queued).length := (hs.maps .queued).length_le
      omega
  refine ⟨htally, ?_, fun b => ⟨.inl, fun hb => hb.elim id fun hb => absurd hb.1 hb.2.1⟩, ?_,
    fun b hb => hb, fun b hb => ?_, fun m hq hr b hb => ?_⟩
  · have hfree : t.free = s.freeSlots := by
      rw [free, freeSlots, htally.room, hmaps]
    have hline : s.line env = (s.pendingChain s.pendingRequests).filter (fun b =>
        !(s.req b).isCancelled && s.due (s.now env) b) ++ waitingLine (s.now env) s t := by
      rw [line, waitingLine, hmaps, hmaps, hmaps]
      rfl
    rw [reached, hline, ← hfree]
    rfl
  · rw [hchain]
    exact hwf.located.placed.nodup .pending
  · obtain ⟨hb', hlive⟩ := hmem hb
    exact ⟨hlive, fun hdue => hplain b (.inr (.inr (.inr ⟨hb', hdue⟩)))⟩
  · obtain ⟨hb', hlive⟩ := hmem hb
    refine ⟨hlive, hplain b ?_⟩
    cases m with
    | queued => exact absurd rfl hq
    | rateLimited => exact absurd rfl hr
    | refresh => exact .inr (.inl hb')
    | inactive => exact .inr (.inr (.inl hb'))

/-- **What a pass does.** The requests whose turn comes are started, or destroyed if a handle cannot
be set up for them. Besides those, the cancelled ones are gone. -/
theorem tally_pass (h : s.Resting) (hcount : s.Counted)
    (hmapped : ∀ b ∈ s.cancelledList, s.Mapped b) (hsize : s.num .queued < 2 ^ 64)
    (hmax : s.maxConcurrentRequests < 2 ^ 64) (hplain : ∀ b, s.Concerns env b → (s.req b).Plain)
    (hst : Steady env W ok s) :
    ∃ gone, Tally W ok s ((s.maps .queued).filter fun b => b ∉ s.cancelledList) gone
      (s.reached env ok) (s.servicePass env) ∧ ∀ b, s.Live b → (b ∈ gone ↔ s.Dropped b) := by
  obtain ⟨v, C, hwf, hv⟩ := h
  have hlist : s.cancelledList = C := hwf.marked.cancelledList_eq
  have hchain : s.pendingChain s.pendingRequests = v .pending :=
    Intrusive.walk_eq hwf.located.linked.pending (hwf.located.length_le .pending)
  have hpending : ∀ b ∈ s.pendingChain s.pendingRequests,
      s.Live b ∧ ((s.req b).isCancelled = false → (s.req b).Plain) := by
    intro b hb
    refine ⟨?_, fun _ => hplain b (.inl hb)⟩
    rw [hchain] at hb
    exact hwf.located.live_of_mem hb
  rw [hlist] at hmapped
  obtain ⟨hloc, hC⟩ := hwf.detachBoth (hv.detached .pending)
  obtain ⟨v₁, hwalk, hswept⟩ := hloc.sweep hC rfl hmapped
  have hhead : s.cancelledRequests = C.head? := hwf.marked.chain.head_eq
  rw [servicePass, Loop.processCancelledAndPendingRequests, hhead]
  generalize (s.detachCancelled.detachPending.forEachCancelled C.head? Loop.cancelledRound) = t
    at hwalk hswept ⊢
  have hstart := hwalk.walking hswept hwf hcount hloc hsize hplain hst
  have hlinks : Intrusive.IsChain t.nextPending s.pendingRequests
      (s.pendingChain s.pendingRequests) := by
    rw [hchain, hwalk.nextPending]
    exact hwf.located.linked.pending
  have hlen : (s.pendingChain s.pendingRequests).length ≤ t.accepted.length := by
    rw [hchain, hstart.tally.accepted]
    exact hwf.located.length_le .pending
  obtain ⟨gone, seen, hend⟩ := Intrusive.forEach_rule (k := fun (u : Loop ω) b => u.nextPending b)
    (f := fun b u => Loop.pendingRound env b (u.follow b)) (G := fun _ => True)
    (P := fun l u => ∃ gone seen, Walking env W ok s
      ((s.maps .queued).filter fun b => b ∉ s.cancelledList) t.destroyed
      (s.pendingChain s.pendingRequests) (s.reached env ok) gone seen l u)
    (fun _ _ _ => trivial)
    (fun b l u hu _ => by
      obtain ⟨gone, seen, hu⟩ := hu
      obtain ⟨gone', seen', hu', hlink⟩ := hu.round hst hmax hpending
      exact ⟨⟨gone', seen', hu'⟩, hlink⟩) hlen hlinks ⟨_, _, hstart⟩ trivial
  refine ⟨gone, ?_, fun b hlive => ?_⟩
  · have hsecond := hend.tally.moveInactiveRequestsToQueue hst hmax hend.root
      (hend.waiting .refresh (by simp) (by simp)) (hend.waiting .inactive (by simp) (by simp))
    rw [hend.order]
    exact hsecond
  · rw [hend.gone, Dropped, hlist, IsPending]
    have hdone : b ∈ t.destroyed ↔ b ∈ C := by
      constructor
      · intro hb
        by_contra hbC
        obtain ⟨p, hp⟩ := (hloc.placed.live_iff b).mp hlive
        exact (hwalk.located.live_of_mem (hwalk.stays p b hbC hp)).2 hb
      · intro hbC
        exact hwalk.done b hbC (by simp)
    rw [hdone]
    simp

/-! ### When the law holds -/

/-- Whoever is in the line is live and not active. -/
theorem Resting.idle_of_line (h : s.Resting) {a : ReqId}
    (ha : s.IsPending a ∨ ∃ m, m ≠ .queued ∧ a ∈ s.maps m) : s.Live a ∧ a ∉ s.maps .queued := by
  obtain ⟨v, C, hwf, -⟩ := h
  have hplace : ∃ p, p ≠ .map .queued ∧ a ∈ v p := by
    rcases ha with ha | ⟨m, hm, ha⟩
    · rw [IsPending, pendingChain,
        Intrusive.walk_eq hwf.located.linked.pending (hwf.located.length_le .pending)] at ha
      exact ⟨.pending, by simp, ha⟩
    · rw [hwf.located.maps] at ha
      exact ⟨.map m, by simpa using hm, ha⟩
  obtain ⟨p, hp, ha⟩ := hplace
  refine ⟨hwf.located.live_of_mem ha, ?_⟩
  rw [hwf.located.maps]
  exact hwf.located.placed.notMem_of_ne ha hp

theorem mem_line {a : ReqId} (ha : a ∈ s.line env) :
    s.IsPending a ∨ ∃ m, m ≠ .queued ∧ a ∈ s.maps m := by
  have hfront : ∀ {m : MapId}, a ∈ s.front (s.now env) m → a ∈ s.maps m := fun h =>
    (List.mem_filter.mp (List.takeWhile_subset _ h)).1
  rw [line] at ha
  rcases List.mem_append.mp ha with ha | ha
  · exact .inl (List.mem_filter.mp ha).1
  · rcases List.mem_append.mp ha with ha | ha
    · exact .inr ⟨.rateLimited, by simp, hfront ha⟩
    · rcases List.mem_append.mp ha with ha | ha
      · exact .inr ⟨.refresh, by simp, hfront ha⟩
      · exact .inr ⟨.inactive, by simp, hfront (by simpa using ha)⟩

/-- Of the requests whose turn comes, those for which a handle can be set up are started, and nobody
else is. -/
theorem Tally.started_iff (h : Tally W ok s ((s.maps .queued).filter fun b => b ∉ s.cancelledList)
      gone (s.reached env ok) t) (hrest : s.Resting) (a : ReqId) :
    a ∈ t.maps .queued ∧ a ∉ s.maps .queued ↔ a ∈ s.reached env ok ∧ ok a = true := by
  rw [h.active.mem_iff, List.mem_append, List.mem_filter, List.mem_filter]
  constructor
  · rintro ⟨hturn | hkept, hnew⟩
    · exact hturn
    · exact absurd hkept.1 hnew
  · intro hturn
    exact ⟨.inl hturn, (hrest.idle_of_line (mem_line (Queueing.mem_of_mem_turns hturn.1))).2⟩

/-- Of the requests that were waiting, those that were not cancelled and whose turn does not come are
left. -/
theorem Tally.left_iff (h : Tally W ok s ((s.maps .queued).filter fun b => b ∉ s.cancelledList)
      gone (s.reached env ok) t) (hgone : ∀ b, s.Live b → (b ∈ gone ↔ s.Dropped b)) {b : ReqId}
    (hb : s.Live b ∧ b ∉ s.maps .queued) :
    t.Live b ∧ b ∉ t.maps .queued ↔ ¬ s.Dropped b ∧ b ∉ s.reached env ok := by
  obtain ⟨hlive, hidle⟩ := hb
  rw [Live, h.accepted, h.destroyed, hgone b hlive, h.active.mem_iff, List.mem_append,
    List.mem_filter, List.mem_filter]
  constructor
  · rintro ⟨⟨-, hnot⟩, hleft⟩
    refine ⟨fun hd => hnot (.inl hd), fun hturn => ?_⟩
    cases hok : ok b with
    | true => exact hleft (.inl ⟨hturn, hok⟩)
    | false => exact hnot (.inr ⟨hturn, hok⟩)
  · rintro ⟨hkept, hturn⟩
    refine ⟨⟨hlive.1, ?_⟩, ?_⟩
    · rintro (hd | hd)
      · exact hkept hd
      · exact hturn hd.1
    · rintro (hq | hq)
      · exact hturn hq.1
      · exact hidle hq.1

/-- **Higher priority first**, exactly: nobody who is started in his turn is due later than somebody
whom the free slots do not reach. -/
theorem higherFirst_iff (h : s.Resting) (hcount : s.Counted)
    (hmapped : ∀ b ∈ s.cancelledList, s.Mapped b) (hsize : s.num .queued < 2 ^ 64)
    (hmax : s.maxConcurrentRequests < 2 ^ 64) (hplain : ∀ b, s.Concerns env b → (s.req b).Plain)
    (hst : Steady env W ok s) :
    s.HigherFirst env ↔ ∀ a ∈ s.reached env ok, ok a = true →
      ∀ b, s.IsPending b ∨ b ∈ s.maps .inactive → ¬ s.Dropped b → s.due (s.now env) b = true →
        b ∉ s.reached env ok → (s.req a).nextRetryAt ≤ (s.req b).nextRetryAt := by
  obtain ⟨gone, htally, hgone⟩ := tally_pass h hcount hmapped hsize hmax hplain hst
  have hstarted := htally.started_iff h
  have hleft : ∀ b, s.IsPending b ∨ b ∈ s.maps .inactive → _ := fun b hb => htally.left_iff hgone
    (h.idle_of_line (hb.imp_right fun hb => ⟨.inactive, by simp, hb⟩))
  constructor
  · intro hlaw a ha hok b hb hkept hdue hturn
    obtain ⟨hact, hnew⟩ := (hstarted a).mpr ⟨ha, hok⟩
    obtain ⟨hlive, hwait⟩ := (hleft b hb).mpr ⟨hkept, hturn⟩
    exact hlaw a hact hnew b hb hdue hlive hwait
  · intro hlaw a hact hnew b hb hdue hlive hwait
    obtain ⟨ha, hok⟩ := (hstarted a).mp ⟨hact, hnew⟩
    obtain ⟨hkept, hturn⟩ := (hleft b hb).mp ⟨hlive, hwait⟩
    exact hlaw a ha hok b hb hkept hdue hturn

/-- Whatever the number of free slots, the law holds when the line is in the order of time and
everybody who is due is in it. -/
theorem higherFirst_of_pairwise (h : s.Resting) (hcount : s.Counted)
    (hmapped : ∀ b ∈ s.cancelledList, s.Mapped b) (hsize : s.num .queued < 2 ^ 64)
    (hmax : s.maxConcurrentRequests < 2 ^ 64) (hplain : ∀ b, s.Concerns env b → (s.req b).Plain)
    (hst : Steady env W ok s)
    (hline : (s.line env).Pairwise fun a b => (s.req a).nextRetryAt ≤ (s.req b).nextRetryAt)
    (hall : ∀ b, s.IsPending b ∨ b ∈ s.maps .inactive → ¬ s.Dropped b →
      s.due (s.now env) b = true → b ∈ s.line env) : s.HigherFirst env := by
  obtain ⟨gone, htally, hgone⟩ := tally_pass h hcount hmapped hsize hmax hplain hst
  intro a hact hnew b hb hdue hlive hwait
  obtain ⟨ha, -⟩ := (htally.started_iff h a).mp ⟨hact, hnew⟩
  obtain ⟨hkept, hturn⟩ := (htally.left_iff hgone (h.idle_of_line
    (hb.imp_right fun hb => ⟨.inactive, by simp, hb⟩))).mp ⟨hlive, hwait⟩
  exact Queueing.key_le_of_turns hline ha (hall b hb hkept hdue) hturn

end Loop

/-- An uneventful world whose clock stands at a time. -/
def Env.standingAt (n : ℕ) : Env Unit := { Env.uneventful with macroNow := fun _ => (n, ()) }

namespace Loop

/-- Ten seconds after the clock began, two requests are submitted: one with priority 5, and then one
without. -/
theorem higherFirst_iff_two :
    let env := Env.standingAt 10000000000
    let s := Guarded.run (Loop.act env) (curlEventLoopInit (Memory.plain fun _ => []) ())
      [.call (.api (.submit 2 5)), .call (.api (.submit 1 0))]
    s.HigherFirst env ↔ ∀ a ∈ s.reached env fun _ => true, true = true →
      ∀ b, s.IsPending b ∨ b ∈ s.maps .inactive → ¬ s.Dropped b → s.due (s.now env) b = true →
        b ∉ s.reached env (fun _ => true) → (s.req a).nextRetryAt ≤ (s.req b).nextRetryAt := by
  intro env s
  have hz : s.hazards = [] := by decide +kernel
  have hpending : s.pendingChain s.pendingRequests = [1, 2] := by decide +kernel
  have hmaps : s.maps .refresh = [] ∧ s.maps .inactive = [] ∧ s.maps .rateLimited = [] := by
    decide +kernel
  have hreqs : (s.req 1).Plain ∧ (s.req 2).Plain := by decide +kernel
  have hsizes : s.num .queued < 2 ^ 64 ∧ s.maxConcurrentRequests < 2 ^ 64 := by decide +kernel
  have hcount : s.Counted := by decide +kernel
  have hcancelled : ∀ b ∈ s.cancelledList, s.Mapped b := by decide +kernel
  refine higherFirst_iff (W := fun _ => True) (resting_run _ _ hz) hcount hcancelled hsizes.1 hsizes.2
    (fun b hb => ?_) ⟨trivial, fun _ _ => trivial, fun _ _ _ => trivial, fun _ _ => trivial,
      fun _ _ _ _ => rfl, fun w r _ _ => ?_⟩
  · rcases hb with hb | hb | hb | ⟨hb, -⟩
    · rw [IsPending, hpending] at hb
      rcases List.mem_cons.mp hb with rfl | hb
      · exact hreqs.1
      · obtain rfl := List.mem_singleton.mp hb
        exact hreqs.2
    · rw [hmaps.1] at hb
      contradiction
    · rw [hmaps.2.1] at hb
      contradiction
    · rw [hmaps.2.2] at hb
      contradiction
  · rw [Env.setsUp]
    split <;> rfl

/-- A loop with 999 active requests, the addresses of which begin at 3. -/
def crowd : Loop Unit :=
  { curlEventLoopInit (Memory.plain fun _ => []) () with
    req := fun r => if r < 3 then { Request.init with url := some "u" }
      else { Request.init with url := some "u", multiHandle := true, easyHandle := some r }
    maps := Function.update (fun _ => []) .queued (List.range' 3 999)
    num := Function.update (fun _ => 0) .queued 999
    numMultiRequests := 999
    multi := ⟨(List.range' 3 999).map fun r => ⟨r, r, false⟩, 1002⟩
    accepted := List.range' 3 999 }

/-- One slot of a thousand is free. The request that was submitted last takes it, though the other
has a priority and is due five seconds earlier. -/
theorem not_higherFirst_lastIn :
    let env := Env.standingAt 10000000000
    ¬ HigherFirst env (Guarded.run (Loop.act env) crowd
      [.call (.api (.submit 2 5)), .call (.api (.submit 1 0))]) := by
  intro env hlaw
  have hle := hlaw 1 (by decide +kernel) (by decide +kernel) 2 (.inl (by decide +kernel))
    (by decide +kernel) (by decide +kernel) (by decide +kernel)
  exact absurd hle (by decide +kernel)

end Loop

end CurlLoop
