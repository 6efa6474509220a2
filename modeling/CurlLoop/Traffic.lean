import CurlLoop.Completion

/-!
# What leaves the transfers alone

Most of what a loop does has nothing to do with its transfers: requests are parked, blocked, woken
and marked. A step that leaves the transfers alone is an `Aside`. It may ask the outside world
anything, except that it tells the rate manager of no request that starts or ends, and it may put a
request first in line for a resource, if the request has retained its dependencies. It is `Calm` if
it also calls no callback, counts nothing, leaves the terms of the requests alone, and keeps the
waiting requests in order.

At the end the other steps are described as far as they concern the transfers: the start of a
request and its destruction.

## Main definitions

* `Loop.traffic` — the fields that say which request has which transfer
* `Loop.chronicle` — what was counted and told, and the terms of the requests
* `Asked` — questions that do not concern the start or the end of a request
* `Loop.Aside`, `Loop.Calm` — the steps
* `Loop.Arranged` — the waiting requests are in the order in which they are due
* `Loop.hear` — the callback of a finished request, without the calls it makes
* `Loop.Launch` — what the start of a request does
-/

namespace CurlLoop

open Function (update)

/-- Requests with a URL and the rate-limit key given for each, and otherwise as
`curl_event_request_init` leaves them. -/
def Memory.keyed (key : ReqId → Option Key) : Memory where
  req r := { Request.init with url := some "u", rateLimit := key r }
  unsubmitted _ := ⟨rfl, rfl, rfl, rfl, rfl, rfl⟩

/-- The fields of a request that say what transfer it has, and what it is for. -/
structure AttemptState where
  easyHandle : Option EasyId
  multiHandle : Bool
  rateLimit : Option Key
  depHead : List ResId
deriving DecidableEq, Repr

/-- The attempt a request is at. -/
def Request.attempt (q : Request) : AttemptState :=
  ⟨q.easyHandle, q.multiHandle, q.rateLimit, q.depHead⟩

/-- The fields of a loop that say which request has which transfer. -/
structure Traffic where
  multi : Multi
  numMultiRequests : ℤ
  queued : List ReqId
  accepted : List ReqId
  destroyed : List ReqId
  attempt : ReqId → AttemptState

/-- Fields of a request that nobody but its own rounds and its cancellation writes. -/
structure Terms where
  maxRetries : ℤ
  currentRetries : ℤ
  onComplete : Bool
  onFailure : Bool
  onRetry : Option RetryPolicy
  onPrepare : Bool
  shouldRefresh : Bool
  isInjected : Bool
  isCancelled : Bool
  rateLimit : Option Key
deriving DecidableEq, Repr

/-- The terms of a request. -/
def Request.terms (q : Request) : Terms :=
  ⟨q.maxRetries, q.currentRetries, q.onComplete, q.onFailure, q.onRetry, q.onPrepare,
    q.shouldRefresh, q.isInjected, q.isCancelled, q.rateLimit⟩

/-- What a loop has counted and told, and the terms of its requests. -/
structure Chronicle where
  metrics : Metrics
  trace : List Event
  numQueued : ℤ
  maxConcurrentRequests : ℕ
  terms : ReqId → Terms

variable {ω : Type}

/-- The outside world was asked, about anything but the start or the end of a request. -/
inductive Asked (env : Env ω) : ω → ω → Prop
  | refl (w : ω) : Asked env w w
  | macroNow {w w' : ω} : Asked env w w' → Asked env w (env.macroNow w').2
  | canProceed {w w' : ω} (key : Key) (high : Bool) :
    Asked env w w' → Asked env w (env.rateManagerCanProceed key high w').2
  | onRetry {w w' : ω} (r : ReqId) (q : Request) :
    Asked env w w' → Asked env w (env.onRetry r q w').2
  | backoff {w w' : ω} (q : Request) : Asked env w w' → Asked env w (env.computeBackoffMs q w').2
  | onComplete {w w' : ω} (r : ReqId) : Asked env w w' → Asked env w (env.onComplete r w').2
  | onFailure {w w' : ω} (r : ReqId) (easy : EasyId) (code : CurlCode) (httpCode : ℤ) :
    Asked env w w' → Asked env w (env.onFailure r easy code httpCode w').2
  | onAborted {w w' : ω} (r : ReqId) : Asked env w w' → Asked env w (env.onAborted r w').2

theorem Asked.trans {env : Env ω} {a b c : ω} (h : Asked env a b) (h' : Asked env b c) :
    Asked env a c := by
  induction h' with
  | refl => exact h
  | macroNow _ ih => exact ih.macroNow
  | canProceed key high _ ih => exact ih.canProceed key high
  | onRetry r q _ ih => exact ih.onRetry r q
  | backoff q _ ih => exact ih.backoff q
  | onComplete r _ ih => exact ih.onComplete r
  | onFailure r easy code httpCode _ ih => exact ih.onFailure r easy code httpCode
  | onAborted r _ ih => exact ih.onAborted r

namespace Loop

variable {s t u : Loop ω} {r : ReqId} {m : MapId} {env : Env ω}

/-- Which request has which transfer. -/
def traffic (s : Loop ω) : Traffic :=
  ⟨s.multi, s.numMultiRequests, s.maps .queued, s.accepted, s.destroyed, fun r => (s.req r).attempt⟩

/-- What was counted and told. -/
def chronicle (s : Loop ω) : Chronicle :=
  ⟨s.metrics, s.trace, s.num .queued, s.maxConcurrentRequests, fun r => (s.req r).terms⟩

/-- A map is in the order in which its requests are due. -/
def InOrder (s : Loop ω) (m : MapId) : Prop :=
  (s.maps m).Pairwise fun a b => (s.req a).nextRetryAt ≤ (s.req b).nextRetryAt

/-- The requests that wait for a time are in order. -/
structure Arranged (s : Loop ω) : Prop where
  inactive : s.InOrder .inactive
  refresh : s.InOrder .refresh

/-- The request waits for no time. -/
def NotWaiting (s : Loop ω) (r : ReqId) : Prop := r ∉ s.maps .inactive ∧ r ∉ s.maps .refresh

/-- The request has retained its dependencies, and the resource is one of them. -/
structure Retains (s : Loop ω) (id : ResId) (r : ReqId) : Prop where
  accepted : r ∈ s.accepted
  depsRetained : (s.req r).depsRetained = true
  mem : id ∈ (s.req r).depHead

/-- The transfers are left alone. -/
structure Aside (env : Env ω) (s t : Loop ω) : Prop where
  traffic : t.traffic = s.traffic
  world : Asked env s.world t.world
  retained : ∀ r, (s.req r).depsRetained = true → (t.req r).depsRetained = true
  heads : ∀ id r, t.resources.blockedHead id = some r →
    s.resources.blockedHead id = some r ∨ t.Retains id r

theorem Aside.refl (env : Env ω) (s : Loop ω) : Aside env s s :=
  ⟨rfl, .refl _, fun _ h => h, fun _ _ h => .inl h⟩

/-- Retained dependencies stay so. -/
theorem Aside.retains (h : Aside env s t) {id : ResId} (hr : s.Retains id r) : t.Retains id r where
  accepted := by
    rw [show t.accepted = s.accepted from congrArg Traffic.accepted h.traffic]
    exact hr.accepted
  depsRetained := h.retained r hr.depsRetained
  mem := by
    have hattempt := congrFun (congrArg Traffic.attempt h.traffic) r
    rw [show (t.req r).depHead = (s.req r).depHead from congrArg AttemptState.depHead hattempt]
    exact hr.mem

theorem Aside.trans (h : Aside env s t) (h' : Aside env t u) : Aside env s u where
  traffic := h'.traffic.trans h.traffic
  world := h.world.trans h'.world
  retained r hr := h'.retained r (h.retained r hr)
  heads id r hr := by
    rcases h'.heads id r hr with ht | hu
    · exact (h.heads id r ht).imp_right h'.retains
    · exact .inr hu

theorem Aside.queued (h : Aside env s t) : t.maps .queued = s.maps .queued :=
  congrArg Traffic.queued h.traffic

theorem Aside.attempt (h : Aside env s t) (r : ReqId) : (t.req r).attempt = (s.req r).attempt :=
  congrFun (congrArg Traffic.attempt h.traffic) r

/-- A function that asks nothing and leaves the resources alone. -/
theorem Aside.silent (ht : t.traffic = s.traffic) (hw : t.world = s.world)
    (hreq : ∀ r, (s.req r).depsRetained = true → (t.req r).depsRetained = true)
    (hres : t.resources = s.resources) : Aside env s t :=
  ⟨ht, hw ▸ .refl _, hreq, fun _ _ hr => .inl (hres ▸ hr)⟩

/-- A function that leaves the requests alone as well. -/
theorem Aside.idle (ht : t.traffic = s.traffic) (hw : t.world = s.world) (hreq : t.req = s.req)
    (hres : t.resources = s.resources) : Aside env s t :=
  .silent ht hw (fun _ hr => hreq ▸ hr) hres

/-- Order is kept when nobody comes in and nobody who waits gets another time. -/
theorem Arranged.of_sublist (h : s.Arranged)
    (hmaps : ∀ m, m = .inactive ∨ m = .refresh → (t.maps m).Sublist (s.maps m))
    (hdue : ∀ m, m = .inactive ∨ m = .refresh → ∀ b ∈ t.maps m,
      (t.req b).nextRetryAt = (s.req b).nextRetryAt) : t.Arranged := by
  have hkept : ∀ m, m = .inactive ∨ m = .refresh → s.InOrder m → t.InOrder m := by
    intro m hm hs
    refine (hs.sublist (hmaps m hm)).imp_of_mem fun {a b} ha hb hle => ?_
    rwa [hdue m hm a ha, hdue m hm b hb]
  exact ⟨hkept .inactive (.inl rfl) h.inactive, hkept .refresh (.inr rfl) h.refresh⟩

/-- Only the time of a request that waits for none is written. -/
theorem Arranged.of_notWaiting (h : s.Arranged) (hr : s.NotWaiting r) (hmaps : t.maps = s.maps)
    (hothers : ∀ b, b ≠ r → (t.req b).nextRetryAt = (s.req b).nextRetryAt) : t.Arranged := by
  refine h.of_sublist (fun m _ => hmaps ▸ List.Sublist.refl _) fun m hm b hb => hothers b ?_
  rw [hmaps] at hb
  rintro rfl
  rcases hm with rfl | rfl
  · exact hr.1 hb
  · exact hr.2 hb

theorem Arranged.congr (h : s.Arranged) (hmaps : t.maps = s.maps)
    (hdue : ∀ b, (t.req b).nextRetryAt = (s.req b).nextRetryAt) : t.Arranged :=
  h.of_sublist (fun _ _ => hmaps ▸ List.Sublist.refl _) fun _ _ b _ => hdue b

/-- The transfers are left alone, no callback is called, nothing is counted, and the requests that
wait for a time are kept in order. -/
structure Calm (env : Env ω) (s t : Loop ω) : Prop extends Aside env s t where
  chronicle : t.chronicle = s.chronicle
  arranged : s.Arranged → t.Arranged

theorem Calm.refl (env : Env ω) (s : Loop ω) : Calm env s s := ⟨.refl env s, rfl, fun h => h⟩

theorem Calm.trans (h : Calm env s t) (h' : Calm env t u) : Calm env s u :=
  ⟨h.toAside.trans h'.toAside, h'.chronicle.trans h.chronicle,
    fun hs => h'.arranged (h.arranged hs)⟩

/-- A function that asks nothing and leaves the requests and the resources alone. -/
theorem Calm.idle (ht : t.traffic = s.traffic) (hw : t.world = s.world) (hreq : t.req = s.req)
    (hres : t.resources = s.resources) (hc : t.chronicle = s.chronicle) (hmaps : t.maps = s.maps) :
    Calm env s t :=
  ⟨.idle ht hw hreq hres, hc, fun h => h.congr hmaps fun b => by rw [hreq]⟩

/-- What leaves the transfers alone is calm, if it also leaves alone who waits for which time. -/
theorem Aside.calm (h : Aside env s t) (hc : t.chronicle = s.chronicle) (hmaps : t.maps = s.maps)
    (hdue : ∀ b, (t.req b).nextRetryAt = (s.req b).nextRetryAt) : Calm env s t :=
  ⟨h, hc, fun hs => hs.congr hmaps hdue⟩

theorem Calm.terms (h : Calm env s t) (r : ReqId) : (t.req r).terms = (s.req r).terms :=
  congrFun (congrArg Chronicle.terms h.chronicle) r

/-! ### Functions that leave the transfers alone -/

/-- A request is written, but for its terms. -/
theorem chronicle_modifyReq (s : Loop ω) (r : ReqId) {f : Request → Request}
    (hf : (f (s.req r)).terms = (s.req r).terms) : (s.modifyReq r f).chronicle = s.chronicle := by
  have hreq : (fun b => ((s.modifyReq r f).req b).terms) = fun b => (s.req b).terms := by
    funext b
    change (update s.req r (f (s.req r)) b).terms = _
    rcases eq_or_ne b r with rfl | hbr
    · rw [Function.update_self]
      exact hf
    · rw [Function.update_of_ne hbr]
  exact congrArg (Chronicle.mk s.metrics s.trace (s.num .queued) s.maxConcurrentRequests) hreq

/-- Fields of a request other than those of its attempt are written. -/
theorem traffic_modifyReq (s : Loop ω) (r : ReqId) {f : Request → Request}
    (hf : (f (s.req r)).attempt = (s.req r).attempt) : (s.modifyReq r f).traffic = s.traffic := by
  have hreq : (fun b => ((s.modifyReq r f).req b).attempt) = fun b => (s.req b).attempt := by
    funext b
    change (update s.req r (f (s.req r)) b).attempt = _
    rcases eq_or_ne b r with rfl | hbr
    · rw [Function.update_self]
      exact hf
    · rw [Function.update_of_ne hbr]
  exact congrArg
    (Traffic.mk s.multi s.numMultiRequests (s.maps .queued) s.accepted s.destroyed) hreq

theorem traffic_setMap (s : Loop ω) (hm : m ≠ .queued) (map : List ReqId) :
    (s.setMap m map).traffic = s.traffic := by
  have hqueued : (s.setMap m map).maps .queued = s.maps .queued := Function.update_of_ne hm.symm _ _
  simp only [traffic, hqueued]
  rfl

theorem aside_modifyReq (s : Loop ω) (r : ReqId) {f : Request → Request}
    (hf : (f (s.req r)).attempt = (s.req r).attempt)
    (hret : (s.req r).depsRetained = true → (f (s.req r)).depsRetained = true) :
    Aside env s (s.modifyReq r f) := by
  refine .silent (traffic_modifyReq s r hf) rfl (fun b hb => ?_) rfl
  change (update s.req r (f (s.req r)) b).depsRetained = true
  rcases eq_or_ne b r with rfl | hbr
  · rw [Function.update_self]
    exact hret hb
  · rw [Function.update_of_ne hbr]
    exact hb

/-- Neither the terms of a request nor its time are written. -/
theorem calm_modifyReq (s : Loop ω) (r : ReqId) {f : Request → Request}
    (hf : (f (s.req r)).attempt = (s.req r).attempt) (hterms : (f (s.req r)).terms = (s.req r).terms)
    (hdue : (f (s.req r)).nextRetryAt = (s.req r).nextRetryAt)
    (hret : (s.req r).depsRetained = true → (f (s.req r)).depsRetained = true) :
    Calm env s (s.modifyReq r f) := by
  refine ⟨aside_modifyReq s r hf hret, chronicle_modifyReq s r hterms,
    fun h => h.congr rfl fun b => ?_⟩
  change (update s.req r (f (s.req r)) b).nextRetryAt = _
  rcases eq_or_ne b r with rfl | hbr
  · rw [Function.update_self]
    exact hdue
  · rw [Function.update_of_ne hbr]

theorem aside_setMap (s : Loop ω) (hm : m ≠ .queued) (map : List ReqId) :
    Aside env s (s.setMap m map) := .idle (traffic_setMap s hm map) rfl rfl rfl

theorem calm_addNum (s : Loop ω) (hm : m ≠ .queued) (d : ℤ) : Calm env s (s.addNum m d) := by
  have hnum : (s.addNum m d).num .queued = s.num .queued := Function.update_of_ne hm.symm ..
  refine .idle rfl rfl rfl rfl ?_ rfl
  exact congrArg (fun n => Chronicle.mk s.metrics s.trace n s.maxConcurrentRequests
    fun r => (s.req r).terms) hnum

/-- Requests are taken out of a map of waiting requests. -/
theorem calm_setMap (s : Loop ω) (hm : m ≠ .queued) {map : List ReqId}
    (hmap : map.Sublist (s.maps m)) : Calm env s (s.setMap m map) := by
  refine ⟨aside_setMap s hm map, rfl, fun h => h.of_sublist (fun m' _ => ?_) fun _ _ _ _ => rfl⟩
  change (update s.maps m map m').Sublist _
  rcases eq_or_ne m' m with rfl | hm'
  · rw [Function.update_self]
    exact hmap
  · rw [Function.update_of_ne hm']

/-- The rate-limited requests are kept elsewhere. -/
theorem calm_setRateLimited (s : Loop ω) (map : List ReqId) :
    Calm env s (s.setMap .rateLimited map) := by
  refine ⟨aside_setMap s (by decide) map, rfl, fun h => h.of_sublist (fun m hm => ?_)
    fun _ _ _ _ => rfl⟩
  change (update s.maps .rateLimited map m).Sublist _
  rw [Function.update_of_ne]
  rcases hm with rfl | rfl <;> decide

theorem calm_eraseMap (s : Loop ω) (hm : m ≠ .queued) (r : ReqId) :
    Calm env s (s.eraseMap m r) := calm_setMap s hm (List.erase_sublist ..)

theorem calm_setResources {store : Resources} (h : s.resources.SubHeads store) :
    Calm env s (s.setResources store) :=
  ⟨⟨rfl, .refl _, fun _ hr => hr, fun id r hr => .inl (h id r hr)⟩, rfl,
    fun h => h.congr rfl fun _ => rfl⟩

theorem calm_setNextPending (s : Loop ω) (r : ReqId) (x : Option ReqId) :
    Calm env s (s.setNextPending r x) := .idle rfl rfl rfl rfl rfl rfl

theorem aside_world {w : ω} (h : Asked env s.world w) : Aside env s { s with world := w } :=
  ⟨rfl, h, fun _ hr => hr, fun _ _ hr => .inl hr⟩

theorem calm_world {w : ω} (h : Asked env s.world w) : Calm env s { s with world := w } :=
  ⟨aside_world h, rfl, fun h => h.congr rfl fun _ => rfl⟩

/-- The outside world is asked for what is written to a request. -/
theorem aside_answer (s : Loop ω) (r : ReqId) {w : ω} {f : Request → Request}
    (h : Asked env s.world w) (hf : (f (s.req r)).attempt = (s.req r).attempt)
    (hret : (s.req r).depsRetained = true → (f (s.req r)).depsRetained = true) :
    Aside env s (({ s with world := w } : Loop ω).modifyReq r f) :=
  (aside_world h).trans (aside_modifyReq _ r hf hret)

theorem calm_follow (s : Loop ω) (r : ReqId) : Calm env s (s.follow r) := by
  rw [follow]
  split
  · exact .idle rfl rfl rfl rfl rfl rfl
  · exact .refl env s

theorem aside_parkRateLimited (s : Loop ω) (r : ReqId) (due : ℕ) :
    Aside env s (s.parkRateLimited r due) :=
  (aside_modifyReq s r rfl fun hr => hr).trans (aside_setMap _ (by decide) _)

/-- A request gets another time, while it waits for none. -/
theorem arranged_dueAt (hr : s.NotWaiting r) (due : ℕ) (h : s.Arranged) :
    (s.modifyReq r fun q => q.dueAt due).Arranged :=
  h.of_notWaiting hr rfl fun b hb => by
    change (update s.req r _ b).nextRetryAt = _
    rw [Function.update_of_ne hb]

theorem chronicle_parkRateLimited (s : Loop ω) (r : ReqId) (due : ℕ) :
    (s.parkRateLimited r due).chronicle = s.chronicle :=
  chronicle_modifyReq s r (f := fun q => q.dueAt due) rfl

theorem calm_parkRateLimited (s : Loop ω) (hr : s.NotWaiting r) (due : ℕ) :
    Calm env s (s.parkRateLimited r due) := by
  refine ⟨aside_parkRateLimited s r due, chronicle_parkRateLimited s r due, fun h => ?_⟩
  have hmap : Calm env (s.modifyReq r fun q => q.dueAt due) (s.parkRateLimited r due) :=
    calm_setRateLimited _ _
  exact hmap.arranged (arranged_dueAt hr due h)

theorem waitingMap_ne_queued (q : Request) : waitingMap q ≠ .queued := by
  rw [waitingMap]
  split <;> decide

/-- An insertion keeps every map in order. -/
theorem InOrder.insertMap {m' : MapId} (h : s.InOrder m') (m : MapId) (r : ReqId) :
    (s.insertMap m r).InOrder m' := by
  rw [InOrder, maps_insertMap]
  rcases eq_or_ne m' m with rfl | hm
  · rw [Function.update_self]
    exact OrderedMap.pairwise_insertMulti h
  · rw [Function.update_of_ne hm]
    exact h

theorem Arranged.insertMap (h : s.Arranged) (m : MapId) (r : ReqId) : (s.insertMap m r).Arranged :=
  ⟨h.inactive.insertMap m r, h.refresh.insertMap m r⟩

theorem traffic_enqueueRequest (s : Loop ω) (r : ReqId) :
    (s.enqueueRequest r).traffic = s.traffic :=
  traffic_setMap s (waitingMap_ne_queued (s.req r)) _

/-- The request is in the map `enqueue_request` chooses. -/
theorem mem_enqueueRequest (s : Loop ω) (r : ReqId) :
    r ∈ (s.enqueueRequest r).maps (waitingMap (s.req r)) := by
  change r ∈ update s.maps (waitingMap (s.req r)) _ (waitingMap (s.req r))
  rw [Function.update_self, requestInsert, OrderedMap.mem_insertMulti]
  exact .inl rfl

theorem aside_enqueueRequest (s : Loop ω) (r : ReqId) : Aside env s (s.enqueueRequest r) :=
  .idle (traffic_enqueueRequest s r) rfl rfl rfl

theorem calm_enqueueRequest (s : Loop ω) (r : ReqId) : Calm env s (s.enqueueRequest r) := by
  have hinsert : Calm env s (s.insertMap (waitingMap (s.req r)) r) :=
    ⟨aside_setMap s (waitingMap_ne_queued _) _, rfl, fun h => h.insertMap _ r⟩
  exact hinsert.trans (calm_addNum _ (waitingMap_ne_queued _) 1)

theorem calm_retainDepsOnce (s : Loop ω) (r : ReqId) : Calm env s (s.retainDepsOnce r) := by
  rw [retainDepsOnce]
  split
  · exact (calm_setResources (Resources.sameWaiters_retain _ _).subHeads).trans
      (calm_modifyReq _ r rfl rfl rfl fun _ => rfl)
  · exact .refl env s

/-- A request that has dependencies has retained them. -/
theorem retains_retainDepsOnce (hr : r ∈ s.accepted) {id : ResId}
    (hid : id ∈ ((s.retainDepsOnce r).req r).depHead) : (s.retainDepsOnce r).Retains id r := by
  rw [retainDepsOnce] at hid ⊢
  split
  · rename_i hc
    rw [if_pos hc] at hid
    refine ⟨hr, ?_, hid⟩
    change (update s.req r ((s.req r).setRetained true) r).depsRetained = true
    rw [Function.update_self]
    rfl
  · rename_i hc
    rw [if_neg hc] at hid
    refine ⟨hr, ?_, hid⟩
    by_contra hno
    exact hc ⟨Bool.eq_false_iff.mpr hno, List.ne_nil_of_mem hid⟩

/-- A request that waits alone is the first in line. -/
theorem calm_blockRequestOnRes {n : Res} (hn : s.resources.resFind n.id = some n)
    (hr : s.Retains n.id r) : Calm env s (s.blockRequestOnRes n r) := by
  rw [blockRequestOnRes]
  cases htail : n.blockedTail with
  | some t =>
    refine Aside.calm ⟨rfl, .refl _, fun _ h => h, fun id b hb => .inl ?_⟩ rfl rfl fun _ => rfl
    change (s.resources.put (n.setWaiters n.blockedHead (some r))).blockedHead id = some b at hb
    rw [Resources.blockedHead_setWaiters hn] at hb
    split at hb
    · rename_i hid
      rwa [hid, Resources.blockedHead_eq hn]
    · exact hb
  | none =>
    refine Aside.calm ⟨rfl, .refl _, fun _ h => h, fun id b hb => ?_⟩ rfl rfl fun _ => rfl
    change (s.resources.put (n.setWaiters (some r) (some r))).blockedHead id = some b at hb
    rw [Resources.blockedHead_setWaiters hn] at hb
    split at hb
    · rename_i hid
      obtain rfl := Option.some.inj hb
      exact .inr (hid ▸ ⟨hr.accepted, hr.depsRetained, hr.mem⟩)
    · exact .inl hb

theorem calm_blockOnId {id : ResId} (hr : s.Retains id r) :
    Calm env s (s.curlResourceBlockOnId r id).2 := by
  have hstore : Calm env s (s.setResources (s.resources.resGetOrCreate id).2) :=
    calm_setResources (Resources.sameWaiters_getOrCreate s.resources id).subHeads
  have hid := Resources.id_resGetOrCreate s.resources id
  have hn : (s.resources.resGetOrCreate id).2.resFind (s.resources.resGetOrCreate id).1.id =
      some (s.resources.resGetOrCreate id).1 := by
    rw [Resources.resFind_getOrCreate, if_pos hid]
  rw [curlResourceBlockOnId]
  dsimp only
  split
  · refine hstore.trans (calm_blockRequestOnRes hn ?_)
    rw [hid]
    exact ⟨hr.accepted, hr.depsRetained, hr.mem⟩
  · exact hstore

theorem calm_checkAndBlockList (deps : List ResId) (hr : ∀ id ∈ deps, s.Retains id r) :
    Calm env s (s.curlResourceCheckAndBlockList r deps).2 := by
  induction deps generalizing s with
  | nil => exact .refl env s
  | cons id deps ih =>
    have hid : Calm env s (s.curlResourceBlockOnId r id).2 :=
      calm_blockOnId (hr id List.mem_cons_self)
    rw [curlResourceCheckAndBlockList]
    dsimp only
    split
    · exact hid
    · exact hid.trans (ih fun j hj => hid.retains (hr j (List.mem_cons_of_mem id hj)))

theorem calm_requestReady (env : Env ω) (s : Loop ω) (r : ReqId) :
    Calm env s (s.requestReady env r).2 := by
  have hclock : ∀ t : Loop ω, Calm env s t →
      Calm env s (if t.resources.curlResourceAllReadyList (s.req r).depHead = false then (false, t)
        else (decide ((t.ask env.macroNow).1 ≥ (s.req r).nextRetryAt),
          (t.ask env.macroNow).2)).2 := by
    intro t ht
    split
    · exact ht
    · exact ht.trans (calm_world (Asked.refl _).macroNow)
  rw [requestReady]
  dsimp only
  split
  · exact .refl env s
  · cases (s.req r).rateLimit with
    | none =>
      dsimp only
      split
      · exact .refl env s
      · exact hclock s (.refl env s)
    | some key =>
      have hask : Calm env s
          (s.ask (env.rateManagerCanProceed key (s.req r).rateLimitHighPriority)).2 :=
        calm_world ((Asked.refl _).canProceed key _)
      dsimp only
      split
      · exact hask
      · exact hclock _ hask

/-- Whoever is ready has a slot, and its dependencies are. -/
theorem slot_of_requestReady (h : (s.requestReady env r).1 = true) :
    sizeT (s.num .queued) < s.maxConcurrentRequests ∧
      s.resources.curlResourceAllReadyList (s.req r).depHead = true := by
  rw [requestReady] at h
  dsimp only at h
  split at h
  · exact absurd h (by simp)
  · rename_i hslot
    refine ⟨not_le.mp hslot, ?_⟩
    by_contra hdeps
    rw [Bool.not_eq_true] at hdeps
    cases hkey : (s.req r).rateLimit with
    | none =>
      rw [hkey] at h
      dsimp only at h
      rw [if_pos hdeps] at h
      split at h <;> exact absurd h (by simp)
    | some key =>
      rw [hkey] at h
      dsimp only at h
      rw [if_pos (c := (s.ask (env.rateManagerCanProceed key
        (s.req r).rateLimitHighPriority)).2.resources.curlResourceAllReadyList
          (s.req r).depHead = false) hdeps] at h
      split at h <;> exact absurd h (by simp)

/-- The request is parked, or the rate manager is only asked. -/
theorem calm_requestIsRateLimited (env : Env ω) (s : Loop ω) (root : List ReqId)
    (hr : s.NotWaiting r) : Calm env s (s.requestIsRateLimited env root r).2.2 := by
  rw [requestIsRateLimited]
  dsimp only
  cases (s.req r).rateLimit with
  | none => exact .refl env s
  | some key =>
    have hask : Asked env s.world
        (env.rateManagerCanProceed key (s.req r).rateLimitHighPriority s.world).2 :=
      (Asked.refl _).canProceed key _
    dsimp only
    split
    · exact calm_world hask
    · exact (calm_world hask.macroNow).trans (calm_parkRateLimited _ (by exact hr) _)

/-- A request is taken out of the map it waits in and parked. -/
theorem calm_moveRateLimited (s : Loop ω) (hm : m ≠ .queued) (hm' : m ≠ .rateLimited)
    (honce : (s.maps m).Nodup) (hother : ∀ m', m' ≠ m → r ∉ s.maps m') (due : ℕ) :
    Calm env s ((s.parkRateLimited r due).setMap m ((s.maps m).erase r)) := by
  have haside : Aside env s ((s.parkRateLimited r due).setMap m ((s.maps m).erase r)) :=
    (aside_parkRateLimited s r due).trans (aside_setMap _ hm _)
  have hmaps : ∀ m', m' ≠ .rateLimited → ((s.parkRateLimited r due).setMap m
      ((s.maps m).erase r)).maps m' = (s.maps m').erase r := by
    intro m' hlimited
    change update (s.parkRateLimited r due).maps m ((s.maps m).erase r) m' = _
    rcases eq_or_ne m' m with rfl | hne
    · rw [Function.update_self]
    · rw [Function.update_of_ne hne]
      exact (Function.update_of_ne hlimited ..).trans (List.erase_of_not_mem (hother m' hne)).symm
  refine ⟨haside, chronicle_parkRateLimited s r due, fun h => ?_⟩
  refine h.of_sublist (fun m' hw => ?_) fun m' hw b hb => ?_
  · rw [hmaps m' (by rcases hw with rfl | rfl <;> decide)]
    exact List.erase_sublist ..
  · rw [hmaps m' (by rcases hw with rfl | rfl <;> decide)] at hb
    have hbr : b ≠ r := by
      rintro rfl
      rcases eq_or_ne m' m with rfl | hne
      · exact (honce.mem_erase_iff.mp hb).1 rfl
      · exact hother m' hne (List.mem_of_mem_erase hb)
    change (update s.req r _ b).nextRetryAt = _
    rw [Function.update_of_ne hbr]

/-- The same at the head of a map, which keeps the request if the rate manager lets it go. -/
theorem calm_waitingLimited (env : Env ω) (s : Loop ω) (hm : m ≠ .queued) (hm' : m ≠ .rateLimited)
    (honce : (s.maps m).Nodup) (hother : ∀ m', m' ≠ m → r ∉ s.maps m') :
    Calm env s ((s.requestIsRateLimited env (s.maps m) r).2.2.setMap m
      (s.requestIsRateLimited env (s.maps m) r).2.1) := by
  have hkeep : ∀ w, Asked env s.world w →
      Calm env s (({ s with world := w } : Loop ω).setMap m (s.maps m)) := fun w hw =>
    (calm_world hw).trans (calm_setMap _ hm (List.Sublist.refl _))
  rw [requestIsRateLimited]
  dsimp only
  cases (s.req r).rateLimit with
  | none => exact hkeep s.world (.refl _)
  | some key =>
    have hask : Asked env s.world
        (env.rateManagerCanProceed key (s.req r).rateLimitHighPriority s.world).2 :=
      (Asked.refl _).canProceed key _
    dsimp only
    split
    · exact hkeep _ hask
    · exact (calm_world hask.macroNow).trans
        (calm_moveRateLimited _ hm hm' (by exact honce) (by exact hother) _)

theorem aside_callOnAborted (env : Env ω) (s : Loop ω) (r : ReqId) :
    Aside env s (s.callOnAborted env r).2 := by
  rw [callOnAborted]
  split
  · exact ⟨rfl, (Asked.refl _).onAborted r, fun _ h => h, fun _ _ h => .inl h⟩
  · exact .refl env s

theorem aside_callOnRetry (env : Env ω) (s : Loop ω) (r : ReqId) :
    Aside env s (s.callOnRetry env r).2 := by
  rw [callOnRetry]
  split
  · exact .idle rfl rfl rfl rfl
  · rw [defaultCalculateRetryEnhanced]
    dsimp only
    split
    · exact aside_answer s r (f := fun _ => { s.req r with
        currentRetries := (s.req r).currentRetries + 1, nextRetryAt := _ })
        ((Asked.refl _).backoff _).macroNow rfl fun hr => hr
    · exact .refl env s
  · exact aside_answer s r (f := fun q => q.dueAt _) ((Asked.refl _).onRetry r _) rfl fun hr => hr

theorem calm_calculateNextTimerExpiry (env : Env ω) (s : Loop ω) (n : ℕ) :
    Calm env s (s.calculateNextTimerExpiry env n).2 := by
  have hnext : Calm env s (s.nextExpiry env).2 := by
    rw [nextExpiry]
    split
    · exact .refl env s
    · exact .refl env s
    · exact .refl env s
    · dsimp only
      split <;> exact calm_requestReady env s _
  rw [calculateNextTimerExpiry]
  split
  · next heq => rwa [heq] at hnext
  · next heq =>
    rw [heq] at hnext
    dsimp only
    split <;> exact hnext.trans (calm_world (Asked.refl _).macroNow)

theorem calm_declare (s : Loop ω) : Calm env s s.curlEventResDeclare.2 :=
  calm_setResources (Resources.sameWaiters_declare s.resources).subHeads

theorem calm_release (s : Loop ω) (id : ResId) : Calm env s (s.curlEventResRelease id) := by
  have hbeware : Calm env s (s.beware (s.Abandons id) (.abandoned id)) :=
    .idle rfl rfl rfl rfl rfl rfl
  exact hbeware.trans (calm_setResources (Resources.subHeads_release s.resources id))

theorem aside_cancel (s : Loop ω) (r : ReqId) : Aside env s (s.curlEventLoopCancel r).2 := by
  have hmark : Aside env s (s.modifyReq r Request.markCancelled) :=
    aside_modifyReq s r rfl fun hr => hr
  rw [curlEventLoopCancel]
  dsimp only
  split
  · exact .idle rfl rfl rfl rfl
  · split
    · exact hmark.trans (.idle rfl rfl rfl rfl)
    · exact hmark.trans (.idle rfl rfl rfl rfl)

/-! ### Callbacks of finished requests -/

/-- `on_complete` is called: its answer, the calls it makes, and the loop before they are made. -/
def tellComplete (env : Env ω) (s : Loop ω) (r : ReqId) : ℤ × List Call × Loop ω :=
  if (s.req r).onComplete then
    let (reply, s) := (s.emit (.onComplete r)).ask (env.onComplete r)
    (reply.ret, reply.calls, s)
  else (0, [], s.emit (.nullCall r))

/-- `on_failure` is called, if it is set. -/
def tellFailure (env : Env ω) (s : Loop ω) (r : ReqId) (m : Message) : ℤ × List Call × Loop ω :=
  if (s.req r).onFailure then
    let (reply, s) := (s.emit (.onFailure r m.result m.httpCode)).ask
      (env.onFailure r m.easy m.result m.httpCode)
    (reply.ret, reply.calls, s)
  else (-1, [], s)

/-- The message of a transfer is read, and its request taken out of the active map. -/
def pickUp (s : Loop ω) (easy : EasyId) (r : ReqId) : Loop ω :=
  ((s.reportMessage easy).eraseMap .queued r).addNum .queued (-1)

/-- The callback of a finished request is called. -/
def hear (env : Env ω) (s : Loop ω) (m : Message) (r : ReqId) : ℤ × List Call × Loop ω :=
  if Message.success m then (s.pickUp m.easy r).tellComplete env r
  else (s.pickUp m.easy r).tellFailure env r m

theorem callOnComplete_eq_told (env : Env ω) (s : Loop ω) (r : ReqId) :
    s.callOnComplete env r = ((s.tellComplete env r).1,
      (s.tellComplete env r).2.2.calls env (s.tellComplete env r).2.1) := by
  rw [callOnComplete, tellComplete]
  split <;> rfl

theorem callOnFailure_eq_told (env : Env ω) (s : Loop ω) (r : ReqId) (m : Message) :
    s.callOnFailure env r m.easy m.result m.httpCode = ((s.tellFailure env r m).1,
      (s.tellFailure env r m).2.2.calls env (s.tellFailure env r m).2.1) := by
  rw [callOnFailure, tellFailure]
  split <;> rfl

/-- The calls are made after the callback was told. -/
theorem receive_eq_heard (env : Env ω) {m : Message}
    (hr : (s.reportMessage m.easy).follow r = s.reportMessage m.easy) :
    s.receive env m r =
      ((s.hear env m r).1, (s.hear env m r).2.2.calls env (s.hear env m r).2.1) := by
  rw [receive, hear, hr]
  split
  · exact callOnComplete_eq_told ..
  · exact callOnFailure_eq_told ..

theorem aside_tellComplete (env : Env ω) (s : Loop ω) (r : ReqId) :
    Aside env s (s.tellComplete env r).2.2 := by
  rw [tellComplete]
  split
  · exact ⟨rfl, (Asked.refl _).onComplete r, fun _ h => h, fun _ _ h => .inl h⟩
  · exact .idle rfl rfl rfl rfl

theorem aside_hear (env : Env ω) (s : Loop ω) (m : Message) (r : ReqId) :
    Aside env (s.pickUp m.easy r) (s.hear env m r).2.2 := by
  rw [hear]
  split
  · exact aside_tellComplete ..
  · rw [tellFailure]
    split
    · exact ⟨rfl, (Asked.refl _).onFailure r m.easy m.result m.httpCode, fun _ h => h,
        fun _ _ h => .inl h⟩
    · exact .refl env _

/-- Telling changes the world and the trace only. -/
theorem tellComplete_eq (env : Env ω) (s : Loop ω) (r : ReqId) :
    ∃ w tr, (s.tellComplete env r).2.2 = { s with world := w, trace := tr } := by
  rw [tellComplete]
  split
  · exact ⟨_, _, rfl⟩
  · exact ⟨s.world, _, rfl⟩

theorem tellFailure_eq (env : Env ω) (s : Loop ω) (r : ReqId) (m : Message) :
    ∃ w tr, (s.tellFailure env r m).2.2 = { s with world := w, trace := tr } := by
  rw [tellFailure]
  split
  · exact ⟨_, _, rfl⟩
  · exact ⟨s.world, s.trace, rfl⟩

theorem hear_eq (env : Env ω) (s : Loop ω) (m : Message) (r : ReqId) :
    ∃ w tr, (s.hear env m r).2.2 = { s.pickUp m.easy r with world := w, trace := tr } := by
  rw [hear]
  split
  · exact tellComplete_eq ..
  · exact tellFailure_eq ..

/-! ### What the steps of a path do -/

/-- A request is taken out of the active map. -/
theorem traffic_eraseQueued (s : Loop ω) (r : ReqId) :
    ((s.eraseMap .queued r).addNum .queued (-1)).traffic =
      { s.traffic with queued := (s.maps .queued).erase r } := by
  have hqueued : (s.eraseMap .queued r).maps .queued = (s.maps .queued).erase r := by
    rw [maps_eraseMap, Function.update_self]
  rw [← hqueued]
  rfl

/-- Fields of a request are written. -/
theorem attempt_modifyReq (s : Loop ω) (r : ReqId) (f : Request → Request) :
    (s.modifyReq r f).traffic =
      { s.traffic with attempt := update s.traffic.attempt r (f (s.req r)).attempt } := by
  have hreq : (fun b => ((s.modifyReq r f).req b).attempt) =
      update s.traffic.attempt r (f (s.req r)).attempt := by
    funext b
    change (update s.req r (f (s.req r)) b).attempt = _
    rcases eq_or_ne b r with rfl | hbr
    · rw [Function.update_self, Function.update_self]
    · rw [Function.update_of_ne hbr, Function.update_of_ne hbr]
      rfl
  exact congrArg
    (Traffic.mk s.multi s.numMultiRequests (s.maps .queued) s.accepted s.destroyed) hreq

/-- A request gives its transfer back. -/
theorem traffic_cleanup (s : Loop ω) (r : ReqId) :
    (s.curlEventLoopRequestCleanup r).traffic = { s.traffic with
      multi := (s.curlEventLoopRequestCleanup r).multi
      numMultiRequests := (s.curlEventLoopRequestCleanup r).numMultiRequests
      attempt := update s.traffic.attempt r (s.req r).cleaned.attempt } :=
  attempt_modifyReq { s with
    multi := (s.curlEventLoopRequestCleanup r).multi
    numMultiRequests := (s.curlEventLoopRequestCleanup r).numMultiRequests } r Request.cleaned

/-- A request without an easy handle has nothing to give back. -/
theorem traffic_cleanup_of_none (hr : (s.req r).easyHandle = none) :
    (s.curlEventLoopRequestCleanup r).traffic = s.traffic := by
  have hclean : (s.req r).cleaned.attempt = (s.req r).attempt := by
    rw [Request.attempt, Request.attempt, Request.cleaned, hr]
    rfl
  have hmulti : (s.curlEventLoopRequestCleanup r).multi = s.multi := by
    rw [curlEventLoopRequestCleanup, hr]
    rfl
  have hnum : (s.curlEventLoopRequestCleanup r).numMultiRequests = s.numMultiRequests := by
    rw [curlEventLoopRequestCleanup, hr]
    rfl
  rw [traffic_cleanup, hclean, hmulti, hnum]
  exact congrArg (fun f => { s.traffic with attempt := f }) (Function.update_eq_self r _)

theorem traffic_destroy (hr : (s.req r).easyHandle = none) :
    (s.curlEventRequestDestroy r).traffic = { s.traffic with destroyed := r :: s.destroyed } := by
  have hclean : (s.curlEventLoopRequestCleanup r).traffic = s.traffic :=
    traffic_cleanup_of_none hr
  have hrelease : ((s.curlEventLoopRequestCleanup r).modifyReq r fun q =>
      q.setRetained false).traffic = s.traffic := (traffic_modifyReq _ r rfl).trans hclean
  exact congrArg (fun t : Traffic => { t with destroyed := r :: s.destroyed }) hrelease

/-- The rate manager's answer to a request that is to start. Without a key it is not asked. -/
def admission (env : Env ω) (s : Loop ω) (r : ReqId) : ℕ × Loop ω :=
  match (s.req r).rateLimit with
  | some key => s.ask (env.rateManagerStartRequest key (s.req r).rateLimitHighPriority)
  | none => (0, s)

theorem admission_eq (env : Env ω) (s : Loop ω) (r : ReqId) :
    ∃ n w, s.admission env r = (n, { s with world := w }) := by
  rw [admission]
  split
  · exact ⟨_, _, rfl⟩
  · exact ⟨0, s.world, rfl⟩

theorem start_eq (env : Env ω) (s : Loop ω) (r : ReqId) :
    s.curlEventLoopRequestStart env r =
      if (s.admission env r).1 ≠ 0 then
        (s.admission env r).2.parkRateLimited r (s.admission env r).1
      else if ((s.admission env r).2.setupCurlHandle env r).1 then
        ((s.admission env r).2.setupCurlHandle env r).2.activate env r
      else ((s.admission env r).2.setupCurlHandle env r).2.curlEventRequestDestroy r := rfl

/-- `setup_curl_handle` asks the outside world, and allocates a handle if it succeeds. -/
theorem setupCurlHandle_eq (env : Env ω) (s : Loop ω) (r : ReqId) :
    ∃ w, s.setupCurlHandle env r = (false, { s.modifyReq r Request.reset with world := w }) ∨
      s.setupCurlHandle env r =
        (true, ({ s.modifyReq r Request.reset with world := w } : Loop ω).newHandle r) := by
  rw [setupCurlHandle]
  dsimp only
  split <;> split <;> (try split) <;> first | exact ⟨_, .inl rfl⟩ | exact ⟨_, .inr rfl⟩

/-- A request with an easy handle is attached. -/
theorem traffic_activate (env : Env ω) (s : Loop ω) (r : ReqId) {e : EasyId}
    (he : (s.req r).easyHandle = some e) :
    (s.activate env r).traffic = { s.traffic with
      multi := s.multi.attach e r
      numMultiRequests := s.numMultiRequests + 1
      queued := (s.activate env r).maps .queued
      attempt := update s.traffic.attempt r
        ⟨some e, true, (s.req r).rateLimit, (s.req r).depHead⟩ } := by
  have hmulti : (s.activate env r).multi = s.multi.attach e r := by
    rw [multi_activate, he]
  have hactive : ((s.req r).activated (env.macroNow s.world).1).attempt =
      ⟨some e, true, (s.req r).rateLimit, (s.req r).depHead⟩ := by
    rw [← he]
    rfl
  have hmod : (s.activate env r).traffic =
      { (s.modifyReq r fun q => q.activated (env.macroNow s.world).1).traffic with
        multi := s.multi.attach e r
        numMultiRequests := s.numMultiRequests + 1
        queued := (s.activate env r).maps .queued } := by
    rw [← hmulti]
    rfl
  rw [hmod, attempt_modifyReq, hactive]

theorem perm_activate (env : Env ω) (s : Loop ω) (r : ReqId) :
    ((s.activate env r).maps .queued).Perm (r :: s.maps .queued) := by
  have hinsert : (s.activate env r).maps = update s.maps .queued
      ((s.modifyReq r fun q => q.activated (env.macroNow s.world).1).requestInsert r
        (s.maps .queued)) := rfl
  rw [hinsert, Function.update_self]
  exact OrderedMap.insertMulti_perm ..

/-- The request is set up and attached. -/
theorem traffic_launched (env : Env ω) (s : Loop ω) (r : ReqId) (w w' : ω) :
    let u := ({ ({ s with world := w } : Loop ω).modifyReq r Request.reset with world := w' } :
      Loop ω).newHandle r
    (u.activate env r).traffic = { s.traffic with
      multi := ⟨⟨s.multi.nextEasy, r, false⟩ :: s.multi.transfers, s.multi.nextEasy + 1⟩
      numMultiRequests := s.numMultiRequests + 1
      queued := (u.activate env r).maps .queued
      attempt := update s.traffic.attempt r
        ⟨some s.multi.nextEasy, true, (s.req r).rateLimit, (s.req r).depHead⟩ } := by
  intro u
  have hreq : u.req r = (s.req r).reset.withHandle s.multi.nextEasy := by
    have hset : u.req = update (update s.req r (s.req r).reset) r
      ((update s.req r (s.req r).reset r).withHandle s.multi.nextEasy) := rfl
    rw [hset, Function.update_self, Function.update_self]
  have hattempt : u.traffic.attempt =
      update s.traffic.attempt r ((s.req r).reset.withHandle s.multi.nextEasy).attempt := by
    funext b
    have hu : u.traffic.attempt b = (u.req b).attempt := rfl
    rcases eq_or_ne b r with rfl | hbr
    · rw [hu, hreq, Function.update_self]
    · have hb : u.req b = s.req b :=
        (Function.update_of_ne (f := update s.req r _) hbr _).trans
          (Function.update_of_ne (f := s.req) hbr _)
      rw [Function.update_of_ne hbr, hu, hb]
      rfl
  have heasy : (u.req r).easyHandle = some s.multi.nextEasy := congrArg Request.easyHandle hreq
  rw [traffic_activate env u r heasy, hattempt, Function.update_idem, hreq]
  rfl

/-- What the start of a request does. -/
inductive Launch (env : Env ω) (r : ReqId) (s t : Loop ω) : Prop
  /-- The rate manager tells it to wait. -/
  | parked : (s.admission env r).1 ≠ 0 → t.traffic = s.traffic →
    t.world = (s.admission env r).2.world → Launch env r s t
  /-- It cannot be set up, and is destroyed. -/
  | failed : (s.admission env r).1 = 0 → ((s.admission env r).2.setupCurlHandle env r).1 = false →
    t.traffic = { s.traffic with destroyed := r :: s.destroyed } →
    t.world = ((s.admission env r).2.setupCurlHandle env r).2.world → Launch env r s t
  /-- It has a transfer. -/
  | attached : (s.admission env r).1 = 0 →
    ((s.admission env r).2.setupCurlHandle env r).1 = true →
    (t.maps .queued).Perm (r :: s.maps .queued) →
    t.traffic = { s.traffic with
      multi := ⟨⟨s.multi.nextEasy, r, false⟩ :: s.multi.transfers, s.multi.nextEasy + 1⟩
      numMultiRequests := s.numMultiRequests + 1
      queued := t.maps .queued
      attempt := update s.traffic.attempt r
        ⟨some s.multi.nextEasy, true, (s.req r).rateLimit, (s.req r).depHead⟩ } →
    t.world = (env.macroNow ((s.admission env r).2.setupCurlHandle env r).2.world).2 →
    Launch env r s t

/-- A request without an easy handle is started. -/
theorem launch_start (env : Env ω) (hr : (s.req r).easyHandle = none) :
    Launch env r s (s.curlEventLoopRequestStart env r) := by
  obtain ⟨n, w, hask⟩ := admission_eq env s r
  have hset := setupCurlHandle_eq env (s.admission env r).2 r
  have hreset : (s.req r).reset.attempt = (s.req r).attempt := by
    rw [Request.attempt, Request.attempt, Request.reset, hr]
  rw [start_eq]
  split
  · rename_i hwait
    refine .parked hwait ?_ rfl
    rw [hask]
    exact (traffic_setMap _ (by decide) _).trans (traffic_modifyReq _ r rfl)
  · rename_i hgo
    obtain ⟨w', hfail | hok⟩ := hset
    · rw [hfail, if_neg (by simp)]
      refine .failed (not_not.mp hgo) (by rw [hfail]) ?_ (by rw [hfail]; rfl)
      have hnone : ((({ (s.admission env r).2.modifyReq r Request.reset with
          world := w' } : Loop ω)).req r).easyHandle = none := by
        change (update (s.admission env r).2.req r _ r).easyHandle = none
        rw [Function.update_self]
        rfl
      rw [traffic_destroy hnone, hask]
      exact congrArg (fun t : Traffic => { t with destroyed := r :: s.destroyed })
        (traffic_modifyReq s r hreset)
    · rw [hok, if_pos rfl]
      refine .attached (not_not.mp hgo) (by rw [hok]) ?_ ?_ (by rw [hok]; rfl)
      · refine (perm_activate env _ r).trans (.of_eq ?_)
        rw [hask]
        rfl
      · rw [hask]
        exact traffic_launched env s r w w'

end Loop

end CurlLoop
