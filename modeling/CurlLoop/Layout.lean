import CurlLoop.EventLoop
import CurlLoop.Lib.Placement
import CurlLoop.Waiters

/-!
# Where the requests are

The invariant of the scheduler. A live request is on the pending list, on the injected list, on the
waiting list of a resource, in one of the four maps, or in the hands of the code that is running: on
a list that was detached to be walked, or being worked on. `Layout` says that it is in exactly one of
these places, and that the pointers, counters and fields of the loop agree with that.

## Places

A `View` gives the list of requests at each `Place`. For the maps the view repeats what the loop
holds; for the lists it is what the links spell out (`Intrusive.IsChain`); for the places in
transit it is ghost state of the proof. `Place.Fits` is what the private fields of a request say
about the place it is in. The cancelled list is not a place: a request on it is somewhere else at
the same time.

## Main definitions

* `Place`, `View` — the places, and who is there
* `Linked` — the list heads and links spell out the view
* `Layout`, `Loop.Located` — the invariant of the places
* `Loop.Marked`, `Loop.WF` — the invariant of the cancelled list, and the two together

## Main results

* `Located.insertMap`, `Located.block`, `Located.requeue`, `Located.destroy`, … — the moves
-/

namespace CurlLoop

open Function (update)

/-- Where a request can be. -/
inductive Place
  /-- On the pending list. -/
  | pending
  /-- On the injected list. -/
  | injected
  /-- On the waiting list of a resource. -/
  | blocked (id : ResId)
  /-- In a map. -/
  | map (m : MapId)
  /-- On a list that was detached from a place and is being walked. -/
  | detached (p : Place)
  /-- Being worked on. -/
  | hand
deriving DecidableEq, Repr

/-- Who is where. -/
abbrev View := Place → List ReqId

/-- Whether the code may take a request to be at a place, by its private fields. -/
def Place.Fits : Place → Request → Prop
  | .pending, q => q.multiHandle = false
  | .injected, q => q.isPending = false
  | .blocked _, q => q.multiHandle = false ∧ q.isPending = false
  | .map .rateLimited, q => q.isPending = false
  | .map m, q => Loop.cancelledMap q = m ∧ q.isPending = false ∧
      (q.multiHandle = true → q.easyHandle.isSome)
  | .detached p, q => p.Fits q
  | .hand, _ => True

/-- The fields `Place.Fits` looks at are the same. -/
structure Request.SamePlace (q q' : Request) : Prop where
  multiHandle : q'.multiHandle = q.multiHandle
  easyHandle : q'.easyHandle = q.easyHandle
  shouldRefresh : q'.shouldRefresh = q.shouldRefresh
  isPending : q'.isPending = q.isPending

theorem Request.SamePlace.refl (q : Request) : q.SamePlace q := ⟨rfl, rfl, rfl, rfl⟩

theorem Request.SamePlace.trans {q q' q'' : Request} (h : q.SamePlace q') (h' : q'.SamePlace q'') :
    q.SamePlace q'' :=
  ⟨h'.multiHandle.trans h.multiHandle, h'.easyHandle.trans h.easyHandle,
    h'.shouldRefresh.trans h.shouldRefresh, h'.isPending.trans h.isPending⟩

theorem Place.Fits.congr {p : Place} {q q' : Request} (h : p.Fits q) (hq : q.SamePlace q') :
    p.Fits q' := by
  induction p with
  | pending => exact hq.multiHandle.trans h
  | injected => exact hq.isPending.trans h
  | blocked id => exact ⟨hq.multiHandle.trans h.1, hq.isPending.trans h.2⟩
  | map m =>
    have hmap : Loop.cancelledMap q' = Loop.cancelledMap q := by
      rw [Loop.cancelledMap, Loop.cancelledMap, Loop.waitingMap, Loop.waitingMap, hq.multiHandle,
        hq.shouldRefresh]
    cases m with
    | rateLimited => exact hq.isPending.trans h
    | _ =>
      refine ⟨hmap.trans h.1, hq.isPending.trans h.2.1, fun hm => ?_⟩
      rw [hq.easyHandle]
      exact h.2.2 (hq.multiHandle.symm.trans hm)
  | detached p ih => exact ih h
  | hand => trivial

/-- A request that is not attached and not pending fits the map `enqueue_request` chooses. -/
theorem Place.fits_waitingMap {q : Request} (hm : q.multiHandle = false)
    (hp : q.isPending = false) : (Place.map (Loop.waitingMap q)).Fits q := by
  have hmap : Loop.cancelledMap q = Loop.waitingMap q := by
    rw [Loop.cancelledMap, hm]
    rfl
  have hfit : Loop.cancelledMap q = Loop.waitingMap q ∧ q.isPending = false ∧
      (q.multiHandle = true → q.easyHandle.isSome) :=
    ⟨hmap, hp, fun h => absurd h (by simp [hm])⟩
  cases h : Loop.waitingMap q with
  | rateLimited => exact hp
  | _ =>
    rw [h] at hfit
    exact hfit

/-! ### The links -/

/-- The list heads and links spell out the view. -/
structure Linked (link : ReqId → Option ReqId) (pending injected : Option ReqId)
    (store : Resources) (v : View) : Prop where
  pending : Intrusive.IsChain link pending (v .pending)
  injected : Intrusive.IsChain link injected (v .injected)
  blocked : ∀ id, Intrusive.IsChain link (store.blockedHead id) (v (.blocked id))
  tail : ∀ id, store.blockedTail id = (v (.blocked id)).getLast?
  awaited : ∀ id, v (.blocked id) ≠ [] → store.Awaited id

variable {link link' : ReqId → Option ReqId} {pd inj : Option ReqId} {store store' : Resources}
  {v v' : View} {r : ReqId} {l : List ReqId}

/-- A place whose requests are threaded through `next_pending`. -/
def Place.Threaded : Place → Prop
  | .pending | .injected | .blocked _ => True
  | _ => False

/-- Only the threaded places matter, and the links of the requests there. -/
theorem Linked.congr (h : Linked link pd inj store v)
    (hv : ∀ p : Place, p.Threaded → v' p = v p)
    (hlink : ∀ p : Place, p.Threaded → ∀ b ∈ v p, link' b = link b) :
    Linked link' pd inj store v' := by
  refine ⟨?_, ?_, fun id => ?_, fun id => ?_, fun id => ?_⟩
  · rw [hv .pending trivial]
    exact h.pending.congr (hlink .pending trivial)
  · rw [hv .injected trivial]
    exact h.injected.congr (hlink .injected trivial)
  · rw [hv (.blocked id) trivial]
    exact (h.blocked id).congr (hlink (.blocked id) trivial)
  · rw [hv (.blocked id) trivial]
    exact h.tail id
  · rw [hv (.blocked id) trivial]
    exact h.awaited id

/-- Operations on the store that leave the waiting lists alone. -/
theorem Linked.setResources (h : Linked link pd inj store v) (hs : store.SameWaiters store') :
    Linked link pd inj store' v := by
  refine ⟨h.pending, h.injected, fun id => ?_, fun id => ?_, fun id hid => ?_⟩
  · rw [(hs id).1]
    exact h.blocked id
  · rw [(hs id).2.1]
    exact h.tail id
  · exact (hs id).2.2 (h.awaited id hid)

/-- A request appended to the waiting list of a node that has not been published. -/
theorem Linked.append (h : Linked link pd inj store v) {n : Res}
    (hn : store.resFind n.id = some n) (hready : n.ready = false) {head : Option ReqId}
    (hchain : Intrusive.IsChain link' head (v (.blocked n.id) ++ [r]))
    (hlink : ∀ p : Place, p.Threaded → p ≠ .blocked n.id → ∀ b ∈ v p, link' b = link b)
    (hv : ∀ p : Place, p.Threaded → p ≠ .blocked n.id → v' p = v p)
    (hvn : v' (.blocked n.id) = v (.blocked n.id) ++ [r]) :
    Linked link' pd inj (store.put (n.setWaiters head (some r))) v' := by
  refine ⟨?_, ?_, fun id => ?_, fun id => ?_, fun id hne => ?_⟩
  · rw [hv .pending trivial (by simp)]
    exact h.pending.congr (hlink .pending trivial (by simp))
  · rw [hv .injected trivial (by simp)]
    exact h.injected.congr (hlink .injected trivial (by simp))
  · rw [Resources.blockedHead_setWaiters hn]
    rcases eq_or_ne id n.id with rfl | hid
    · rwa [if_pos rfl, hvn]
    · rw [if_neg hid, hv (.blocked id) trivial (by simpa using hid)]
      exact (h.blocked id).congr (hlink (.blocked id) trivial (by simpa using hid))
  · rw [Resources.blockedTail_setWaiters hn]
    rcases eq_or_ne id n.id with rfl | hid
    · rw [if_pos rfl, hvn, List.getLast?_concat]
    · rw [if_neg hid, hv (.blocked id) trivial (by simpa using hid)]
      exact h.tail id
  · refine Resources.awaited_setWaiters hn _ _ ?_
    rcases eq_or_ne id n.id with rfl | hid
    · intro m hm
      obtain rfl := Option.some.inj (hn.symm.trans hm)
      exact hready
    · rw [hv (.blocked id) trivial (by simpa using hid)] at hne
      exact h.awaited id hne

theorem Linked.coherent (h : Linked link pd inj store v) : store.Coherent := by
  intro id hid
  rw [h.tail, ((h.blocked id).head_eq_none_iff.mp hid)]
  rfl

/-- A request that is nowhere may be linked in front of a list. -/
theorem Linked.push_pending (h : Linked link pd inj store v) (hr : ∀ p : Place, r ∉ v p) :
    Linked (update link r pd) (some r) inj store (update v .pending (r :: v .pending)) := by
  refine ⟨?_, ?_, fun id => ?_, fun id => ?_, fun id => ?_⟩
  · rw [Function.update_self]
    exact h.pending.push (hr _)
  all_goals rw [Function.update_of_ne (by simp)]
  · exact h.injected.update (hr _) _
  · exact (h.blocked id).update (hr _) _
  · exact h.tail id
  · exact h.awaited id

theorem Linked.push_injected (h : Linked link pd inj store v) (hr : ∀ p : Place, r ∉ v p) :
    Linked (update link r inj) pd (some r) store (update v .injected (r :: v .injected)) := by
  refine ⟨?_, ?_, fun id => ?_, fun id => ?_, fun id => ?_⟩
  rotate_left
  · rw [Function.update_self]
    exact h.injected.push (hr _)
  all_goals rw [Function.update_of_ne (by simp)]
  · exact (h.blocked id).update (hr _) _
  · exact h.tail id
  · exact h.awaited id
  · exact h.pending.update (hr _) _

/-! ### The invariant of the places -/

/-- Every live request is in one place, and the loop agrees. -/
structure Layout (req : ReqId → Request) (link : ReqId → Option ReqId)
    (maps : MapId → List ReqId) (store : Resources) (pd inj : Option ReqId)
    (transfers : List Transfer) (accepted destroyed afterFree : List ReqId) (v : View) : Prop where
  linked : Linked link pd inj store v
  maps : ∀ m, maps m = v (.map m)
  fits : ∀ p r, r ∈ v p → p.Fits (req r)
  /-- A transfer that has not been reported belongs to an active request. -/
  attached : ∀ t ∈ transfers, t.reported = false →
    t.priv ∈ v (.map .queued) ∧ (req t.priv).easyHandle = some t.easy
  placed : Placement.Placed v fun r => r ∈ accepted ∧ r ∉ destroyed
  unsubmitted : ∀ r, r ∉ accepted → (req r).Unsubmitted
  accepted_nodup : accepted.Nodup
  destroyed_nodup : destroyed.Nodup
  destroyed_subset : destroyed ⊆ accepted
  afterFree : afterFree = []

namespace Loop

variable {ω : Type} {s t : Loop ω} {C : List ReqId}

/-- The layout of a loop. -/
def Located (s : Loop ω) (v : View) : Prop :=
  Layout s.req s.nextPending s.maps s.resources s.pendingRequests s.injectedRequests
    s.multi.transfers s.accepted s.destroyed s.afterFree v

theorem Located.live_of_mem (h : Located s v) {p : Place} (hr : r ∈ v p) : s.Live r :=
  h.placed.live_of_mem hr

theorem Located.accepted_of_mem (h : Located s v) {p : Place} (hr : r ∈ v p) : r ∈ s.accepted :=
  (h.live_of_mem hr).1

/-- Following an entry to a live request. -/
theorem Located.follow (h : Located s v) {p : Place} (hr : r ∈ v p) : s.follow r = s := by
  rw [Loop.follow, if_neg (h.live_of_mem hr).2]

/-- A change of the places in transit only. -/
theorem Located.reindex (h : Located s v) (hthreaded : ∀ p : Place, p.Threaded → v' p = v p)
    (hmap : ∀ m, v' (.map m) = v (.map m)) (hfits : ∀ p r, r ∈ v' p → p.Fits (s.req r))
    (hplaced : Placement.Placed v' s.Live) : Located s v' where
  linked := h.linked.congr hthreaded fun _ _ _ _ => rfl
  maps m := (h.maps m).trans (hmap m).symm
  fits := hfits
  attached := by
    rw [hmap]
    exact h.attached
  placed := hplaced
  unsubmitted := h.unsubmitted
  accepted_nodup := h.accepted_nodup
  destroyed_nodup := h.destroyed_nodup
  destroyed_subset := h.destroyed_subset
  afterFree := h.afterFree

/-- Writing the fields of an accepted request, so that it still fits where it is. -/
theorem Located.modifyReq (h : Located s v) {f : Request → Request} (hr : r ∈ s.accepted)
    (hfits : ∀ p, r ∈ v p → p.Fits (f (s.req r)))
    (heasy : r ∈ v (.map .queued) → (f (s.req r)).easyHandle = (s.req r).easyHandle) :
    Located (s.modifyReq r f) v where
  linked := h.linked
  maps := h.maps
  fits p b hb := by
    show p.Fits (update s.req r (f (s.req r)) b)
    rcases eq_or_ne b r with rfl | hbr
    · rw [Function.update_self]
      exact hfits p hb
    · rw [Function.update_of_ne hbr]
      exact h.fits p b hb
  attached t ht hrep := by
    obtain ⟨hq, he⟩ := h.attached t ht hrep
    refine ⟨hq, ?_⟩
    show (update s.req r (f (s.req r)) t.priv).easyHandle = some t.easy
    rcases eq_or_ne t.priv r with htr | htr
    · rw [htr, Function.update_self, heasy (htr ▸ hq), ← htr]
      exact he
    · rw [Function.update_of_ne htr]
      exact he
  placed := h.placed
  unsubmitted b hb := by
    show (update s.req r (f (s.req r)) b).Unsubmitted
    rw [Function.update_of_ne (fun hbr : b = r => hb (hbr ▸ hr))]
    exact h.unsubmitted b hb
  accepted_nodup := h.accepted_nodup
  destroyed_nodup := h.destroyed_nodup
  destroyed_subset := h.destroyed_subset
  afterFree := h.afterFree

/-- The fields of a request being worked on are free. -/
theorem Located.modifyReq_hand (h : Located s v) (hr : r ∈ v .hand) (f : Request → Request) :
    Located (s.modifyReq r f) v := by
  refine h.modifyReq (h.accepted_of_mem hr) (fun p hp => ?_) fun hq => ?_
  · obtain rfl : p = .hand := h.placed.inj hp hr
    trivial
  · exact absurd (h.placed.inj hq hr) (by simp)

/-- A field that says nothing about the place. -/
theorem Located.modifyReq_same (h : Located s v) {f : Request → Request} (hr : r ∈ s.accepted)
    (hf : (s.req r).SamePlace (f (s.req r))) : Located (s.modifyReq r f) v :=
  h.modifyReq hr (fun p hp => (h.fits p r hp).congr hf) fun _ => hf.easyHandle

/-- The link of a request being worked on is free. -/
theorem Located.setNextPending_hand (h : Located s v) (hr : r ∈ v .hand) (x : Option ReqId) :
    Located (s.setNextPending r x) v :=
  { h with
    linked := by
      refine h.linked.congr (fun _ _ => rfl) fun p hp b hb => Function.update_of_ne ?_ ..
      rintro rfl
      obtain rfl : p = .hand := h.placed.inj hb hr
      exact hp }

theorem Located.setResources (h : Located s v) {store : Resources}
    (hs : s.resources.SameWaiters store) : Located (s.setResources store) v :=
  { h with linked := h.linked.setResources hs }

/-- Transfers may end at any time. -/
theorem Located.setTransfers (h : Located s v) {m : Multi}
    (hm : ∀ t ∈ m.transfers, t.reported = false → t ∈ s.multi.transfers) :
    Located { s with multi := m } v :=
  { h with attached := fun t ht hrep => h.attached t (hm t ht hrep) hrep }

/-! ### Moves in transit -/

/-- A whole list is poured out at a place that its requests fit. -/
theorem Located.pour (h : Located s v) {p p' : Place} (hpp : p ≠ p') (hp' : p' ≠ .map .queued)
    (hq : p ≠ .map .queued) (hfit : ∀ r ∈ v p, p'.Fits (s.req r)) {link : ReqId → Option ReqId}
    {maps : MapId → List ReqId} {store : Resources} {pd inj : Option ReqId}
    (hlinked : Linked link pd inj store (update (update v p []) p' (v p ++ v p')))
    (hmaps : ∀ m, maps m = update (update v p []) p' (v p ++ v p') (.map m)) :
    Layout s.req link maps store pd inj s.multi.transfers s.accepted s.destroyed s.afterFree
      (update (update v p []) p' (v p ++ v p')) where
  linked := hlinked
  maps := hmaps
  fits p'' b hb := by
    rcases eq_or_ne p'' p' with rfl | hd
    · rw [Function.update_self] at hb
      exact (List.mem_append.mp hb).elim (hfit b) (h.fits p'' b)
    · rw [Function.update_of_ne hd] at hb
      rcases eq_or_ne p'' p with rfl | hp
      · simp at hb
      · rw [Function.update_of_ne hp] at hb
        exact h.fits p'' b hb
  attached t ht hrep := by
    rw [Function.update_of_ne hp'.symm, Function.update_of_ne hq.symm]
    exact h.attached t ht hrep
  placed := h.placed.pour hpp
  unsubmitted := h.unsubmitted
  accepted_nodup := h.accepted_nodup
  destroyed_nodup := h.destroyed_nodup
  destroyed_subset := h.destroyed_subset
  afterFree := h.afterFree

/-- A whole list goes to an empty place that its requests fit. -/
theorem Located.moveAll (h : Located s v) {p p' : Place} (hpp : p ≠ p') (hempty : v p' = [])
    (hp' : p' ≠ .map .queued) (hq : p ≠ .map .queued) (hfit : ∀ r ∈ v p, p'.Fits (s.req r))
    {link : ReqId → Option ReqId} {maps : MapId → List ReqId} {store : Resources}
    {pd inj : Option ReqId} (hlinked : Linked link pd inj store (update (update v p []) p' (v p)))
    (hmaps : ∀ m, maps m = update (update v p []) p' (v p) (.map m)) :
    Layout s.req link maps store pd inj s.multi.transfers s.accepted s.destroyed s.afterFree
      (update (update v p []) p' (v p)) := by
  have hview : update (update v p []) p' (v p) = update (update v p []) p' (v p ++ v p') := by
    rw [hempty, List.append_nil]
  rw [hview] at hlinked hmaps ⊢
  exact h.pour hpp hp' hq hfit hlinked hmaps

/-- `pending_requests` is detached. -/
theorem Located.detachPending (h : Located s v) (hempty : v (.detached .pending) = []) :
    Located s.detachPending
      (update (update v .pending []) (.detached .pending) (v .pending)) := by
  refine h.moveAll (by simp) hempty (by simp) (by simp) (h.fits .pending) ⟨?_, ?_, fun id => ?_,
    fun id => ?_, fun id => ?_⟩ fun m => ?_
  · rw [Function.update_of_ne (by simp), Function.update_self]
    exact rfl
  all_goals rw [Function.update_of_ne (by simp), Function.update_of_ne (by simp)]
  · exact h.linked.injected
  · exact h.linked.blocked id
  · exact h.linked.tail id
  · exact h.linked.awaited id
  · exact h.maps m

/-- `injected_requests` is detached. -/
theorem Located.detachInjected (h : Located s v) (hempty : v (.detached .injected) = []) :
    Located s.detachInjected
      (update (update v .injected []) (.detached .injected) (v .injected)) := by
  refine h.moveAll (by simp) hempty (by simp) (by simp) (h.fits .injected) ⟨?_, ?_, fun id => ?_,
    fun id => ?_, fun id => ?_⟩ fun m => ?_
  rotate_left
  · rw [Function.update_of_ne (by simp), Function.update_self]
    exact rfl
  all_goals rw [Function.update_of_ne (by simp), Function.update_of_ne (by simp)]
  · exact h.linked.blocked id
  · exact h.linked.tail id
  · exact h.linked.awaited id
  · exact h.maps m
  · exact h.linked.pending

/-- A resource loses its waiting list, which goes to a place in transit. -/
theorem Located.unblock (h : Located s v) {id : ResId} {p : Place}
    (hfit : ∀ q, (Place.blocked id).Fits q → p.Fits q) {store : Resources}
    (hhead : ∀ j, store.blockedHead j = if j = id then none else s.resources.blockedHead j)
    (htail : ∀ j, store.blockedTail j = if j = id then none else s.resources.blockedTail j)
    (hawait : ∀ j, j ≠ id → s.resources.Awaited j → store.Awaited j) :
    Located (s.setResources store)
      (update (update v (.blocked id) []) (.detached p) (v (.blocked id) ++ v (.detached p))) := by
  have hview : ∀ j, update (update v (.blocked id) []) (.detached p)
      (v (.blocked id) ++ v (.detached p)) (.blocked j) =
        if j = id then [] else v (.blocked j) := by
    intro j
    rw [Function.update_of_ne (by simp)]
    rcases eq_or_ne j id with rfl | hj
    · simp
    · rw [Function.update_of_ne (by simpa using hj), if_neg hj]
  have hpp : Place.blocked id ≠ .detached p := by simp
  refine h.pour hpp (by simp) (by simp)
    (fun r hr => hfit _ (h.fits (.blocked id) r hr))
    ⟨?_, ?_, fun j => ?_, fun j => ?_, fun j => ?_⟩ fun m => ?_
  · rw [Function.update_of_ne (by simp), Function.update_of_ne (by simp)]
    exact h.linked.pending
  · rw [Function.update_of_ne (by simp), Function.update_of_ne (by simp)]
    exact h.linked.injected
  · rw [hview]
    show Intrusive.IsChain s.nextPending (store.blockedHead j) _
    rw [hhead]
    split
    · exact rfl
    · exact h.linked.blocked j
  · rw [hview]
    show store.blockedTail j = _
    rw [htail]
    split
    · rfl
    · exact h.linked.tail j
  · rw [hview]
    split
    · exact fun hne => absurd rfl hne
    · exact fun hne => hawait j ‹_› (h.linked.awaited j hne)
  · rw [Function.update_of_ne (by simp), Function.update_of_ne (by simp)]
    exact h.maps m

/-- The waiting list of a resource is detached. -/
theorem Located.detachBlocked (h : Located s v) {id : ResId}
    (hempty : v (.detached (.blocked id)) = []) {store : Resources}
    (hhead : ∀ j, store.blockedHead j = if j = id then none else s.resources.blockedHead j)
    (htail : ∀ j, store.blockedTail j = if j = id then none else s.resources.blockedTail j)
    (hawait : ∀ j, j ≠ id → s.resources.Awaited j → store.Awaited j) :
    Located (s.setResources store)
      (update (update v (.blocked id) []) (.detached (.blocked id)) (v (.blocked id))) := by
  have hpour := h.unblock (p := .blocked id) (fun _ hq => hq) hhead htail hawait
  rwa [hempty, List.append_nil] at hpour

/-- A map is detached. -/
theorem Located.detachMap (h : Located s v) {m : MapId} (hm : m ≠ .queued)
    (hempty : v (.detached (.map m)) = []) :
    Located (s.setMap m []) (update (update v (.map m) []) (.detached (.map m)) (v (.map m))) := by
  refine h.moveAll (by simp) hempty (by simp) (by simpa using hm) (h.fits (.map m))
    (h.linked.congr (fun p hp => ?_) fun _ _ _ _ => rfl) fun m' => ?_
  · rw [Function.update_of_ne, Function.update_of_ne] <;> rintro rfl <;> exact hp
  · rw [Function.update_of_ne (by simp)]
    show update s.maps m [] m' = _
    rcases eq_or_ne m' m with rfl | hne
    · rw [Function.update_self, Function.update_self]
    · rw [Function.update_of_ne hne, Function.update_of_ne (by simpa using hne)]
      exact h.maps m'

/-- A map is put back. -/
theorem Located.putBackMap (h : Located s v) {m : MapId} (hm : m ≠ .queued)
    (hempty : v (.map m) = []) :
    Located (s.setMap m (v (.detached (.map m))))
      (update (update v (.detached (.map m)) []) (.map m) (v (.detached (.map m)))) := by
  refine h.moveAll (by simp) hempty (by simpa using hm) (by simp) (h.fits (.detached (.map m)))
    (h.linked.congr (fun p hp => ?_) fun _ _ _ _ => rfl) fun m' => ?_
  · rw [Function.update_of_ne, Function.update_of_ne] <;> rintro rfl <;> exact hp
  · show update s.maps m (v (.detached (.map m))) m' = _
    rcases eq_or_ne m' m with rfl | hne
    · rw [Function.update_self, Function.update_self]
    · rw [Function.update_of_ne hne, Function.update_of_ne (by simpa using hne),
        Function.update_of_ne (by simp)]
      exact h.maps m'

/-- A request is taken out of a map. -/
theorem Located.eraseMap (h : Located s v) {m : MapId} (hr : r ∈ v (.map m))
    (hdone : ∀ t ∈ s.multi.transfers, t.reported = false → t.priv ≠ r) :
    Located (s.eraseMap m r)
      (update (update v (.map m) ((v (.map m)).erase r)) .hand (r :: v .hand)) where
  linked := h.linked.congr (fun p hp => by
    rw [Function.update_of_ne, Function.update_of_ne] <;> rintro rfl <;> exact hp)
    fun _ _ _ _ => rfl
  maps m' := by
    show update s.maps m ((s.maps m).erase r) m' = _
    rcases eq_or_ne m' m with rfl | hm
    · rw [Function.update_self, Function.update_of_ne (by simp), Function.update_self, h.maps]
    · rw [Function.update_of_ne hm, Function.update_of_ne (by simp),
        Function.update_of_ne (by simpa using hm)]
      exact h.maps m'
  fits p b hb := by
    rcases eq_or_ne p .hand with rfl | hh
    · trivial
    · rw [Function.update_of_ne hh] at hb
      rcases eq_or_ne p (.map m) with rfl | hm
      · rw [Function.update_self] at hb
        exact h.fits _ b (List.mem_of_mem_erase hb)
      · rw [Function.update_of_ne hm] at hb
        exact h.fits p b hb
  attached t ht hrep := by
    obtain ⟨htq, he⟩ := h.attached t ht hrep
    refine ⟨?_, he⟩
    rw [Function.update_of_ne (by simp)]
    rcases eq_or_ne m .queued with rfl | hm
    · rw [Function.update_self]
      exact (List.mem_erase_of_ne (hdone t ht hrep)).mpr htq
    · rwa [Function.update_of_ne (by simpa using hm.symm)]
  placed := h.placed.move (by simp) (List.perm_cons_erase hr) (.refl _)
  unsubmitted := h.unsubmitted
  accepted_nodup := h.accepted_nodup
  destroyed_nodup := h.destroyed_nodup
  destroyed_subset := h.destroyed_subset
  afterFree := h.afterFree

/-- The next request of a list that is walked is taken up. -/
theorem Located.takeUp (h : Located s v) {p : Place} (hp : v (.detached p) = r :: l) :
    Located s (update (update v (.detached p) l) .hand (r :: v .hand)) := by
  refine h.reindex (fun p' hp' => ?_) (fun m => ?_) (fun p' b hb => ?_) ?_
  · rw [Function.update_of_ne, Function.update_of_ne] <;> rintro rfl <;> exact hp'
  · rw [Function.update_of_ne (by simp), Function.update_of_ne (by simp)]
  · rcases eq_or_ne p' .hand with rfl | hh
    · trivial
    · rw [Function.update_of_ne hh] at hb
      rcases eq_or_ne p' (.detached p) with rfl | hd
      · rw [Function.update_self] at hb
        exact h.fits _ b (hp ▸ List.mem_cons_of_mem r hb)
      · rw [Function.update_of_ne hd] at hb
        exact h.fits p' b hb
  · exact h.placed.move (by simp) (.of_eq hp) (.refl _)

/-! ### Moves out of the hand -/

/-- A request put down at a place it fits. -/
theorem Located.fits_putDown (h : Located s v) {p : Place} (hfit : p.Fits (s.req r))
    {lp : List ReqId} (hlp : lp.Perm (r :: v p)) :
    ∀ p' b, b ∈ update (update v .hand l) p lp p' → p'.Fits (s.req b) := by
  intro p' b hb
  rcases eq_or_ne p' p with rfl | hp
  · rw [Function.update_self, hlp.mem_iff] at hb
    rcases List.mem_cons.mp hb with rfl | hb
    · exact hfit
    · exact h.fits _ b hb
  · rw [Function.update_of_ne hp] at hb
    rcases eq_or_ne p' .hand with rfl | hp'
    · trivial
    · rw [Function.update_of_ne hp'] at hb
      exact h.fits p' b hb

/-- Into a map. -/
theorem Located.insertMap (h : Located s v) (hh : v .hand = r :: l) {m : MapId}
    (hfit : (Place.map m).Fits (s.req r)) :
    Located (s.insertMap m r)
      (update (update v .hand l) (.map m) (s.requestInsert r (s.maps m))) where
  linked := h.linked.congr (fun p hp => by
    rw [Function.update_of_ne, Function.update_of_ne] <;> rintro rfl <;> exact hp)
    fun _ _ _ _ => rfl
  maps m' := by
    show update s.maps m (s.requestInsert r (s.maps m)) m' = _
    rcases eq_or_ne m' m with rfl | hm
    · rw [Function.update_self, Function.update_self]
    · rw [Function.update_of_ne hm, Function.update_of_ne (by simpa using hm),
        Function.update_of_ne (by simp)]
      exact h.maps m'
  fits := h.fits_putDown hfit (h.maps m ▸ OrderedMap.insertMulti_perm _ r (s.maps m))
  attached t ht hrep := by
    obtain ⟨hq, he⟩ := h.attached t ht hrep
    refine ⟨?_, he⟩
    rcases eq_or_ne m .queued with rfl | hm
    · rw [Function.update_self, requestInsert, OrderedMap.mem_insertMulti, h.maps]
      exact .inr hq
    · rw [Function.update_of_ne (by simpa using hm.symm), Function.update_of_ne (by simp)]
      exact hq
  placed := h.placed.move (by simp) (.of_eq hh)
    (h.maps m ▸ OrderedMap.insertMulti_perm _ r (s.maps m))
  unsubmitted := h.unsubmitted
  accepted_nodup := h.accepted_nodup
  destroyed_nodup := h.destroyed_nodup
  destroyed_subset := h.destroyed_subset
  afterFree := h.afterFree

/-- Back on the pending list. -/
theorem Located.requeue (h : Located s v) (hh : v .hand = r :: l)
    (hfit : Place.pending.Fits (s.req r)) :
    Located (s.requeuePending r) (update (update v .hand l) .pending (r :: v .pending)) := by
  have hr : r ∈ v .hand := hh ▸ List.mem_cons_self
  have hnot : ∀ p : Place, p ≠ .hand → r ∉ v p := fun p hp =>
    h.placed.notMem_of_ne hr hp.symm
  refine ⟨⟨?_, ?_, fun id => ?_, fun id => ?_, fun id => ?_⟩, fun m => ?_, h.fits_putDown hfit (.refl _),
    fun t ht hrep => ?_, h.placed.move (by simp) (.of_eq hh) (.refl _), h.unsubmitted,
    h.accepted_nodup, h.destroyed_nodup, h.destroyed_subset, h.afterFree⟩
  · rw [Function.update_self]
    exact h.linked.pending.push (hnot _ (by simp))
  · rw [Function.update_of_ne (by simp), Function.update_of_ne (by simp)]
    exact h.linked.injected.update (hnot _ (by simp)) _
  · rw [Function.update_of_ne (by simp), Function.update_of_ne (by simp)]
    exact (h.linked.blocked id).update (hnot _ (by simp)) _
  · rw [Function.update_of_ne (by simp), Function.update_of_ne (by simp)]
    exact h.linked.tail id
  · rw [Function.update_of_ne (by simp), Function.update_of_ne (by simp)]
    exact h.linked.awaited id
  · rw [Function.update_of_ne (by simp), Function.update_of_ne (by simp)]
    exact h.maps m
  · rw [Function.update_of_ne (by simp), Function.update_of_ne (by simp)]
    exact h.attached t ht hrep

/-- What `block_request_on_res` writes, whichever branch it takes: the link of the request, the link of
the last request that waits, and the two ends of the list. -/
theorem exists_blockRequestOnRes (s : Loop ω) (n : Res) (r : ReqId) :
    ∃ link head,
      s.blockRequestOnRes n r = ({ s with nextPending := link } : Loop ω).setResources
        (s.resources.put (n.setWaiters head (some r))) ∧
      (∀ b, b ≠ r → n.blockedTail ≠ some b → link b = s.nextPending b) ∧
      ∀ {l}, Intrusive.IsChain s.nextPending n.blockedHead l → n.blockedTail = l.getLast? →
        l.Nodup → r ∉ l → Intrusive.IsChain link head (l ++ [r]) := by
  rw [blockRequestOnRes]
  cases ht : n.blockedTail with
  | some a =>
    refine ⟨_, n.blockedHead, rfl, fun b hbr hba => ?_, fun hchain htail hnd hr => ?_⟩
    · have hne : b ≠ a := fun heq => hba (congrArg some heq.symm)
      exact (Function.update_of_ne hne _ _).trans (Function.update_of_ne hbr _ _)
    · exact hchain.append hnd htail.symm hr
  | none =>
    refine ⟨_, some r, rfl, fun b hbr _ => Function.update_of_ne hbr _ _,
      fun hchain htail hnd hr => ?_⟩
    rw [List.getLast?_eq_none_iff.mp htail.symm]
    exact ⟨rfl, Function.update_self ..⟩

/-- At the end of the waiting list of a node. -/
theorem Located.blockRequestOnRes (h : Located s v) (hh : v .hand = r :: l) {n : Res}
    (hn : s.resources.resFind n.id = some n) (hready : n.ready = false)
    (hfit : (Place.blocked n.id).Fits (s.req r)) :
    Located (s.blockRequestOnRes n r)
      (update (update v .hand l) (.blocked n.id) (v (.blocked n.id) ++ [r])) := by
  have hr : r ∈ v .hand := hh ▸ List.mem_cons_self
  have hnot : ∀ p : Place, p ≠ .hand → r ∉ v p := fun p hp =>
    h.placed.notMem_of_ne hr hp.symm
  have hperm : (v (.blocked n.id) ++ [r]).Perm (r :: v (.blocked n.id)) :=
    List.perm_append_singleton ..
  have htail : n.blockedTail = (v (.blocked n.id)).getLast? := by
    rw [← h.linked.tail, Resources.blockedTail_eq hn]
  have hblocked : Intrusive.IsChain s.nextPending n.blockedHead (v (.blocked n.id)) := by
    rw [← Resources.blockedHead_eq hn]
    exact h.linked.blocked n.id
  obtain ⟨link, head, hs, hlink, happend⟩ := exists_blockRequestOnRes s n r
  have hchain := happend hblocked htail (h.placed.nodup _) (hnot _ (by simp))
  have hother : ∀ p : Place, p ≠ .hand → p ≠ .blocked n.id → ∀ b ∈ v p, link b = s.nextPending b := by
    intro p hp hp' b hb
    refine hlink b ?_ fun ht => ?_
    · rintro rfl
      exact hnot p hp hb
    · have hmem : b ∈ v (.blocked n.id) := List.mem_of_getLast? (htail.symm.trans ht)
      exact hp' (h.placed.inj hb hmem)
  rw [hs]
  refine ⟨h.linked.append hn hready hchain (fun p hp => hother p ?_) (fun p hp hne => ?_) ?_,
    fun m => ?_, h.fits_putDown hfit hperm, fun t ht hrep => ?_,
    h.placed.move (by simp) (.of_eq hh) hperm, h.unsubmitted, h.accepted_nodup,
    h.destroyed_nodup, h.destroyed_subset, h.afterFree⟩
  · rintro rfl
    exact hp
  · rw [Function.update_of_ne hne, Function.update_of_ne]
    rintro rfl
    exact hp
  · rw [Function.update_self]
  · rw [Function.update_of_ne (by simp), Function.update_of_ne (by simp)]
    exact h.maps m
  · rw [Function.update_of_ne (by simp), Function.update_of_ne (by simp)]
    exact h.attached t ht hrep

/-! ### Requests that come and go -/

/-- The link of a request that has not been accepted, and its fields, are free. -/
theorem Located.push (h : Located s v) {p : Place} (hr : r ∉ s.accepted) {q : Request}
    (hfit : p.Fits q) {link : ReqId → Option ReqId} {pd inj : Option ReqId}
    (hp : p ≠ .map .queued) (hmap : ∀ m, p ≠ .map m)
    (hlinked : Linked link pd inj s.resources (update v p (r :: v p))) :
    Layout (update s.req r q) link s.maps s.resources pd inj s.multi.transfers (r :: s.accepted)
      s.destroyed s.afterFree (update v p (r :: v p)) := by
  have hne : ∀ {p' : Place} {b : ReqId}, b ∈ v p' → b ≠ r := by
    rintro p' b hb rfl
    exact hr (h.accepted_of_mem hb)
  have hd : r ∉ s.destroyed := fun hd => hr (h.destroyed_subset hd)
  refine ⟨hlinked, fun m => ?_, fun p' b hb => ?_, fun t ht hrep => ?_, ?_, fun b hb => ?_,
    List.nodup_cons.mpr ⟨hr, h.accepted_nodup⟩, h.destroyed_nodup,
    fun b hb => List.mem_cons_of_mem r (h.destroyed_subset hb), h.afterFree⟩
  · rw [Function.update_of_ne (hmap m).symm]
    exact h.maps m
  · rcases eq_or_ne b r with rfl | hbr
    · have hp' : p' = p := by
        by_contra hne'
        rw [Function.update_of_ne hne'] at hb
        exact hne hb rfl
      rw [hp', Function.update_self]
      exact hfit
    · rw [Function.update_of_ne hbr]
      rcases eq_or_ne p' p with rfl | hp'
      · rw [Function.update_self] at hb
        exact h.fits p' b ((List.mem_cons.mp hb).resolve_left hbr)
      · rw [Function.update_of_ne hp'] at hb
        exact h.fits p' b hb
  · obtain ⟨htq, he⟩ := h.attached t ht hrep
    rw [Function.update_of_ne hp.symm, Function.update_of_ne (hne htq)]
    exact ⟨htq, he⟩
  · refine (h.placed.enter (fun hl => hr hl.1) (.refl _)).congr_live fun b => ?_
    rw [List.mem_cons]
    constructor
    · rintro ⟨rfl | hb, hbd⟩
      · exact .inl rfl
      · exact .inr ⟨hb, hbd⟩
    · rintro (rfl | ⟨hb, hbd⟩)
      · exact ⟨.inl rfl, hd⟩
      · exact ⟨.inr hb, hbd⟩
  · have hb' := not_or.mp (fun hb' => hb (List.mem_cons.mpr hb'))
    rw [Function.update_of_ne hb'.1]
    exact h.unsubmitted b hb'.2

/-! ### What destruction writes -/

theorem req_destroy (s : Loop ω) (r : ReqId) : (s.curlEventRequestDestroy r).req =
    update s.req r (((s.req r).cleaned).setRetained false) := by
  show update (update s.req r (s.req r).cleaned) r
    ((update s.req r (s.req r).cleaned r).setRetained false) = _
  rw [Function.update_self, Function.update_idem]

theorem sameWaiters_destroy (h : s.resources.Coherent) :
    s.resources.SameWaiters (s.curlEventRequestDestroy r).resources := by
  show s.resources.SameWaiters (if _ then s.resources.curlResourceReleaseRequestDeps _
    else s.resources)
  split
  · exact Resources.sameWaiters_releaseDeps _ h
  · exact .refl _

/-- The transfers that are left: the one of the request is removed if it is attached. -/
theorem transfers_cleanup {a : Transfer}
    (ha : a ∈ (s.curlEventLoopRequestCleanup r).multi.transfers) :
    a ∈ s.multi.transfers ∧ ((s.req r).multiHandle = true → (s.req r).easyHandle ≠ some a.easy) := by
  rw [multi_cleanup] at ha
  cases he : (s.req r).easyHandle with
  | none =>
    rw [he] at ha
    exact ⟨ha, by simp⟩
  | some e =>
    rw [he] at ha
    dsimp only at ha
    split at ha
    · obtain ⟨hmem, hne⟩ := List.mem_filter.mp ha
      refine ⟨hmem, fun _ hea => ?_⟩
      obtain rfl := Option.some.inj hea
      simp at hne
    · rename_i hmulti
      exact ⟨ha, fun hmulti' => absurd hmulti' hmulti⟩

theorem transfers_destroy {a : Transfer}
    (ha : a ∈ (s.curlEventRequestDestroy r).multi.transfers) :
    a ∈ s.multi.transfers ∧ ((s.req r).multiHandle = true → (s.req r).easyHandle ≠ some a.easy) :=
  transfers_cleanup (s := s.beware (r ∈ s.cancelledList) (.destroyedCancelled r)) ha

/-- The end of a request that is in the hand or in a map. `maps₀` are the maps before it was taken
out. -/
theorem Located.retire {f : MapId → List ReqId} {p : Place} {lp : List ReqId}
    (h : Layout t.req t.nextPending f t.resources t.pendingRequests t.injectedRequests
      t.multi.transfers t.accepted t.destroyed t.afterFree v)
    (hp : (v p).Perm (r :: lp)) (hthreaded : ¬ p.Threaded)
    (hmaps : ∀ m, t.maps m = update v p lp (.map m)) :
    Located (t.curlEventRequestDestroy r) (update v p lp) := by
  have hr : r ∈ v p := hp.mem_iff.mpr List.mem_cons_self
  have hlive : r ∈ t.accepted ∧ r ∉ t.destroyed := h.placed.live_of_mem hr
  have hlp : ∀ b ∈ lp, b ∈ v p ∧ b ≠ r := by
    intro b hb
    refine ⟨hp.mem_iff.mpr (List.mem_cons_of_mem r hb), ?_⟩
    rintro rfl
    exact (List.nodup_cons.mp (hp.nodup_iff.mp (h.placed.nodup p))).1 hb
  have hv : ∀ {p' : Place} {b : ReqId}, b ∈ update v p lp p' → b ∈ v p' ∧ b ≠ r := by
    intro p' b hb
    rcases eq_or_ne p' p with rfl | hpp
    · rw [Function.update_self] at hb
      exact hlp b hb
    · rw [Function.update_of_ne hpp] at hb
      refine ⟨hb, ?_⟩
      rintro rfl
      exact hpp (h.placed.inj hb hr)
  have hreq := req_destroy t r
  refine ⟨(h.linked.congr (fun p' hp' => ?_) fun _ _ _ _ => rfl).setResources
    (sameWaiters_destroy h.linked.coherent), hmaps, fun p' b hb => ?_, fun a ha hrep => ?_, ?_,
    fun b hb => ?_, h.accepted_nodup, List.nodup_cons.mpr ⟨hlive.2, h.destroyed_nodup⟩, ?_,
    h.afterFree⟩
  · rw [Function.update_of_ne]
    rintro rfl
    exact hthreaded hp'
  · obtain ⟨hb', hbr⟩ := hv hb
    rw [hreq, Function.update_of_ne hbr]
    exact h.fits p' b hb'
  · obtain ⟨ha', hne⟩ := transfers_destroy ha
    obtain ⟨htq, he⟩ := h.attached a ha' hrep
    -- a transfer of `r` itself was removed with its easy handle
    have har : a.priv ≠ r := by
      rintro rfl
      have hfit : (Place.map .queued).Fits (t.req a.priv) := h.fits _ _ htq
      refine hne ?_ he
      by_contra hmulti
      have hmap := hfit.1
      rw [cancelledMap, if_neg hmulti, waitingMap] at hmap
      split at hmap <;> simp at hmap
    rw [hreq, Function.update_of_ne har]
    refine ⟨?_, he⟩
    rcases eq_or_ne (.map .queued) p with hpq | hpq
    · subst hpq
      rw [Function.update_self]
      exact (List.mem_cons.mp (hp.mem_iff.mp htq)).resolve_left har
    · rwa [Function.update_of_ne hpq]
  · refine (h.placed.retire hp).congr_live fun b => ?_
    show b ∈ t.accepted ∧ b ∉ r :: t.destroyed ↔ _
    rw [List.mem_cons]
    tauto
  · rw [hreq, Function.update_of_ne (fun hbr : b = r => hb (hbr ▸ hlive.1))]
    exact h.unsubmitted b hb
  · intro b hb
    rcases List.mem_cons.mp hb with rfl | hb
    · exact hlive.1
    · exact h.destroyed_subset hb

end Loop

end CurlLoop
