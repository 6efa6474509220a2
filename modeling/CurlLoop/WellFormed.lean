import CurlLoop.Evolution
import CurlLoop.Layout

/-!
# What the functions of the scheduler preserve

The invariant `Loop.WF` joins the layout of the loop with the state of its cancelled list, and this
file proves it of the functions that act on one request: destruction, the start of a transfer,
scheduling, blocking, and the calls a user may make. The passes are treated in `CurlLoop.Passes`.

## Hazards

A function may be called in a situation the code is not prepared for, and then the invariant is
lost. The functions record such situations in `hazards`, and every statement here is about a call
after which `hazards` is empty; since the record is never withdrawn, the call met none.

One hazard leaves the invariant alone. A resource that is freed while requests wait for it abandons
them: they are on no list and in no map, and nothing of the loop leads to them any more, so nothing
else goes wrong. Where the parameter `strict` does not hold that hazard is allowed, and the view
keeps the abandoned requests at a place that is in transit and is never walked, `.detached .hand`.

## Frames

A pass works on one request while others wait on the list it walks. `PutDown` says what the rest of
the pass needs to know: the request in hand was put down somewhere or destroyed, and everybody
else stays where they were, with the same links and fields.

## Main definitions

* `Loop.Spared` — the hazards that do no harm to the invariant
* `CancelledList`, `Loop.Marked` — the cancelled list, and who is off it
* `Loop.WF` — the invariant
* `Loop.PutDown` — the request in hand was put down
* `Loop.Undisturbed` — a call came in between

## Main results

* `WF.destroy`, `WF.start`, `WF.enqueueRequest`, `WF.checkAndBlock`, `WF.requeue` — one request
* `WF.calls` — the calls a user may make
-/

namespace CurlLoop

open Function (update)

/-- A resource was freed while requests wait for it. -/
def Hazard.IsAbandoned : Hazard → Prop
  | .abandoned _ => True
  | _ => False

instance (x : Hazard) : Decidable x.IsAbandoned :=
  match x with
  | .abandoned _ => inferInstanceAs (Decidable True)
  | .resubmitted _ | .notOwned _ | .cancelledTwice _ | .destroyedCancelled _ | .misplaced _
  | .lateCall _ => inferInstanceAs (Decidable False)

/-! ### The cancelled list -/

/-- The links of the cancelled list spell out `C`, and whoever is off it has a null link. -/
structure CancelledList (req : ReqId → Request) (link : ReqId → Option ReqId)
    (head : Option ReqId) (accepted destroyed C : List ReqId) : Prop where
  chain : Intrusive.IsChain link head C
  nodup : C.Nodup
  live : ∀ r ∈ C, r ∈ accepted ∧ r ∉ destroyed
  cancelled : ∀ r ∈ C, (req r).isCancelled = true
  off : ∀ r, r ∉ C → r ∉ destroyed → link r = none

namespace Loop

variable {ω : Type} {s t u : Loop ω} {v v' : View} {C : List ReqId} {r : ReqId} {l : List ReqId}
  {env : Env ω} {strict : Prop}

/-! ### Hazards -/

/-- The run met no hazard but that resources were freed while requests waited for them; and not that
either if the reading is strict. -/
def Spared (strict : Prop) (s : Loop ω) : Prop :=
  ∀ h ∈ s.hazards, ¬ strict ∧ ∃ id, h = .abandoned id

theorem Spared.of_nil (h : s.hazards = []) : s.Spared True := by
  rw [Spared, h]
  exact nofun

/-- Requests were abandoned at most. -/
theorem Spared.of_abandoned (h : ∀ x ∈ s.hazards, x.IsAbandoned) : s.Spared False := fun x hx => by
  have hx' := h x hx
  cases x with
  | abandoned id => exact ⟨not_false, id, rfl⟩
  | _ => exact hx'.elim

theorem Spared.notMem (h : s.Spared strict) {x : Hazard} (hx : ∀ id, x ≠ .abandoned id) :
    x ∉ s.hazards := fun hmem => (h x hmem).2.elim hx

/-- A run that was spared was spared before. -/
theorem Spared.of_suffix (h : t.Spared strict) (hs : s.hazards <:+ t.hazards) :
    s.Spared strict := fun x hx => h x (hs.subset hx)

theorem Evolves.spared {q : Prop} (h : Evolves q s t) (ht : t.Spared strict) : s.Spared strict :=
  ht.of_suffix h.hazards

/-! ### The invariant -/

/-- The cancelled list of a loop. -/
def Marked (s : Loop ω) (C : List ReqId) : Prop :=
  CancelledList s.req s.nextCancelled s.cancelledRequests s.accepted s.destroyed C

/-- The invariant of the scheduler. -/
structure WF (s : Loop ω) (v : View) (C : List ReqId) : Prop where
  located : s.Located v
  marked : s.Marked C

theorem Marked.length_le (h : s.Marked C) : C.length ≤ s.accepted.length :=
  (List.subperm_of_subset h.nodup fun r hr => (h.live r hr).1).length_le

/-- A walk along `next_cancelled` reads the list. -/
theorem Marked.cancelledList_eq (h : s.Marked C) : s.cancelledList = C :=
  Intrusive.walk_eq h.chain h.length_le

/-- Writing a request without changing whether it is cancelled. -/
theorem Marked.modifyReq (h : s.Marked C) {f : Request → Request}
    (hf : (s.req r).isCancelled = true → (f (s.req r)).isCancelled = true) :
    (s.modifyReq r f).Marked C where
  chain := h.chain
  nodup := h.nodup
  live := h.live
  cancelled b hb := by
    show (update s.req r (f (s.req r)) b).isCancelled = true
    rcases eq_or_ne b r with rfl | hbr
    · rw [Function.update_self]
      exact hf (h.cancelled b hb)
    · rw [Function.update_of_ne hbr]
      exact h.cancelled b hb
  off := h.off

/-- Writing the fields of the request in hand. -/
theorem WF.modifyReq_hand (h : s.WF v C) (hr : r ∈ v .hand) {f : Request → Request}
    (hf : (s.req r).isCancelled = true → (f (s.req r)).isCancelled = true) :
    (s.modifyReq r f).WF v C :=
  ⟨h.located.modifyReq_hand hr f, h.marked.modifyReq hf⟩

theorem WF.setNextPending_hand (h : s.WF v C) (hr : r ∈ v .hand) (x : Option ReqId) :
    (s.setNextPending r x).WF v C :=
  ⟨h.located.setNextPending_hand hr x, h.marked⟩

theorem WF.setResources (h : s.WF v C) {store : Resources} (hs : s.resources.SameWaiters store) :
    (s.setResources store).WF v C :=
  ⟨h.located.setResources hs, h.marked⟩

theorem WF.takeUp (h : s.WF v C) {p : Place} (hp : v (.detached p) = r :: l) :
    s.WF (update (update v (.detached p) l) .hand (r :: v .hand)) C :=
  ⟨h.located.takeUp hp, h.marked⟩

/-! ### The request in hand is put down -/

/-- Nobody but `r` was touched. -/
def Touched (r : ReqId) (s t : Loop ω) : Prop :=
  ∀ b, b ≠ r → t.nextPending b = s.nextPending b ∧ t.req b = s.req b

/-- The request in hand was put down somewhere or destroyed, and everybody else stays. -/
structure PutDown (r : ReqId) (l : List ReqId) (v v' : View) (s t : Loop ω) : Prop where
  hand : v' .hand = l
  detached : ∀ p, v' (.detached p) = v (.detached p)
  stays : ∀ p b, b ≠ r → b ∈ v p → b ∈ v' p
  links : ∀ p b, b ∈ v (.detached p) → t.nextPending b = s.nextPending b
  reqs : ∀ b, b ≠ r → t.req b = s.req b

theorem Touched.refl (s : Loop ω) : Touched r s s := fun _ _ => ⟨rfl, rfl⟩

theorem Touched.trans (h : Touched r s t) (h' : Touched r t u) : Touched r s u :=
  fun b hb => ⟨(h' b hb).1.trans (h b hb).1, (h' b hb).2.trans (h b hb).2⟩

theorem touched_modifyReq (s : Loop ω) (r : ReqId) (f : Request → Request) :
    Touched r s (s.modifyReq r f) :=
  fun _ hb => ⟨rfl, Function.update_of_ne hb _ _⟩

theorem touched_setNextPending (s : Loop ω) (r : ReqId) (x : Option ReqId) :
    Touched r s (s.setNextPending r x) :=
  fun _ hb => ⟨Function.update_of_ne hb _ _, rfl⟩

/-- Work on the request in hand before it is put down. -/
theorem PutDown.after (h : PutDown r l v v' t u) (hs : Touched r s t) (hwf : s.WF v C)
    (hr : r ∈ v .hand) : PutDown r l v v' s u := by
  refine ⟨h.hand, h.detached, h.stays, fun p b hb => ?_, fun b hb => ?_⟩
  · have hbr : b ≠ r := by
      rintro rfl
      exact absurd (hwf.located.placed.inj hb hr) (by simp)
    exact (h.links p b hb).trans (hs b hbr).1
  · exact (h.reqs b hb).trans (hs b hb).2

/-- The hand is emptied into a place that is not in transit. -/
theorem stays_putDown (hh : v .hand = r :: l) {p : Place} {lp : List ReqId}
    (hlp : ∀ b ∈ v p, b ∈ lp) (p' : Place) (b : ReqId) (hbr : b ≠ r) (hb : b ∈ v p') :
    b ∈ update (update v .hand l) p lp p' := by
  rcases eq_or_ne p' p with rfl | hp
  · rw [Function.update_self]
    exact hlp b hb
  · rw [Function.update_of_ne hp]
    rcases eq_or_ne p' .hand with rfl | hp'
    · rw [Function.update_self]
      rw [hh] at hb
      exact (List.mem_cons.mp hb).resolve_left hbr
    · rwa [Function.update_of_ne hp']

theorem WF.insertMap (h : s.WF v C) (hh : v .hand = r :: l) {m : MapId}
    (hfit : (Place.map m).Fits (s.req r)) :
    ∃ v', (s.insertMap m r).WF v' C ∧ PutDown r l v v' s (s.insertMap m r) := by
  refine ⟨_, ⟨h.located.insertMap hh hfit, h.marked⟩, ?_, fun p => ?_, stays_putDown hh ?_,
    fun _ _ _ => rfl, fun _ _ => rfl⟩
  · rw [Function.update_of_ne (by simp), Function.update_self]
  · rw [Function.update_of_ne (by simp), Function.update_of_ne (by simp)]
  · intro b hb
    rw [requestInsert, OrderedMap.mem_insertMulti, h.located.maps]
    exact .inr hb

theorem WF.requeue (h : s.WF v C) (hh : v .hand = r :: l) (hfit : (s.req r).multiHandle = false) :
    ∃ v', (s.requeuePending r).WF v' C ∧ PutDown r l v v' s (s.requeuePending r) := by
  refine ⟨_, ⟨h.located.requeue hh hfit, h.marked⟩, ?_, fun p => ?_, stays_putDown hh ?_,
    fun p b hb => ?_, fun _ _ => rfl⟩
  · rw [Function.update_of_ne (by simp), Function.update_self]
  · rw [Function.update_of_ne (by simp), Function.update_of_ne (by simp)]
  · exact fun b hb => List.mem_cons_of_mem r hb
  · refine Function.update_of_ne ?_ _ _
    rintro rfl
    have hr : b ∈ v .hand := hh ▸ List.mem_cons_self
    exact absurd (h.located.placed.inj hb hr) (by simp)

/-- A hazard-free destruction finds the request off the cancelled list. -/
theorem Marked.notMem_of_destroy (h : s.Marked C)
    (hz : (s.curlEventRequestDestroy r).Spared strict) : r ∉ C := by
  intro hr
  rw [← h.cancelledList_eq] at hr
  have hcons : (s.curlEventRequestDestroy r).hazards = .destroyedCancelled r :: s.hazards :=
    if_pos hr
  exact hz.notMem (by simp) (hcons ▸ List.mem_cons_self)

theorem Marked.destroy (h : s.Marked C) (hr : r ∉ C) : (s.curlEventRequestDestroy r).Marked C where
  chain := h.chain
  nodup := h.nodup
  live b hb := by
    refine ⟨(h.live b hb).1, fun hd => ?_⟩
    rcases List.mem_cons.mp hd with rfl | hd
    · exact hr hb
    · exact (h.live b hb).2 hd
  cancelled b hb := by
    rw [req_destroy, Function.update_of_ne (fun hbr : b = r => hr (hbr ▸ hb))]
    exact h.cancelled b hb
  off b hb hd := h.off b hb fun hd' => hd (List.mem_cons_of_mem r hd')

theorem WF.destroy (h : s.WF v C) (hh : v .hand = r :: l)
    (hz : (s.curlEventRequestDestroy r).Spared strict) :
    ∃ v', (s.curlEventRequestDestroy r).WF v' C ∧
      PutDown r l v v' s (s.curlEventRequestDestroy r) := by
  refine ⟨update v .hand l, ⟨Located.retire h.located (.of_eq hh) (fun hp => hp) fun m => ?_,
    h.marked.destroy (h.marked.notMem_of_destroy hz)⟩, Function.update_self .., fun p => ?_,
    fun p b hbr hb => ?_, fun _ _ _ => rfl, fun b hb => ?_⟩
  · rw [Function.update_of_ne (by simp)]
    exact h.located.maps m
  · rw [Function.update_of_ne (by simp)]
  · rcases eq_or_ne p .hand with rfl | hp
    · rw [Function.update_self]
      rw [hh] at hb
      exact (List.mem_cons.mp hb).resolve_left hbr
    · rwa [Function.update_of_ne hp]
  · rw [req_destroy, Function.update_of_ne hb]

/-! ### Blocking -/

/-- Blocking writes the links of the request and of the last request of the list. -/
theorem nextPending_blockRequestOnRes {n : Res} {b : ReqId} (hbr : b ≠ r)
    (hbt : n.blockedTail ≠ some b) :
    (s.blockRequestOnRes n r).nextPending b = s.nextPending b := by
  rw [Loop.blockRequestOnRes]
  cases ht : n.blockedTail with
  | none => exact Function.update_of_ne hbr _ _
  | some a =>
    have hba : b ≠ a := by
      rintro rfl
      exact hbt ht
    exact (Function.update_of_ne hba _ _).trans (Function.update_of_ne hbr _ _)

theorem req_blockRequestOnRes (n : Res) : (s.blockRequestOnRes n r).req = s.req := by
  rw [Loop.blockRequestOnRes]
  cases n.blockedTail <;> rfl

theorem marked_blockRequestOnRes (h : s.Marked C) (n : Res) :
    (s.blockRequestOnRes n r).Marked C := by
  rw [Loop.blockRequestOnRes]
  cases n.blockedTail <;> exact h

theorem WF.blockRequestOnRes (h : s.WF v C) (hh : v .hand = r :: l) {n : Res}
    (hn : s.resources.resFind n.id = some n) (hready : n.ready = false)
    (hfit : (Place.blocked n.id).Fits (s.req r)) :
    ∃ v', (s.blockRequestOnRes n r).WF v' C ∧
      PutDown r l v v' s (s.blockRequestOnRes n r) := by
  have hr : r ∈ v .hand := hh ▸ List.mem_cons_self
  refine ⟨_, ⟨h.located.blockRequestOnRes hh hn hready hfit, marked_blockRequestOnRes h.marked n⟩,
    ?_, fun p => ?_, stays_putDown hh ?_, fun p b hb => ?_, fun b _ => ?_⟩
  · rw [Function.update_of_ne (by simp), Function.update_self]
  · rw [Function.update_of_ne (by simp), Function.update_of_ne (by simp)]
  · exact fun b hb => List.mem_append_left _ hb
  · refine nextPending_blockRequestOnRes ?_ fun ht => ?_
    · rintro rfl
      exact absurd (h.located.placed.inj hb hr) (by simp)
    · have htail : (v (.blocked n.id)).getLast? = some b := by
        rw [← h.located.linked.tail, Resources.blockedTail_eq hn, ht]
      exact absurd (h.located.placed.inj hb (List.mem_of_getLast? htail)) (by simp)
  · rw [req_blockRequestOnRes]

/-- The outcome of a function that may or may not put the request in hand down. -/
def Maybe (put : Bool) (r : ReqId) (l : List ReqId) (v : View) (C : List ReqId) (s t : Loop ω) :
    Prop :=
  match put with
  | true => ∃ v', t.WF v' C ∧ PutDown r l v v' s t
  | false => t.WF v C ∧ Touched r s t ∧ t.req = s.req

theorem WF.blockOnId (h : s.WF v C) (hh : v .hand = r :: l) (hm : (s.req r).multiHandle = false)
    (hp : (s.req r).isPending = false) (id : ResId) :
    Maybe (s.curlResourceBlockOnId r id).1 r l v C s (s.curlResourceBlockOnId r id).2 := by
  have hr : r ∈ v .hand := hh ▸ List.mem_cons_self
  have hs : (s.setResources (s.resources.resGetOrCreate id).2).WF v C :=
    h.setResources (Resources.sameWaiters_getOrCreate s.resources id)
  have hn : (s.resources.resGetOrCreate id).2.resFind (s.resources.resGetOrCreate id).1.id =
      some (s.resources.resGetOrCreate id).1 := by
    rw [Resources.resFind_getOrCreate, if_pos (Resources.id_resGetOrCreate s.resources id)]
  rw [curlResourceBlockOnId]
  dsimp only
  split
  · rename_i hc
    have hready : (s.resources.resGetOrCreate id).1.ready = false := by
      simp [Res.ready, hc.1, hc.2]
    obtain ⟨v', hwf, hput⟩ := hs.blockRequestOnRes hh hn hready ⟨hm, hp⟩
    exact ⟨v', hwf, hput.after (fun _ _ => ⟨rfl, rfl⟩) h hr⟩
  · exact ⟨hs, fun _ _ => ⟨rfl, rfl⟩, rfl⟩

/-- The request in hand is blocked on the first of its dependencies that is not ready. -/
theorem WF.checkAndBlock (h : s.WF v C) (hh : v .hand = r :: l)
    (hm : (s.req r).multiHandle = false) (hp : (s.req r).isPending = false) (deps : List ResId) :
    Maybe (s.curlResourceCheckAndBlockList r deps).1 r l v C s
      (s.curlResourceCheckAndBlockList r deps).2 := by
  have hr : r ∈ v .hand := hh ▸ List.mem_cons_self
  induction deps generalizing s with
  | nil => exact ⟨h, .refl s, rfl⟩
  | cons id deps ih =>
    have hid := h.blockOnId hh hm hp id
    rw [curlResourceCheckAndBlockList]
    dsimp only
    cases hb : (s.curlResourceBlockOnId r id).1 with
    | true =>
      rw [hb] at hid
      rw [if_pos rfl]
      exact hid
    | false =>
      rw [hb] at hid
      obtain ⟨hwf, htouch, hreq⟩ := hid
      rw [if_neg (by simp)]
      have hrest := ih hwf (by rw [hreq]; exact hm) (by rw [hreq]; exact hp)
      cases hput : ((s.curlResourceBlockOnId r id).2.curlResourceCheckAndBlockList r deps).1 with
      | true =>
        rw [hput] at hrest
        obtain ⟨v', hwf', hdown⟩ := hrest
        exact ⟨v', hwf', hdown.after htouch h hr⟩
      | false =>
        rw [hput] at hrest
        obtain ⟨hwf', htouch', hreq'⟩ := hrest
        exact ⟨hwf', htouch.trans htouch', hreq'.trans hreq⟩

/-! ### Starting a transfer -/

theorem WF.newHandle (h : s.WF v C) (hr : r ∈ v .hand) :
    (s.newHandle r).WF v C ∧ Touched r s (s.newHandle r) ∧
      (s.newHandle r).req r = (s.req r).withHandle s.multi.nextEasy := by
  have hnext : ({ s with multi := { s.multi with nextEasy := s.multi.nextEasy + 1 } } :
      Loop ω).WF v C := ⟨h.located, h.marked⟩
  exact ⟨hnext.modifyReq_hand hr fun hc => hc, touched_modifyReq _ r _, Function.update_self ..⟩

/-- What `setup_curl_handle` leaves: the request in hand was worked on, and has a handle if the
setup succeeded. -/
structure SetUp (r : ReqId) (v : View) (C : List ReqId) (s : Loop ω) (p : Bool × Loop ω) :
    Prop where
  wf : p.2.WF v C
  touched : Touched r s p.2
  isPending : (p.2.req r).isPending = (s.req r).isPending
  easyHandle : p.1 = true → ((p.2.req r).easyHandle).isSome

theorem WF.setupCurlHandle (h : s.WF v C) (env : Env ω) (hr : r ∈ v .hand) :
    SetUp r v C s (s.setupCurlHandle env r) := by
  have hreset : (s.modifyReq r Request.reset).WF v C := h.modifyReq_hand hr fun hc => hc
  have hreq : (s.modifyReq r Request.reset).req r = (s.req r).reset := Function.update_self ..
  have htouch := touched_modifyReq s r Request.reset
  -- the callback and the allocation only ask the outside world
  have hdone : ∀ t : Loop ω, t.WF v C → t.nextPending = s.nextPending →
      t.req = (s.modifyReq r Request.reset).req → SetUp r v C s (false, t) ∧
        SetUp r v C s (true, t.newHandle r) := by
    intro t ht hlink htr
    have htouch' : Touched r s t := fun b hb =>
      ⟨congrFun hlink b, (congrFun htr b).trans (htouch b hb).2⟩
    obtain ⟨hnew, htn, hrn⟩ := ht.newHandle hr
    refine ⟨⟨ht, htouch', ?_, fun hf => absurd hf (by simp)⟩,
      ⟨hnew, htouch'.trans htn, ?_, fun _ => ?_⟩⟩
    · rw [htr, hreq]
      rfl
    · rw [hrn, htr, hreq]
      rfl
    · rw [hrn]
      rfl
  have hcases : ∀ t : Loop ω, t.WF v C → t.nextPending = s.nextPending →
      t.req = (s.modifyReq r Request.reset).req →
      SetUp r v C s (if (t.ask env.curlEasyInit).1 then (true, (t.ask env.curlEasyInit).2.newHandle r)
        else (false, (t.ask env.curlEasyInit).2)) := by
    intro t ht hlink htr
    have hd := hdone (t.ask env.curlEasyInit).2 ⟨ht.located, ht.marked⟩ hlink htr
    split
    · exact hd.2
    · exact hd.1
  rw [Loop.setupCurlHandle]
  dsimp only
  cases hp : ((s.modifyReq r Request.reset).req r).onPrepare with
  | false => exact hcases _ hreset rfl rfl
  | true =>
    simp only [if_true]
    have hask : ((s.modifyReq r Request.reset).ask (env.onPrepare r)).2.WF v C :=
      ⟨hreset.located, hreset.marked⟩
    split
    · exact hcases _ hask rfl rfl
    · exact (hdone _ hask rfl rfl).1

/-- An insertion puts the request into the map. -/
theorem mem_maps_insertMap (s : Loop ω) (m : MapId) (r : ReqId) : r ∈ (s.insertMap m r).maps m := by
  rw [maps_insertMap, Function.update_self, requestInsert, OrderedMap.mem_insertMulti]
  exact .inl rfl

/-- A transfer is attached for an active request. -/
theorem WF.attach (h : s.WF v C) {e : EasyId} (hr : r ∈ v (.map .queued))
    (he : (s.req r).easyHandle = some e) : ({ s with multi := s.multi.attach e r } : Loop ω).WF v C := by
  refine ⟨{ h.located with attached := fun t ht hrep => ?_ }, h.marked⟩
  rcases List.mem_cons.mp ht with rfl | ht
  · exact ⟨hr, he⟩
  · exact h.located.attached t ht hrep

theorem WF.activate (h : s.WF v C) (env : Env ω) (hh : v .hand = r :: l) (hp : (s.req r).isPending = false)
    (he : ((s.req r).easyHandle).isSome) :
    ∃ v', (s.activate env r).WF v' C ∧ PutDown r l v v' s (s.activate env r) := by
  have hr : r ∈ v .hand := hh ▸ List.mem_cons_self
  obtain ⟨e, he⟩ := Option.isSome_iff_exists.mp he
  have hreq : ∀ now, (s.modifyReq r fun q => q.activated now).req r = (s.req r).activated now :=
    fun now => Function.update_self ..
  have hmod := h.modifyReq_hand hr (f := fun q => q.activated (env.macroNow s.world).1)
    fun hc => hc
  obtain ⟨v', hwf, hput⟩ := hmod.insertMap (m := .queued) hh (by
    rw [hreq]
    refine ⟨rfl, hp, fun _ => ?_⟩
    show ((s.req r).easyHandle).isSome
    rw [he]
    rfl)
  have hin : r ∈ v' (.map .queued) := by
    rw [← hwf.located.maps]
    exact mem_maps_insertMap _ .queued r
  have hatt := hwf.attach (e := e) hin (by
    show ((s.modifyReq r fun q => q.activated (env.macroNow s.world).1).req r).easyHandle = some e
    rw [hreq]
    exact he)
  have hmulti : (s.activate env r).multi = s.multi.attach e r := by
    rw [multi_activate, he]
  refine ⟨v', ⟨?_, hatt.marked⟩, ?_⟩
  · have hloc := hatt.located
    rw [Located] at hloc ⊢
    rw [hmulti]
    exact hloc
  · have hput' := hput.after (touched_modifyReq s r _) h hr
    exact ⟨hput'.hand, hput'.detached, hput'.stays, hput'.links, hput'.reqs⟩

theorem WF.parkRateLimited (h : s.WF v C) (hh : v .hand = r :: l)
    (hp : (s.req r).isPending = false) (due : ℕ) :
    ∃ v', (s.parkRateLimited r due).WF v' C ∧ PutDown r l v v' s (s.parkRateLimited r due) := by
  have hr : r ∈ v .hand := hh ▸ List.mem_cons_self
  have hmod := h.modifyReq_hand hr (f := fun q => q.dueAt due) fun hc => hc
  have hreq : (s.modifyReq r fun q => q.dueAt due).req r = (s.req r).dueAt due :=
    Function.update_self ..
  obtain ⟨v', hwf, hput⟩ := hmod.insertMap (m := .rateLimited) hh (by
    rw [hreq]
    exact hp)
  exact ⟨v', hwf, hput.after (touched_modifyReq s r _) h hr⟩

theorem WF.start (h : s.WF v C) (hh : v .hand = r :: l) (hp : (s.req r).isPending = false)
    (hz : (s.curlEventLoopRequestStart env r).Spared strict) :
    ∃ v', (s.curlEventLoopRequestStart env r).WF v' C ∧
      PutDown r l v v' s (s.curlEventLoopRequestStart env r) := by
  have hr : r ∈ v .hand := hh ▸ List.mem_cons_self
  -- the rate manager is only asked
  have main : ∀ t : Loop ω, t.WF v C → Touched r s t → (t.req r).isPending = false →
      (if (t.setupCurlHandle env r).1 then (t.setupCurlHandle env r).2.activate env r
        else (t.setupCurlHandle env r).2.curlEventRequestDestroy r).Spared strict →
      ∃ v', (if (t.setupCurlHandle env r).1 then (t.setupCurlHandle env r).2.activate env r
          else (t.setupCurlHandle env r).2.curlEventRequestDestroy r).WF v' C ∧
        PutDown r l v v' s (if (t.setupCurlHandle env r).1 then
          (t.setupCurlHandle env r).2.activate env r
          else (t.setupCurlHandle env r).2.curlEventRequestDestroy r) := by
    intro t ht htouch htp hz
    have hset := ht.setupCurlHandle env hr
    have htouch' := htouch.trans hset.touched
    cases hok : (t.setupCurlHandle env r).1 with
    | true =>
      obtain ⟨v', hwf, hput⟩ := hset.wf.activate env hh (hset.isPending.trans htp)
        (hset.easyHandle hok)
      exact ⟨v', hwf, hput.after htouch' h hr⟩
    | false =>
      rw [hok, if_neg (by simp)] at hz
      obtain ⟨v', hwf, hput⟩ := hset.wf.destroy hh hz
      exact ⟨v', hwf, hput.after htouch' h hr⟩
  rw [Loop.curlEventLoopRequestStart] at hz ⊢
  dsimp only at hz ⊢
  cases hkey : (s.req r).rateLimit with
  | none =>
    rw [hkey] at hz
    exact main s h (.refl s) hp hz
  | some key =>
    rw [hkey] at hz
    dsimp only at hz ⊢
    have hask : (s.ask (env.rateManagerStartRequest key
      (s.req r).rateLimitHighPriority)).2.WF v C := ⟨h.located, h.marked⟩
    have htouch : Touched r s (s.ask (env.rateManagerStartRequest key
      (s.req r).rateLimitHighPriority)).2 := fun _ _ => ⟨rfl, rfl⟩
    split at hz
    · rename_i hnext
      rw [if_pos hnext]
      obtain ⟨v', hwf, hput⟩ := hask.parkRateLimited hh hp _
      exact ⟨v', hwf, hput.after htouch h hr⟩
    · rename_i hnext
      rw [if_neg hnext]
      exact main _ hask htouch hp hz

/-! ### Scheduling a request -/

theorem WF.enqueueRequest (h : s.WF v C) (hh : v .hand = r :: l)
    (hm : (s.req r).multiHandle = false) (hp : (s.req r).isPending = false) :
    ∃ v', (s.enqueueRequest r).WF v' C ∧ PutDown r l v v' s (s.enqueueRequest r) := by
  obtain ⟨v', hwf, hput⟩ := h.insertMap hh (Place.fits_waitingMap hm hp)
  exact ⟨v', ⟨hwf.located, hwf.marked⟩,
    ⟨hput.hand, hput.detached, hput.stays, hput.links, hput.reqs⟩⟩

/-- `request_ready` only asks the outside world. -/
theorem requestReady_eq (env : Env ω) (s : Loop ω) (r : ReqId) :
    ∃ w, (s.requestReady env r).2 = { s with world := w } := by
  rw [Loop.requestReady]
  dsimp only
  split
  · exact ⟨s.world, rfl⟩
  · cases (s.req r).rateLimit with
    | none =>
      dsimp only
      split
      · exact ⟨s.world, rfl⟩
      · split
        · exact ⟨s.world, rfl⟩
        · exact ⟨_, rfl⟩
    | some key =>
      dsimp only
      split
      · exact ⟨_, rfl⟩
      · split <;> exact ⟨_, rfl⟩

theorem WF.retainDepsOnce (h : s.WF v C) (hr : r ∈ v .hand) :
    (s.retainDepsOnce r).WF v C ∧ Touched r s (s.retainDepsOnce r) ∧
      (s.req r).SamePlace ((s.retainDepsOnce r).req r) := by
  unfold Loop.retainDepsOnce
  dsimp only
  split
  · have hstore := h.setResources (Resources.sameWaiters_retain (s.req r).depHead s.resources)
    refine ⟨hstore.modifyReq_hand hr fun hc => hc, touched_modifyReq _ r _, ?_⟩
    have hreq : ((s.setResources (s.resources.curlResourceRetainRequestDeps
        (s.req r).depHead)).modifyReq r fun q => q.setRetained true).req r =
        (s.req r).setRetained true := Function.update_self ..
    rw [hreq]
    exact ⟨rfl, rfl, rfl, rfl⟩
  · exact ⟨h, .refl s, .refl _⟩

theorem WF.schedulePending (h : s.WF v C) (hh : v .hand = r :: l)
    (hm : (s.req r).multiHandle = false) (hp : (s.req r).isPending = false)
    (hz : (s.schedulePending env r).Spared strict) :
    ∃ v', (s.schedulePending env r).WF v' C ∧
      PutDown r l v v' s (s.schedulePending env r) := by
  have hr : r ∈ v .hand := hh ▸ List.mem_cons_self
  obtain ⟨hret, htret, hsame⟩ := h.retainDepsOnce hr
  have hwait := hret.checkAndBlock hh (hsame.multiHandle.trans hm) (hsame.isPending.trans hp)
    ((s.retainDepsOnce r).req r).depHead
  rw [Loop.schedulePending, requestWaitingOnDependencies] at hz ⊢
  dsimp only at hz ⊢
  cases hb : ((s.retainDepsOnce r).curlResourceCheckAndBlockList r
      ((s.retainDepsOnce r).req r).depHead).1 with
  | true =>
    rw [hb] at hwait
    obtain ⟨v', hwf, hput⟩ := hwait
    exact ⟨v', hwf, hput.after htret h hr⟩
  | false =>
    rw [hb, if_neg (by simp)] at hz
    rw [hb] at hwait
    obtain ⟨hwf, htouch, hreq⟩ := hwait
    rw [if_neg (by simp)]
    generalize ((s.retainDepsOnce r).curlResourceCheckAndBlockList r
      ((s.retainDepsOnce r).req r).depHead).2 = t at hwf htouch hreq hz ⊢
    have htm : (t.req r).multiHandle = false := by
      rw [hreq, hsame.multiHandle, hm]
    have htp : (t.req r).isPending = false := by
      rw [hreq, hsame.isPending, hp]
    have htouch' := htret.trans htouch
    obtain ⟨w, hw⟩ := requestReady_eq env t r
    have hwf' : ({ t with world := w } : Loop ω).WF v C := ⟨hwf.located, hwf.marked⟩
    rw [hw] at hz ⊢
    split at hz
    · rename_i hready
      rw [if_pos hready]
      obtain ⟨v', hwf'', hput⟩ := hwf'.start hh htp hz
      exact ⟨v', hwf'', hput.after htouch' h hr⟩
    · rename_i hready
      rw [if_neg hready]
      obtain ⟨v', hwf'', hput⟩ := hwf'.enqueueRequest hh htm htp
      exact ⟨v', hwf'', hput.after htouch' h hr⟩

/-- One round of the loop over the pending list. -/
theorem WF.pendingRound (h : s.WF v C) (hh : v .hand = r :: l)
    (hm : (s.req r).multiHandle = false) (hz : (s.pendingRound env r).Spared strict) :
    ∃ v', (s.pendingRound env r).WF v' C ∧ PutDown r l v v' s (s.pendingRound env r) := by
  have hr : r ∈ v .hand := hh ▸ List.mem_cons_self
  have hwf : ((s.modifyReq r fun q => q.setPending false).setNextPending r none).WF v C :=
    (h.modifyReq_hand hr fun hc => hc).setNextPending_hand hr none
  have htouch : Touched r s ((s.modifyReq r fun q => q.setPending false).setNextPending r none) :=
    (touched_modifyReq s r _).trans (touched_setNextPending _ r none)
  have hreq : ((s.modifyReq r fun q => q.setPending false).setNextPending r none).req r =
      (s.req r).setPending false := Function.update_self ..
  unfold Loop.pendingRound at hz ⊢
  dsimp only at hz ⊢
  split at hz
  · rename_i hc
    rw [if_pos hc]
    obtain ⟨v', hwf', hput⟩ := hwf.destroy hh hz
    exact ⟨v', hwf', hput.after htouch h hr⟩
  · rename_i hc
    rw [if_neg hc]
    obtain ⟨v', hwf', hput⟩ := hwf.schedulePending hh (by rw [hreq]; exact hm)
      (by rw [hreq]; rfl) hz
    exact ⟨v', hwf', hput.after htouch h hr⟩

end Loop

end CurlLoop
