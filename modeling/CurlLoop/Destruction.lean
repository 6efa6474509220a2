import CurlLoop.Completion

/-!
# What the destruction of the loop leaves

`curl_event_loop_destroy` destroys the requests in the maps, on the three lists, and waiting for a
resource. If it meets no hazard, no request is left.

The invariant of the scheduler holds throughout, and with it every request that is left has a place.
What is shown beside it is that the places run empty: a map or list that was dealt with stays
empty, because a destruction puts nothing anywhere.

## Main definitions

* `Loop.Rooms` — the maps and the heads of the two lists
* `Resources.ids` — the ids of the nodes

## Main results

* `Resting.curlEventLoopDestroy` — nothing is alive afterwards
-/

namespace CurlLoop

open Function (update)

/-! ### The nodes that are left -/

namespace Resources

variable {s t : Resources}

/-- The ids of the nodes. -/
def ids (s : Resources) : List ResId := s.nodes.map Res.id

theorem ids_put (s : Resources) (n : Res) : (s.put n).ids = s.ids := by
  rw [ids, Resources.put, OrderedMap.put]
  rw [List.map_map]
  refine List.map_congr_left fun m _ => ?_
  show (if m.id = n.id then n else m).id = m.id
  split
  · exact Eq.symm ‹_›
  · rfl

theorem ids_free (s : Resources) (id : ResId) : (s.free id).ids = s.ids.filter (· ≠ id) := by
  unfold ids Resources.free OrderedMap.remove
  rw [List.filter_map]
  rfl

theorem ids_release (s : Resources) (id : ResId) : (s.curlEventResRelease id).ids.Sublist s.ids := by
  rw [curlEventResRelease]
  cases s.resFind id with
  | none => exact .refl _
  | some n =>
    dsimp only
    split
    · show ((s.free id).ids).Sublist _
      rw [ids_free]
      exact List.filter_sublist
    · rw [ids_put]

theorem ids_releaseDep (s : Resources) (id : ResId) : (s.releaseDep id).ids.Sublist s.ids := by
  rw [releaseDep]
  cases s.resFind id with
  | none => exact .refl _
  | some n =>
    dsimp only
    rw [maybeAutoreleaseOwner]
    split
    · have h := ids_release (s.put n.unref) n.unref.id
      rwa [ids_put] at h
    · rw [ids_put]

/-- Releasing dependencies adds no node. -/
theorem ids_releaseDeps (deps : List ResId) (s : Resources) :
    (s.curlResourceReleaseRequestDeps deps).ids.Sublist s.ids := by
  induction deps generalizing s with
  | nil => exact .refl _
  | cons id deps ih => exact (ih (s.releaseDep id)).trans (ids_releaseDep s id)

end Resources

namespace Loop

variable {ω : Type} {s t u w : Loop ω} {v v' v₁ v₂ : View} {C : List ReqId} {r : ReqId}
  {l : List ReqId} {p : Place} {m : MapId} {env : Env ω}

theorem ids_destroy (s : Loop ω) (r : ReqId) :
    (s.curlEventRequestDestroy r).resources.ids.Sublist s.resources.ids := by
  show Resources.ids (if _ then s.resources.curlResourceReleaseRequestDeps _ else s.resources)
    |>.Sublist _
  split
  · exact Resources.ids_releaseDeps _ _
  · exact .refl _

/-! ### The maps -/

/-- The maps, and the heads of the pending and the injected list, are the same. -/
structure Rooms (s t : Loop ω) : Prop where
  maps : t.maps = s.maps
  pendingRequests : t.pendingRequests = s.pendingRequests
  injectedRequests : t.injectedRequests = s.injectedRequests

theorem Rooms.refl (s : Loop ω) : Rooms s s := ⟨rfl, rfl, rfl⟩

theorem Rooms.trans (h : Rooms s t) (h' : Rooms t u) : Rooms s u :=
  ⟨h'.maps.trans h.maps, h'.pendingRequests.trans h.pendingRequests,
    h'.injectedRequests.trans h.injectedRequests⟩

theorem rooms_destroy (s : Loop ω) (r : ReqId) : Rooms s (s.curlEventRequestDestroy r) :=
  ⟨rfl, rfl, rfl⟩

/-- One round of the loop over a map. -/
theorem Resting.destroyMapRound (h : s.Resting) (hr : (s.maps m).head? = some r)
    (hz : (((s.follow r).eraseMap m r).curlEventRequestDestroy r).hazards = []) :
    (((s.follow r).eraseMap m r).curlEventRequestDestroy r).Resting := by
  obtain ⟨v, C, hwf, hv⟩ := h
  have hmem : r ∈ v (.map m) := by
    rw [← hwf.located.maps]
    exact List.mem_of_head? hr
  rw [hwf.located.follow hmem] at hz ⊢
  have hmarked : (s.eraseMap m r).Marked C := hwf.marked
  refine ⟨_, C, ⟨Located.retire (t := s.eraseMap m r) (f := s.maps) hwf.located
    (List.perm_cons_erase hmem) (fun hp => hp) fun m' => ?_,
    hmarked.destroy (hmarked.notMem_of_destroy (.of_nil hz))⟩, ?_, fun p => ?_⟩
  · rw [maps_eraseMap]
    exact hwf.located.maps_erase m r m'
  · rw [Function.update_of_ne (by simp)]
    exact hv.hand
  · rw [Function.update_of_ne (by simp)]
    exact hv.detached p

theorem maps_destroyMapRound (s : Loop ω) (m : MapId) (r : ReqId) :
    (((s.follow r).eraseMap m r).curlEventRequestDestroy r).maps =
      update s.maps m ((s.maps m).erase r) := by
  rw [maps_destroy, maps_eraseMap, maps_follow]

/-- A map is emptied, and the others are left alone. -/
theorem Resting.destroyMap (h : s.Resting) (hz : (s.destroyMap m).hazards = []) :
    (s.destroyMap m).Resting ∧ (s.destroyMap m).maps = update s.maps m [] := by
  have hinv := OrderedMap.whileFirst_rule (g := fun t : Loop ω => (t.maps m).head?)
    (f := Loop.destroyMapRound m) (n := (s.maps m).length) (s := s)
    (P := fun t => (t.hazards = [] → t.Resting) ∧ ∀ m', m' ≠ m → t.maps m' = s.maps m')
    (fun r t t' _ _ hb => by simp [Loop.destroyMapRound] at hb)
    (fun r t t' hP hr hb => by
      obtain rfl := ForInStep.yield.inj hb
      refine ⟨fun hz' => (hP.1 ?_).destroyMapRound hr hz', fun m' hm => ?_⟩
      · exact ((evolves_destroy (q := False) _ r).after (ledger_follow t r)).hazards_eq_nil hz'
      · rw [maps_destroyMapRound, Function.update_of_ne hm]
        exact hP.2 m' hm)
    ⟨fun _ => h, fun _ _ => rfl⟩
  have hempty := OrderedMap.whileFirst_none (fun t : Loop ω => (t.maps m).length)
    (g := fun t : Loop ω => (t.maps m).head?) (f := Loop.destroyMapRound m)
    (fun t ht => List.head?_eq_none_iff.mpr (List.eq_nil_of_length_eq_zero ht))
    (fun r t hr => ⟨_, rfl, by
      rw [maps_destroyMapRound, Function.update_self,
        List.length_erase_of_mem (List.mem_of_head? hr)]
      have := List.length_pos_of_mem (List.mem_of_head? hr)
      omega⟩) (n := (s.maps m).length) (s := s) le_rfl
  refine ⟨hinv.1 hz, funext fun m' => ?_⟩
  rcases eq_or_ne m' m with rfl | hm
  · rw [Function.update_self]
    exact List.head?_eq_none_iff.mp hempty
  · rw [Function.update_of_ne hm]
    exact hinv.2 m' hm

/-! ### The lists -/

/-- A destruction that meets no hazard finds nothing on the cancelled list. -/
theorem WF.cancelled_eq_nil (h : s.WF v C)
    (hz : (s.forEachCancelled s.cancelledRequests destroyRound).hazards = []) : C = [] := by
  by_contra hne
  obtain ⟨r, l, rfl⟩ := List.exists_cons_of_ne_nil hne
  have hhead : s.cancelledRequests = some r := h.marked.chain.1
  obtain ⟨n, hn⟩ : ∃ n, s.accepted.length = n + 1 :=
    Nat.exists_eq_succ_of_ne_zero fun h0 => by
      have hle := h.marked.length_le
      rw [h0] at hle
      simp at hle
  have hfollow : s.follow r = s := by
    rw [Loop.follow, if_neg (h.marked.live r List.mem_cons_self).2]
  have hmono : ∀ (r : ReqId) (t : Loop ω), (destroyRound r (t.follow r)).hazards = [] →
      t.hazards = [] := fun r t ht =>
    (hazards_follow t r).symm.trans ((evolves_destroy (q := False) _ r).hazards_eq_nil ht)
  rw [forEachCancelled, hhead, hn, Intrusive.forEach] at hz
  have hfirst := Intrusive.forEach_reflect (G := fun t : Loop ω => t.hazards = []) hmono hz
  rw [hfollow] at hfirst
  exact h.marked.notMem_of_destroy (.of_nil hfirst) List.mem_cons_self

/-- The requests on a detached list are destroyed. -/
theorem WF.destroyDetached (h : s.WF v C) (hv : v.StillBut p) {head : Option ReqId}
    (hc : Intrusive.IsChain s.nextPending head (v (.detached p)))
    (hz : (s.forEachPending head destroyRound).hazards = []) :
    (s.forEachPending head destroyRound).Resting ∧
      Rooms s (s.forEachPending head destroyRound) := by
  obtain ⟨v', C', hwf, hrest, hv', hrooms⟩ := h.forEachHandled (p := p) (f := destroyRound)
    (P := fun v' t => v'.StillBut p ∧ Rooms s t) (.inl trivial)
    (fun r t ht => (evolves_destroy (q := False) t r).spared ht)
    (fun r l v C t ht hp hP hz => by
      obtain ⟨v', hwf, hput⟩ := (ht.takeUp hp).destroy (Function.update_self ..) hz
      have hh : Handled True p r l v v' t (t.curlEventRequestDestroy r) :=
        .of_putDown ht hp (.refl t) (.refl _ _) hput
      exact ⟨v', C, hwf, hh, hh.stillBut hP.1, hP.2.trans (rooms_destroy t r)⟩) hc ⟨hv, .refl s⟩ (.of_nil hz)
  exact ⟨⟨v', C', hwf, hv'.still hrest⟩, hrooms⟩

theorem follow_detachPending (s : Loop ω) (r : ReqId) :
    s.detachPending.follow r = (s.follow r).detachPending := by
  unfold Loop.follow
  by_cases hr : r ∈ s.destroyed
  · rw [if_pos hr, if_pos (show r ∈ s.detachPending.destroyed from hr)]
    rfl
  · rw [if_neg hr, if_neg (show r ∉ s.detachPending.destroyed from hr)]

theorem Resting.destroyPending (h : s.Resting)
    (hz : ((s.forEachPending s.pendingRequests destroyRound).detachPending).hazards = []) :
    ((s.forEachPending s.pendingRequests destroyRound).detachPending).Resting ∧
      Rooms s.detachPending
        ((s.forEachPending s.pendingRequests destroyRound).detachPending) := by
  -- the head of the list may as well be reset before the list is walked
  have hcomm : s.detachPending.forEachPending s.pendingRequests destroyRound =
      (s.forEachPending s.pendingRequests destroyRound).detachPending :=
    Intrusive.forEach_comm (g := detachPending) (fun _ _ => rfl) fun r t => by
      rw [follow_detachPending]
      rfl
  obtain ⟨v, C, hwf, hv⟩ := h
  rw [← hcomm] at hz ⊢
  exact WF.destroyDetached (p := .pending) ⟨hwf.located.detachPending (hv.detached _), hwf.marked⟩
    (hv.detach (by simp) (by simp)) (by
      rw [Function.update_self]
      exact hwf.located.linked.pending) hz

theorem follow_detachInjected (s : Loop ω) (r : ReqId) :
    s.detachInjected.follow r = (s.follow r).detachInjected := by
  unfold Loop.follow
  by_cases hr : r ∈ s.destroyed
  · rw [if_pos hr, if_pos (show r ∈ s.detachInjected.destroyed from hr)]
    rfl
  · rw [if_neg hr, if_neg (show r ∉ s.detachInjected.destroyed from hr)]

theorem Resting.destroyInjected (h : s.Resting)
    (hz : ((s.forEachPending s.injectedRequests destroyRound).detachInjected).hazards = []) :
    ((s.forEachPending s.injectedRequests destroyRound).detachInjected).Resting ∧
      Rooms s.detachInjected
        ((s.forEachPending s.injectedRequests destroyRound).detachInjected) := by
  have hcomm : s.detachInjected.forEachPending s.injectedRequests destroyRound =
      (s.forEachPending s.injectedRequests destroyRound).detachInjected :=
    Intrusive.forEach_comm (g := detachInjected) (fun _ _ => rfl) fun r t => by
      rw [follow_detachInjected]
      rfl
  obtain ⟨v, C, hwf, hv⟩ := h
  rw [← hcomm] at hz ⊢
  exact WF.destroyDetached (p := .injected) ⟨hwf.located.detachInjected (hv.detached _), hwf.marked⟩
    (hv.detach (by simp) (by simp)) (by
      rw [Function.update_self]
      exact hwf.located.linked.injected) hz

/-- The locked section of the destruction. -/
theorem Resting.destroyLists (h : s.Resting) (hz : s.destroyLists.hazards = []) :
    s.destroyLists.Resting ∧ s.destroyLists.maps = s.maps ∧
      s.destroyLists.pendingRequests = none ∧ s.destroyLists.injectedRequests = none := by
  have hmono : ∀ (t : Loop ω) head, (t.forEachPending head destroyRound).hazards = [] →
      t.hazards = [] := fun t head =>
    (evolves_forEachPending (q := False) (fun r s => evolves_destroy s r) t head).hazards_eq_nil
  have hpending : ∀ t : Loop ω,
      (t.forEachPending t.pendingRequests destroyRound).detachPending.hazards = [] →
      t.hazards = [] := fun t => hmono t _
  have hinjected : ∀ t : Loop ω,
      (t.forEachPending t.injectedRequests destroyRound).detachInjected.hazards = [] →
      t.hazards = [] := fun t => hmono t _
  obtain ⟨v, C, hwf, hv⟩ := h
  unfold Loop.destroyLists at hz ⊢
  dsimp only at hz ⊢
  have hz₂ := hinjected _ hz
  have hz₁ := hpending _ hz₂
  have hC : C = [] := hwf.cancelled_eq_nil hz₁
  subst hC
  have hnone : s.cancelledRequests = none := hwf.marked.chain
  have hcancelled : (s.forEachCancelled s.cancelledRequests destroyRound).detachCancelled = s := by
    rw [hnone, forEachCancelled, Intrusive.forEach_none, detachCancelled, ← hnone]
  rw [hcancelled] at hz ⊢
  obtain ⟨hpend, hrooms⟩ := Resting.destroyPending ⟨v, [], hwf, hv⟩ (hcancelled ▸ hz₂)
  obtain ⟨hinj, hrooms'⟩ := hpend.destroyInjected hz
  exact ⟨hinj, hrooms'.maps.trans hrooms.maps, hrooms'.pendingRequests.trans hrooms.pendingRequests,
    hrooms'.injectedRequests⟩

/-! ### The resources -/

/-- A request that waits for a resource when the store is taken down. -/
theorem WF.failLate (h : s.WF v C) (hp : v (.detached p) = r :: l)
    (hz : (s.failLate env r).Spared True) :
    ∃ v', (s.failLate env r).WF v' C ∧ Handled True p r l v v' s (s.failLate env r) := by
  have hr : r ∈ update (update v (.detached p) l) .hand (r :: v .hand) .hand := by
    rw [Function.update_self]
    exact List.mem_cons_self
  have hwf := (h.takeUp hp).setNextPending_hand hr none
  obtain ⟨w, tr, heq⟩ := callOnAborted_eq env (s.setNextPending r none) r
  rw [Loop.failLate] at hz ⊢
  dsimp only at hz ⊢
  rw [heq] at hz ⊢
  generalize ((s.setNextPending r none).callOnAborted env r).1 = calls at hz ⊢
  have htold : (({ s.setNextPending r none with world := w, trace := tr } : Loop ω).beware
      (calls ≠ []) (.lateCall r)).WF
      (update (update v (.detached p) l) .hand (r :: v .hand)) C := ⟨hwf.located, hwf.marked⟩
  obtain ⟨v', hwf', hput⟩ := htold.destroy (Function.update_self ..) hz
  refine ⟨v', hwf', .of_putDown h hp (fun b hb => ?_) (.refl _ _) hput⟩
  exact touched_setNextPending s r none b hb

theorem rooms_failLate (env : Env ω) (r : ReqId) (s : Loop ω) : Rooms s (s.failLate env r) := by
  obtain ⟨w, tr, heq⟩ := callOnAborted_eq env (s.setNextPending r none) r
  rw [Loop.failLate]
  dsimp only
  rw [heq]
  exact ⟨rfl, rfl, rfl⟩

theorem ids_failLate (env : Env ω) (r : ReqId) (s : Loop ω) :
    (s.failLate env r).resources.ids.Sublist s.resources.ids := by
  obtain ⟨w, tr, heq⟩ := callOnAborted_eq env (s.setNextPending r none) r
  rw [Loop.failLate]
  dsimp only
  rw [heq]
  exact ids_destroy _ r

/-- Destruction leaves the waiting lists of the store alone. -/
theorem WF.waiters_failLate (h : s.WF v C) :
    s.resources.SameWaiters (s.failLate env r).resources := by
  obtain ⟨w, tr, heq⟩ := callOnAborted_eq env (s.setNextPending r none) r
  rw [Loop.failLate]
  dsimp only
  rw [heq]
  exact sameWaiters_destroy h.located.linked.coherent

/-- One node less. -/
theorem ids_destroyFirstRes (env : Env ω) (n : Res) (s : Loop ω) :
    (s.destroyFirstRes env n).resources.ids.Sublist (s.resources.ids.filter (· ≠ n.id)) := by
  have hwalk : ((s.setResources (s.resources.put n.noWaiters)).forEachPending n.blockedHead
      (Loop.failLate env)).resources.ids.Sublist s.resources.ids := by
    refine Intrusive.forEach_invariant (P := fun t : Loop ω =>
      t.resources.ids.Sublist s.resources.ids) (fun r t ht => ?_) (by
        show ((s.resources.put n.noWaiters).ids).Sublist _
        rw [Resources.ids_put])
    have hf : (t.follow r).resources = t.resources := by
      rw [Loop.follow]
      split <;> rfl
    exact (ids_failLate env r (t.follow r)).trans (hf ▸ ht)
  show (Resources.ids (Resources.free _ n.id)).Sublist _
  rw [Resources.ids_free]
  exact hwalk.filter _

/-- One round over the nodes: the requests that wait for the first one are failed. -/
theorem Resting.destroyFirstRes (h : s.Resting) {n : Res} (hn : s.resources.nodes.head? = some n)
    (hz : (s.destroyFirstRes env n).hazards = []) :
    (s.destroyFirstRes env n).Resting ∧ Rooms s (s.destroyFirstRes env n) := by
  obtain ⟨v, C, hwf, hv⟩ := h
  have hfind : s.resources.resFind n.id = some n := by
    obtain ⟨l, hl⟩ := List.head?_eq_some_iff.mp hn
    rw [Resources.resFind]
    rw [hl]
    exact OrderedMap.find_head
  have hdet : (s.setResources (s.resources.put n.noWaiters)).WF
      (update (update v (.blocked n.id) []) (.detached (.blocked n.id)) (v (.blocked n.id))) C :=
    ⟨hwf.located.detachBlocked (hv.detached _) (Resources.blockedHead_setWaiters hfind none none)
      (Resources.blockedTail_setWaiters hfind none none)
      fun _ _ => Resources.awaited_setWaiters hfind none none, hwf.marked⟩
  have hstart : (s.setResources (s.resources.put n.noWaiters)).resources.blockedHead n.id = none := by
    have h := Resources.blockedHead_setWaiters hfind none none n.id
    rwa [if_pos rfl] at h
  obtain ⟨v', C', hwf', hrest, hv', hrooms, hhead⟩ := hdet.forEachHandled (p := .blocked n.id)
    (f := Loop.failLate env)
    (P := fun v' t => v'.StillBut (.blocked n.id) ∧ Rooms s t ∧
      t.resources.blockedHead n.id = none) (.inl trivial)
    (fun r t ht => (evolves_failLate env r t).spared ht)
    (fun r l v C t ht hp hP hz => by
      obtain ⟨v', hwf, hh⟩ := ht.failLate hp hz
      refine ⟨v', C, hwf, hh, hh.stillBut hP.1, hP.2.1.trans (rooms_failLate env r t), ?_⟩
      rw [(ht.waiters_failLate n.id).1]
      exact hP.2.2)
    (a := n.blockedHead) (by
      rw [Function.update_self, ← Resources.blockedHead_eq hfind]
      exact hwf.located.linked.blocked n.id)
    ⟨hv.detach (by simp) (by simp), ⟨rfl, rfl, rfl⟩, hstart⟩ (.of_nil hz)
  refine ⟨⟨v', C', hwf'.setResources ?_, hv'.still hrest⟩, hrooms.maps, hrooms.pendingRequests,
    hrooms.injectedRequests⟩
  exact Resources.SameWaiters.trans (Resources.sameWaiters_of_find fun _ => rfl)
    (Resources.sameWaiters_free hwf'.located.linked.coherent hhead)

/-- The store is taken down. -/
theorem Resting.curlResourceDestroyAll (h : s.Resting)
    (hz : (s.curlResourceDestroyAll env).hazards = []) :
    (s.curlResourceDestroyAll env).Resting ∧ Rooms s (s.curlResourceDestroyAll env) ∧
      (s.curlResourceDestroyAll env).resources.nodes = [] := by
  have hinv := OrderedMap.whileFirst_rule (g := fun t : Loop ω => t.resources.nodes.head?)
    (f := fun n t => .yield (t.destroyFirstRes env n)) (n := s.resources.nodes.length) (s := s)
    (P := fun t => t.hazards = [] → t.Resting ∧ Rooms s t)
    (fun n t t' _ _ hb => by simp at hb)
    (fun n t t' hP hn hb => by
      obtain rfl := ForInStep.yield.inj hb
      intro hz'
      obtain ⟨hrest, hrooms⟩ := hP ((evolves_destroyFirstRes env n t).hazards_eq_nil hz')
      obtain ⟨hrest', hrooms'⟩ := hrest.destroyFirstRes hn hz'
      exact ⟨hrest', hrooms.trans hrooms'⟩) fun _ => ⟨h, .refl s⟩
  have hempty := OrderedMap.whileFirst_none (fun t : Loop ω => t.resources.ids.length)
    (g := fun t : Loop ω => t.resources.nodes.head?)
    (f := fun n t => .yield (t.destroyFirstRes env n))
    (fun t ht => List.head?_eq_none_iff.mpr
      (List.map_eq_nil_iff.mp (List.eq_nil_of_length_eq_zero ht)))
    (fun n t hn => ⟨_, rfl, by
      refine lt_of_le_of_lt (ids_destroyFirstRes env n t).length_le ?_
      refine List.length_filter_lt_length_iff_exists.mpr ⟨n.id, ?_, by simp⟩
      exact List.mem_map_of_mem (List.mem_of_head? hn)⟩)
    (n := s.resources.nodes.length) (s := s) (Nat.le_of_eq (List.length_map ..))
  unfold Loop.curlResourceDestroyAll at hz ⊢
  dsimp only at hz ⊢
  obtain ⟨⟨v, C, hwf, hv⟩, hrooms⟩ := hinv hz
  have hnil := List.head?_eq_none_iff.mp hempty
  refine ⟨⟨v, C, hwf.setResources (Resources.sameWaiters_of_find fun id => ?_), hv⟩,
    ⟨hrooms.maps, hrooms.pendingRequests, hrooms.injectedRequests⟩, rfl⟩
  unfold Resources.resFind
  rw [hnil]

/-! ### The end -/

/-- **After the destruction.** If it met no hazard, no request is left. -/
theorem Resting.curlEventLoopDestroy (h : s.Resting)
    (hz : (s.curlEventLoopDestroy env).hazards = []) :
    (s.curlEventLoopDestroy env).Resting ∧ ∀ r, ¬ (s.curlEventLoopDestroy env).Live r := by
  unfold Loop.curlEventLoopDestroy at hz ⊢
  dsimp only at hz ⊢
  have hz₅ := (evolves_destroyAll env _).hazards_eq_nil hz
  have hz₄ := (evolves_destroyLists _).hazards_eq_nil hz₅
  have hz₃ := (evolves_destroyMap (q := False) .rateLimited _).hazards_eq_nil hz₄
  have hz₂ := (evolves_destroyMap (q := False) .refresh _).hazards_eq_nil hz₃
  have hz₁ := (evolves_destroyMap (q := False) .inactive _).hazards_eq_nil hz₂
  obtain ⟨h₁, hm₁⟩ := h.destroyMap hz₁
  obtain ⟨h₂, hm₂⟩ := h₁.destroyMap hz₂
  obtain ⟨h₃, hm₃⟩ := h₂.destroyMap hz₃
  obtain ⟨h₄, hm₄⟩ := h₃.destroyMap hz₄
  obtain ⟨h₅, hm₅, hpend, hinj⟩ := h₄.destroyLists hz₅
  obtain ⟨h₆, hrooms, hnodes⟩ := h₅.curlResourceDestroyAll hz
  refine ⟨h₆, fun r hr => ?_⟩
  obtain ⟨v, C, hwf, hv⟩ := h₆
  obtain ⟨p, hp⟩ := (hwf.located.placed.live_iff r).mp hr
  cases p with
  | pending =>
    have hnil := hwf.located.linked.pending.head_eq_none_iff.mp
      (hrooms.pendingRequests.trans hpend)
    rw [hnil] at hp
    simp at hp
  | injected =>
    have hnil := hwf.located.linked.injected.head_eq_none_iff.mp
      (hrooms.injectedRequests.trans hinj)
    rw [hnil] at hp
    simp at hp
  | blocked id =>
    have hnone : ∀ store : Resources, store.nodes = [] → store.blockedHead id = none := by
      intro store hstore
      unfold Resources.blockedHead Resources.resFind
      rw [hstore]
      rfl
    have hnil := (hwf.located.linked.blocked id).head_eq_none_iff.mp (hnone _ hnodes)
    rw [hnil] at hp
    simp at hp
  | map m =>
    rw [← hwf.located.maps, hrooms.maps, hm₅, hm₄, hm₃, hm₂, hm₁] at hp
    cases m <;> simp [update] at hp
  | detached p =>
    rw [hv.detached] at hp
    simp at hp
  | hand =>
    rw [hv.hand] at hp
    simp at hp

end Loop

end CurlLoop
