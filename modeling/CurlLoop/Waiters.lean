import CurlLoop.ResourceCount

/-!
# The waiting lists of resources

A node of the resource store holds the two ends of the list of requests that wait for it. Most
operations on the store leave every waiting list alone; this file says so for each of them, in the
form the scheduler needs: as a relation `SameWaiters` between the stores before and after.

Freeing a node takes its list out of sight. That is harmless for a node nobody waits for, so the
operations that may free a node keep `SameWaiters` under the condition they check or, for
`curl_event_res_release`, fail to check.

## Main definitions

* `Resources.blockedHead`, `Resources.blockedTail` — the ends of the waiting list of an id
* `Resources.Awaited` — nothing has been published under an id
* `Resources.SameWaiters` — the waiting lists are the same
* `Resources.SubHeads` — whoever is first in a list was so before

## Main results

* `sameWaiters_retain`, `sameWaiters_releaseDeps`, `sameWaiters_release`, … — one for each operation
-/

namespace CurlLoop

namespace Resources

/-- The first of the requests waiting for an id. -/
def blockedHead (s : Resources) (id : ResId) : Option ReqId := (s.resFind id).bind Res.blockedHead

/-- The last of the requests waiting for an id. -/
def blockedTail (s : Resources) (id : ResId) : Option ReqId := (s.resFind id).bind Res.blockedTail

/-- Nothing has been published under an id, or it was released. -/
def Awaited (s : Resources) (id : ResId) : Prop := ∀ n, s.resFind id = some n → n.ready = false

/-- The waiting lists are the same, and what was awaited still is. -/
def SameWaiters (s t : Resources) : Prop :=
  ∀ id, t.blockedHead id = s.blockedHead id ∧ t.blockedTail id = s.blockedTail id ∧
    (s.Awaited id → t.Awaited id)

/-- A list has a last request only if it has a first. -/
def Coherent (s : Resources) : Prop := ∀ id, s.blockedHead id = none → s.blockedTail id = none

variable {s t u : Resources}

theorem SameWaiters.refl (s : Resources) : s.SameWaiters s := fun _ => ⟨rfl, rfl, fun h => h⟩

theorem SameWaiters.trans (h : s.SameWaiters t) (h' : t.SameWaiters u) : s.SameWaiters u := by
  intro id
  obtain ⟨hh, ht, ha⟩ := h id
  obtain ⟨hh', ht', ha'⟩ := h' id
  exact ⟨hh'.trans hh, ht'.trans ht, fun hs => ha' (ha hs)⟩

theorem SameWaiters.coherent (h : s.SameWaiters t) (hs : s.Coherent) : t.Coherent := by
  intro id hid
  rw [(h id).2.1]
  exact hs id ((h id).1.symm.trans hid)

/-- Stores in which every id finds the same node have the same waiting lists. -/
theorem sameWaiters_of_find (h : ∀ id, t.resFind id = s.resFind id) : s.SameWaiters t := by
  intro id
  simp [blockedHead, blockedTail, Awaited, h id]

/-- The case of one node: it is written, and its list and its publication are what they were. -/
theorem sameWaiters_of_node {id : ResId} {n n' : Res} (hn : s.resFind id = some n)
    (hfind : ∀ j, t.resFind j = if j = id then some n' else s.resFind j)
    (hhead : n'.blockedHead = n.blockedHead) (htail : n'.blockedTail = n.blockedTail)
    (hready : n.ready = false → n'.ready = false) : s.SameWaiters t := by
  intro j
  rcases eq_or_ne j id with rfl | hj
  · have ht : t.resFind j = some n' := by rw [hfind, if_pos rfl]
    refine ⟨?_, ?_, fun ha m hm => ?_⟩
    · rw [blockedHead, blockedHead, ht, hn, Option.bind_some, Option.bind_some, hhead]
    · rw [blockedTail, blockedTail, ht, hn, Option.bind_some, Option.bind_some, htail]
    · rw [ht] at hm
      obtain rfl := Option.some.inj hm
      exact hready (ha n hn)
  · have ht : t.resFind j = s.resFind j := by rw [hfind, if_neg hj]
    simp [blockedHead, blockedTail, Awaited, ht]

theorem sameWaiters_getOrCreate (s : Resources) (id : ResId) :
    s.SameWaiters (s.resGetOrCreate id).2 := by
  intro j
  have hfind := resFind_getOrCreate s id j
  rcases eq_or_ne j id with rfl | hj
  · rw [if_pos rfl, resGetOrCreate_fst] at hfind
    cases hs : s.resFind j with
    | some n => simp [blockedHead, blockedTail, Awaited, hfind, hs]
    | none => simp [blockedHead, blockedTail, Awaited, hfind, hs, Res.fresh, Res.ready]
  · rw [if_neg hj] at hfind
    simp [blockedHead, blockedTail, Awaited, hfind]

/-- Writing a node that is in the map, but not its list nor its publication. -/
theorem sameWaiters_put {n n' : Res} (hn : s.resFind n'.id = some n)
    (hhead : n'.blockedHead = n.blockedHead) (htail : n'.blockedTail = n.blockedTail)
    (hready : n.ready = false → n'.ready = false) : s.SameWaiters (s.put n') := by
  refine sameWaiters_of_node hn (fun j => ?_) hhead htail hready
  rw [resFind_put]
  rcases eq_or_ne j n'.id with rfl | hj
  · simp [hn]
  · simp [hj]

/-- Get or create a node and write it back: the shape of `addref` and `retain`. -/
theorem sameWaiters_put_getOrCreate {id : ResId} {f : Res → Res} (hid : ∀ n, (f n).id = n.id)
    (hhead : ∀ n, (f n).blockedHead = n.blockedHead) (htail : ∀ n, (f n).blockedTail = n.blockedTail)
    (hready : ∀ n, (f n).ready = n.ready) :
    s.SameWaiters ((s.resGetOrCreate id).2.put (f (s.resGetOrCreate id).1)) := by
  refine (sameWaiters_getOrCreate s id).trans (sameWaiters_put (n := (s.resGetOrCreate id).1) ?_
    (hhead _) (htail _) fun h => (hready _).trans h)
  rw [resFind_getOrCreate, if_pos ((hid _).trans (id_resGetOrCreate s id))]

theorem sameWaiters_addref (s : Resources) (id : ResId) : s.SameWaiters (s.curlEventResAddref id) :=
  sameWaiters_put_getOrCreate (f := Res.addOwner) (fun _ => rfl) (fun _ => rfl) (fun _ => rfl)
    fun _ => rfl

theorem sameWaiters_autoreleaseOwner (s : Resources) (id : ResId) (enable : Bool) :
    s.SameWaiters (s.curlEventResAutoreleaseOwner id enable) :=
  sameWaiters_put_getOrCreate (f := fun n => n.setAutoRelease enable) (fun _ => rfl)
    (fun _ => rfl) (fun _ => rfl) fun _ => rfl

theorem sameWaiters_retain (deps : List ResId) (s : Resources) :
    s.SameWaiters (s.curlResourceRetainRequestDeps deps) := by
  induction deps generalizing s with
  | nil => exact .refl s
  | cons id deps ih =>
    exact .trans (sameWaiters_put_getOrCreate (f := fun n => n.addRefs 1) (fun _ => rfl)
      (fun _ => rfl) (fun _ => rfl) fun _ => rfl) (ih (s.retainDep id))

theorem sameWaiters_insert {n : Res} (hhead : n.blockedHead = none) (htail : n.blockedTail = none)
    (hready : n.ready = false) : s.SameWaiters (s.resInsert n) := by
  intro j
  have hfind := resFind_insert s n j
  rcases eq_or_ne j n.id with rfl | hj
  · rw [if_pos rfl] at hfind
    cases hs : s.resFind n.id with
    | some m => simp [blockedHead, blockedTail, Awaited, hfind, hs]
    | none => simp [blockedHead, blockedTail, Awaited, hfind, hs, hhead, htail, hready]
  · rw [if_neg hj] at hfind
    simp [blockedHead, blockedTail, Awaited, hfind]

theorem sameWaiters_declare (s : Resources) : s.SameWaiters s.curlEventResDeclare.2 :=
  .trans (sameWaiters_of_find fun _ => rfl) (sameWaiters_insert rfl rfl rfl)

/-- Freeing a node nobody waits for. -/
theorem sameWaiters_free {id : ResId} (hs : s.Coherent) (hid : s.blockedHead id = none) :
    s.SameWaiters (s.free id) := by
  intro j
  have hfind := resFind_free s id j
  rcases eq_or_ne j id with rfl | hj
  · rw [if_pos rfl] at hfind
    have htail := hs j hid
    rw [blockedHead] at hid
    rw [blockedTail] at htail
    simp [blockedHead, blockedTail, Awaited, hfind, hid, htail]
  · rw [if_neg hj] at hfind
    simp [blockedHead, blockedTail, Awaited, hfind]

/-- `curl_event_res_release`, which does not look at the waiting list. -/
theorem sameWaiters_release {id : ResId} (hs : s.Coherent)
    (hid : ∀ n, s.resFind id = some n → n.refcnt = 1 → n.blockedHead = none) :
    s.SameWaiters (s.curlEventResRelease id) := by
  rw [curlEventResRelease]
  cases hn : s.resFind id with
  | none => exact .refl s
  | some n =>
    dsimp only
    split
    · refine .trans (sameWaiters_free hs ?_) (sameWaiters_of_find fun _ => rfl)
      rw [blockedHead, hn, Option.bind_some]
      exact hid n hn (by omega)
    · refine sameWaiters_put (n := n) ?_ rfl rfl fun h => h
      rwa [Res.id_addRefs, id_of_resFind hn]

/-- `maybe_autorelease_owner`, which does. -/
theorem sameWaiters_maybeAutoreleaseOwner {n : Res} (hs : s.Coherent)
    (hn : s.resFind n.id = some n) : s.SameWaiters (s.maybeAutoreleaseOwner n) := by
  rw [maybeAutoreleaseOwner]
  split
  · rename_i hc
    refine sameWaiters_release hs fun m hm _ => ?_
    obtain rfl := Option.some.inj (hn.symm.trans hm)
    exact hc.2.2
  · exact .refl s

theorem sameWaiters_releaseDep (hs : s.Coherent) (id : ResId) : s.SameWaiters (s.releaseDep id) := by
  rw [releaseDep]
  cases hn : s.resFind id with
  | none => exact .refl s
  | some n =>
    have hid : n.id = id := id_of_resFind hn
    have hfields : n.unref.blockedHead = n.blockedHead ∧ n.unref.blockedTail = n.blockedTail ∧
        n.unref.ready = n.ready := by
      rw [Res.unref]
      split <;> exact ⟨rfl, rfl, rfl⟩
    have hput : s.SameWaiters (s.put n.unref) :=
      sameWaiters_put (n := n) (by rwa [Res.id_unref, hid]) hfields.1 hfields.2.1
        fun h => hfields.2.2.trans h
    refine hput.trans (sameWaiters_maybeAutoreleaseOwner (hput.coherent hs) ?_)
    rw [resFind_put, if_pos rfl, Res.id_unref, hid, hn, Option.map_some]

theorem sameWaiters_releaseDeps (deps : List ResId) (hs : s.Coherent) :
    s.SameWaiters (s.curlResourceReleaseRequestDeps deps) := by
  induction deps generalizing s with
  | nil => exact .refl s
  | cons id deps ih =>
    have h := sameWaiters_releaseDep hs id
    exact h.trans (ih (h.coherent hs))

/-! ### The operations that change a list -/

/-- Writing the ends of a list. -/
theorem resFind_setWaiters {n : Res} (hn : s.resFind n.id = some n) (head tail : Option ReqId)
    (j : ResId) : (s.put (n.setWaiters head tail)).resFind j =
      if j = n.id then some (n.setWaiters head tail) else s.resFind j := by
  rw [resFind_put, show (n.setWaiters head tail).id = n.id from rfl]
  rcases eq_or_ne j n.id with rfl | hj
  · simp [hn]
  · simp [hj]

theorem blockedHead_setWaiters {n : Res} (hn : s.resFind n.id = some n) (head tail : Option ReqId)
    (j : ResId) : (s.put (n.setWaiters head tail)).blockedHead j =
      if j = n.id then head else s.blockedHead j := by
  rw [blockedHead, resFind_setWaiters hn]
  split <;> rfl

theorem blockedTail_setWaiters {n : Res} (hn : s.resFind n.id = some n) (head tail : Option ReqId)
    (j : ResId) : (s.put (n.setWaiters head tail)).blockedTail j =
      if j = n.id then tail else s.blockedTail j := by
  rw [blockedTail, resFind_setWaiters hn]
  split <;> rfl

theorem awaited_setWaiters {n : Res} (hn : s.resFind n.id = some n) (head tail : Option ReqId)
    {j : ResId} (h : s.Awaited j) : (s.put (n.setWaiters head tail)).Awaited j := by
  intro m hm
  rw [resFind_setWaiters hn] at hm
  split at hm
  · obtain rfl := Option.some.inj hm
    exact h n (‹j = n.id› ▸ hn)
  · exact h m hm

theorem blockedHead_eq {id : ResId} {n : Res} (hn : s.resFind id = some n) :
    s.blockedHead id = n.blockedHead := by
  rw [blockedHead, hn, Option.bind_some]

theorem blockedTail_eq {id : ResId} {n : Res} (hn : s.resFind id = some n) :
    s.blockedTail id = n.blockedTail := by
  rw [blockedTail, hn, Option.bind_some]

/-- A publication answers the first of the waiting requests. -/
theorem publishPayload_fst (s : Resources) (id : ResId) (p : Option Payload) (c : Bool) :
    (s.publishPayload id p c).1 = s.blockedHead id := by
  rw [publishPayload, blockedHead, resGetOrCreate_fst]
  cases s.resFind id <;> rfl

/-- A publication empties the list of its id and leaves the others alone. -/
theorem blockedHead_publishPayload (s : Resources) (id : ResId) (p : Option Payload) (c : Bool)
    (j : ResId) :
    (s.publishPayload id p c).2.blockedHead j = if j = id then none else s.blockedHead j := by
  rw [blockedHead, resFind_publishPayload]
  rcases eq_or_ne j id with rfl | hj
  · simp [Res.publish]
  · simp [hj, blockedHead]

theorem blockedTail_publishPayload (s : Resources) (id : ResId) (p : Option Payload) (c : Bool)
    (j : ResId) :
    (s.publishPayload id p c).2.blockedTail j = if j = id then none else s.blockedTail j := by
  rw [blockedTail, resFind_publishPayload]
  rcases eq_or_ne j id with rfl | hj
  · simp [Res.publish]
  · simp [hj, blockedTail]

theorem awaited_publishPayload {id : ResId} (p : Option Payload) (c : Bool) {j : ResId}
    (hj : j ≠ id) (h : s.Awaited j) : (s.publishPayload id p c).2.Awaited j := by
  intro n hn
  rw [resFind_publishPayload, if_neg hj] at hn
  exact h n hn

/-! ### First in line -/

/-- Whoever is the first to wait for an id was so before. -/
def SubHeads (s t : Resources) : Prop :=
  ∀ id r, t.blockedHead id = some r → s.blockedHead id = some r

theorem SubHeads.refl (s : Resources) : s.SubHeads s := fun _ _ h => h

theorem SubHeads.trans (h : s.SubHeads t) (h' : t.SubHeads u) : s.SubHeads u :=
  fun id r hr => h id r (h' id r hr)

theorem SameWaiters.subHeads (h : s.SameWaiters t) : s.SubHeads t := fun id r hr => by
  rwa [(h id).1] at hr

/-- Freeing a node may take a list out of sight, and changes no other. -/
theorem subHeads_free (s : Resources) (id : ResId) : s.SubHeads (s.free id) := by
  intro j r hr
  rw [blockedHead, resFind_free] at hr
  split at hr
  · exact absurd hr (Option.some_ne_none r).symm
  · exact hr

theorem subHeads_release (s : Resources) (id : ResId) : s.SubHeads (s.curlEventResRelease id) := by
  rw [curlEventResRelease]
  cases hn : s.resFind id with
  | none => exact .refl s
  | some n =>
    dsimp only
    split
    · exact subHeads_free s id
    · refine SameWaiters.subHeads (sameWaiters_put (n := n) ?_ rfl rfl fun h => h)
      rwa [Res.id_addRefs, id_of_resFind hn]

theorem subHeads_releaseDep (s : Resources) (id : ResId) : s.SubHeads (s.releaseDep id) := by
  rw [releaseDep]
  cases hn : s.resFind id with
  | none => exact .refl s
  | some n =>
    have hput : s.SubHeads (s.put n.unref) := by
      refine SameWaiters.subHeads (sameWaiters_put (n := n) ?_ ?_ ?_ ?_)
      · rwa [Res.id_unref, id_of_resFind hn]
      all_goals
        rw [Res.unref]
        split
      · rfl
      · rfl
      · rfl
      · rfl
      · exact fun h => h
      · exact fun h => h
    dsimp only
    rw [maybeAutoreleaseOwner]
    split
    · exact hput.trans (subHeads_release _ _)
    · exact hput

theorem subHeads_releaseDeps (deps : List ResId) (s : Resources) :
    s.SubHeads (s.curlResourceReleaseRequestDeps deps) := by
  induction deps generalizing s with
  | nil => exact .refl s
  | cons id deps ih => exact (subHeads_releaseDep s id).trans (ih _)

theorem subHeads_publishPayload (s : Resources) (id : ResId) (p : Option Payload) (c : Bool) :
    s.SubHeads (s.publishPayload id p c).2 := by
  intro j r hr
  rw [blockedHead_publishPayload] at hr
  split at hr
  · exact absurd hr nofun
  · exact hr

end Resources

end CurlLoop
