import CurlLoop.Lib.OrderedMap
import Mathlib.Algebra.Ring.Int.Defs

/-!
# The resource store

`curl_resource.c` keeps the shared resources of an event loop in a map ordered by id. A node
holds a payload, the function that disposes of it, a reference count, and the list of requests
that wait for the payload. This file models the store alone: every function below reads and
writes the map and nothing else, so the scheduler can use them without further frame conditions.
The functions that also move requests, `curl_event_res_publish` among them, are completed in
`CurlLoop.Dependency`.

## Pointers

A payload is the address the caller supplied, `none` when it is `NULL`. Of a cleanup function the
store only ever asks whether it is set. The waiting requests are threaded through the requests
themselves; a node holds the first and the last of them.

`refcnt` is an `int` in C and has no bounds here: a run that takes it past the largest `int` is left
out.

## What is recorded

`cleaned` and `freed` are not fields of the C store. They list the calls `cleanup(payload)` and
the nodes given back to the allocator, newest first, since a call that happened leaves no other
trace.

## Main definitions

* `Res`, `Resources` — a node, and the map of nodes
* `resGetOrCreate`, `curlEventResAddref`, `curlEventResDeclare`, `curlEventResRelease`
* `curlResourceRetainRequestDeps`, `curlResourceReleaseRequestDeps`
* `publishPayload` — the part of a publication that concerns the node
* `curlResourceAllReadyList` — the readiness test of a dependency list
-/

namespace CurlLoop

/-- The address of a request. -/
abbrev ReqId := ℕ

/-- `curl_event_res_id`. -/
abbrev ResId := ℕ

/-- A payload other than `NULL`. -/
abbrev Payload := ℕ

/-- `curl_event_res_t`. -/
structure Res where
  id : ResId
  /-- `none` until something is published, and again after a failure is. -/
  payload : Option Payload
  /-- Whether a cleanup function is set. -/
  cleanup : Bool
  refcnt : ℤ
  /-- `publish(NULL)` sets this. -/
  failed : Bool
  autoReleaseOwner : Bool
  blockedHead : Option ReqId
  blockedTail : Option ReqId
deriving DecidableEq, Repr

/-- The node `aml_calloc` returns, with its id and reference count filled in. -/
def Res.fresh (id : ResId) (refcnt : ℤ) : Res where
  id := id
  payload := none
  cleanup := false
  refcnt := refcnt
  failed := false
  autoReleaseOwner := false
  blockedHead := none
  blockedTail := none

/-- Whether the node has been published, successfully or not. -/
def Res.ready (n : Res) : Bool := n.payload.isSome || n.failed

/-- The node with `d` more references. -/
def Res.addRefs (n : Res) (d : ℤ) : Res := { n with refcnt := n.refcnt + d }

/-- The node after `curl_event_res_addref` has written it. -/
def Res.addOwner (n : Res) : Res :=
  { n with refcnt := if n.refcnt = 0 then 1 else n.refcnt + 1 }

/-- The node after `curl_event_res_autorelease_owner` has written it. -/
def Res.setAutoRelease (n : Res) (enable : Bool) : Res := { n with autoReleaseOwner := enable }

/-- The node with another waiting list. -/
def Res.setWaiters (n : Res) (head tail : Option ReqId) : Res :=
  { n with blockedHead := head, blockedTail := tail }

/-- The node with its waiting list detached. -/
def Res.noWaiters (n : Res) : Res := n.setWaiters none none

/-- The node with one reference less, if it has any. -/
def Res.unref (n : Res) : Res := if n.refcnt > 0 then n.addRefs (-1) else n

@[simp] theorem Res.id_addRefs (n : Res) (d : ℤ) : (n.addRefs d).id = n.id := rfl

@[simp] theorem Res.refcnt_addRefs (n : Res) (d : ℤ) : (n.addRefs d).refcnt = n.refcnt + d := rfl

@[simp] theorem Res.addRefs_zero (n : Res) : n.addRefs 0 = n := by simp [Res.addRefs]

@[simp] theorem Res.addRefs_addRefs (n : Res) (d e : ℤ) :
    (n.addRefs d).addRefs e = n.addRefs (d + e) := by
  simp [Res.addRefs, Int.add_assoc]

theorem Res.unref_of_pos {n : Res} (h : 0 < n.refcnt) : n.unref = n.addRefs (-1) := if_pos h

@[simp] theorem Res.id_unref (n : Res) : n.unref.id = n.id := by
  rw [Res.unref]
  split <;> rfl

@[simp] theorem Res.autoReleaseOwner_unref (n : Res) :
    n.unref.autoReleaseOwner = n.autoReleaseOwner := by
  rw [Res.unref]
  split <;> rfl

/-- The node after `curl_event_res_publish` has written it. -/
def Res.publish (n : Res) (payload : Option Payload) (cleanup : Bool) : Res :=
  { n with
    refcnt := if n.refcnt = 0 then 1 else n.refcnt
    payload := payload
    cleanup := cleanup
    failed := payload.isNone
    blockedHead := none
    blockedTail := none }

/-- The call `cleanup(payload)` that is due when the payload goes, if there is one. -/
def Res.due (n : Res) : List (ResId × Payload) :=
  match n.payload with
  | some p => if n.cleanup then [(n.id, p)] else []
  | none => []

/-- `loop->resources` with the counter `g_next_id`. -/
structure Resources where
  nodes : List Res
  gNextId : ResId
  /-- The calls `cleanup(payload)`, newest first. -/
  cleaned : List (ResId × Payload)
  /-- The nodes freed, newest first. -/
  freed : List ResId
deriving DecidableEq, Repr

/-- No resources yet; `g_next_id` starts at `1`. -/
def Resources.init : Resources := ⟨[], 1, [], []⟩

namespace Resources

/-- `res_find`. -/
def resFind (s : Resources) (id : ResId) : Option Res := OrderedMap.find Res.id id s.nodes

/-- `res_insert`, which leaves the map alone when the id is taken. -/
def resInsert (s : Resources) (n : Res) : Resources :=
  { s with nodes := OrderedMap.insertUnique Res.id n s.nodes }

/-- Write the fields of a node that is in the map. -/
def put (s : Resources) (n : Res) : Resources := { s with nodes := OrderedMap.put Res.id n s.nodes }

/-- `macro_map_erase` and `aml_free` of a node. -/
def free (s : Resources) (id : ResId) : Resources :=
  { s with nodes := OrderedMap.remove Res.id id s.nodes, freed := id :: s.freed }

/-- `if (n->cleanup && n->payload) n->cleanup(n->payload)`. -/
def clean (s : Resources) (n : Res) : Resources := { s with cleaned := n.due ++ s.cleaned }

/-- `res_get_or_create`: the node under `id`, a placeholder with no reference if there was
none. -/
def resGetOrCreate (s : Resources) (id : ResId) : Res × Resources :=
  match s.resFind id with
  | some n => (n, s)
  | none => (.fresh id 0, s.resInsert (.fresh id 0))

/-- `curl_event_res_addref`. -/
def curlEventResAddref (s : Resources) (id : ResId) : Resources :=
  let found := s.resGetOrCreate id
  found.2.put found.1.addOwner

/-- The body of the loop of `curl_resource_retain_request_deps`. -/
def retainDep (s : Resources) (id : ResId) : Resources :=
  let found := s.resGetOrCreate id
  found.2.put (found.1.addRefs 1)

/-- `curl_resource_retain_request_deps`, on the dependency list of the request. -/
def curlResourceRetainRequestDeps (s : Resources) (deps : List ResId) : Resources :=
  deps.foldl retainDep s

/-- `curl_event_res_autorelease_owner`. -/
def curlEventResAutoreleaseOwner (s : Resources) (id : ResId) (enable : Bool) : Resources :=
  let found := s.resGetOrCreate id
  found.2.put (found.1.setAutoRelease enable)

/-- `curl_event_res_release`. -/
def curlEventResRelease (s : Resources) (id : ResId) : Resources :=
  match s.resFind id with
  | none => s
  | some n =>
    if n.refcnt - 1 = 0 then (s.free id).clean n
    else s.put (n.addRefs (-1))

/-- `maybe_autorelease_owner`. -/
def maybeAutoreleaseOwner (s : Resources) (n : Res) : Resources :=
  if n.autoReleaseOwner ∧ n.refcnt = 1 ∧ n.blockedHead = none then s.curlEventResRelease n.id else s

/-- The body of the loop of `curl_resource_release_request_deps`. -/
def releaseDep (s : Resources) (id : ResId) : Resources :=
  match s.resFind id with
  | none => s
  | some n =>
    (s.put n.unref).maybeAutoreleaseOwner n.unref

/-- `curl_resource_release_request_deps`, on the dependency list of the request. -/
def curlResourceReleaseRequestDeps (s : Resources) (deps : List ResId) : Resources :=
  deps.foldl releaseDep s

/-- `curl_event_res_declare`: the new id, and the store. -/
def curlEventResDeclare (s : Resources) : ResId × Resources :=
  let id := s.gNextId
  (id, { s with gNextId := id + 1 }.resInsert (.fresh id 1))

/-- The part of `curl_event_res_publish` before the waiting requests are dealt with: the count is
raised to the owner's reference if there was none, the previous payload is disposed of, the new
one is stored and the waiting list is detached. Answers the first of the detached requests. -/
def publishPayload (s : Resources) (id : ResId) (payload : Option Payload) (cleanup : Bool) :
    Option ReqId × Resources :=
  let found := s.resGetOrCreate id
  (found.1.blockedHead, (found.2.clean found.1).put (found.1.publish payload cleanup))

/-- `curl_resource_all_ready_list`. -/
def curlResourceAllReadyList (s : Resources) (deps : List ResId) : Bool :=
  deps.all fun id => match s.resFind id with
    | none => false
    | some n => n.ready

/-! ### What each operation does to the nodes

Everything later in the development sees the map through `resFind`. -/

theorem id_of_resFind {s : Resources} {id : ResId} {n : Res} (h : s.resFind id = some n) :
    n.id = id := OrderedMap.key_of_find h

@[simp] theorem resFind_clean (s : Resources) (n : Res) (id : ResId) :
    (s.clean n).resFind id = s.resFind id := rfl

theorem resFind_put (s : Resources) (n : Res) (id : ResId) :
    (s.put n).resFind id = if id = n.id then (s.resFind id).map (fun _ => n) else s.resFind id :=
  OrderedMap.find_put ..

theorem resFind_free (s : Resources) (j id : ResId) :
    (s.free j).resFind id = if id = j then none else s.resFind id :=
  OrderedMap.find_remove ..

theorem resFind_insert (s : Resources) (n : Res) (id : ResId) :
    (s.resInsert n).resFind id =
      if id = n.id then some ((s.resFind id).getD n) else s.resFind id :=
  OrderedMap.find_insertUnique ..

/-- The node `res_get_or_create` answers: the one found, or a placeholder. -/
theorem resGetOrCreate_fst (s : Resources) (id : ResId) :
    (s.resGetOrCreate id).1 = (s.resFind id).getD (.fresh id 0) := by
  rw [resGetOrCreate]
  cases s.resFind id <;> rfl

theorem resFind_getOrCreate (s : Resources) (id j : ResId) :
    (s.resGetOrCreate id).2.resFind j =
      if j = id then some (s.resGetOrCreate id).1 else s.resFind j := by
  rw [resGetOrCreate_fst]
  rw [resGetOrCreate]
  cases h : s.resFind id with
  | some n =>
    by_cases hj : j = id
    · subst hj
      simp [h]
    · simp [hj]
  | none =>
    dsimp only
    rw [resFind_insert]
    by_cases hj : j = id
    · subst hj
      simp [h, Res.fresh]
    · simp [Res.fresh, hj]

theorem id_resGetOrCreate (s : Resources) (id : ResId) : (s.resGetOrCreate id).1.id = id := by
  rw [resGetOrCreate_fst]
  cases h : s.resFind id with
  | none => rfl
  | some n => exact id_of_resFind h

/-- Get or create a node and write it back under the same id: the shape of `addref`, `retain`,
`autorelease_owner` and `publish`. -/
theorem resFind_put_getOrCreate (s : Resources) {id : ResId} {n : Res} (j : ResId)
    (hn : n.id = id) :
    ((s.resGetOrCreate id).2.put n).resFind j = if j = id then some n else s.resFind j := by
  rw [resFind_put, resFind_getOrCreate, hn]
  by_cases hj : j = id <;> simp [hj]

end Resources

end CurlLoop
