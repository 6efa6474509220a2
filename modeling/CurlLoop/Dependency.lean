import CurlLoop.RequestOps

/-!
# Requests and the resources they wait for

The functions of `curl_resource.c` that move requests: blocking a request on the first of its
dependencies that is not ready, and publishing a payload, which wakes the requests that wait for
it or fails them.

The waiting list of a resource and the list of pending requests are threaded through the same
link, `next_pending`. A woken request goes back on the pending list without the lock and without
its `is_pending` flag.

## Main definitions

* `blockRequestOnRes`, `curlResourceBlockOnId`, `curlResourceCheckAndBlockList`
* `requeuePending`, `curlEventResPublish`, `curlEventResRegister`
* `call` — any call on the loop thread
* `curlResourceSetOwnerThread`, `applyOp`, `curlResourceInboxDrain`
* `curlResourceDestroyAll`
-/

namespace CurlLoop

variable {ω : Type}

namespace Loop

/-! ### Blocking -/

/-- `block_request_on_res`, on the node `n` of the map. -/
def blockRequestOnRes (s : Loop ω) (n : Res) (r : ReqId) : Loop ω :=
  let s := s.setNextPending r none
  match n.blockedTail with
  | some t =>
    (s.setNextPending t (some r)).setResources
      (s.resources.put (n.setWaiters n.blockedHead (some r)))
  | none => s.setResources (s.resources.put (n.setWaiters (some r) (some r)))

/-- `curl_resource_block_on_id`. -/
def curlResourceBlockOnId (s : Loop ω) (r : ReqId) (id : ResId) : Bool × Loop ω :=
  let (n, store) := s.resources.resGetOrCreate id
  let s := s.setResources store
  if n.payload = none ∧ n.failed = false then (true, s.blockRequestOnRes n r) else (false, s)

/-- `curl_resource_check_and_block_list`. -/
def curlResourceCheckAndBlockList (s : Loop ω) (r : ReqId) : List ResId → Bool × Loop ω
  | [] => (false, s)
  | id :: deps =>
    let (blocked, s) := s.curlResourceBlockOnId r id
    if blocked then (true, s) else s.curlResourceCheckAndBlockList r deps

/-! ### Publishing -/

/-- `requeue_pending`. -/
def requeuePending (s : Loop ω) (r : ReqId) : Loop ω :=
  { s.setNextPending r s.pendingRequests with pendingRequests := some r }

/-- `if (head->request.on_failure) head->request.on_failure(NULL, CURLE_ABORTED_BY_CALLBACK, …)`,
less the calls the callback makes. -/
def callOnAborted (env : Env ω) (s : Loop ω) (r : ReqId) : List ApiCall × Loop ω :=
  if (s.req r).onFailure then
    let (reply, s) := (s.emit (.onFailure r .abortedByCallback 0)).ask (env.onAborted r)
    (reply.calls, s)
  else ([], s)

/-- What happens to one of the requests a publication finds waiting. -/
def wakeOrFail (env : Env ω) (failed : Bool) (r : ReqId) (s : Loop ω) : Loop ω :=
  let s := s.setNextPending r none
  if failed then
    let (calls, s) := s.callOnAborted env r
    (s.apiCalls env calls).curlEventRequestDestroy r
  else s.requeuePending r

/-- `curl_event_res_publish`. -/
def curlEventResPublish (env : Env ω) (s : Loop ω) (id : ResId) (payload : Option Payload)
    (cleanup : Bool) : Loop ω :=
  let (head, store) := s.resources.publishPayload id payload cleanup
  (s.setResources store).forEachPending head (wakeOrFail env payload.isNone)

/-- `curl_event_res_declare`. -/
def curlEventResDeclare (s : Loop ω) : ResId × Loop ω :=
  let (id, store) := s.resources.curlEventResDeclare
  (id, s.setResources store)

/-- `curl_event_res_register`. -/
def curlEventResRegister (env : Env ω) (s : Loop ω) (payload : Option Payload) (cleanup : Bool) :
    Loop ω :=
  let (id, s) := s.curlEventResDeclare
  s.curlEventResPublish env id payload cleanup

/-- Whether `curl_event_res_release` would free a node that requests wait for. -/
def Abandons (s : Loop ω) (id : ResId) : Prop :=
  ∃ n ∈ s.resources.resFind id, n.refcnt = 1 ∧ n.blockedHead ≠ none

instance (s : Loop ω) (id : ResId) : Decidable (s.Abandons id) :=
  inferInstanceAs (Decidable (∃ n ∈ s.resources.resFind id, _))

/-- `curl_event_res_release`. -/
def curlEventResRelease (s : Loop ω) (id : ResId) : Loop ω :=
  (s.beware (s.Abandons id) (.abandoned id)).setResources (s.resources.curlEventResRelease id)

/-- `curl_event_res_addref`. -/
def curlEventResAddref (s : Loop ω) (id : ResId) : Loop ω :=
  s.setResources (s.resources.curlEventResAddref id)

/-- `curl_event_res_autorelease_owner`. -/
def curlEventResAutoreleaseOwner (s : Loop ω) (id : ResId) (enable : Bool) : Loop ω :=
  s.setResources (s.resources.curlEventResAutoreleaseOwner id enable)

/-- A call made on the loop thread. -/
def call (env : Env ω) (s : Loop ω) : Call → Loop ω
  | .api c => s.apiCall env c
  | .declare => s.curlEventResDeclare.2
  | .register payload cleanup => s.curlEventResRegister env payload cleanup
  | .publish id payload cleanup => s.curlEventResPublish env id payload cleanup
  | .addref id => s.curlEventResAddref id
  | .release id => s.curlEventResRelease id
  | .autoreleaseOwner id enable => s.curlEventResAutoreleaseOwner id enable

/-- The calls of a callback, first to last. -/
def calls (env : Env ω) (s : Loop ω) (cs : List Call) : Loop ω :=
  cs.foldl (fun s c => s.call env c) s

/-! ### The inbox -/

/-- `curl_resource_set_owner_thread`. The owner is the thread that calls it; the inbox is
emptied. -/
def curlResourceSetOwnerThread (s : Loop ω) : Loop ω := { s with resInbox := [] }

/-- The `switch` of `curl_resource_inbox_drain`. -/
def applyOp (env : Env ω) (s : Loop ω) (op : ResOp) : Loop ω :=
  let s := { s with applied := op :: s.applied }
  match op.kind with
  | .register => s.curlEventResPublish env op.id op.payload op.cleanup
  | .publish => s.curlEventResPublish env op.id op.payload op.cleanup
  | .release => s.curlEventResRelease op.id

/-- `curl_resource_inbox_drain`: exchange the head for `NULL`, reverse to posting order, apply. -/
def curlResourceInboxDrain (env : Env ω) (s : Loop ω) : Loop ω :=
  s.resInbox.reverse.foldl (fun s op => s.applyOp env op) { s with resInbox := [] }

/-! ### Tear-down of the store -/

/-- What `curl_resource_destroy_all` does to a waiting request. -/
def failLate (env : Env ω) (r : ReqId) (s : Loop ω) : Loop ω :=
  let s := s.setNextPending r none
  let (calls, s) := s.callOnAborted env r
  (s.beware (calls ≠ []) (.lateCall r)).curlEventRequestDestroy r

/-- One round of `curl_resource_destroy_all`: fail the waiting requests of the first node, dispose
of its payload and free it. -/
def destroyFirstRes (env : Env ω) (n : Res) (s : Loop ω) : Loop ω :=
  let s := s.setResources (s.resources.put n.noWaiters)
  let s := s.forEachPending n.blockedHead (failLate env)
  s.setResources ((s.resources.clean n).free n.id)

/-- `curl_resource_destroy_all`. -/
def curlResourceDestroyAll (env : Env ω) (s : Loop ω) : Loop ω :=
  let s := OrderedMap.whileFirst (fun t : Loop ω => t.resources.nodes.head?)
    (fun n t => .yield (t.destroyFirstRes env n)) s.resources.nodes.length s
  s.setResources { s.resources with nodes := [] }

end Loop

end CurlLoop
