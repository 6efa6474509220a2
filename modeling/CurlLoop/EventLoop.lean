import CurlLoop.Dependency

/-!
# The phases of an event loop

`curl_event_loop.c`: the three scheduling passes of an iteration, the iteration itself, and the
destruction of the loop.

A pass that walks a list first detaches it, so what arrives during the pass waits for the next
one. A pass that drains a map takes the first request, which is the one due first, until one is
met that cannot go yet. `move_inactive_requests_to_queue` keeps the rate-limited map in a local
variable while it works, so that a request throttled again goes into a map of its own and is
merged back at the end.

## Main definitions

* `processCancelledAndPendingRequests`, `moveInactiveRequestsToQueue`,
  `processCompletedRequests` — the passes
* `callOnComplete`, `callOnFailure`, `callOnRetry` — the user's callbacks
* `requestIsRateLimited`, `requestReady`, `enqueueRequest` — helpers of the passes
* `calculateNextTimerExpiry` — how long an iteration may sleep
* `curlEventLoopDestroy`
-/

namespace CurlLoop

variable {ω : Type}

namespace Loop

/-! ### Callbacks -/

/-- `req->request.on_complete(easy, &req->request)`. -/
def callOnComplete (env : Env ω) (s : Loop ω) (r : ReqId) : ℤ × Loop ω :=
  if (s.req r).onComplete then
    let (reply, s) := (s.emit (.onComplete r)).ask (env.onComplete r)
    (reply.ret, s.calls env reply.calls)
  else (0, s.emit (.nullCall r))

/-- `retry_in = -1; if (req->request.on_failure) retry_in = req->request.on_failure(easy, …)`. -/
def callOnFailure (env : Env ω) (s : Loop ω) (r : ReqId) (easy : EasyId) (code : CurlCode)
    (httpCode : ℤ) : ℤ × Loop ω :=
  if (s.req r).onFailure then
    let (reply, s) := (s.emit (.onFailure r code httpCode)).ask
      (env.onFailure r easy code httpCode)
    (reply.ret, s.calls env reply.calls)
  else (-1, s)

/-- `default_calculate_retry_enhanced`. -/
def defaultCalculateRetryEnhanced (env : Env ω) (s : Loop ω) (r : ReqId) : Bool × Loop ω :=
  let q := s.req r
  if q.maxRetries = -1 ∨ q.currentRetries < q.maxRetries then
    let q := { q with currentRetries := q.currentRetries + 1 }
    let (delayMs, s) := s.ask (env.computeBackoffMs q)
    let (now, s) := s.ask env.macroNow
    (true, s.modifyReq r fun _ => { q with nextRetryAt := u64 (now + delayMs * 1000000) })
  else (false, s)

/-- `req->request.on_retry(&req->request)`. -/
def callOnRetry (env : Env ω) (s : Loop ω) (r : ReqId) : Bool × Loop ω :=
  match (s.req r).onRetry with
  | none => (false, s.emit (.nullCall r))
  | some .defaultEnhanced => s.defaultCalculateRetryEnhanced env r
  | some .user =>
    let (answer, s) := s.ask (env.onRetry r (s.req r))
    (answer.1, s.modifyReq r fun q => q.dueAt answer.2)

/-! ### Helpers -/

/-- `request_is_rate_limited`. The map the request may be taken out of is handed in by value and
returned. -/
def requestIsRateLimited (env : Env ω) (s : Loop ω) (root : List ReqId) (r : ReqId) :
    Bool × List ReqId × Loop ω :=
  let q := s.req r
  match q.rateLimit with
  | none => (false, root, s)
  | some key =>
    let (next, s) := s.ask (env.rateManagerCanProceed key q.rateLimitHighPriority)
    if next = 0 then (false, root, s)
    else
      let (now, s) := s.ask env.macroNow
      (true, root.erase r, s.parkRateLimited r (u64 (now + next)))

/-- `request_waiting_on_dependencies`. -/
def requestWaitingOnDependencies (s : Loop ω) (r : ReqId) : Bool × Loop ω :=
  s.curlResourceCheckAndBlockList r (s.req r).depHead

/-- `request_ready`. The number of active requests is an `int` compared with a `size_t`. -/
def requestReady (env : Env ω) (s : Loop ω) (r : ReqId) : Bool × Loop ω :=
  let q := s.req r
  if sizeT (s.num .queued) ≥ s.maxConcurrentRequests then (false, s)
  else
    let (next, s) := match q.rateLimit with
      | some key => s.ask (env.rateManagerCanProceed key q.rateLimitHighPriority)
      | none => (0, s)
    if next > 0 then (false, s)
    else if s.resources.curlResourceAllReadyList q.depHead = false then (false, s)
    else
      let (now, s) := s.ask env.macroNow
      (decide (now ≥ q.nextRetryAt), s)

/-- The map `enqueue_request` chooses. -/
def waitingMap (q : Request) : MapId := if q.shouldRefresh then .refresh else .inactive

/-- `enqueue_request`. -/
def enqueueRequest (s : Loop ω) (r : ReqId) : Loop ω :=
  (s.insertMap (waitingMap (s.req r)) r).addNum (waitingMap (s.req r)) 1

/-! ### Cancelled and pending requests -/

/-- The map a cancelled request is taken to be in, by its fields. -/
def cancelledMap (q : Request) : MapId := if q.multiHandle then .queued else waitingMap q

/-- The request is erased from the map it is taken to be in, and the counter of the map lowered. -/
def dropFromMap (s : Loop ω) (m : MapId) (r : ReqId) : Loop ω :=
  ((s.beware (r ∉ s.maps m) (.misplaced r)).eraseMap m r).addNum m (-1)

/-- One round of the loop over the cancelled list. -/
def cancelledRound (r : ReqId) (s : Loop ω) : Loop ω :=
  (s.dropFromMap (cancelledMap (s.req r)) r).curlEventRequestDestroy r

/-- `if (!pending->deps_retained && pending->request.dep_head) …`. -/
def retainDepsOnce (s : Loop ω) (r : ReqId) : Loop ω :=
  let q := s.req r
  if q.depsRetained = false ∧ q.depHead ≠ [] then
    (s.setResources (s.resources.curlResourceRetainRequestDeps q.depHead)).modifyReq r
      fun q => q.setRetained true
  else s

/-- What becomes of a pending request that is not cancelled. -/
def schedulePending (env : Env ω) (s : Loop ω) (r : ReqId) : Loop ω :=
  let s := s.retainDepsOnce r
  let (waiting, s) := s.requestWaitingOnDependencies r
  if waiting then s
  else
    let (ready, s) := s.requestReady env r
    if ready then s.curlEventLoopRequestStart env r else s.enqueueRequest r

/-- One round of the loop over the pending list. -/
def pendingRound (env : Env ω) (r : ReqId) (s : Loop ω) : Loop ω :=
  let s := (s.modifyReq r fun q => q.setPending false).setNextPending r none
  if (s.req r).isCancelled then s.curlEventRequestDestroy r else s.schedulePending env r

/-- `cancelled_requests` is reset. -/
def detachCancelled (s : Loop ω) : Loop ω := { s with cancelledRequests := none }

/-- `pending_requests` is reset. -/
def detachPending (s : Loop ω) : Loop ω := { s with pendingRequests := none }

/-- `process_cancelled_and_pending_requests`. -/
def processCancelledAndPendingRequests (env : Env ω) (s : Loop ω) : Loop ω :=
  let cancelled := s.cancelledRequests
  let pending := s.pendingRequests
  (s.detachCancelled.detachPending.forEachCancelled cancelled cancelledRound).forEachPending pending
    (pendingRound env)

/-! ### Requests whose time has come -/

/-- One round of the loop over the detached rate-limited map. -/
def rateLimitedRound (env : Env ω) (now : ℕ) (r : ReqId) (p : List ReqId × Loop ω) :
    ForInStep (List ReqId × Loop ω) :=
  let s := p.2.follow r
  if now < (s.req r).nextRetryAt then .done (p.1, s)
  else
    let (limited, root, s) := s.requestIsRateLimited env p.1 r
    if limited then .yield (root, s)
    else
      let (ready, s) := s.requestReady env r
      if ready then .yield (root.erase r, s.curlEventLoopRequestStart env r) else .done (root, s)

/-- One round of the loop that merges the requests throttled again into the detached map. -/
def mergeRound (r : ReqId) (p : List ReqId × Loop ω) : ForInStep (List ReqId × Loop ω) :=
  let s := (p.2.follow r).eraseMap .rateLimited r
  .yield (s.requestInsert r p.1, s)

/-- The first part of `move_inactive_requests_to_queue`. -/
def moveRateLimited (env : Env ω) (s : Loop ω) : Loop ω :=
  let root := s.maps .rateLimited
  let s := s.setMap .rateLimited []
  let (now, s) := s.ask env.macroNow
  let p := OrderedMap.whileFirst (fun p => p.1.head?) (rateLimitedRound env now) root.length
    (root, s)
  let p := OrderedMap.whileFirst (fun p => (p.2.maps .rateLimited).head?) mergeRound
    (p.2.maps .rateLimited).length p
  p.2.setMap .rateLimited p.1

/-- One round of the loop over `refresh_requests` or `inactive_requests`. -/
def waitingRound (env : Env ω) (m : MapId) (r : ReqId) (s : Loop ω) : ForInStep (Loop ω) :=
  let s := s.follow r
  let (limited, root, s) := s.requestIsRateLimited env (s.maps m) r
  let s := s.setMap m root
  if limited then .yield (s.addNum m (-1))
  else
    let (ready, s) := s.requestReady env r
    if ready then .yield (((s.eraseMap m r).addNum m (-1)).curlEventLoopRequestStart env r)
    else .done s

/-- The second and third part of `move_inactive_requests_to_queue`, on either map. -/
def moveWaiting (env : Env ω) (m : MapId) (s : Loop ω) : Loop ω :=
  OrderedMap.whileFirst (fun t : Loop ω => (t.maps m).head?) (waitingRound env m)
    (s.maps m).length s

/-- `move_inactive_requests_to_queue`. -/
def moveInactiveRequestsToQueue (env : Env ω) (s : Loop ω) : Loop ω :=
  ((s.moveRateLimited env).moveWaiting env .refresh).moveWaiting env .inactive

/-! ### The timer -/

/-- A `uint64_t` converted to `long`. -/
def toLong (n : ℕ) : ℤ := Int.bmod n (2 ^ 64)

/-- The request time `calculate_next_timer_expiry` waits for, `none` when both maps are empty. -/
def nextExpiry (env : Env ω) (s : Loop ω) : Option ℕ × Loop ω :=
  match (s.maps .inactive).head?, (s.maps .refresh).head? with
  | none, none => (none, s)
  | none, some f => (some (s.req f).nextRetryAt, s)
  | some i, none => (some (s.req i).nextRetryAt, s)
  | some i, some f =>
    let (ready, s) := s.requestReady env i
    if ready then
      (some (u64 (min (toLong (s.req i).nextRetryAt) (toLong (s.req f).nextRetryAt))), s)
    else (some (s.req f).nextRetryAt, s)

/-- `calculate_next_timer_expiry`, in milliseconds. -/
def calculateNextTimerExpiry (env : Env ω) (s : Loop ω) (maxValue : ℕ) : ℕ × Loop ω :=
  match s.nextExpiry env with
  | (none, s) => (maxValue, s)
  | (some next, s) =>
    let (now, s) := s.ask env.macroNow
    if next < now then (0, s) else (min ((next - now) / 1000000) maxValue, s)

/-! ### Finished transfers -/

/-- `loop->metrics.completed_requests++`. -/
def countCompleted (s : Loop ω) : Loop ω :=
  { s with metrics := { s.metrics with completedRequests := s.metrics.completedRequests + 1 } }

/-- `loop->metrics.retried_requests++`. -/
def countRetried (s : Loop ω) : Loop ω :=
  { s with metrics := { s.metrics with retriedRequests := s.metrics.retriedRequests + 1 } }

/-- Nothing reschedules the request: it is refreshed or destroyed. -/
def finish (s : Loop ω) (r : ReqId) (success : Bool) : Loop ω :=
  let s := if success then s.countCompleted else s
  if (s.req r).shouldRefresh then
    ((s.modifyReq r fun q => { q with currentRetries := 0 }).curlEventLoopRequestCleanup
      r).enqueueRequest r
  else s.curlEventRequestDestroy r

/-- What becomes of a finished request, by the number its callback returned. -/
def reschedule (env : Env ω) (s : Loop ω) (r : ReqId) (success : Bool) (retryIn : ℤ) : Loop ω :=
  if retryIn > 0 then
    let (now, s) := s.ask env.macroNow
    let s := s.modifyReq r fun q => q.dueAt (macroNowAddSeconds now retryIn)
    (s.curlEventLoopRequestCleanup r).enqueueRequest r
  else
    let (again, s) := if retryIn < 0 then s.callOnRetry env r else (false, s)
    if again then (s.curlEventLoopRequestCleanup r).countRetried.enqueueRequest r
    else s.finish r success

/-- The handling of a finished request after its callback returned. -/
def settle (env : Env ω) (s : Loop ω) (r : ReqId) (httpCode : ℤ) (success : Bool) (retryIn : ℤ) :
    Loop ω :=
  match (s.req r).rateLimit with
  | some key =>
    if httpCode = 429 then
      let (retryIn, s) := s.ask (env.rateManagerHandle429 key)
      let (now, s) := s.ask env.macroNow
      s.parkRateLimited r (macroNowAddSeconds now retryIn)
    else
      let (_, s) := s.ask fun w => ((), env.rateManagerRequestDone key w)
      s.reschedule env r success retryIn
  | none => s.reschedule env r success retryIn

/-- `result == CURLE_OK && http_code == 200`. -/
def Message.success (m : Message) : Bool := m.result = .ok ∧ m.httpCode = 200

/-- `curl_multi_info_read` hands out the message of a transfer. -/
def reportMessage (s : Loop ω) (easy : EasyId) : Loop ω := { s with multi := s.multi.report easy }

/-- Read the message of a transfer, take its request out of the active map and call its
callback. -/
def receive (env : Env ω) (s : Loop ω) (m : Message) (r : ReqId) : ℤ × Loop ω :=
  let s := s.reportMessage m.easy
  let s := ((s.follow r).eraseMap .queued r).addNum .queued (-1)
  if Message.success m then s.callOnComplete env r
  else s.callOnFailure env r m.easy m.result m.httpCode

/-- The transfer a message is about: attached, and not reported before. -/
def transferOf (s : Loop ω) (m : Message) : Option Transfer :=
  s.multi.transfers.find? fun t => t.easy = m.easy ∧ t.reported = false

/-- One round of the loop over the messages of the multi handle. libcurl has no message about a
handle that is not attached, or that it has reported. -/
def completedRound (env : Env ω) (s : Loop ω) (m : Message) : Loop ω :=
  match s.transferOf m with
  | none => s
  | some t =>
    let (retryIn, s) := s.receive env m t.priv
    s.settle env t.priv m.httpCode (Message.success m) retryIn

/-- One round of the loop over the injected list. -/
def injectedRound (env : Env ω) (r : ReqId) (s : Loop ω) : Loop ω :=
  let s := if (s.req r).onComplete then (s.callOnComplete env r).2 else s
  s.curlEventRequestDestroy r

/-- `injected_requests` is reset. -/
def detachInjected (s : Loop ω) : Loop ω := { s with injectedRequests := none }

/-- The second part of `process_completed_requests`. -/
def processInjected (env : Env ω) (s : Loop ω) : Loop ω :=
  s.detachInjected.forEachPending s.injectedRequests (injectedRound env)

/-- `process_completed_requests`, on the messages `curl_multi_info_read` has to offer. -/
def processCompletedRequests (env : Env ω) (s : Loop ω) (msgs : List Message) : Loop ω :=
  (msgs.foldl (fun s m => s.completedRound env m) s).processInjected env

/-! ### Destruction -/

/-- One round of a loop of `curl_event_loop_destroy` over a map. -/
def destroyMapRound (m : MapId) (r : ReqId) (s : Loop ω) : ForInStep (Loop ω) :=
  .yield (((s.follow r).eraseMap m r).curlEventRequestDestroy r)

/-- A loop of `curl_event_loop_destroy` over a map. -/
def destroyMap (m : MapId) (s : Loop ω) : Loop ω :=
  OrderedMap.whileFirst (fun t : Loop ω => (t.maps m).head?) (destroyMapRound m) (s.maps m).length s

/-- A round of the loops of `curl_event_loop_destroy` over the lists. -/
def destroyRound (r : ReqId) (s : Loop ω) : Loop ω := s.curlEventRequestDestroy r

/-- The locked section of `curl_event_loop_destroy`. -/
def destroyLists (s : Loop ω) : Loop ω :=
  let s := (s.forEachCancelled s.cancelledRequests destroyRound).detachCancelled
  let s := (s.forEachPending s.pendingRequests destroyRound).detachPending
  (s.forEachPending s.injectedRequests destroyRound).detachInjected

/-- `curl_event_loop_destroy`. -/
def curlEventLoopDestroy (env : Env ω) (s : Loop ω) : Loop ω :=
  let s := s.destroyMap .queued
  let s := s.destroyMap .inactive
  let s := s.destroyMap .refresh
  let s := s.destroyMap .rateLimited
  s.destroyLists.curlResourceDestroyAll env

end Loop

end CurlLoop
