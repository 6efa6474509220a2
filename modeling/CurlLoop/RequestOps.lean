import CurlLoop.State

/-!
# Handing requests over, starting them, tearing them down

The functions of `curl_event_request.c` and `curl_event_loop.c` that act on one request:
submission, cancellation, injection, the start of a transfer, and destruction.

Setting up an easy handle is modelled as far as the loop depends on it. The options given to
libcurl (`curl_easy_setopt`) shape the transfer and nothing else, so of `setup_curl_handle` there
remain the resets, the call of `on_prepare`, and the allocation. Freeing the memory of a request
likewise remains as the entry it leaves in `destroyed`.

## Main definitions

* `curlEventRequestSubmit`, `curlEventLoopSubmit`, `curlEventLoopInject`, `curlEventLoopCancel`
* `inboxPush` and the `_async` functions
* `apiCall` — any of these
* `curlEventLoopRequestCleanup`, `curlEventRequestDestroy`
* `setupCurlHandle`, `curlEventLoopRequestStart`
-/

namespace CurlLoop

variable {ω : Type}

namespace Loop

/-! ### Submission -/

/-- The locked section both submission functions end in. -/
def pushPending (s : Loop ω) (r : ReqId) : Loop ω :=
  let s := s.beware (s.HandedOver r) (.resubmitted r)
  let s := s.modifyReq r fun q => q.setPending true
  { s.setNextPending r s.pendingRequests with
    pendingRequests := some r
    metrics := { s.metrics with totalRequests := s.metrics.totalRequests + 1 }
    accepted := r :: s.accepted }

/-- The time a request submitted at `now` with a priority is due: priority is worth seconds, and
a negative one counts for nothing. -/
def submitRetryAt (now : ℕ) (pri : ℤ) : ℕ :=
  let adj := (if pri > 0 then pri else 0).toNat * 1000000000
  if pri ≠ 0 ∧ adj < now then now - adj else now

/-- `curl_event_request_submit`. The boolean says whether the request was taken. -/
def curlEventRequestSubmit (env : Env ω) (s : Loop ω) (r : ReqId) (priority : ℤ) :
    Bool × Loop ω :=
  let q := s.req r
  if q.url = none then (false, s)
  else if q.isPending ∨ q.multiHandle then (false, s)
  else
    let (now, s) := s.ask env.macroNow
    let pri := if priority ≠ 0 then priority else q.priority
    let s := s.modifyReq r fun q => { q with
      method := some (q.method.getD (if q.postData.isSome then "POST" else "GET"))
      onRetry := if q.onRetry = none ∧ q.maxRetries ≠ 0 then some .defaultEnhanced else q.onRetry
      nextRetryAt := submitRetryAt now pri
      startTime := now
      requestStartTime := now }
    (true, s.pushPending r)

/-- `curl_event_loop_submit`. -/
def curlEventLoopSubmit (env : Env ω) (s : Loop ω) (r : ReqId) (priority : ℤ) : Loop ω :=
  let (now, s) := s.ask env.macroNow
  let due := u64 (now - priority * 1000000000)
  let s := s.modifyReq r fun q => { q with
    nextRetryAt := due
    startTime := due
    requestStartTime := due }
  s.pushPending r

/-- `curl_event_loop_inject`: `w` is the address of the wrapper. -/
def curlEventLoopInject (s : Loop ω) (w r : ReqId) : Loop ω :=
  -- the wrapper frees what it shares with `r`, whoever else has it
  let s := s.beware (s.HandedOver r) (.resubmitted r)
  let s := s.beware (s.HandedOver w ∨ w = r) (.resubmitted w)
  let s := s.modifyReq w fun _ => (s.req r).injected
  { s.setNextPending w s.injectedRequests with
    injectedRequests := some w
    accepted := w :: s.accepted
    copied := r :: s.copied }

/-- `curl_event_loop_cancel`. The boolean is the value it returns. -/
def curlEventLoopCancel (s : Loop ω) (r : ReqId) : Bool × Loop ω :=
  let s := s.beware (¬ s.Live r) (.notOwned r)
  if (s.nextCancelled r).isSome then (false, s)
  else
    let s := s.modifyReq r Request.markCancelled
    if (s.req r).isPending then (true, s)
    else
      let s := s.beware (r ∈ s.cancelledList) (.cancelledTwice r)
      (true, { s with
        nextCancelled := Function.update s.nextCancelled r s.cancelledRequests
        cancelledRequests := some r })

/-! ### The inbox -/

/-- `inbox_push`, which is one atomic exchange of the head. -/
def inboxPush (s : Loop ω) (op : ResOp) : Loop ω :=
  { s with resInbox := op :: s.resInbox, posted := op :: s.posted }

/-- `curl_event_res_register_async`: the id is drawn when the operation is posted. -/
def curlEventResRegisterAsync (s : Loop ω) (thread : ℕ) (payload : Option Payload)
    (cleanup : Bool) : ResId × Loop ω :=
  let id := s.resources.gNextId
  (id, { s with resources := { s.resources with gNextId := id + 1 } }.inboxPush
    ⟨.register, id, payload, cleanup, thread⟩)

/-- `curl_event_res_publish_async`. -/
def curlEventResPublishAsync (s : Loop ω) (thread : ℕ) (id : ResId) (payload : Option Payload)
    (cleanup : Bool) : Loop ω := s.inboxPush ⟨.publish, id, payload, cleanup, thread⟩

/-- `curl_event_res_release_async`. -/
def curlEventResReleaseAsync (s : Loop ω) (thread : ℕ) (id : ResId) : Loop ω :=
  s.inboxPush ⟨.release, id, none, false, thread⟩

/-- A call that is safe from any thread. -/
def apiCall (env : Env ω) (s : Loop ω) : ApiCall → Loop ω
  | .submit r priority => (s.curlEventRequestSubmit env r priority).2
  | .loopSubmit r priority => s.curlEventLoopSubmit env r priority
  | .cancel r => (s.curlEventLoopCancel r).2
  | .inject w r => s.curlEventLoopInject w r
  | .registerAsync thread payload cleanup => (s.curlEventResRegisterAsync thread payload cleanup).2
  | .publishAsync thread id payload cleanup => s.curlEventResPublishAsync thread id payload cleanup
  | .releaseAsync thread id => s.curlEventResReleaseAsync thread id

/-- The calls of a callback, first to last. -/
def apiCalls (env : Env ω) (s : Loop ω) (calls : List ApiCall) : Loop ω :=
  calls.foldl (fun s c => s.apiCall env c) s

/-! ### Tear-down -/

/-- `curl_event_loop_request_cleanup`. -/
def curlEventLoopRequestCleanup (s : Loop ω) (r : ReqId) : Loop ω :=
  let q := s.req r
  let s := { s with
    multi := match q.easyHandle with
      | some e => if q.multiHandle then s.multi.detach e else s.multi
      | none => s.multi
    numMultiRequests := if q.easyHandle.isSome ∧ q.multiHandle then s.numMultiRequests - 1
      else s.numMultiRequests }
  s.modifyReq r Request.cleaned

/-- `if (req->deps_retained) …` of `curl_event_request_destroy`. -/
def releaseRetained (s : Loop ω) (r : ReqId) : Loop ω :=
  let q := s.req r
  { s.modifyReq r fun q => q.setRetained false with
    resources := if q.depsRetained then s.resources.curlResourceReleaseRequestDeps q.depHead
      else s.resources }

theorem multi_cleanup (s : Loop ω) (r : ReqId) :
    (s.curlEventLoopRequestCleanup r).multi = match (s.req r).easyHandle with
      | some e => if (s.req r).multiHandle then s.multi.detach e else s.multi
      | none => s.multi := rfl

/-- `curl_event_request_destroy`. -/
def curlEventRequestDestroy (s : Loop ω) (r : ReqId) : Loop ω :=
  let s := s.beware (r ∈ s.cancelledList) (.destroyedCancelled r)
  let s := (s.curlEventLoopRequestCleanup r).releaseRetained r
  { s with destroyed := r :: s.destroyed }

/-! Destruction leaves the lists, the maps and the counters alone. -/

@[simp] theorem maps_destroy (s : Loop ω) (r : ReqId) :
    (s.curlEventRequestDestroy r).maps = s.maps := rfl

@[simp] theorem trace_destroy (s : Loop ω) (r : ReqId) :
    (s.curlEventRequestDestroy r).trace = s.trace := rfl

@[simp] theorem world_destroy (s : Loop ω) (r : ReqId) :
    (s.curlEventRequestDestroy r).world = s.world := rfl

@[simp] theorem maxConcurrentRequests_destroy (s : Loop ω) (r : ReqId) :
    (s.curlEventRequestDestroy r).maxConcurrentRequests = s.maxConcurrentRequests := rfl

@[simp] theorem nextPending_destroy (s : Loop ω) (r : ReqId) :
    (s.curlEventRequestDestroy r).nextPending = s.nextPending := rfl

@[simp] theorem nextCancelled_destroy (s : Loop ω) (r : ReqId) :
    (s.curlEventRequestDestroy r).nextCancelled = s.nextCancelled := rfl

@[simp] theorem cancelledRequests_destroy (s : Loop ω) (r : ReqId) :
    (s.curlEventRequestDestroy r).cancelledRequests = s.cancelledRequests := rfl

@[simp] theorem accepted_destroy (s : Loop ω) (r : ReqId) :
    (s.curlEventRequestDestroy r).accepted = s.accepted := rfl

@[simp] theorem destroyed_destroy (s : Loop ω) (r : ReqId) :
    (s.curlEventRequestDestroy r).destroyed = r :: s.destroyed := rfl

/-! ### Starting a transfer -/

/-- The request gets the next easy handle. -/
def newHandle (s : Loop ω) (r : ReqId) : Loop ω :=
  { s with multi := { s.multi with nextEasy := s.multi.nextEasy + 1 } }.modifyReq r
    fun q => q.withHandle s.multi.nextEasy

/-- `setup_curl_handle`, as far as the loop depends on it. -/
def setupCurlHandle (env : Env ω) (s : Loop ω) (r : ReqId) : Bool × Loop ω :=
  let s := s.modifyReq r Request.reset
  let (prepared, s) := if (s.req r).onPrepare then s.ask (env.onPrepare r) else (true, s)
  if prepared then
    let (allocated, s) := s.ask env.curlEasyInit
    if allocated then (true, s.newHandle r) else (false, s)
  else (false, s)

/-- `curl_multi_add_handle` and the bookkeeping after it. -/
def activate (env : Env ω) (s : Loop ω) (r : ReqId) : Loop ω :=
  let s := { s.emit (.started r) with
    multi := match (s.req r).easyHandle with
      | some e => s.multi.attach e r
      | none => s.multi }
  let (now, s) := s.ask env.macroNow
  let s := { s with numMultiRequests := s.numMultiRequests + 1 }.modifyReq r
    fun q => q.activated now
  (s.insertMap .queued r).addNum .queued 1

theorem multi_activate (env : Env ω) (s : Loop ω) (r : ReqId) :
    (s.activate env r).multi = match (s.req r).easyHandle with
      | some e => s.multi.attach e r
      | none => s.multi := rfl

/-- Park a request in `rate_limited_requests` until it is due. -/
def parkRateLimited (s : Loop ω) (r : ReqId) (due : ℕ) : Loop ω :=
  (s.modifyReq r fun q => q.dueAt due).insertMap .rateLimited r

/-- `curl_event_loop_request_start`. Its callers do not look at the value it returns. -/
def curlEventLoopRequestStart (env : Env ω) (s : Loop ω) (r : ReqId) : Loop ω :=
  let q := s.req r
  let (next, s) := match q.rateLimit with
    | some key => s.ask (env.rateManagerStartRequest key q.rateLimitHighPriority)
    | none => (0, s)
  if next ≠ 0 then s.parkRateLimited r next
  else
    let (ok, s) := s.setupCurlHandle env r
    if ok then s.activate env r
    else s.curlEventRequestDestroy r

end Loop

end CurlLoop
