import CurlLoop.Lib.IntrusiveList
import CurlLoop.Resource
import Mathlib.Algebra.GroupWithZero.Nat
import Mathlib.Data.Rat.Defs
import Mathlib.Logic.Function.Basic

/-!
# The state of an event loop

`struct curl_event_loop_s`, the requests it owns, and the part of libcurl's multi handle that the
loop relies on.

## Pointers

A request is known by its address, `ReqId`. Its public and private fields are a record,
`Request`, and `Loop.req` is the memory that holds the records. The two link fields
`next_pending` and `next_cancelled` are kept as columns of their own, `Loop.nextPending` and
`Loop.nextCancelled`: they are what the intrusive lists are made of, and a function that does not
touch a list then leaves its column alone by definition. A list is represented by its head
pointer, exactly as in C, so a link written twice really does tie a knot.

The four `macro_map_t` containers of requests are lists in key order, see
`CurlLoop.Lib.OrderedMap`. They and their counters are columns as well, indexed by `MapId`:
`maps .queued` is `loop->queued_requests` and `num .queued` is `loop->num_queued_requests`. The
rate-limited map has no counter in C, and `num .rateLimited` is never written. Erasing a request
from a map it is not in has no defined effect in C; here it leaves the map alone.

The fields of type `int` (the counters, `current_retries`, `max_retries`, `priority`) are integers
without bounds. A run that takes one of them out of the range of an `int` has no defined behaviour in
C and is left out: what is said of it here says nothing of the program.

## The outside world

Everything the loop asks for and cannot know is answered by an `Env ω`, which reads and updates a
world of an arbitrary type `ω`: the clock, the rate manager, libcurl's readiness to hand out an
easy handle, and the user's callbacks. A statement about every environment and every world
covers every sequence of answers. A completion or failure callback answers with the number it
returns and with the library calls it made before it returned: a `Call` where the callback runs
between two requests of a pass, an `ApiCall` where `curl_event_res_publish` runs it in the middle
of a waiting list. `on_prepare` and `on_retry` call nothing.

## What is recorded

`accepted`, `copied`, `destroyed`, `afterFree`, `posted`, `applied`, `trace` and `hazards` are not
fields of the C loop. They record, newest first, the requests handed to the loop, the requests that
`curl_event_loop_inject` made a wrapper of, the calls of `curl_event_request_destroy`, the requests
whose memory a list or map entry led to after they were destroyed, the operations pushed on the
inbox, those applied, and the callbacks and starts. Memory that has been given back keeps its last
contents in the model; a run that has something in `afterFree` has left the C program's defined
behaviour at that point.

A wrapper shares the pool, the headers and the sink of the request it was made of, and its
destruction frees them. So a request that is injected hands over its memory, as one that is submitted
does, and to do both, in either order, is a hazard.

`hazards` records every step taken in a situation the code is not prepared for, see `Hazard`. It is
written where the step is taken and read by nothing.

## Main definitions

* `Request`, `Loop` — the two structures
* `Env`, `Reply`, `ApiCall`, `Call` — the world outside
* `Memory` — the requests before they are submitted
* `Hazard` — the situations the code is not prepared for
* `Multi` — the easy handles attached to the multi handle, and which of them are finished
-/

namespace CurlLoop

/-- A rate-limit key. -/
abbrev Key := String

/-- A C string, without its terminating zero. -/
abbrev CString := List UInt8

/-- The bytes of a string literal. -/
def CString.ofString (s : String) : CString := s.toUTF8.data.toList

/-- The byte of `':'`. -/
def colon : UInt8 := 58

/-- An easy handle. -/
abbrev EasyId := ℕ

/-- The values of `CURLcode` the loop distinguishes. -/
inductive CurlCode
  | ok
  | abortedByCallback
  /-- Any other transfer error, by its number. -/
  | other (code : ℕ)
deriving DecidableEq, Repr

/-- What `on_retry` may point to. -/
inductive RetryPolicy
  /-- `default_calculate_retry_enhanced`. -/
  | defaultEnhanced
  /-- A callback of the user. -/
  | user
deriving DecidableEq, Repr

/-- `curl_event_loop_request_t`, less its two link fields. Of a callback other than `on_retry` it
matters only whether it is set. -/
structure Request where
  url : Option String
  method : Option String
  postData : Option String
  /-- The lines of `headers`, a `struct curl_slist`. -/
  headers : List CString
  depHead : List ResId
  rateLimit : Option Key
  rateLimitHighPriority : Bool
  maxRetries : ℤ
  /-- A `double`, read as the rational it is. -/
  backoffFactor : ℚ
  minBackoffDelayMs : ℕ
  maxBackoffDelayMs : ℕ
  fullJitter : Bool
  onComplete : Bool
  onFailure : Bool
  writeCb : Bool
  onRetry : Option RetryPolicy
  onPrepare : Bool
  shouldRefresh : Bool
  maxDownloadSize : ℤ
  priority : ℤ
  refreshIntervalMs : ℕ
  currentRetries : ℤ
  nextRetryAt : ℕ
  startTime : ℕ
  requestStartTime : ℕ
  /-- Whether `multi_handle` is set. -/
  multiHandle : Bool
  easyHandle : Option EasyId
  contentLength : ℤ
  contentLengthFound : Bool
  bytesDownloaded : ℤ
  isInjected : Bool
  isCancelled : Bool
  isPending : Bool
  depsRetained : Bool
deriving DecidableEq, Repr

/-- What `curl_event_request_init` returns. -/
def Request.init : Request where
  url := none
  method := none
  postData := none
  headers := []
  depHead := []
  rateLimit := none
  rateLimitHighPriority := false
  maxRetries := 0
  backoffFactor := 2
  minBackoffDelayMs := 0
  maxBackoffDelayMs := 0
  fullJitter := true
  onComplete := true
  onFailure := true
  writeCb := true
  onRetry := none
  onPrepare := false
  shouldRefresh := false
  maxDownloadSize := 0
  priority := 0
  refreshIntervalMs := 0
  currentRetries := 0
  nextRetryAt := 0
  startTime := 0
  requestStartTime := 0
  multiHandle := false
  easyHandle := none
  contentLength := -1
  contentLengthFound := false
  bytesDownloaded := 0
  isInjected := false
  isCancelled := false
  isPending := false
  depsRetained := false

/-- The wrapper `curl_event_loop_inject` allocates for a request: its public fields are copied, its
private fields are zero but for the mark that it is injected. -/
def Request.injected (q : Request) : Request :=
  { q with
    currentRetries := 0
    multiHandle := false
    easyHandle := none
    contentLength := 0
    contentLengthFound := false
    bytesDownloaded := 0
    isInjected := true
    isCancelled := false
    isPending := false
    depsRetained := false }

/-! The other writes to a request that leave most of it alone. -/

/-- The request will be due at a time. -/
def Request.dueAt (q : Request) (time : ℕ) : Request := { q with nextRetryAt := time }

/-- `is_pending` is written. -/
def Request.setPending (q : Request) (b : Bool) : Request := { q with isPending := b }

/-- `is_cancelled` is set. -/
def Request.markCancelled (q : Request) : Request := { q with isCancelled := true }

/-- `deps_retained` is written. -/
def Request.setRetained (q : Request) (b : Bool) : Request := { q with depsRetained := b }

/-- What `curl_event_loop_request_cleanup` leaves. -/
def Request.cleaned (q : Request) : Request :=
  { q with
    easyHandle := none
    multiHandle := if q.easyHandle.isSome then false else q.multiHandle
    contentLengthFound := false
    contentLength := -1
    bytesDownloaded := 0 }

/-- What `setup_curl_handle` leaves before a handle is allocated. -/
def Request.reset (q : Request) : Request :=
  { q with
    easyHandle := none
    contentLengthFound := false
    contentLength := -1
    bytesDownloaded := 0 }

/-- The request has an easy handle. -/
def Request.withHandle (q : Request) (easy : EasyId) : Request := { q with easyHandle := some easy }

/-- The request has been attached to the multi handle. -/
def Request.activated (q : Request) (now : ℕ) : Request :=
  { q with requestStartTime := now, multiHandle := true }

/-- The private fields are as `curl_event_request_init` left them. The builder functions write
public fields only, so every request that was never submitted is unsubmitted in this sense. -/
structure Request.Unsubmitted (q : Request) : Prop where
  multiHandle : q.multiHandle = false
  easyHandle : q.easyHandle = none
  isInjected : q.isInjected = false
  isCancelled : q.isCancelled = false
  isPending : q.isPending = false
  depsRetained : q.depsRetained = false

/-- An easy handle attached to the multi handle. -/
structure Transfer where
  easy : EasyId
  /-- `CURLINFO_PRIVATE`: the request it was set up for. -/
  priv : ReqId
  /-- Whether its `CURLMSG_DONE` message has been read. libcurl reports a transfer once. -/
  reported : Bool
deriving DecidableEq, Repr

/-- The multi handle: the attached easy handles, and the next handle libcurl will allocate. -/
structure Multi where
  transfers : List Transfer
  nextEasy : EasyId
deriving DecidableEq, Repr

/-- Read the message of a transfer. -/
def Multi.report (m : Multi) (easy : EasyId) : Multi :=
  { m with transfers := m.transfers.map fun t =>
      if t.easy = easy then { t with reported := true } else t }

/-- `curl_multi_add_handle`. -/
def Multi.attach (m : Multi) (easy : EasyId) (priv : ReqId) : Multi :=
  { m with transfers := ⟨easy, priv, false⟩ :: m.transfers }

/-- `curl_multi_remove_handle`. -/
def Multi.detach (m : Multi) (easy : EasyId) : Multi :=
  { m with transfers := m.transfers.filter fun t => t.easy ≠ easy }

/-- A `CURLMSG_DONE` message: the easy handle, its result, and its response code. -/
structure Message where
  easy : EasyId
  result : CurlCode
  httpCode : ℤ
deriving DecidableEq, Repr

/-- The kinds of `res_op_t`. -/
inductive ResOpKind
  | register
  | publish
  | release
deriving DecidableEq, Repr

/-- `res_op_t`, an operation posted to the inbox. The thread that posts it is recorded with it, and
nothing reads it. -/
structure ResOp where
  kind : ResOpKind
  id : ResId
  payload : Option Payload
  cleanup : Bool
  poster : ℕ
deriving DecidableEq, Repr

/-- `curl_event_metrics_t`. -/
structure Metrics where
  totalRequests : ℕ
  completedRequests : ℕ
  failedRequests : ℕ
  retriedRequests : ℕ
deriving DecidableEq, Repr

/-- A call of one of the functions that are safe from any thread. -/
inductive ApiCall
  /-- `curl_event_request_submit(loop, req, priority)`. -/
  | submit (r : ReqId) (priority : ℤ)
  /-- `curl_event_loop_submit(loop, req, priority)`. -/
  | loopSubmit (r : ReqId) (priority : ℤ)
  /-- `curl_event_loop_cancel(loop, req)`. -/
  | cancel (r : ReqId)
  /-- `curl_event_loop_inject(loop, req)`, with the address of the new wrapper. -/
  | inject (w r : ReqId)
  /-- `curl_event_res_register_async(loop, payload, cleanup)` on a thread. -/
  | registerAsync (thread : ℕ) (payload : Option Payload) (cleanup : Bool)
  /-- `curl_event_res_publish_async(loop, id, payload, cleanup)` on a thread. -/
  | publishAsync (thread : ℕ) (id : ResId) (payload : Option Payload) (cleanup : Bool)
  /-- `curl_event_res_release_async(loop, id)` on a thread. -/
  | releaseAsync (thread : ℕ) (id : ResId)
deriving DecidableEq, Repr

/-- A call made on the loop thread, outside the functions of the loop. -/
inductive Call
  | api (c : ApiCall)
  | declare
  | register (payload : Option Payload) (cleanup : Bool)
  | publish (id : ResId) (payload : Option Payload) (cleanup : Bool)
  | addref (id : ResId)
  | release (id : ResId)
  | autoreleaseOwner (id : ResId) (enable : Bool)
deriving DecidableEq, Repr

/-- What a callback does: the calls it makes, first to last, and the number it returns. -/
structure Reply (κ : Type) where
  ret : ℤ
  calls : List κ

/-- Everything the loop asks of the outside. -/
structure Env (ω : Type) where
  /-- `macro_now()`, nanoseconds. -/
  macroNow : ω → ℕ × ω
  rateManagerCanProceed : Key → Bool → ω → ℕ × ω
  rateManagerStartRequest : Key → Bool → ω → ℕ × ω
  rateManagerRequestDone : Key → ω → ω
  rateManagerHandle429 : Key → ω → ℤ × ω
  /-- Whether `curl_easy_init` returns a handle. -/
  curlEasyInit : ω → Bool × ω
  onPrepare : ReqId → ω → Bool × ω
  /-- A user's `on_retry`: its answer, and the `next_retry_at` it leaves. -/
  onRetry : ReqId → Request → ω → (Bool × ℕ) × ω
  /-- `compute_backoff_ms` for the request, whose `current_retries` is already raised. -/
  computeBackoffMs : Request → ω → ℕ × ω
  onComplete : ReqId → ω → Reply Call × ω
  /-- `on_failure` after a transfer. -/
  onFailure : ReqId → EasyId → CurlCode → ℤ → ω → Reply Call × ω
  /-- `on_failure` without an easy handle, when a dependency failed. -/
  onAborted : ReqId → ω → Reply ApiCall × ω

/-- An uneventful world: the clock stands still, nothing is throttled, every handle can be had, and
the callbacks do nothing. -/
def Env.uneventful : Env Unit where
  macroNow _ := (0, ())
  rateManagerCanProceed _ _ _ := (0, ())
  rateManagerStartRequest _ _ _ := (0, ())
  rateManagerRequestDone _ _ := ()
  rateManagerHandle429 _ _ := (1, ())
  curlEasyInit _ := (true, ())
  onPrepare _ _ := (true, ())
  onRetry _ _ _ := ((false, 0), ())
  computeBackoffMs _ _ := (0, ())
  onComplete _ _ := (⟨0, []⟩, ())
  onFailure _ _ _ _ _ := (⟨0, []⟩, ())
  onAborted _ _ := (⟨0, []⟩, ())

/-- What the model records of a run. -/
inductive Event
  /-- The request was attached to the multi handle. -/
  | started (r : ReqId)
  /-- `on_complete` was called. -/
  | onComplete (r : ReqId)
  /-- `on_failure` was called with this result and response code. -/
  | onFailure (r : ReqId) (code : CurlCode) (httpCode : ℤ)
  /-- A callback pointer that is `NULL` was called for the request. -/
  | nullCall (r : ReqId)
deriving DecidableEq, Repr

/-- The maps of requests: `queued_requests`, `inactive_requests`, `refresh_requests` and
`rate_limited_requests`. -/
inductive MapId
  /-- Active in the multi handle. -/
  | queued
  /-- Waiting for a retry time. -/
  | inactive
  /-- Waiting for a periodic re-run. -/
  | refresh
  /-- Delayed by the token bucket. -/
  | rateLimited
deriving DecidableEq, Repr

/-- The situations the code is not prepared for. The first two are the caller's doing. -/
inductive Hazard
  /-- An address is handed to the loop a second time, by itself or through a wrapper that shares its
  memory. -/
  | resubmitted (r : ReqId)
  /-- A request the loop does not own is cancelled. -/
  | notOwned (r : ReqId)
  /-- The last request of the cancelled list is cancelled again. Its `next_cancelled` is `NULL`,
  which `curl_event_loop_cancel` takes to mean that it is not on the list. -/
  | cancelledTwice (r : ReqId)
  /-- A request is destroyed while it is on the cancelled list. -/
  | destroyedCancelled (r : ReqId)
  /-- A request is taken off the cancelled list and is not in the map its fields name. -/
  | misplaced (r : ReqId)
  /-- A resource is freed while requests wait for it. -/
  | abandoned (id : ResId)
  /-- A callback run by `curl_event_loop_destroy` calls the library. The call is not carried out. -/
  | lateCall (r : ReqId)
deriving DecidableEq, Repr

/-- The requests before they are submitted. -/
structure Memory where
  req : ReqId → Request
  unsubmitted : ∀ r, (req r).Unsubmitted

/-- Requests with a URL and the dependencies given for each, and otherwise as
`curl_event_request_init` leaves them. -/
def Memory.plain (deps : ReqId → List ResId) : Memory where
  req r := { Request.init with url := some "u", depHead := deps r }
  unsubmitted _ := ⟨rfl, rfl, rfl, rfl, rfl, rfl⟩

/-- `struct curl_event_loop_s`, with the memory of its requests. -/
structure Loop (ω : Type) where
  world : ω
  req : ReqId → Request
  nextPending : ReqId → Option ReqId
  nextCancelled : ReqId → Option ReqId
  /-- The four maps of requests. -/
  maps : MapId → List ReqId
  /-- `num_queued_requests`, `num_inactive_requests` and `num_refresh_requests`. -/
  num : MapId → ℤ
  resources : Resources
  /-- The inbox, a stack: the operation pushed last comes first. -/
  resInbox : List ResOp
  numMultiRequests : ℤ
  maxConcurrentRequests : ℕ
  keepRunning : Bool
  metrics : Metrics
  cancelledRequests : Option ReqId
  pendingRequests : Option ReqId
  injectedRequests : Option ReqId
  multi : Multi
  accepted : List ReqId
  copied : List ReqId
  destroyed : List ReqId
  afterFree : List ReqId
  posted : List ResOp
  applied : List ResOp
  trace : List Event
  hazards : List Hazard

variable {ω : Type}

/-- The loop `curl_event_loop_init` returns. -/
def curlEventLoopInit (mem : Memory) (world : ω) : Loop ω where
  world := world
  req := mem.req
  nextPending := fun _ => none
  nextCancelled := fun _ => none
  maps := fun _ => []
  num := fun _ => 0
  resources := .init
  resInbox := []
  numMultiRequests := 0
  maxConcurrentRequests := 1000
  keepRunning := true
  metrics := ⟨0, 0, 0, 0⟩
  cancelledRequests := none
  pendingRequests := none
  injectedRequests := none
  multi := ⟨[], 0⟩
  accepted := []
  copied := []
  destroyed := []
  afterFree := []
  posted := []
  applied := []
  trace := []
  hazards := []

namespace Loop

/-- A request the loop owns: handed to it, and not yet destroyed. -/
def Live (s : Loop ω) (r : ReqId) : Prop := r ∈ s.accepted ∧ r ∉ s.destroyed

instance (s : Loop ω) (r : ReqId) : Decidable (s.Live r) :=
  inferInstanceAs (Decidable (_ ∧ _))

/-- The loop has the memory of a request: it was handed to the loop, or a wrapper was made of it. -/
def HandedOver (s : Loop ω) (r : ReqId) : Prop := r ∈ s.accepted ∨ r ∈ s.copied

instance (s : Loop ω) (r : ReqId) : Decidable (s.HandedOver r) :=
  inferInstanceAs (Decidable (_ ∨ _))

/-- Ask the outside world a question. -/
def ask {β : Type} (s : Loop ω) (f : ω → β × ω) : β × Loop ω :=
  ((f s.world).1, { s with world := (f s.world).2 })

/-- Write fields of a request. -/
def modifyReq (s : Loop ω) (r : ReqId) (f : Request → Request) : Loop ω :=
  { s with req := Function.update s.req r (f (s.req r)) }

/-- Write the link `next_pending` of a request. -/
def setNextPending (s : Loop ω) (r : ReqId) (next : Option ReqId) : Loop ω :=
  { s with nextPending := Function.update s.nextPending r next }

/-- Write a map. -/
def setMap (s : Loop ω) (m : MapId) (map : List ReqId) : Loop ω :=
  { s with maps := Function.update s.maps m map }

/-- Write the store of resources. -/
def setResources (s : Loop ω) (store : Resources) : Loop ω := { s with resources := store }

/-- Record an event. -/
def emit (s : Loop ω) (e : Event) : Loop ω := { s with trace := e :: s.trace }

/-- Record a hazard, where there is one. -/
def beware (s : Loop ω) (c : Prop) [Decidable c] (h : Hazard) : Loop ω :=
  { s with hazards := if c then h :: s.hazards else s.hazards }

/-- Follow a list or map entry to the request it names. -/
def follow (s : Loop ω) (r : ReqId) : Loop ω :=
  if r ∈ s.destroyed then { s with afterFree := r :: s.afterFree } else s

/-- `curl_event_request_insert`, on a map held in a local variable: the key is
`next_retry_at`. -/
def requestInsert (s : Loop ω) (r : ReqId) (map : List ReqId) : List ReqId :=
  OrderedMap.insertMulti (fun a => (s.req a).nextRetryAt) r map

/-- `curl_event_request_insert(&loop->map, req)`. -/
def insertMap (s : Loop ω) (m : MapId) (r : ReqId) : Loop ω :=
  s.setMap m (s.requestInsert r (s.maps m))

/-- `macro_map_erase(&loop->map, req)`. -/
def eraseMap (s : Loop ω) (m : MapId) (r : ReqId) : Loop ω :=
  s.setMap m ((s.maps m).erase r)

@[simp] theorem maps_insertMap (s : Loop ω) (m : MapId) (r : ReqId) :
    (s.insertMap m r).maps = Function.update s.maps m (s.requestInsert r (s.maps m)) := rfl

@[simp] theorem maps_eraseMap (s : Loop ω) (m : MapId) (r : ReqId) :
    (s.eraseMap m r).maps = Function.update s.maps m ((s.maps m).erase r) := rfl

theorem maps_follow (s : Loop ω) (r : ReqId) : (s.follow r).maps = s.maps := by
  rw [follow]
  split <;> rfl

/-- Add to the counter of a map. -/
def addNum (s : Loop ω) (m : MapId) (d : ℤ) : Loop ω :=
  { s with num := Function.update s.num m (s.num m + d) }

/-- The requests met along `next_pending` from a head pointer. A list of the loop holds requests
it was handed, so their number is fuel enough. -/
def pendingChain (s : Loop ω) (head : Option ReqId) : List ReqId :=
  Intrusive.walk s.nextPending s.accepted.length head

/-- The requests met along `next_cancelled` from `cancelled_requests`. -/
def cancelledList (s : Loop ω) : List ReqId :=
  Intrusive.walk s.nextCancelled s.accepted.length s.cancelledRequests

/-- Run `body` over the requests linked by `next_pending` from a head pointer. -/
def forEachPending (s : Loop ω) (head : Option ReqId) (body : ReqId → Loop ω → Loop ω) : Loop ω :=
  Intrusive.forEach (fun t r => t.nextPending r) (fun r t => body r (t.follow r))
    s.accepted.length head s

/-- Run `body` over the requests linked by `next_cancelled` from a head pointer. -/
def forEachCancelled (s : Loop ω) (head : Option ReqId) (body : ReqId → Loop ω → Loop ω) :
    Loop ω :=
  Intrusive.forEach (fun t r => t.nextCancelled r) (fun r t => body r (t.follow r))
    s.accepted.length head s

end Loop

/-- An `int` converted to `size_t`. -/
def sizeT (n : ℤ) : ℕ := (n % 2 ^ 64).toNat

/-- Arithmetic on `uint64_t`. -/
def u64 (n : ℤ) : ℕ := (n % 2 ^ 64).toNat

theorem u64_eq_iff {n : ℕ} : u64 n = n ↔ n < 2 ^ 64 := by
  rw [u64]
  omega

/-- Arithmetic on `long`. -/
def wrapLong (n : ℤ) : ℤ := Int.bmod n (2 ^ 64)

theorem wrapLong_of_lt {n : ℤ} (hle : -2 ^ 63 ≤ n) (hlt : n < 2 ^ 63) : wrapLong n = n := by
  exact Int.bmod_eq_of_le_mul_two (by omega) (by omega)

/-- `macro_now_add_seconds(n)` at a clock reading. -/
def macroNowAddSeconds (now : ℕ) (n : ℤ) : ℕ := u64 (now + n * 1000000000)

end CurlLoop
