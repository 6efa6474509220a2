import CurlLoop.Backoff
import CurlLoop.Headers
import CurlLoop.Lib.CText
import CurlLoop.Refresh

/-!
# The calls that build a request, and the options of its transfer

A request is built by calls, each of which writes a field or two, and `setup_curl_handle` turns the
fields into options of an easy handle. The calls come in any order, before the submission or, from
`on_prepare` or between two attempts, after it.

The private fields of the request are not looked at here, see `Loop.setupCurlHandle`. A function that
takes a format is the same as the one that takes the text it yields. No option depends on the sink or
the plugin data, and they are left out. `on_prepare` makes calls and says whether the request is to be
started.

## Main definitions

* `Draft` — a request, with the fields only the options depend on
* `EasyOptions` — what an easy handle is told
* `BuildCall` — the calls that build a request
* `Draft.setupCurlHandle` — from the fields to the options
* `Stage` — what happens to a request: calls and attempts
* `Memory.built` — the memory of a loop, if all requests were built by calls
-/

namespace CurlLoop

/-! ### The fields -/

/-- What the ajson library is asked for: a new root, an array or an object, and the text of a tree. -/
structure Ajson (J : Type) where
  root : (arrayRoot : Bool) → J
  stringify : J → Option String

/-- `curl_event_request_t`, with the fields that only the options of the transfer depend on. -/
structure Draft (J : Type) where
  req : Request
  connectTimeout : ℤ
  transferTimeout : ℤ
  lowSpeedLimit : ℤ
  lowSpeedTime : ℤ
  /-- `-1` is the default of the loop. -/
  http3Override : ℤ
  jsonRoot : Option J
  jsonSetCt : Bool

namespace Draft

variable {J : Type}

/-- `curl_event_request_init`. -/
def curlEventRequestInit : Draft J where
  req := .init
  connectTimeout := 0
  transferTimeout := 0
  lowSpeedLimit := 0
  lowSpeedTime := 0
  http3Override := -1
  jsonRoot := none
  jsonSetCt := true

/-- A write to the fields of `Request`. -/
def onReq (d : Draft J) (f : Request → Request) : Draft J := { d with req := f d.req }

def curlEventRequestUrl (d : Draft J) (url : String) : Draft J :=
  d.onReq fun q => { q with url := some url }

def curlEventRequestMethod (d : Draft J) (method : String) : Draft J :=
  d.onReq fun q => { q with method := some method }

def curlEventRequestBody (d : Draft J) (body : String) : Draft J :=
  d.onReq fun q => { q with postData := some body }

def curlEventRequestAddHeader (d : Draft J) (name value : CString) : Draft J :=
  d.onReq fun q => CurlLoop.curlEventRequestAddHeader q name value

def curlEventRequestSetHeader (d : Draft J) (name value : CString) : Draft J :=
  d.onReq fun q => CurlLoop.curlEventRequestSetHeader q name value

/-- `if (!req->method) req->method = …`. -/
def defaultMethod (d : Draft J) (method : String) : Draft J :=
  d.onReq fun q => { q with method := some (q.method.getD method) }

/-- `curl_event_request_set_header(req, "Content-Type", "application/json")`. -/
def setJsonType (d : Draft J) : Draft J :=
  d.curlEventRequestSetHeader (.ofString "Content-Type") (.ofString "application/json")

def curlEventRequestJsonBody (d : Draft J) (json : String) : Draft J :=
  (d.setJsonType.onReq fun q => { q with postData := some json }).defaultMethod "POST"

def curlEventRequestApplyBrowserProfile (d : Draft J) (uaOpt alOpt : Option CString) : Draft J :=
  d.onReq fun q => CurlLoop.curlEventRequestApplyBrowserProfile q uaOpt alOpt

/-- A resource `0` is none. -/
def curlEventRequestDepend (d : Draft J) (id : ResId) : Draft J :=
  if id = 0 then d else d.onReq fun q => { q with depHead := id :: q.depHead }

def curlEventRequestDependMany (d : Draft J) (ids : List ResId) : Draft J :=
  ids.foldl curlEventRequestDepend d

def curlEventRequestRateLimit (d : Draft J) (key : Key) (highPriority : Bool) : Draft J :=
  d.onReq fun q => { q with rateLimit := some key, rateLimitHighPriority := highPriority }

def curlEventRequestConnectTimeout (d : Draft J) (secs : ℤ) : Draft J :=
  { d with connectTimeout := secs }

def curlEventRequestTransferTimeout (d : Draft J) (secs : ℤ) : Draft J :=
  { d with transferTimeout := secs }

def curlEventRequestLowSpeed (d : Draft J) (bytesPerSec timeSecs : ℤ) : Draft J :=
  { d with lowSpeedLimit := bytesPerSec, lowSpeedTime := timeSecs }

def curlEventRequestMaxRetries (d : Draft J) (maxRetries : ℤ) : Draft J :=
  d.onReq fun q => { q with maxRetries := maxRetries }

def curlEventRequestBackoffFactor (d : Draft J) (factor : ℚ) : Draft J :=
  d.onReq fun q => { q with backoffFactor := factor }

def curlEventRequestEnableRetries (d : Draft J) (maxRetries : ℤ) (backoffFactor : ℚ)
    (minDelayMs maxDelayMs : ℕ) (fullJitter : Bool) : Draft J :=
  d.onReq fun q => q.enableRetries maxRetries backoffFactor minDelayMs maxDelayMs fullJitter

def curlEventRequestEnableRefresh (d : Draft J) (intervalMs : ℕ) : Draft J :=
  d.onReq fun q => q.curlEventRequestEnableRefresh intervalMs

/-! A callback is given by whether it is `NULL`. -/

def curlEventRequestOnComplete (d : Draft J) (cb : Bool) : Draft J :=
  d.onReq fun q => { q with onComplete := cb }

def curlEventRequestOnFailure (d : Draft J) (cb : Bool) : Draft J :=
  d.onReq fun q => { q with onFailure := cb }

def curlEventRequestOnWrite (d : Draft J) (cb : Bool) : Draft J :=
  d.onReq fun q => { q with writeCb := cb }

def curlEventRequestOnRetry (d : Draft J) (cb : Bool) : Draft J :=
  d.onReq fun q => { q with onRetry := if cb then some .user else none }

def curlEventRequestOnPrepare (d : Draft J) (cb : Bool) : Draft J :=
  d.onReq fun q => { q with onPrepare := cb }

def curlEventRequestShouldRefresh (d : Draft J) : Draft J :=
  d.onReq fun q => { q with shouldRefresh := true }

def curlEventRequestMaxDownloadSize (d : Draft J) (bytes : ℤ) : Draft J :=
  d.onReq fun q => { q with maxDownloadSize := bytes }

def curlEventRequestPriority (d : Draft J) (priority : ℤ) : Draft J :=
  d.onReq fun q => { q with priority := priority }

def curlEventRequestHttp3 (d : Draft J) (enable : Bool) : Draft J :=
  { d with http3Override := if enable then 1 else 0 }

/-- The tree is made once. -/
def curlEventRequestJsonBegin (ajson : Ajson J) (d : Draft J) (arrayRoot : Bool) : Draft J :=
  if d.jsonRoot.isSome then d
  else { d with jsonRoot := some (ajson.root arrayRoot) }.defaultMethod "POST"

/-- The user writes to the tree, which he has from `curl_event_request_json_begin` or
`curl_event_request_json_root`. -/
def editJson (d : Draft J) (f : J → J) : Draft J := { d with jsonRoot := d.jsonRoot.map f }

def curlEventRequestJsonAutocontenttype (d : Draft J) (enable : Bool) : Draft J :=
  { d with jsonSetCt := enable }

/-- The tree is rendered, unless there is a body. -/
def curlEventRequestJsonCommit (ajson : Ajson J) (d : Draft J) : Draft J :=
  match d.jsonRoot with
  | none => d
  | some root =>
    if d.req.postData.isSome then d
    else match ajson.stringify root with
      | none => d
      | some text =>
        let d := d.onReq fun q => { q with postData := some text }
        let d := if d.jsonSetCt then d.setJsonType else d
        d.defaultMethod "POST"

/-- The method that `curl_event_request_submit` finalizes. -/
def inferMethod (d : Draft J) : Draft J :=
  d.defaultMethod (if d.req.postData.isSome then "POST" else "GET")

end Draft

/-! ### The options -/

/-- `strcasecmp` finds no difference. -/
def sameLetters (a b : String) : Bool :=
  (CString.ofString a).map CText.toLower == (CString.ofString b).map CText.toLower

/-- The options of an easy handle that `setup_curl_handle` may set. -/
@[ext]
structure EasyOptions where
  url : Option String
  acceptEncoding : Option String
  /-- The request `header_callback` is given. -/
  headerData : Option ReqId
  post : Bool
  upload : Bool
  customRequest : Option String
  postFields : Option String
  httpHeader : Option (List CString)
  connectTimeout : Option ℤ
  timeout : Option ℤ
  lowSpeedLimit : Option ℤ
  lowSpeedTime : Option ℤ
  /-- `CURLOPT_HTTP_VERSION` is `CURL_HTTP_VERSION_3`. -/
  httpVersion3 : Bool
  /-- The request `write_thunk` is given. -/
  writeData : Option ReqId
  priv : Option ReqId
  /-- The handle shares the cache of the loop. -/
  share : Bool
deriving DecidableEq, Repr

/-- What `curl_easy_init` returns. -/
def EasyOptions.fresh : EasyOptions :=
  ⟨none, none, none, false, false, none, none, none, none, none, none, none, false, none, none,
    false⟩

/-- The options a method and a body lead to. -/
def EasyOptions.setMethod (e : EasyOptions) (method : String) (postData : Option String) :
    EasyOptions :=
  if sameLetters method "POST" then
    let e := { e with post := true }
    if postData.isSome then { e with postFields := postData } else e
  else if sameLetters method "PUT" then
    let e := { e with upload := true }
    if postData.isSome then { e with postFields := postData } else e
  else if sameLetters method "DELETE" then { e with customRequest := some "DELETE" }
  else if sameLetters method "PATCH" then
    let e := { e with customRequest := some "PATCH" }
    if postData.isSome then { e with postFields := postData } else e
  else e

/-- Where the transfer goes, and who reads the header. -/
def EasyOptions.setTarget (e : EasyOptions) (r : ReqId) (url : Option String)
    (maxDownloadSize : ℤ) : EasyOptions :=
  let e := { e with url := url, acceptEncoding := some "" }
  if maxDownloadSize > 0 then { e with headerData := some r } else e

def EasyOptions.setHeaders (e : EasyOptions) (headers : List CString) : EasyOptions :=
  if headers ≠ [] then { e with httpHeader := some headers } else e

/-- Timeouts and speed limits. -/
def EasyOptions.setTimeouts (e : EasyOptions)
    (connectTimeout transferTimeout lowSpeedLimit lowSpeedTime : ℤ) : EasyOptions :=
  let e := if connectTimeout > 0 then { e with connectTimeout := some connectTimeout } else e
  let e := if transferTimeout > 0 then { e with timeout := some transferTimeout } else e
  let e := if lowSpeedLimit > 0 then { e with lowSpeedLimit := some lowSpeedLimit } else e
  if lowSpeedTime > 0 then { e with lowSpeedTime := some lowSpeedTime } else e

/-- The default of the loop, unless the request overrides it. -/
def EasyOptions.setHttp3 (e : EasyOptions) (enableHttp3 : Bool) (http3Override : ℤ) : EasyOptions :=
  let useHttp3 := enableHttp3
  let useHttp3 := if http3Override = 0 then false else useHttp3
  let useHttp3 := if http3Override = 1 then true else useHttp3
  if useHttp3 then { e with httpVersion3 := true } else e

/-- `setup_curl_handle`, from the first call of `curl_easy_setopt` on. -/
def Draft.setOptions {J : Type} (ajson : Ajson J) (r : ReqId) (enableHttp3 : Bool) (d : Draft J) :
    EasyOptions × Draft J :=
  let e := EasyOptions.fresh.setTarget r d.req.url d.req.maxDownloadSize
  let d := if d.jsonRoot.isSome ∧ d.req.postData.isNone then d.curlEventRequestJsonCommit ajson
    else d
  let method := d.req.method.getD (if d.req.postData.isSome then "POST" else "GET")
  let e := e.setMethod method d.req.postData
  let e := e.setHeaders d.req.headers
  let e := e.setTimeouts d.connectTimeout d.transferTimeout d.lowSpeedLimit d.lowSpeedTime
  let e := e.setHttp3 enableHttp3 d.http3Override
  ({ e with writeData := some r, priv := some r, share := true }, d)

/-! ### The calls -/

/-- The calls that build a request, by its user or in `on_prepare`, and the one that submits it. -/
inductive BuildCall (J : Type)
  | url (url : String)
  | method (method : String)
  | body (body : String)
  | jsonBody (json : String)
  | addHeader (name value : CString)
  | setHeader (name value : CString)
  | applyBrowserProfile (uaOpt alOpt : Option CString)
  | depend (id : ResId)
  | dependMany (ids : List ResId)
  | rateLimit (key : Key) (highPriority : Bool)
  | connectTimeout (secs : ℤ)
  | transferTimeout (secs : ℤ)
  | lowSpeed (bytesPerSec timeSecs : ℤ)
  | maxRetries (maxRetries : ℤ)
  | backoffFactor (factor : ℚ)
  | enableRetries (maxRetries : ℤ) (backoffFactor : ℚ) (minDelayMs maxDelayMs : ℕ)
      (fullJitter : Bool)
  | enableRefresh (intervalMs : ℕ)
  | onComplete (cb : Bool)
  | onFailure (cb : Bool)
  | onWrite (cb : Bool)
  | onRetry (cb : Bool)
  | onPrepare (cb : Bool)
  | shouldRefresh
  | maxDownloadSize (bytes : ℤ)
  | priority (priority : ℤ)
  | http3 (enable : Bool)
  | jsonBegin (arrayRoot : Bool)
  | editJson (f : J → J)
  | jsonAutocontenttype (enable : Bool)
  | jsonCommit
  /-- `curl_event_request_submit` finalizes the method. -/
  | submit

variable {J : Type}

/-- A call is made. -/
def BuildCall.apply (ajson : Ajson J) (d : Draft J) : BuildCall J → Draft J
  | .url u => d.curlEventRequestUrl u
  | .method m => d.curlEventRequestMethod m
  | .body b => d.curlEventRequestBody b
  | .jsonBody json => d.curlEventRequestJsonBody json
  | .addHeader name value => d.curlEventRequestAddHeader name value
  | .setHeader name value => d.curlEventRequestSetHeader name value
  | .applyBrowserProfile uaOpt alOpt => d.curlEventRequestApplyBrowserProfile uaOpt alOpt
  | .depend id => d.curlEventRequestDepend id
  | .dependMany ids => d.curlEventRequestDependMany ids
  | .rateLimit key highPriority => d.curlEventRequestRateLimit key highPriority
  | .connectTimeout secs => d.curlEventRequestConnectTimeout secs
  | .transferTimeout secs => d.curlEventRequestTransferTimeout secs
  | .lowSpeed bytesPerSec timeSecs => d.curlEventRequestLowSpeed bytesPerSec timeSecs
  | .maxRetries n => d.curlEventRequestMaxRetries n
  | .backoffFactor factor => d.curlEventRequestBackoffFactor factor
  | .enableRetries n factor minMs maxMs jitter =>
    d.curlEventRequestEnableRetries n factor minMs maxMs jitter
  | .enableRefresh intervalMs => d.curlEventRequestEnableRefresh intervalMs
  | .onComplete cb => d.curlEventRequestOnComplete cb
  | .onFailure cb => d.curlEventRequestOnFailure cb
  | .onWrite cb => d.curlEventRequestOnWrite cb
  | .onRetry cb => d.curlEventRequestOnRetry cb
  | .onPrepare cb => d.curlEventRequestOnPrepare cb
  | .shouldRefresh => d.curlEventRequestShouldRefresh
  | .maxDownloadSize bytes => d.curlEventRequestMaxDownloadSize bytes
  | .priority n => d.curlEventRequestPriority n
  | .http3 enable => d.curlEventRequestHttp3 enable
  | .jsonBegin arrayRoot => d.curlEventRequestJsonBegin ajson arrayRoot
  | .editJson f => d.editJson f
  | .jsonAutocontenttype enable => d.curlEventRequestJsonAutocontenttype enable
  | .jsonCommit => d.curlEventRequestJsonCommit ajson
  | .submit => d.inferMethod

/-- The request after a list of calls. -/
def Draft.run (ajson : Ajson J) (d : Draft J) (cs : List (BuildCall J)) : Draft J :=
  cs.foldl (BuildCall.apply ajson) d

/-- A request that was built by a list of calls. -/
def Draft.built (ajson : Ajson J) (cs : List (BuildCall J)) : Draft J :=
  Draft.run ajson .curlEventRequestInit cs

theorem Draft.run_append (ajson : Ajson J) (d : Draft J) (cs cs' : List (BuildCall J)) :
    d.run ajson (cs ++ cs') = (d.run ajson cs).run ajson cs' := List.foldl_append ..

/-! ### In the memory of a loop -/

section

variable (ajson : Ajson J) (d : Draft J) (c : BuildCall J)

/-- The fields that say whether a request was submitted. -/
def Draft.privates (d : Draft J) : Bool × Option EasyId × Bool × Bool × Bool × Bool :=
  (d.req.multiHandle, d.req.easyHandle, d.req.isInjected, d.req.isCancelled, d.req.isPending,
    d.req.depsRetained)

theorem Draft.privates_depend (id : ResId) :
    (d.curlEventRequestDepend id).privates = d.privates := by
  rw [curlEventRequestDepend]
  split <;> rfl

theorem Draft.privates_dependMany (ids : List ResId) :
    (d.curlEventRequestDependMany ids).privates = d.privates := by
  rw [curlEventRequestDependMany]
  induction ids generalizing d with
  | nil => rfl
  | cons id ids ih => exact (ih _).trans (d.privates_depend id)

/-- A call writes public fields only. -/
theorem BuildCall.privates_apply : (c.apply ajson d).privates = d.privates := by
  cases c with
  | depend id => exact d.privates_depend id
  | dependMany ids => exact d.privates_dependMany ids
  | jsonBegin arrayRoot =>
    rw [BuildCall.apply, Draft.curlEventRequestJsonBegin]
    split <;> rfl
  | jsonCommit =>
    rw [BuildCall.apply, Draft.curlEventRequestJsonCommit]
    split
    · rfl
    · split
      · rfl
      · split
        · rfl
        · dsimp only
          split <;> rfl
  | _ => rfl

theorem Draft.privates_built (cs : List (BuildCall J)) :
    (Draft.built ajson cs).privates = (false, none, false, false, false, false) := by
  have hrun : ∀ d : Draft J, (d.run ajson cs).privates = d.privates := by
    induction cs with
    | nil => exact fun d => rfl
    | cons c cs ih => exact fun d => (ih _).trans (c.privates_apply ajson d)
  exact hrun .curlEventRequestInit

/-- **Whatever calls built a request, it may be submitted.** -/
theorem Draft.unsubmitted_built (cs : List (BuildCall J)) :
    (Draft.built ajson cs).req.Unsubmitted := by
  have h := Draft.privates_built ajson cs
  simp only [Draft.privates, Prod.mk.injEq] at h
  obtain ⟨hmulti, heasy, hinjected, hcancelled, hpending, hretained⟩ := h
  exact ⟨hmulti, heasy, hinjected, hcancelled, hpending, hretained⟩

/-- The memory of a loop whose requests were built by calls. -/
def Memory.built (calls : ReqId → List (BuildCall J)) : Memory where
  req r := (Draft.built ajson (calls r)).req
  unsubmitted r := Draft.unsubmitted_built ajson (calls r)

end

/-- What `BuildCall.submit` does is what `curl_event_request_submit` does to the method. -/
theorem method_submit {ω : Type} (env : Env ω) (s : Loop ω) (r : ReqId) (priority : ℤ)
    (d : Draft J) (hd : s.req r = d.req) (htaken : (s.curlEventRequestSubmit env r priority).1) :
    ((s.curlEventRequestSubmit env r priority).2.req r).method = d.inferMethod.req.method := by
  have hpush : ∀ t : Loop ω, ((t.pushPending r).req r).method = (t.req r).method := by
    intro t
    rw [Loop.pushPending]
    change ((Function.update t.req r _) r).method = _
    rw [Function.update_self]
    rfl
  rw [Loop.curlEventRequestSubmit] at htaken ⊢
  split
  · rename_i h
    simp [h] at htaken
  · split
    · rename_i h h'
      simp [h, h'] at htaken
    · refine (hpush _).trans ?_
      change ((Function.update s.req r _) r).method = _
      have hask : (s.ask env.macroNow).2.req r = d.req := hd
      rw [Function.update_self, hask]
      rfl

/-! ### Convenience builders -/

section

variable (url : String) (writeCb onComplete : Bool)

/-- The callbacks a convenience builder is given, if they are not `NULL`. -/
def Draft.withCallbacks (d : Draft J) : Draft J :=
  let d := if writeCb then d.curlEventRequestOnWrite true else d
  if onComplete then d.curlEventRequestOnComplete true else d

def curlEventRequestBuildGet : Draft J :=
  let d := Draft.curlEventRequestInit.curlEventRequestUrl url
  (d.curlEventRequestMethod "GET").withCallbacks writeCb onComplete

def curlEventRequestBuildPost (body : Option String) (contentType : Option CString) : Draft J :=
  let d := Draft.curlEventRequestInit.curlEventRequestUrl url
  let d := d.curlEventRequestMethod "POST"
  let d := match body with
    | some body => d.curlEventRequestBody body
    | none => d
  let d := match contentType with
    | some type => d.curlEventRequestSetHeader (.ofString "Content-Type") type
    | none => d
  d.withCallbacks writeCb onComplete

/-- The serializer is the one `curl_event_set_ajson_serializer` was given, if any. -/
def curlEventRequestBuildPostJson (serialize : Option (J → Option String)) (json : J) : Draft J :=
  let d := Draft.curlEventRequestInit.curlEventRequestUrl url
  let d := (d.curlEventRequestMethod "POST").setJsonType
  let d := match serialize with
    | some serialize => d.curlEventRequestBody ((serialize json).getD "{}")
    | none => d.curlEventRequestBody "{}"
  d.withCallbacks writeCb onComplete

/-- The calls `withCallbacks` makes. -/
def callbackCalls : List (BuildCall J) :=
  (if writeCb then [.onWrite true] else []) ++ if onComplete then [.onComplete true] else []

theorem run_callbackCalls (ajson : Ajson J) (d : Draft J) :
    d.run ajson (callbackCalls writeCb onComplete) = d.withCallbacks writeCb onComplete := by
  cases writeCb <;> cases onComplete <;> rfl

/-! The builders make calls and do nothing else. -/

theorem buildGet_eq (ajson : Ajson J) : curlEventRequestBuildGet url writeCb onComplete =
    Draft.built ajson ([.url url, .method "GET"] ++ callbackCalls writeCb onComplete) := by
  rw [Draft.built, Draft.run_append, run_callbackCalls]
  rfl

theorem buildPost_eq (ajson : Ajson J) (body : Option String) (contentType : Option CString) :
    curlEventRequestBuildPost url writeCb onComplete body contentType =
      Draft.built ajson ([.url url, .method "POST"] ++ (body.map .body).toList ++
        (contentType.map (.setHeader (.ofString "Content-Type"))).toList ++
        callbackCalls writeCb onComplete) := by
  rw [Draft.built, Draft.run_append, run_callbackCalls]
  cases body <;> cases contentType <;> rfl

theorem buildPostJson_eq (ajson : Ajson J) (serialize : Option (J → Option String)) (json : J) :
    curlEventRequestBuildPostJson url writeCb onComplete serialize json =
      Draft.built ajson ([.url url, .method "POST",
        .setHeader (.ofString "Content-Type") (.ofString "application/json"),
        .body (((serialize.map fun f => f json).getD none).getD "{}")] ++
        callbackCalls writeCb onComplete) := by
  rw [Draft.built, Draft.run_append, run_callbackCalls]
  cases serialize <;> rfl

end

/-! ### Attempts -/

/-- `setup_curl_handle`: the options, if it comes to that. `on_prepare` answers and has made calls,
and `curl_easy_init` may fail. -/
def Draft.setupCurlHandle (ajson : Ajson J) (d : Draft J) (r : ReqId) (enableHttp3 : Bool)
    (prepare : Bool × List (BuildCall J)) (allocated : Bool) : Option EasyOptions × Draft J :=
  let (prepared, d) := if d.req.onPrepare then (prepare.1, d.run ajson prepare.2) else (true, d)
  if prepared then
    if allocated then
      let (e, d) := d.setOptions ajson r enableHttp3
      (some e, d)
    else (none, d)
  else (none, d)

/-- What happens to a request. -/
inductive Stage (J : Type)
  | call (c : BuildCall J)
  /-- The request is started. -/
  | attempt (enableHttp3 : Bool) (prepare : Bool × List (BuildCall J)) (allocated : Bool)

namespace Stage

variable (ajson : Ajson J) (r : ReqId)

/-- The request, and the options it was started with, oldest first. -/
def step (p : Draft J × List EasyOptions) : Stage J → Draft J × List EasyOptions
  | .call c => (c.apply ajson p.1, p.2)
  | .attempt enableHttp3 prepare allocated =>
    let (e, d) := p.1.setupCurlHandle ajson r enableHttp3 prepare allocated
    (d, p.2 ++ e.toList)

def run (stages : List (Stage J)) : Draft J × List EasyOptions :=
  stages.foldl (step ajson r) (.curlEventRequestInit, [])

end Stage

end CurlLoop
