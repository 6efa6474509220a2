import CurlLoop.Lib.Hindsight
import CurlLoop.RequestDraft

/-!
# The options of a transfer, in hindsight

The calls that build a request and the options that `setup_curl_handle` sets are far apart: the
method may be given, or inferred by any of five functions; the body may be given, or rendered from a
JSON tree by `curl_event_request_json_commit`, which the user may call and which an attempt calls
otherwise.

In hindsight the options can be told from the calls alone (`declared`), with no fields in between.
An option that one call decides is decided by the latest such call. The method is the latest that was
given; if none was, it is the first that was inferred, which is `POST` if something that gives a body
came before, and `GET` otherwise. The body is the latest that was given; if none was, the tree as it
was at the first commit. The last point has a consequence for a request that is tried again: a tree
is rendered once, and what is done to it afterwards is not sent.

## Main definitions

* `bodyOf`, `methodOf`, `headersOf` — what cannot be told from one call
* `declared` — from the calls to the options
* `Stage.foreseen` — the options of all attempts

## Main results

* `Draft.wire_built` — the fields of a request, in hindsight
* `Stage.run_eq_foreseen` — at every attempt the two ways agree
* `declared_append_quiet`, `setOptions_again` — what no longer matters
-/

namespace CurlLoop

open Hindsight

variable {J : Type}

/-! ### The calls, in hindsight -/

namespace BuildCall

/-! What a call says about a field, if it is one that decides it. -/

def url? : BuildCall J → Option String
  | .url u => some u
  | _ => none

def method? : BuildCall J → Option String
  | .method m => some m
  | _ => none

def body? : BuildCall J → Option String
  | .body b => some b
  | .jsonBody json => some json
  | _ => none

def connectTimeout? : BuildCall J → Option ℤ
  | .connectTimeout secs => some secs
  | _ => none

def transferTimeout? : BuildCall J → Option ℤ
  | .transferTimeout secs => some secs
  | _ => none

def lowSpeed? : BuildCall J → Option (ℤ × ℤ)
  | .lowSpeed bytesPerSec timeSecs => some (bytesPerSec, timeSecs)
  | _ => none

def maxDownloadSize? : BuildCall J → Option ℤ
  | .maxDownloadSize bytes => some bytes
  | _ => none

def http3? : BuildCall J → Option Bool
  | .http3 enable => some enable
  | _ => none

def jsonAutocontenttype? : BuildCall J → Option Bool
  | .jsonAutocontenttype enable => some enable
  | _ => none

def onPrepare? : BuildCall J → Option Bool
  | .onPrepare cb => some cb
  | _ => none

/-- The call gives a body, or the tree of one. -/
def givesBody : BuildCall J → Bool
  | .body _ | .jsonBody _ | .jsonBegin _ => true
  | _ => false

/-- What a call makes of the tree. -/
def tree (ajson : Ajson J) (root : Option J) : BuildCall J → Option J
  | .jsonBegin arrayRoot => some (root.getD (ajson.root arrayRoot))
  | .editJson f => root.map f
  | _ => root

end BuildCall

/-- The tree after a list of calls. -/
def treeOf (ajson : Ajson J) (cs : List (BuildCall J)) : Option J :=
  cs.foldl (BuildCall.tree ajson) none

/-- The text a call renders the tree to, if it is a commit. -/
def renders (ajson : Ajson J) (past : List (BuildCall J)) : BuildCall J → Option String
  | .jsonCommit => (treeOf ajson past).bind ajson.stringify
  | _ => none

/-- **The body**: the latest that was given, and the tree at the first commit if none was. -/
def bodyOf (ajson : Ajson J) (cs : List (BuildCall J)) : Option String :=
  (latest BuildCall.body? cs).or (first (renders ajson) cs)

/-- `POST` if there is something to send, and `GET` otherwise. -/
def naturalMethod (cs : List (BuildCall J)) : String :=
  if cs.any BuildCall.givesBody then "POST" else "GET"

/-- The method a call infers, unless there is one. -/
def infers (past : List (BuildCall J)) : BuildCall J → Option String
  | .jsonBody _ | .jsonBegin _ => some "POST"
  | .submit => some (naturalMethod past)
  | _ => none

/-- The method a request has: the latest that was given, and the first that was inferred if none
was. -/
def methodSet (cs : List (BuildCall J)) : Option String :=
  (latest BuildCall.method? cs).or (first infers cs)

/-- **The method** of the transfer. -/
def methodOf (cs : List (BuildCall J)) : String := (methodSet cs).getD (naturalMethod cs)

/-- What a call does to the lines of a request. -/
def HeaderCall.lines (l : List CString) : HeaderCall → List CString
  | .add name value => addHeaderLine l name value
  | .set name value => Overwrite.overwrite (IsLineFor name) (headerLine name value) l

/-- The call a commit makes for the type of the body. -/
def HeaderCall.jsonType : HeaderCall :=
  .set (.ofString "Content-Type") (.ofString "application/json")

/-- The calls of `curl_event_request_add_header` and `curl_event_request_set_header` a call makes. A
commit makes one if it renders the tree. -/
def headerCalls (ajson : Ajson J) (past : List (BuildCall J)) : BuildCall J → List HeaderCall
  | .addHeader name value => [.add name value]
  | .setHeader name value => [.set name value]
  | .jsonBody _ => [.jsonType]
  | .applyBrowserProfile uaOpt alOpt =>
    [.set (.ofString "User-Agent") (uaOpt.getD (.ofString
      ("Mozilla/5.0 (Macintosh; Intel Mac OS X 10_15_7) " ++
      "AppleWebKit/537.36 (KHTML, like Gecko) " ++ "Chrome/124.0.0.0 Safari/537.36"))),
      .set (.ofString "Accept")
        (.ofString "text/html,application/xhtml+xml,application/xml;q=0.9,*/*;q=0.8"),
      .set (.ofString "Accept-Language") (alOpt.getD (.ofString "en-US,en;q=0.9"))]
  | .jsonCommit =>
    if (bodyOf ajson past).isNone ∧ (renders ajson past .jsonCommit).isSome ∧
      (latest BuildCall.jsonAutocontenttype? past).getD true then [.jsonType] else []
  | _ => []

/-- **The headers.** -/
def headersOf (ajson : Ajson J) (cs : List (BuildCall J)) : List CString :=
  (collect (headerCalls ajson) cs).foldl HeaderCall.lines []

/-- A number that is an option only if it is positive. -/
def ifPositive (n : ℤ) : Option ℤ := if n > 0 then some n else none

/-- **The options of a transfer, in hindsight.** -/
def declared (ajson : Ajson J) (r : ReqId) (enableHttp3 : Bool) (cs : List (BuildCall J)) :
    EasyOptions :=
  let method := methodOf cs
  let sendsBody := sameLetters method "POST" || sameLetters method "PUT" ||
    sameLetters method "PATCH"
  { url := latest BuildCall.url? cs
    acceptEncoding := some ""
    headerData := if (latest BuildCall.maxDownloadSize? cs).getD 0 > 0 then some r else none
    post := sameLetters method "POST"
    upload := sameLetters method "PUT"
    customRequest := if sameLetters method "DELETE" then some "DELETE"
      else if sameLetters method "PATCH" then some "PATCH" else none
    postFields := if sendsBody then bodyOf ajson cs else none
    httpHeader := if headersOf ajson cs ≠ [] then some (headersOf ajson cs) else none
    connectTimeout := ifPositive ((latest BuildCall.connectTimeout? cs).getD 0)
    timeout := ifPositive ((latest BuildCall.transferTimeout? cs).getD 0)
    lowSpeedLimit := ifPositive ((latest BuildCall.lowSpeed? cs).getD (0, 0)).1
    lowSpeedTime := ifPositive ((latest BuildCall.lowSpeed? cs).getD (0, 0)).2
    httpVersion3 := (latest BuildCall.http3? cs).getD enableHttp3
    writeData := some r
    priv := some r
    share := true }

/-! ### The fields, in hindsight -/

namespace Draft

variable (ajson : Ajson J) (cs past : List (BuildCall J)) (c : BuildCall J) (d : Draft J)

theorem built_concat : built ajson (cs ++ [c]) = c.apply ajson (built ajson cs) := by
  rw [built, run, List.foldl_append]
  rfl

theorem built_append (cs' : List (BuildCall J)) :
    built ajson (cs ++ cs') = (built ajson cs).run ajson cs' := List.foldl_append ..

/-- The fields the options depend on, and `on_prepare`. -/
structure Wire (J : Type) where
  url : Option String
  method : Option String
  postData : Option String
  headers : List CString
  maxDownloadSize : ℤ
  connectTimeout : ℤ
  transferTimeout : ℤ
  lowSpeed : ℤ × ℤ
  http3Override : ℤ
  jsonRoot : Option J
  jsonSetCt : Bool
  onPrepare : Bool

def wire (d : Draft J) : Wire J where
  url := d.req.url
  method := d.req.method
  postData := d.req.postData
  headers := d.req.headers
  maxDownloadSize := d.req.maxDownloadSize
  connectTimeout := d.connectTimeout
  transferTimeout := d.transferTimeout
  lowSpeed := (d.lowSpeedLimit, d.lowSpeedTime)
  http3Override := d.http3Override
  jsonRoot := d.jsonRoot
  jsonSetCt := d.jsonSetCt
  onPrepare := d.req.onPrepare

/-- The fields after a list of calls, in hindsight. -/
def wireOf : Wire J where
  url := latest BuildCall.url? cs
  method := methodSet cs
  postData := bodyOf ajson cs
  headers := headersOf ajson cs
  maxDownloadSize := (latest BuildCall.maxDownloadSize? cs).getD 0
  connectTimeout := (latest BuildCall.connectTimeout? cs).getD 0
  transferTimeout := (latest BuildCall.transferTimeout? cs).getD 0
  lowSpeed := (latest BuildCall.lowSpeed? cs).getD (0, 0)
  http3Override := ((latest BuildCall.http3? cs).map fun enable => if enable then 1 else 0).getD (-1)
  jsonRoot := treeOf ajson cs
  jsonSetCt := (latest BuildCall.jsonAutocontenttype? cs).getD true
  onPrepare := (latest BuildCall.onPrepare? cs).getD false

/-! What the calls that take decisions do to these fields. -/

theorem wire_depend (id : ResId) : (d.curlEventRequestDepend id).wire = d.wire := by
  rw [curlEventRequestDepend]
  split <;> rfl

theorem wire_dependMany (ids : List ResId) : (d.curlEventRequestDependMany ids).wire = d.wire := by
  rw [curlEventRequestDependMany]
  induction ids generalizing d with
  | nil => rfl
  | cons id ids ih => exact (ih _).trans (wire_depend d id)

theorem wire_setHeader (name value : CString) : (d.curlEventRequestSetHeader name value).wire =
    { d.wire with headers := HeaderCall.lines d.req.headers (.set name value) } := by
  simp only [wire, curlEventRequestSetHeader, onReq, curlEventRequestSetHeader_eq]
  rfl

theorem wire_jsonBegin (arrayRoot : Bool) : (d.curlEventRequestJsonBegin ajson arrayRoot).wire =
    { d.wire with
      jsonRoot := some (d.jsonRoot.getD (ajson.root arrayRoot))
      method := if d.jsonRoot.isSome then d.req.method else some (d.req.method.getD "POST") } := by
  rw [curlEventRequestJsonBegin]
  cases hroot : d.jsonRoot with
  | none => rfl
  | some root => simp [wire, hroot]

/-- A commit that has nothing to render, or a body already, does nothing. -/
theorem commit_of_none {d : Draft J}
    (h : d.req.postData.isSome ∨ d.jsonRoot.bind ajson.stringify = none) :
    d.curlEventRequestJsonCommit ajson = d := by
  rw [curlEventRequestJsonCommit]
  split
  · rfl
  · rename_i root hroot
    split
    · rfl
    · rename_i hbody
      have htext := h.resolve_left hbody
      rw [hroot, Option.bind_some] at htext
      rw [htext]

/-- Otherwise it sets the body, and what goes with it. -/
theorem wire_commit_of_some {d : Draft J} {text : String} (hbody : d.req.postData = none)
    (h : d.jsonRoot.bind ajson.stringify = some text) :
    (d.curlEventRequestJsonCommit ajson).wire = { d.wire with
      postData := some text
      headers := if d.jsonSetCt then HeaderCall.lines d.req.headers .jsonType else d.req.headers
      method := some (d.req.method.getD "POST") } := by
  obtain ⟨root, hroot, htext⟩ := Option.bind_eq_some_iff.mp h
  rw [curlEventRequestJsonCommit, hroot]
  dsimp only
  rw [hbody, htext]
  simp only [Option.isSome_none, Bool.false_eq_true, ↓reduceIte, onReq]
  by_cases hct : d.jsonSetCt = true
  · simp only [hct, ↓reduceIte, wire, setJsonType, curlEventRequestSetHeader, defaultMethod, onReq,
      curlEventRequestSetHeader_eq]
    rfl
  · simp only [hct, Bool.false_eq_true, ↓reduceIte, wire, defaultMethod, onReq]

end Draft

section Hindsight

variable (ajson : Ajson J) (cs past : List (BuildCall J)) (c : BuildCall J)

theorem treeOf_concat : treeOf ajson (cs ++ [c]) = c.tree ajson (treeOf ajson cs) := by
  rw [treeOf, List.foldl_append]
  rfl

theorem bodyOf_concat : bodyOf ajson (cs ++ [c]) =
    c.body?.or ((bodyOf ajson cs).or (renders ajson cs c)) := by
  rw [bodyOf, latest_concat, first_concat, bodyOf]
  simp only [Option.or_assoc]

theorem methodSet_concat : methodSet (cs ++ [c]) =
    c.method?.or ((methodSet cs).or (infers cs c)) := by
  rw [methodSet, latest_concat, first_concat, methodSet]
  simp only [Option.or_assoc]

theorem headersOf_concat : headersOf ajson (cs ++ [c]) =
    (headerCalls ajson cs c).foldl HeaderCall.lines (headersOf ajson cs) := by
  rw [headersOf, collect_concat, List.foldl_append, headersOf]

/-- A request with a tree has a method. -/
theorem isSome_methodSet {cs : List (BuildCall J)} (h : (treeOf ajson cs).isSome) :
    (methodSet cs).isSome := by
  induction cs using List.reverseRecOn with
  | nil => cases h
  | append_singleton cs c ih =>
    rw [treeOf_concat] at h
    rw [methodSet_concat]
    cases c with
    | jsonBegin arrayRoot => cases hm : methodSet cs <;> rfl
    | editJson f => simp [ih (by simpa [BuildCall.tree] using h)]
    | _ => simp [ih h]

/-- Until a method is given or inferred, the body is what makes the method. -/
theorem naturalMethod_of_none {cs : List (BuildCall J)} (h : methodSet cs = none) :
    naturalMethod cs = if (bodyOf ajson cs).isSome then "POST" else "GET" := by
  have hany : cs.any BuildCall.givesBody = (bodyOf ajson cs).isSome := by
    induction cs using List.reverseRecOn with
    | nil => rfl
    | append_singleton cs c ih =>
      rw [methodSet_concat, Option.or_eq_none_iff, Option.or_eq_none_iff] at h
      obtain ⟨-, hcs, hc⟩ := h
      rw [List.any_append, ih hcs, bodyOf_concat]
      cases c with
      | jsonBody | jsonBegin | submit => cases hc
      | body b => simp [BuildCall.givesBody, BuildCall.body?]
      | jsonCommit =>
        have htree : treeOf ajson cs = none := by
          by_contra hsome
          have hset := isSome_methodSet ajson (Option.isSome_iff_ne_none.mpr hsome)
          rw [hcs] at hset
          cases hset
        simp [BuildCall.givesBody, BuildCall.body?, renders, htree]
      | _ => simp [BuildCall.givesBody, BuildCall.body?, renders]
  rw [naturalMethod, hany]

end Hindsight

namespace Draft

variable (ajson : Ajson J) (cs past : List (BuildCall J)) (c : BuildCall J) (d : Draft J)

/-- A field that is written only while it is empty. -/
def settle (old new : Option String) : Option String :=
  match new with
  | none => old
  | some text => some (old.getD text)

theorem settle_eq (old new : Option String) : settle old new = old.or new := by
  cases old <;> cases new <;> rfl

/-- The fields after a call, given what it infers, renders and does to the headers. -/
def Wire.after (p : Wire J) (inferred rendered : Option String) (calls : List HeaderCall) :
    Wire J where
  url := c.url?.or p.url
  method := c.method?.or (settle p.method inferred)
  postData := c.body?.or (settle p.postData rendered)
  headers := calls.foldl HeaderCall.lines p.headers
  maxDownloadSize := c.maxDownloadSize?.getD p.maxDownloadSize
  connectTimeout := c.connectTimeout?.getD p.connectTimeout
  transferTimeout := c.transferTimeout?.getD p.transferTimeout
  lowSpeed := c.lowSpeed?.getD p.lowSpeed
  http3Override := (c.http3?.map fun enable => if enable then 1 else 0).getD p.http3Override
  jsonRoot := c.tree ajson p.jsonRoot
  jsonSetCt := c.jsonAutocontenttype?.getD p.jsonSetCt
  onPrepare := c.onPrepare?.getD p.onPrepare

theorem after_wireOf : (wireOf ajson cs).after ajson c (infers cs c) (renders ajson cs c)
    (headerCalls ajson cs c) = wireOf ajson (cs ++ [c]) := by
  simp only [Wire.after, wireOf, settle_eq, latest_concat, methodSet_concat, bodyOf_concat,
    headersOf_concat, treeOf_concat, Option.getD_or, Option.map_or]

/-- **One call**, on a request whose fields are known. -/
theorem wire_apply (hd : d.wire = wireOf ajson cs) : (c.apply ajson d).wire =
    d.wire.after ajson c (infers cs c) (renders ajson cs c) (headerCalls ajson cs c) := by
  have hmethod : d.req.method = methodSet cs := congrArg Wire.method hd
  have hbody : d.req.postData = bodyOf ajson cs := congrArg Wire.postData hd
  have htree : d.jsonRoot = treeOf ajson cs := congrArg Wire.jsonRoot hd
  have hct : d.jsonSetCt = (latest BuildCall.jsonAutocontenttype? cs).getD true :=
    congrArg Wire.jsonSetCt hd
  cases c with
  | depend id => exact wire_depend d id
  | dependMany ids => exact wire_dependMany d ids
  | setHeader name value => exact wire_setHeader d name value
  | jsonBody json =>
    have htype := congrArg (fun p : Wire J => { p with
      postData := some json, method := some (d.req.method.getD "POST") }) (wire_setHeader d
        (.ofString "Content-Type") (.ofString "application/json"))
    exact htype
  | applyBrowserProfile uaOpt alOpt =>
    have hlines : (CurlLoop.curlEventRequestApplyBrowserProfile d.req uaOpt alOpt) = { d.req with
        headers := (headerCalls ajson cs (.applyBrowserProfile uaOpt alOpt)).foldl
          HeaderCall.lines d.req.headers } := by
      rw [CurlLoop.curlEventRequestApplyBrowserProfile]
      simp only [curlEventRequestSetHeader_eq, headerCalls, List.foldl_cons, List.foldl_nil,
        HeaderCall.lines]
    exact congrArg (fun q => Draft.wire { d with req := q }) hlines
  | jsonBegin arrayRoot =>
    refine (wire_jsonBegin ajson d arrayRoot).trans ?_
    split
    · rename_i hroot
      -- the method was set when the tree was made
      rw [htree] at hroot
      obtain ⟨m, hm⟩ := Option.isSome_iff_exists.mp (isSome_methodSet ajson hroot)
      have hset : d.req.method = some (d.req.method.getD "POST") := by rw [hmethod, hm]; rfl
      rw [hset]
      rfl
    · rfl
  | jsonCommit =>
    have hrenders : renders ajson cs .jsonCommit = d.jsonRoot.bind ajson.stringify := by
      rw [htree]
      rfl
    have hcalls : headerCalls ajson cs .jsonCommit = if d.req.postData.isNone ∧
        (d.jsonRoot.bind ajson.stringify).isSome ∧ d.jsonSetCt then [.jsonType] else [] := by
      rw [hbody, hct, ← hrenders]
      rfl
    rw [hrenders, hcalls]
    cases hdata : d.req.postData with
    | some body =>
      refine (congrArg wire (commit_of_none ajson (.inl (by rw [hdata]; rfl)))).trans ?_
      have hkeep : settle d.req.postData (d.jsonRoot.bind ajson.stringify) = d.req.postData := by
        rw [settle_eq, hdata]
        rfl
      exact congrArg (fun body => { d.wire with postData := body }) hkeep.symm
    | none =>
      cases htext : d.jsonRoot.bind ajson.stringify with
      | none => exact congrArg wire (commit_of_none ajson (.inr htext))
      | some text =>
        refine (wire_commit_of_some ajson hdata htext).trans ?_
        -- there is a tree, so the method is set
        have hroot : (treeOf ajson cs).isSome := by
          obtain ⟨root, hroot, -⟩ := Option.bind_eq_some_iff.mp htext
          rw [← htree, hroot]
          rfl
        obtain ⟨m, hm⟩ := Option.isSome_iff_exists.mp (isSome_methodSet ajson hroot)
        have hset : some (d.req.method.getD "POST") = d.req.method := by rw [hmethod, hm]; rfl
        have hbody' : some text = settle d.req.postData (some text) := by rw [hdata]; rfl
        conv_lhs => rw [hset, hbody']
        by_cases hflag : d.jsonSetCt = true
        · rw [if_pos hflag, if_pos ⟨rfl, rfl, hflag⟩]
          rfl
        · rw [if_neg hflag, if_neg fun h => hflag h.2.2]
          rfl
  | submit =>
    have hnatural : settle d.req.method (some (naturalMethod cs)) =
        some (d.req.method.getD (if d.req.postData.isSome then "POST" else "GET")) := by
      cases hm : d.req.method with
      | none =>
        rw [hbody, ← naturalMethod_of_none ajson (hmethod.symm.trans hm)]
        rfl
      | some m => rfl
    exact congrArg (fun m => { d.wire with method := m }) hnatural.symm
  | _ => rfl

/-- **The fields of a request**, whatever calls built it. -/
theorem wire_built : (built ajson cs).wire = wireOf ajson cs := by
  induction cs using List.reverseRecOn with
  | nil => rfl
  | append_singleton cs c ih =>
    rw [built_concat, wire_apply ajson cs c _ ih, ih, after_wireOf]

/-! ### The options, in hindsight -/

/-- A method has at most one of two names that differ in their letters. -/
theorem sameLetters_exclusive {m a b : String} (h : sameLetters m a) (hab : sameLetters a b = false) :
    sameLetters m b = false := by
  rw [sameLetters, beq_iff_eq] at h
  rw [sameLetters, h]
  exact hab

/-- The chain of comparisons, option by option. -/
theorem setMethod_eq {e : EasyOptions} (hpost : e.post = false) (hupload : e.upload = false)
    (hcustom : e.customRequest = none) (hfields : e.postFields = none) (method : String)
    (body : Option String) : e.setMethod method body = { e with
      post := sameLetters method "POST"
      upload := sameLetters method "PUT"
      customRequest := if sameLetters method "DELETE" then some "DELETE"
        else if sameLetters method "PATCH" then some "PATCH" else none
      postFields := if sameLetters method "POST" || sameLetters method "PUT" ||
        sameLetters method "PATCH" then body else none } := by
  obtain ⟨url, encoding, header, post, upload, custom, fields, list, connect, timeout, limit, time,
    http3, write, priv, share⟩ := e
  dsimp only at hpost hupload hcustom hfields
  subst hpost hupload hcustom hfields
  rw [EasyOptions.setMethod]
  by_cases h₁ : sameLetters method "POST"
  · have h₂ := sameLetters_exclusive h₁ (b := "PUT") (by decide)
    have h₃ := sameLetters_exclusive h₁ (b := "DELETE") (by decide)
    have h₄ := sameLetters_exclusive h₁ (b := "PATCH") (by decide)
    cases body <;> simp [h₁, h₂, h₃, h₄]
  by_cases h₂ : sameLetters method "PUT"
  · have h₃ := sameLetters_exclusive h₂ (b := "DELETE") (by decide)
    have h₄ := sameLetters_exclusive h₂ (b := "PATCH") (by decide)
    cases body <;> simp [h₁, h₂, h₃, h₄]
  by_cases h₃ : sameLetters method "DELETE"
  · have h₄ := sameLetters_exclusive h₃ (b := "PATCH") (by decide)
    simp [h₁, h₂, h₃, h₄]
  by_cases h₄ : sameLetters method "PATCH"
  · cases body <;> simp [h₁, h₂, h₃, h₄]
  · simp [h₁, h₂, h₃, h₄]

/-- The method that is compared, given the one that is set. -/
def Wire.sentMethod (p : Wire J) : String :=
  p.method.getD (if p.postData.isSome then "POST" else "GET")

def Wire.useHttp3 (p : Wire J) (enableHttp3 : Bool) : Bool :=
  if p.http3Override = 1 then true else if p.http3Override = 0 then false else enableHttp3

/-- The options a request leads to once its tree is rendered. -/
def options (r : ReqId) (enableHttp3 : Bool) (p : Wire J) : EasyOptions :=
  let method := p.sentMethod
  { url := p.url
    acceptEncoding := some ""
    headerData := if p.maxDownloadSize > 0 then some r else none
    post := sameLetters method "POST"
    upload := sameLetters method "PUT"
    customRequest := if sameLetters method "DELETE" then some "DELETE"
      else if sameLetters method "PATCH" then some "PATCH" else none
    postFields := if sameLetters method "POST" || sameLetters method "PUT" ||
      sameLetters method "PATCH" then p.postData else none
    httpHeader := if p.headers ≠ [] then some p.headers else none
    connectTimeout := ifPositive p.connectTimeout
    timeout := ifPositive p.transferTimeout
    lowSpeedLimit := ifPositive p.lowSpeed.1
    lowSpeedTime := ifPositive p.lowSpeed.2
    httpVersion3 := p.useHttp3 enableHttp3
    writeData := some r
    priv := some r
    share := true }

theorem setTarget_eq (e : EasyOptions) (r : ReqId) (url : Option String) (size : ℤ) :
    e.setTarget r url size = { e with
      url := url
      acceptEncoding := some ""
      headerData := if size > 0 then some r else e.headerData } := by
  rw [EasyOptions.setTarget]
  split <;> rfl

theorem setHeaders_eq (e : EasyOptions) (headers : List CString) : e.setHeaders headers =
    { e with httpHeader := if headers ≠ [] then some headers else e.httpHeader } := by
  rw [EasyOptions.setHeaders]
  split <;> rfl

theorem setTimeouts_eq {e : EasyOptions} (hconnect : e.connectTimeout = none)
    (htimeout : e.timeout = none) (hlimit : e.lowSpeedLimit = none) (htime : e.lowSpeedTime = none)
    (connect transfer limit time : ℤ) : e.setTimeouts connect transfer limit time = { e with
      connectTimeout := ifPositive connect
      timeout := ifPositive transfer
      lowSpeedLimit := ifPositive limit
      lowSpeedTime := ifPositive time } := by
  rw [EasyOptions.setTimeouts, ifPositive, ifPositive, ifPositive, ifPositive]
  cases e
  dsimp only at hconnect htimeout hlimit htime
  subst hconnect htimeout hlimit htime
  split <;> split <;> split <;> split <;> rfl

theorem setHttp3_eq {e : EasyOptions} (h : e.httpVersion3 = false) (enable : Bool) (n : ℤ) :
    e.setHttp3 enable n = { e with
      httpVersion3 := if n = 1 then true else if n = 0 then false else enable } := by
  have hflag : ∀ flag : Bool, (if flag then { e with httpVersion3 := true } else e) =
      { e with httpVersion3 := flag } := by
    intro flag
    cases flag with
    | false => exact (if_neg Bool.false_ne_true).trans (by rw [← h])
    | true => rfl
  exact hflag _

theorem setOptions_eq (r : ReqId) (enableHttp3 : Bool) : d.setOptions ajson r enableHttp3 =
    (options r enableHttp3 (d.curlEventRequestJsonCommit ajson).wire,
      d.curlEventRequestJsonCommit ajson) := by
  have hguard : (if d.jsonRoot.isSome ∧ d.req.postData.isNone then
      d.curlEventRequestJsonCommit ajson else d) = d.curlEventRequestJsonCommit ajson := by
    split
    · rfl
    · rename_i hno
      refine (commit_of_none ajson ?_).symm
      cases hdata : d.req.postData with
      | some body => exact .inl rfl
      | none =>
        cases hroot : d.jsonRoot with
        | none => exact .inr rfl
        | some root => exact absurd ⟨by rw [hroot]; rfl, by rw [hdata]; rfl⟩ hno
  have hsame : (d.curlEventRequestJsonCommit ajson).req.url = d.req.url ∧
      (d.curlEventRequestJsonCommit ajson).req.maxDownloadSize = d.req.maxDownloadSize := by
    cases hdata : d.req.postData with
    | some body =>
      rw [commit_of_none ajson (.inl (by rw [hdata]; rfl))]
      exact ⟨rfl, rfl⟩
    | none =>
      cases htext : d.jsonRoot.bind ajson.stringify with
      | none =>
        rw [commit_of_none ajson (.inr htext)]
        exact ⟨rfl, rfl⟩
      | some text =>
        have hwire := wire_commit_of_some ajson hdata htext
        exact ⟨congrArg Wire.url hwire, congrArg Wire.maxDownloadSize hwire⟩
  rw [setOptions, hguard, ← hsame.1, ← hsame.2]
  generalize d.curlEventRequestJsonCommit ajson = t
  rw [setTarget_eq, setMethod_eq rfl rfl rfl rfl, setHeaders_eq, setTimeouts_eq rfl rfl rfl rfl,
    setHttp3_eq rfl]
  rfl

theorem sentMethod_wireOf : (wireOf ajson cs).sentMethod = methodOf cs := by
  rw [Wire.sentMethod, methodOf]
  cases h : methodSet cs with
  | none =>
    rw [naturalMethod_of_none ajson h]
    exact congrArg (fun m : Option String => m.getD _) h
  | some m => exact congrArg (fun m : Option String => m.getD _) h

theorem useHttp3_wireOf (enableHttp3 : Bool) :
    (wireOf ajson cs).useHttp3 enableHttp3 = (latest BuildCall.http3? cs).getD enableHttp3 := by
  rw [Wire.useHttp3, wireOf]
  cases latest BuildCall.http3? cs with
  | none => rfl
  | some enable => cases enable <;> rfl

/-- The fields, read in hindsight, lead to the options that are declared. -/
theorem options_wireOf (r : ReqId) (enableHttp3 : Bool) :
    options r enableHttp3 (wireOf ajson cs) = declared ajson r enableHttp3 cs := by
  rw [options, sentMethod_wireOf, useHttp3_wireOf]
  rfl

/-- **The options of an attempt**, whatever calls built the request. The attempt renders the tree, so
it counts as a commit itself. -/
theorem setOptions_built (r : ReqId) (enableHttp3 : Bool) :
    (built ajson cs).setOptions ajson r enableHttp3 =
      (declared ajson r enableHttp3 (cs ++ [.jsonCommit]), built ajson (cs ++ [.jsonCommit])) := by
  rw [setOptions_eq, ← options_wireOf, ← wire_built, built_concat]
  rfl

end Draft

/-! ### Calls and attempts in any order -/

namespace Stage

variable (ajson : Ajson J) (r : ReqId)

/-- The calls so far, those of `on_prepare` among them, and the options that are declared. -/
def foresee (p : List (BuildCall J) × List EasyOptions) :
    Stage J → List (BuildCall J) × List EasyOptions
  | .call c => (p.1 ++ [c], p.2)
  | .attempt enableHttp3 prepare allocated =>
    let prepares := (latest BuildCall.onPrepare? p.1).getD false
    let calls := if prepares then p.1 ++ prepare.2 else p.1
    if (if prepares then prepare.1 else true) ∧ allocated then
      (calls ++ [.jsonCommit], p.2 ++ [declared ajson r enableHttp3 (calls ++ [.jsonCommit])])
    else (calls, p.2)

def foreseen (stages : List (Stage J)) : List (BuildCall J) × List EasyOptions :=
  stages.foldl (foresee ajson r) ([], [])

theorem step_built (p : List (BuildCall J) × List EasyOptions) (stage : Stage J) :
    step ajson r (Draft.built ajson p.1, p.2) stage =
      (Draft.built ajson (foresee ajson r p stage).1, (foresee ajson r p stage).2) := by
  cases stage with
  | call c => exact Prod.ext (Draft.built_concat ajson p.1 c).symm rfl
  | attempt enableHttp3 prepare allocated =>
    have hprepare : (Draft.built ajson p.1).req.onPrepare =
        (latest BuildCall.onPrepare? p.1).getD false :=
      congrArg Draft.Wire.onPrepare (Draft.wire_built ajson p.1)
    simp only [step, foresee, Draft.setupCurlHandle]
    rw [hprepare]
    cases (latest BuildCall.onPrepare? p.1).getD false <;> cases allocated <;>
      cases prepare.1 <;>
      simp [← Draft.built_append, Draft.setOptions_built]

/-- **Every attempt is given the options that the calls before it declare**, whatever calls and
attempts there were, and in whatever order. -/
theorem run_eq_foreseen (stages : List (Stage J)) :
    run ajson r stages =
      (Draft.built ajson (foreseen ajson r stages).1, (foreseen ajson r stages).2) := by
  induction stages using List.reverseRecOn with
  | nil => rfl
  | append_singleton stages stage ih =>
    rw [run, foreseen, List.foldl_append, List.foldl_append, ← run, ← foreseen, ih]
    exact step_built ajson r _ stage

end Stage

/-! ### What no longer matters -/

namespace BuildCall

/-- The call writes a field the options depend on, whatever the request is. -/
def WritesOption : BuildCall J → Bool
  | .url _ | .method _ | .body _ | .jsonBody _ | .addHeader .. | .setHeader ..
  | .applyBrowserProfile .. | .connectTimeout _ | .transferTimeout _ | .lowSpeed ..
  | .maxDownloadSize _ | .http3 _ => true
  | _ => false

/-- The call makes the tree or writes to it. -/
def WritesTree : BuildCall J → Bool
  | .jsonBegin _ | .editJson _ => true
  | _ => false

end BuildCall

section Quiet

variable (ajson : Ajson J) {cs between : List (BuildCall J)} {c : BuildCall J}

/-- There is nothing to render: there is a body, or no text of a tree. -/
def Rendered (cs : List (BuildCall J)) : Prop :=
  (bodyOf ajson cs).isSome ∨ (treeOf ajson cs).bind ajson.stringify = none

/-- So it is after a commit. -/
theorem rendered_commit (cs : List (BuildCall J)) : Rendered ajson (cs ++ [.jsonCommit]) := by
  rw [Rendered, bodyOf_concat, treeOf_concat]
  cases hbody : bodyOf ajson cs with
  | some text => exact .inl rfl
  | none =>
    cases htext : (treeOf ajson cs).bind ajson.stringify with
    | none => exact .inr htext
    | some text =>
      refine .inl ?_
      rw [Option.none_or, renders, htext]
      rfl

/-- The body stays. -/
theorem bodyOf_quiet (hcs : Rendered ajson cs) (hc : c.WritesOption = false) :
    bodyOf ajson (cs ++ [c]) = bodyOf ajson cs := by
  have hnot : c.body? = none := by cases c <;> first | rfl | cases hc
  rw [bodyOf_concat, hnot, Option.none_or]
  rcases hcs with hbody | hnone
  · obtain ⟨text, htext⟩ := Option.isSome_iff_exists.mp hbody
    rw [htext, Option.some_or]
  · have hrenders : renders ajson cs c = none := by cases c <;> first | rfl | exact hnone
    rw [hrenders, Option.or_none]

/-- The method stays. A tree may still be made, but then there is a body, and the method is inferred to
be what it was. -/
theorem methodOf_quiet (hc : c.WritesOption = false)
    (htree : (bodyOf ajson cs).isSome ∨ c.WritesTree = false) :
    methodOf (cs ++ [c]) = methodOf cs := by
  have hnot : c.method? = none := by cases c <;> first | rfl | cases hc
  rw [methodOf, methodOf, methodSet_concat, hnot, Option.none_or]
  cases hset : methodSet cs with
  | some m => rfl
  | none =>
    rw [Option.none_or, Option.getD_none]
    cases c with
    | jsonBegin arrayRoot =>
      have hbody := htree.resolve_right (by simp [BuildCall.WritesTree])
      rw [naturalMethod_of_none ajson hset, if_pos hbody]
      rfl
    | submit => rfl
    | url | method | body | jsonBody => cases hc
    | _ => simp [infers, naturalMethod, BuildCall.givesBody]

theorem headersOf_quiet (hcs : Rendered ajson cs) (hc : c.WritesOption = false) :
    headersOf ajson (cs ++ [c]) = headersOf ajson cs := by
  have hnot : headerCalls ajson cs c = [] := by
    cases c with
    | jsonCommit =>
      refine if_neg fun h => ?_
      obtain ⟨hbody, htext, -⟩ := h
      rcases hcs with hsome | hnone
      · rw [Option.isNone_iff_eq_none] at hbody
        rw [hbody] at hsome
        cases hsome
      · rw [renders, hnone] at htext
        cases htext
    | addHeader | setHeader | applyBrowserProfile | jsonBody => cases hc
    | _ => rfl
  rw [headersOf_concat, hnot]
  rfl

/-- **One call that no longer matters.** -/
theorem declared_quiet (r : ReqId) (enableHttp3 : Bool) (hcs : Rendered ajson cs)
    (hc : c.WritesOption = false) (htree : (bodyOf ajson cs).isSome ∨ c.WritesTree = false) :
    declared ajson r enableHttp3 (cs ++ [c]) = declared ajson r enableHttp3 cs := by
  have hnot : c.url? = none ∧ c.maxDownloadSize? = none ∧ c.connectTimeout? = none ∧
      c.transferTimeout? = none ∧ c.lowSpeed? = none ∧ c.http3? = none := by
    cases c <;> first | exact ⟨rfl, rfl, rfl, rfl, rfl, rfl⟩ | cases hc
  obtain ⟨hurl, hsize, hconnect, htransfer, hspeed, hhttp3⟩ := hnot
  simp only [declared, latest_concat, hurl, hsize, hconnect, htransfer, hspeed, hhttp3,
    Option.none_or, methodOf_quiet ajson hc htree, bodyOf_quiet ajson hcs hc,
    headersOf_quiet ajson hcs hc]

theorem Rendered.quiet (hcs : Rendered ajson cs) (hc : c.WritesOption = false)
    (htree : (bodyOf ajson cs).isSome ∨ c.WritesTree = false) : Rendered ajson (cs ++ [c]) := by
  rw [Rendered, bodyOf_quiet ajson hcs hc]
  rcases htree with hbody | htree
  · exact .inl hbody
  · refine hcs.imp_right fun hnone => ?_
    rw [treeOf_concat]
    cases c <;> first | exact hnone | cases htree

/-- **What no longer matters.** Once the tree was rendered, or a body given, only calls that write an
option change what is declared; without a body so does a tree. -/
theorem declared_append_quiet (r : ReqId) (enableHttp3 : Bool) (hcs : Rendered ajson cs)
    (hquiet : ∀ c ∈ between, c.WritesOption = false ∧
      ((bodyOf ajson cs).isSome ∨ c.WritesTree = false)) :
    Rendered ajson (cs ++ between) ∧
      declared ajson r enableHttp3 (cs ++ between) = declared ajson r enableHttp3 cs := by
  induction between generalizing cs with
  | nil =>
    rw [List.append_nil]
    exact ⟨hcs, rfl⟩
  | cons c between ih =>
    obtain ⟨hc, htree⟩ := hquiet c List.mem_cons_self
    have hbody := bodyOf_quiet ajson hcs hc
    rw [List.append_cons]
    obtain ⟨hrendered, hsame⟩ := ih (hcs.quiet ajson hc htree) fun b hb => by
      rw [hbody]
      exact hquiet b (List.mem_cons_of_mem c hb)
    exact ⟨hrendered, hsame.trans (declared_quiet ajson r enableHttp3 hcs hc htree)⟩

/-- **Every attempt is the same transfer.** Whatever was called before, an attempt and the next one are
given the same options, unless a call between them writes an option, or makes a tree for a request
that was sent without a body. In particular a tree is rendered once. -/
theorem setOptions_again (r : ReqId) (enableHttp3 : Bool) (stages : List (Stage J))
    (between : List (BuildCall J)) :
    let first := (Stage.run ajson r stages).1.setOptions ajson r enableHttp3
    (∀ c ∈ between, c.WritesOption = false ∧
      (first.2.req.postData.isSome ∨ c.WritesTree = false)) →
    ((first.2.run ajson between).setOptions ajson r enableHttp3).1 = first.1 := by
  rw [Stage.run_eq_foreseen, Draft.setOptions_built]
  generalize (Stage.foreseen ajson r stages).1 = cs
  intro first hquiet
  have hbody : first.2.req.postData = bodyOf ajson (cs ++ [.jsonCommit]) :=
    congrArg Draft.Wire.postData (Draft.wire_built ajson _)
  rw [hbody] at hquiet
  have hrendered := rendered_commit ajson cs
  obtain ⟨hstill, hsame⟩ := declared_append_quiet ajson r enableHttp3 hrendered hquiet
  rw [← Draft.built_append, Draft.setOptions_built]
  refine (declared_quiet ajson r enableHttp3 hstill rfl (.inr rfl)).trans hsame

/-- A tree that counts what was written to it. -/
def Ajson.counting : Ajson ℕ where
  root _ := 0
  stringify n := some (String.ofList (List.replicate n '.'))

/-- What is written to the tree after it was sent is not sent. -/
theorem setOptions_again_counting :
    let first := (Stage.run .counting 1 [.call (.url "u"), .call (.jsonBegin false),
      .call (.editJson (· + 2)), .call .submit, .attempt false (true, []) true]).1.setOptions
        .counting 1 false
    ((first.2.run .counting [.editJson (· + 1), .jsonCommit]).setOptions .counting 1 false).1 =
      first.1 :=
  setOptions_again .counting 1 false [.call (.url "u"), .call (.jsonBegin false),
    .call (.editJson (· + 2)), .call .submit, .attempt false (true, []) true]
    [.editJson (· + 1), .jsonCommit] (by decide)

end Quiet

end CurlLoop
