import CurlLoop.Paths

/-!
# What a path does to one request

What is recorded of one request is its *row*: whether the loop was handed it, whether it is active or
was destroyed, its terms, and its *story*, the events about it. Most steps are about
one request and leave the rows of all others alone (`Beside`). A calm step leaves every row alone, and
so does all that calls do while a request is busy, unless they cancel it.

What is to be proved of the life of one request is then proved for the steps that are about it.

## Main definitions

* `Event.subject`, `Loop.story` — the events about a request
* `Row`, `Loop.row` — what is recorded of a request
* `Loop.Beside` — the rows of all other requests are left alone

## Main results

* `beside_start`, `beside_settle`, … — the steps of a path
* `Interlude.row` — the row of a request that is held
-/

namespace CurlLoop

open Function (update)

/-- The request an event is about. -/
def Event.subject : Event → ReqId
  | .started r => r
  | .onComplete r => r
  | .onFailure r _ _ => r
  | .nullCall r => r

/-- What is recorded of one request. -/
structure Row where
  accepted : Prop
  destroyed : Prop
  active : Prop
  terms : Terms
  story : List Event

/-- The counters after a request is finished. -/
def Metrics.finished (n : Metrics) (success : Bool) : Metrics :=
  if success then { n with completedRequests := n.completedRequests + 1 } else n

/-- A row, whether or not its request is cancelled. -/
def Row.unmarked (w : Row) : Row := { w with terms := { w.terms with isCancelled := false } }

namespace Loop

variable {ω : Type} {s t u : Loop ω} {r b : ReqId} {m : MapId} {env : Env ω}

/-- The events about a request, last to first. -/
def story (s : Loop ω) (r : ReqId) : List Event := s.trace.filter fun e => e.subject = r

/-- What is recorded of a request. -/
def row (s : Loop ω) (r : ReqId) : Row :=
  ⟨r ∈ s.accepted, r ∈ s.destroyed, r ∈ s.maps .queued, (s.req r).terms, s.story r⟩

theorem story_emit (s : Loop ω) (e : Event) (r : ReqId) :
    (s.emit e).story r = if e.subject = r then e :: s.story r else s.story r := by
  rw [story, emit, List.filter_cons]
  split <;> split <;> simp_all [story]

/-- An event counted in the story is counted in the trace. -/
theorem count_story (s : Loop ω) (e : Event) : (s.story e.subject).count e = s.trace.count e :=
  List.count_filter (by simp)

theorem count_eq_of_story {e : Event} (h : t.story e.subject = s.story e.subject) :
    t.trace.count e = s.trace.count e := by
  rw [← count_story, ← count_story, h]

theorem mem_story {e : Event} : e ∈ s.story e.subject ↔ e ∈ s.trace := by
  rw [story, List.mem_filter]
  simp

/-- The rows of all requests but one are left alone. -/
def Beside (b : ReqId) (s t : Loop ω) : Prop := ∀ r, r ≠ b → t.row r = s.row r

theorem Beside.refl (b : ReqId) (s : Loop ω) : Beside b s s := fun _ _ => rfl

theorem Beside.trans (h : Beside b s t) (h' : Beside b t u) : Beside b s u :=
  fun r hr => (h' r hr).trans (h r hr)

/-- Every row is left alone. -/
theorem Beside.of_row (h : ∀ r, t.row r = s.row r) : Beside b s t := fun r _ => h r

theorem Calm.row (h : Calm env s t) (r : ReqId) : t.row r = s.row r := by
  have haccepted : t.accepted = s.accepted := congrArg Traffic.accepted h.traffic
  have hdestroyed : t.destroyed = s.destroyed := congrArg Traffic.destroyed h.traffic
  have htrace : t.trace = s.trace := congrArg Chronicle.trace h.chronicle
  rw [Loop.row, Loop.row, story, story, haccepted, hdestroyed, h.queued, h.terms, htrace]

/-! ### What becomes of a request that was told -/

/-- At most a `NULL` call about the request is added to what was told. -/
def TraceNull (r : ReqId) (s : Loop ω) (tr : List Event) : Prop :=
  tr = s.trace ∨ tr = .nullCall r :: s.trace

theorem TraceNull.beside {tr : List Event} (h : TraceNull b s tr) {w : ω} {n : Metrics} :
    Beside b s { s with world := w, trace := tr, metrics := n } := by
  intro r hr
  have hstory : tr.filter (fun e => e.subject = r) = s.story r := by
    rcases h with rfl | rfl
    · rfl
    · have hne : ¬ (Event.nullCall b).subject = r := hr.symm
      exact List.filter_cons_of_neg (by simpa using hne)
  rw [row, story, hstory]
  rfl

/-- What `settle` does to a request. -/
inductive Outcome (r : ReqId) (success : Bool) (s : Loop ω) : Loop ω → Prop
  /-- It is parked in `rate_limited_requests`. -/
  | parked (w : ω) (due : ℕ) : Outcome r success s (({ s with world := w } : Loop ω).parkRateLimited r due)
  /-- It waits for another attempt. It is counted as completed only if it is refreshed. -/
  | again (w : ω) (tr : List Event) (n : Metrics) (f : Request → Request) :
    (f (s.req r)).terms =
      { (s.req r).terms with currentRetries := (f (s.req r)).currentRetries } →
    TraceNull r s tr →
    { n with retriedRequests := 0 } = { s.metrics with retriedRequests := 0 } ∨
      (s.req r).shouldRefresh = true ∧ n = s.metrics.finished success →
    Outcome r success s (((({ s with world := w, trace := tr, metrics := n } : Loop ω).modifyReq r
      f).curlEventLoopRequestCleanup r).enqueueRequest r)
  /-- It is destroyed. -/
  | ended (w : ω) (tr : List Event) (n : Metrics) (f : Request → Request) :
    (f (s.req r)).terms = (s.req r).terms → TraceNull r s tr → n = s.metrics.finished success →
    Outcome r success s ((({ s with world := w, trace := tr, metrics := n } : Loop ω).modifyReq r
      f).curlEventRequestDestroy r)

/-- The policy may change the request, and says whether it is tried again. -/
theorem callOnRetry_eq (env : Env ω) (s : Loop ω) (r : ReqId) : ∃ w tr f,
    (s.callOnRetry env r).2 = ({ s with world := w, trace := tr } : Loop ω).modifyReq r f ∧
      TraceNull r s tr ∧ ((s.callOnRetry env r).1 = true → (f (s.req r)).terms =
        { (s.req r).terms with currentRetries := (f (s.req r)).currentRetries }) ∧
      ((s.callOnRetry env r).1 = false → (f (s.req r)).terms = (s.req r).terms) := by
  have hid : ∀ t : Loop ω, t = t.modifyReq r id := fun t => by
    rw [modifyReq, id, Function.update_eq_self]
  rw [callOnRetry]
  split
  · refine ⟨s.world, _, id, hid _, .inr rfl, fun h => ?_, fun _ => rfl⟩
    exact absurd h Bool.false_ne_true
  · rw [defaultCalculateRetryEnhanced]
    dsimp only
    split
    · dsimp only
      refine ⟨_, s.trace, _, rfl, .inl rfl, fun _ => ?_, fun h => ?_⟩
      · rfl
      · exact absurd h.symm Bool.false_ne_true
    · refine ⟨s.world, s.trace, id, hid s, .inl rfl, fun h => ?_, fun _ => rfl⟩
      exact absurd h Bool.false_ne_true
  · dsimp only
    refine ⟨_, s.trace, _, rfl, .inl rfl, fun _ => ?_, fun _ => ?_⟩ <;> rfl

theorem modifyReq_modifyReq (s : Loop ω) (r : ReqId) (f g : Request → Request) :
    (s.modifyReq r f).modifyReq r g = s.modifyReq r fun q => g (f q) := by
  have hreq : ((s.modifyReq r f).modifyReq r g).req = (s.modifyReq r fun q => g (f q)).req := by
    change update (update s.req r (f (s.req r))) r (g (update s.req r (f (s.req r)) r)) = _
    rw [Function.update_self, Function.update_idem]
    rfl
  exact congrArg (fun req => ({ s with req := req } : Loop ω)) hreq

theorem finish_outcome (s : Loop ω) (w : ω) {tr : List Event} {f : Request → Request}
    (hf : (f (s.req r)).terms = (s.req r).terms) (htr : TraceNull r s tr) (success : Bool) :
    Outcome r success s
      ((({ s with world := w, trace := tr } : Loop ω).modifyReq r f).finish r success) := by
  let t : Loop ω := { s with world := w, trace := tr, metrics := s.metrics.finished success }
  have hcount : (if success then (({ s with world := w, trace := tr } : Loop ω).modifyReq r
      f).countCompleted else ({ s with world := w, trace := tr } : Loop ω).modifyReq r f) =
      t.modifyReq r f := by
    cases success <;> rfl
  have hself : (t.modifyReq r f).req r = f (s.req r) := Function.update_self ..
  rw [finish, hcount, hself, show (f (s.req r)).shouldRefresh = (s.req r).shouldRefresh from
    congrArg Terms.shouldRefresh hf, modifyReq_modifyReq]
  split
  · rename_i hrefresh
    refine .again w tr (s.metrics.finished success) _ ?_ htr (.inr ⟨hrefresh, rfl⟩)
    exact congrArg (fun q : Terms => { q with currentRetries := 0 }) hf
  · exact .ended w tr (s.metrics.finished success) f hf htr rfl

theorem reschedule_outcome (env : Env ω) (s : Loop ω) (w : ω) (success : Bool) (retryIn : ℤ) :
    Outcome r success s (({ s with world := w } : Loop ω).reschedule env r success retryIn) := by
  let u : Loop ω := { s with world := w }
  change Outcome r success s (u.reschedule env r success retryIn)
  rw [reschedule]
  split
  · exact .again _ s.trace s.metrics _ rfl (.inl rfl) (.inl rfl)
  · have hid : u = u.modifyReq r id := by
      rw [modifyReq, id, Function.update_eq_self]
    have hasked : ∃ w' tr f, (if retryIn < 0 then u.callOnRetry env r else (false, u)).2 =
        ({ s with world := w', trace := tr } : Loop ω).modifyReq r f ∧ TraceNull r s tr ∧
        ((if retryIn < 0 then u.callOnRetry env r else (false, u)).1 = true →
          (f (s.req r)).terms =
            { (s.req r).terms with currentRetries := (f (s.req r)).currentRetries }) ∧
        ((if retryIn < 0 then u.callOnRetry env r else (false, u)).1 = false →
          (f (s.req r)).terms = (s.req r).terms) := by
      split
      · exact callOnRetry_eq env u r
      · refine ⟨w, s.trace, id, hid, .inl rfl, fun h => ?_, fun _ => rfl⟩
        exact absurd h Bool.false_ne_true
    generalize (if retryIn < 0 then u.callOnRetry env r else (false, u)) = p at hasked ⊢
    obtain ⟨w', tr, f, heq, htr, hagain, hover⟩ := hasked
    dsimp only
    rw [heq]
    split
    · rename_i hyes
      exact .again w' tr { s.metrics with retriedRequests := s.metrics.retriedRequests + 1 } f
        (hagain hyes) htr (.inl rfl)
    · rename_i hno
      exact finish_outcome s w' (hover (Bool.eq_false_iff.mpr hno)) htr success

/-- **What becomes of a request** whose callback returned. -/
theorem settle_outcome (env : Env ω) (s : Loop ω) (r : ReqId) (httpCode : ℤ) (success : Bool)
    (retryIn : ℤ) : Outcome r success s (s.settle env r httpCode success retryIn) := by
  rw [settle]
  split
  · split
    · exact .parked _ _
    · exact reschedule_outcome env s _ success retryIn
  · exact reschedule_outcome env s s.world success retryIn

/-! ### Steps about one request -/

theorem beside_modifyReq (s : Loop ω) (b : ReqId) (f : Request → Request) :
    Beside b s (s.modifyReq b f) := by
  intro r hr
  have hreq : (s.modifyReq b f).req r = s.req r := Function.update_of_ne hr ..
  rw [row, hreq]
  rfl

/-- A request is written, but for its terms. -/
theorem row_modifyReq (s : Loop ω) (r : ReqId) {f : Request → Request}
    (hf : (f (s.req r)).terms = (s.req r).terms) : (s.modifyReq r f).row r = s.row r := by
  have hreq : (s.modifyReq r f).req r = f (s.req r) := Function.update_self ..
  rw [row, hreq, hf]
  rfl

theorem beside_emit (s : Loop ω) (e : Event) : Beside e.subject s (s.emit e) := by
  intro r hr
  rw [row, story_emit, if_neg hr.symm]
  rfl

/-- The maps of requests that wait have no part in a row. -/
theorem row_setMap (s : Loop ω) (hm : m ≠ .queued) (map : List ReqId) (r : ReqId) :
    (s.setMap m map).row r = s.row r := by
  have hactive : (s.setMap m map).maps .queued = s.maps .queued := Function.update_of_ne hm.symm ..
  rw [row, hactive]
  rfl

theorem beside_setMap (s : Loop ω) (hm : m ≠ .queued) (map : List ReqId) :
    Beside b s (s.setMap m map) := .of_row (row_setMap s hm map)

/-- A request is taken out of the active map. -/
theorem beside_eraseQueued (s : Loop ω) (b : ReqId) : Beside b s (s.eraseMap .queued b) := by
  intro r hr
  have hactive : (s.eraseMap .queued b).maps .queued = (s.maps .queued).erase b := by
    rw [maps_eraseMap, Function.update_self]
  rw [row, hactive, List.mem_erase_of_ne hr]
  rfl

theorem beside_destroy (s : Loop ω) (b : ReqId) : Beside b s (s.curlEventRequestDestroy b) := by
  intro r hr
  have hreq : (s.curlEventRequestDestroy b).req r = s.req r := by
    rw [req_destroy, Function.update_of_ne hr]
  have hdestroyed : (r ∈ (s.curlEventRequestDestroy b).destroyed) = (r ∈ s.destroyed) :=
    propext (List.mem_cons.trans (or_iff_right hr))
  rw [row, hreq, hdestroyed]
  rfl

/-- A row is not touched by what changes the world only. -/
theorem beside_world (s : Loop ω) (w : ω) : Beside b s { s with world := w } := fun _ _ => rfl

theorem beside_enqueueRequest (s : Loop ω) (r : ReqId) : Beside b s (s.enqueueRequest r) :=
  beside_setMap s (waitingMap_ne_queued (s.req r)) _

theorem beside_parkRateLimited (s : Loop ω) (b : ReqId) (due : ℕ) :
    Beside b s (s.parkRateLimited b due) :=
  (beside_modifyReq s b _).trans (beside_setMap _ (by decide) _)

theorem beside_cleanup (s : Loop ω) (b : ReqId) : Beside b s (s.curlEventLoopRequestCleanup b) :=
  beside_modifyReq _ b Request.cleaned

theorem beside_cancel (s : Loop ω) (b : ReqId) : Beside b s (s.curlEventLoopCancel b).2 := by
  have hmark : Beside b s (s.modifyReq b Request.markCancelled) := beside_modifyReq s b _
  rw [curlEventLoopCancel]
  dsimp only
  split
  · exact .refl b s
  · split <;> exact hmark

/-- A cancellation marks a request and does no more to its row. -/
theorem unmarked_cancel (s : Loop ω) (b r : ReqId) :
    ((s.curlEventLoopCancel b).2.row r).unmarked = (s.row r).unmarked := by
  rcases eq_or_ne r b with rfl | hr
  · have hmark : ((s.modifyReq r Request.markCancelled).row r).unmarked = (s.row r).unmarked := by
      have hreq : (s.modifyReq r Request.markCancelled).req r = (s.req r).markCancelled :=
        Function.update_self ..
      rw [row, hreq]
      rfl
    rw [curlEventLoopCancel]
    dsimp only
    split
    · rfl
    · split <;> exact hmark
  · rw [beside_cancel s b r hr]

theorem beside_callOnAborted (env : Env ω) (s : Loop ω) (b : ReqId) :
    Beside b s (s.callOnAborted env b).2 := by
  rw [callOnAborted]
  split
  · exact beside_emit s (.onFailure b .abortedByCallback 0)
  · exact .refl b s

theorem beside_tellComplete (env : Env ω) (s : Loop ω) (b : ReqId) :
    Beside b s (s.tellComplete env b).2.2 := by
  rw [tellComplete]
  split
  · exact beside_emit s (.onComplete b)
  · exact beside_emit s (.nullCall b)

theorem beside_pickUp (s : Loop ω) (easy : EasyId) (b : ReqId) : Beside b s (s.pickUp easy b) :=
  beside_eraseQueued (s.reportMessage easy) b

theorem beside_hear (env : Env ω) (s : Loop ω) (msg : Message) (b : ReqId) :
    Beside b s (s.hear env msg b).2.2 := by
  rw [hear]
  split
  · exact (beside_pickUp s msg.easy b).trans (beside_tellComplete env _ b)
  · rw [tellFailure]
    split
    · have htold := beside_emit (s.pickUp msg.easy b) (.onFailure b msg.result msg.httpCode)
      exact (beside_pickUp s msg.easy b).trans htold
    · exact beside_pickUp s msg.easy b

theorem beside_settle (env : Env ω) (s : Loop ω) (b : ReqId) (httpCode : ℤ) (success : Bool)
    (retryIn : ℤ) : Beside b s (s.settle env b httpCode success retryIn) := by
  have hout := settle_outcome env s b httpCode success retryIn
  generalize s.settle env b httpCode success retryIn = t at hout ⊢
  cases hout with
  | parked w due => exact beside_parkRateLimited ({ s with world := w } : Loop ω) b due
  | again w tr m f _ htr =>
    have htold : Beside b s ({ s with world := w, trace := tr, metrics := m } : Loop ω) :=
      htr.beside
    exact (htold.trans (beside_modifyReq _ b f)).trans
      ((beside_cleanup _ b).trans (beside_enqueueRequest _ b))
  | ended w tr m f _ htr =>
    have htold : Beside b s ({ s with world := w, trace := tr, metrics := m } : Loop ω) :=
      htr.beside
    exact (htold.trans (beside_modifyReq _ b f)).trans (beside_destroy _ b)

/-- What `curl_event_loop_request_start` does to a request. -/
inductive Dispatch (env : Env ω) (r : ReqId) (s : Loop ω) : Loop ω → Prop
  /-- The rate manager refuses it, and it is parked. -/
  | parked (w : ω) (due : ℕ) : Dispatch env r s (({ s with world := w } : Loop ω).parkRateLimited r due)
  /-- `setup_curl_handle` refuses it, and it is destroyed. -/
  | refused (w : ω) : Dispatch env r s
    ((({ s with world := w } : Loop ω).modifyReq r Request.reset).curlEventRequestDestroy r)
  | active (w : ω) : Dispatch env r s
    (((({ s with world := w } : Loop ω).modifyReq r Request.reset).newHandle r).activate env r)

/-- **What becomes of a request** that is ready. -/
theorem start_outcome (env : Env ω) (s : Loop ω) (r : ReqId) :
    Dispatch env r s (s.curlEventLoopRequestStart env r) := by
  obtain ⟨k, w, hask⟩ := admission_eq env s r
  rw [start_eq, hask]
  split
  · exact .parked w _
  · obtain ⟨w', hfail | hok⟩ := setupCurlHandle_eq env ({ s with world := w } : Loop ω) r
    · rw [hfail, if_neg (by simp)]
      exact Dispatch.refused w'
    · rw [hok, if_pos rfl]
      exact Dispatch.active w'

/-- The new handle leaves the row alone. -/
theorem row_newHandle (s : Loop ω) (w : ω) (r : ReqId) :
    ((({ s with world := w } : Loop ω).modifyReq r Request.reset).newHandle r).row r = s.row r :=
  (row_modifyReq _ r rfl).trans (row_modifyReq s r rfl)

theorem beside_newHandle (s : Loop ω) (b : ReqId) : Beside b s (s.newHandle b) :=
  beside_modifyReq ({ s with multi := { s.multi with nextEasy := s.multi.nextEasy + 1 } } : Loop ω)
    b _

theorem story_activate (env : Env ω) (s : Loop ω) (r : ReqId) :
    (s.activate env r).story r = .started r :: s.story r :=
  (story_emit s (.started r) r).trans (if_pos rfl)

theorem terms_activate (env : Env ω) (s : Loop ω) (r : ReqId) :
    ((s.activate env r).req r).terms = (s.req r).terms := by
  have hreq : (s.activate env r).req r = (s.req r).activated (env.macroNow s.world).1 :=
    Function.update_self ..
  rw [hreq]
  rfl

/-- A request that is parked has the row it had. -/
theorem row_parkRateLimited (s : Loop ω) (r : ReqId) (due : ℕ) :
    (s.parkRateLimited r due).row r = s.row r :=
  (row_setMap _ (by decide) _ r).trans (row_modifyReq s r rfl)

/-- A request that was set up and started is active, and its story says so. -/
theorem row_started (env : Env ω) (s : Loop ω) (w : ω) (r : ReqId) :
    ((((({ s with world := w } : Loop ω).modifyReq r Request.reset).newHandle r).activate env r).row
      r) = { s.row r with active := True, story := .started r :: s.story r } := by
  have hrow := row_newHandle s w r
  generalize (({ s with world := w } : Loop ω).modifyReq r Request.reset).newHandle r = p at hrow ⊢
  have hactive : (r ∈ (p.activate env r).maps .queued) = True :=
    eq_true ((perm_activate env p r).mem_iff.mpr List.mem_cons_self)
  have hstory : p.story r = s.story r := congrArg Row.story hrow
  rw [← hrow, row, hactive, terms_activate, story_activate, hstory]
  rfl

theorem beside_activate (env : Env ω) (s : Loop ω) (b : ReqId) :
    Beside b s (s.activate env b) := by
  intro r hr
  have hactive : (r ∈ (s.activate env b).maps .queued) = (r ∈ s.maps .queued) :=
    propext ((perm_activate env s b).mem_iff.trans (List.mem_cons.trans (or_iff_right hr)))
  have hreq : (s.activate env b).req r = s.req r := Function.update_of_ne hr ..
  have hstory : (s.activate env b).story r = s.story r :=
    (story_emit s (.started b) r).trans (if_neg hr.symm)
  rw [row, hactive, hreq, hstory]
  rfl

theorem beside_start (env : Env ω) (s : Loop ω) (b : ReqId) :
    Beside b s (s.curlEventLoopRequestStart env b) := by
  have hout := start_outcome env s b
  generalize s.curlEventLoopRequestStart env b = t at hout ⊢
  have hreset : ∀ w : ω, Beside b s (({ s with world := w } : Loop ω).modifyReq b Request.reset) :=
    fun w => (beside_world s w).trans (beside_modifyReq _ b _)
  cases hout with
  | parked w due => exact beside_parkRateLimited ({ s with world := w } : Loop ω) b due
  | refused w => exact (hreset w).trans (beside_destroy _ b)
  | active w => exact ((hreset w).trans (beside_newHandle _ b)).trans (beside_activate env _ b)

theorem story_cancelledRound (s : Loop ω) (r b : ReqId) :
    (s.cancelledRound r).story b = s.story b :=
  congrArg (List.filter _) (trace_cancelledRound s r)

theorem not_live_cancelledRound (s : Loop ω) (r : ReqId) : ¬ (s.cancelledRound r).Live r := by
  intro h
  have hgone := h.2
  rw [destroyed_cancelledRound] at hgone
  exact hgone List.mem_cons_self

theorem beside_cancelledRound (s : Loop ω) (b : ReqId) : Beside b s (s.cancelledRound b) := by
  refine Beside.trans ?_ (beside_destroy (s.dropFromMap (cancelledMap (s.req b)) b) b)
  rcases eq_or_ne (cancelledMap (s.req b)) .queued with hq | hq
  · rw [hq]
    exact beside_eraseQueued s b
  · exact beside_setMap s hq _

/-! ### Calls -/

theorem Arrives.row (h : Arrives env b s t) (hr : r ≠ b) : t.row r = s.row r := by
  have haccepted : (r ∈ t.accepted) = (r ∈ s.accepted) := by
    rw [show t.accepted = b :: s.accepted from congrArg Traffic.accepted h.traffic]
    exact propext (List.mem_cons.trans (or_iff_right hr))
  have hdestroyed : t.destroyed = s.destroyed := congrArg Traffic.destroyed h.traffic
  rw [Loop.row, Loop.row, story, story, haccepted, hdestroyed, h.maps, h.others r hr, h.trace]

variable {calls : ApiCall → Prop} {busy : ReqId → Prop} {held : Option ReqId}

/-- A busy request is left alone, unless it is cancelled. -/
theorem Errands.row (h : Errands env calls busy s t) (hr : busy r) (hc : ¬ calls (.cancel r)) :
    t.row r = s.row r := by
  induction h with
  | refl => rfl
  | calm _ ha ih => exact (ha.row r).trans ih
  | @cancel t b _ _ hb ih =>
    have hne : r ≠ b := fun heq => hc (heq ▸ hb)
    exact (beside_cancel t b r hne).trans ih
  | arrives b _ _ ha _ _ _ hb ih =>
    have hne : r ≠ b := fun heq => hb (heq ▸ hr)
    exact (ha.row hne).trans ih

/-- It is left alone but for the mark. -/
theorem Errands.unmarked (h : Errands env calls busy s t) (hr : busy r) :
    (t.row r).unmarked = (s.row r).unmarked := by
  induction h with
  | refl => rfl
  | calm _ ha ih => exact (congrArg Row.unmarked (ha.row r)).trans ih
  | @cancel t b _ _ _ ih => exact (unmarked_cancel t b r).trans ih
  | arrives b _ _ ha _ _ _ hb ih =>
    have hne : r ≠ b := fun heq => hb (heq ▸ hr)
    exact (congrArg Row.unmarked (ha.row hne)).trans ih

theorem Interlude.unmarked (h : Interlude env calls (some r) s t) :
    (t.row r).unmarked = (s.row r).unmarked := by
  induction h with
  | refl => rfl
  | errands _ he ih => exact (he.unmarked (by rfl)).trans ih
  | @abort t u b _ _ hb he _ ih =>
    have hne : r ≠ b := fun heq => hb (heq ▸ rfl)
    have htold := congrArg Row.unmarked (beside_callOnAborted env t b r hne)
    have hended := congrArg Row.unmarked (beside_destroy u b r hne)
    exact hended.trans ((he.unmarked (by exact .inl rfl)).trans (htold.trans ih))

/-- A held request is left alone, unless it is cancelled. -/
theorem Interlude.row (h : Interlude env calls (some r) s t) (hc : ¬ calls (.cancel r)) :
    t.row r = s.row r := by
  induction h with
  | refl => rfl
  | errands _ he ih => exact (he.row (by rfl) hc).trans ih
  | @abort t u b _ _ hb he _ ih =>
    have hne : r ≠ b := fun heq => hb (heq ▸ rfl)
    have htold := (he.row (by exact .inl rfl) hc).trans (beside_callOnAborted env t b r hne)
    exact (beside_destroy u b r hne).trans (htold.trans ih)

end Loop

end CurlLoop
