import CurlLoop.Accounting
import CurlLoop.CallSites
import CurlLoop.FailedResources
import CurlLoop.NodeLifetime
import CurlLoop.Wakeups

/-!
# Requests whose dependency has failed

`curl_event_res_publish(loop, id, NULL, …)` fails the requests that wait for the resource at that
moment: each is told of it, if it has an `on_failure`, and destroyed. But `curl_resource_block_on_id`
and `curl_resource_all_ready_list` take a failed resource for one that is ready. So a request that is
scheduled after the publication, because it was submitted, woken or retried then, is started like one
whose dependencies are there. The fate of a request depends on the order of the two.

The order is the only reason. In a run whose passes come to no request that depends on a failed
resource, wherever a failure is published, whoever waits is failed, and nobody is started with a failed
dependency. And a pass that comes to such a request never fails it.

## Main definitions

* `Loop.FailedNow` — the request was told, if it wanted to be, and destroyed
* `Loop.Schedules` — a pass comes to the request
* `Loop.SharesFate` — the law

## Main results

* `WF.failedNow_publish` — a publication of a failure
* `Loop.sharesFate_iff` — when the law holds, for every step of every run
-/

namespace CurlLoop

open Function (update)

variable {ω : Type}

/-- The resource that the call publishes as failed, if it does. -/
def Call.fails : Call → Loop ω → Option ResId
  | .publish id none _, _ => some id
  | .register none _, s => some s.resources.gNextId
  | _, _ => none

/-- The event is not the start of a request. -/
def Event.NotStart : Event → Prop
  | .started _ => False
  | _ => True

namespace Loop

variable {s t u : Loop ω} {v : View} {C : List ReqId} {a b r : ReqId} {ws : List ReqId} {id : ResId}
  {env : Env ω} {strict : Prop}

/-- The request has been destroyed, and all that happened to it is that its `on_failure` was called
with `CURLE_ABORTED_BY_CALLBACK`, if it has one. -/
structure FailedNow (r : ReqId) (s t : Loop ω) : Prop where
  told : t.story r = (if (s.req r).onFailure then [.onFailure r .abortedByCallback 0] else []) ++
    s.story r
  destroyed : r ∈ t.destroyed

/-- The action is a pass that comes to the request to schedule it: it is pending, and not cancelled,
or waits in a map. -/
def Schedules : Action → Loop ω → ReqId → Prop
  | .processCancelledAndPendingRequests, s, r =>
    r ∈ s.contents .pending ∧ (s.req r).isCancelled = false
  | .moveInactiveRequestsToQueue, s, r => s.Waits r
  | _, _, _ => False

/-- **The law.** Wherever a failure is published in the course of the action, the request is failed if
it waits for the resource. A pass that comes to the request fails it if a dependency of it has failed.
And it is not started if it has a failed dependency before or after the action. -/
structure SharesFate (env : Env ω) (a : Action) (s : Loop ω) (r : ReqId) : Prop where
  blocked : ∀ p ∈ a.callSites env s, ∀ id ∈ p.1.fails p.2, r ∈ p.2.contents (.blocked id) →
    FailedNow r p.2 (p.2.call env p.1)
  late : Schedules a s r → s.Doomed r → FailedNow r s (act env a s)
  unstarted : s.Doomed r ∨ (act env a s).Doomed r →
    (act env a s).trace.count (.started r) = s.trace.count (.started r)

/-! ### Failing the requests that wait -/

theorem trace_follow (s : Loop ω) (r : ReqId) : (s.follow r).trace = s.trace := by
  rw [follow]
  split <;> rfl

theorem trace_apiCall (env : Env ω) (s : Loop ω) (c : ApiCall) : (s.apiCall env c).trace = s.trace := by
  cases c with
  | submit r priority =>
    rw [apiCall, curlEventRequestSubmit]
    dsimp only
    split
    · rfl
    · split <;> rfl
  | cancel r =>
    rw [apiCall, curlEventLoopCancel]
    dsimp only
    split
    · rfl
    · split <;> rfl
  | _ => rfl

theorem trace_apiCalls (env : Env ω) (cs : List ApiCall) (s : Loop ω) :
    (s.apiCalls env cs).trace = s.trace := by
  induction cs generalizing s with
  | nil => rfl
  | cons c cs ih => exact (ih _).trans (trace_apiCall env s c)

/-- A request of the loop that is not handed to it again keeps what a cancellation does not write. -/
theorem proj_apiCall {β : Type} {g : Request → β}
    (hg : ∀ q : Request, g q.markCancelled = g q) (env : Env ω) (s : Loop ω) (c : ApiCall)
    (hb : b ∈ s.accepted) (hz : .resubmitted b ∉ (s.apiCall env c).hazards) :
    g ((s.apiCall env c).req b) = g (s.req b) := by
  have hpush : ∀ (r : ReqId) (f : Request → Request) (w : ω), .resubmitted b ∉
      ((({ s with world := w } : Loop ω).modifyReq r f).pushPending r).hazards →
      g (((({ s with world := w } : Loop ω).modifyReq r f).pushPending r).req b) =
        g (s.req b) := by
    intro r f w hz
    have hbr : b ≠ r := by
      rintro rfl
      exact hz (resubmitted_pushPending _ hb)
    change g (update (update s.req r (f (s.req r))) r _ b) = _
    rw [Function.update_of_ne hbr, Function.update_of_ne hbr]
  cases c with
  | submit r priority =>
    rw [apiCall, curlEventRequestSubmit] at hz ⊢
    dsimp only at hz ⊢
    split
    · rfl
    · split
      · rfl
      · rename_i hurl hbusy
        rw [if_neg hurl, if_neg hbusy] at hz
        exact hpush r _ _ hz
  | loopSubmit r priority => exact hpush r _ _ hz
  | cancel r =>
    have hmark : g ((s.modifyReq r Request.markCancelled).req b) = g (s.req b) := by
      change g (update s.req r _ b) = _
      rcases eq_or_ne b r with rfl | hbr
      · rw [Function.update_self]
        exact hg (s.req b)
      · rw [Function.update_of_ne hbr]
    rw [apiCall, curlEventLoopCancel]
    dsimp only
    split
    · rfl
    · split <;> exact hmark
  | inject w r =>
    have hbw : b ≠ w := by
      rintro rfl
      exact hz (resubmitted_inject s hb)
    have hreq : (s.apiCall env (.inject w r)).req b = s.req b := Function.update_of_ne hbw ..
    rw [hreq]
  | _ => rfl

theorem proj_apiCalls {β : Type} {g : Request → β}
    (hg : ∀ q : Request, g q.markCancelled = g q) (env : Env ω) (cs : List ApiCall)
    (s : Loop ω) (hb : b ∈ s.accepted) (hz : .resubmitted b ∉ (s.apiCalls env cs).hazards) :
    g ((s.apiCalls env cs).req b) = g (s.req b) := by
  induction cs generalizing s with
  | nil => rfl
  | cons c cs ih =>
    have hrest := evolves_foldl (fun s c => evolves_apiCall env s c) cs (s.apiCall env c)
    have hfirst := evolves_apiCall env s c
    exact (ih _ (hfirst.accepted.subset hb) hz).trans
      (proj_apiCall hg env s c hb fun h => hz (hrest.hazards.subset h))

/-- What failing a request does besides: it is told of it and destroyed, and the others of the loop
keep their `on_failure`. -/
structure Dismisses (r : ReqId) (s t : Loop ω) : Prop where
  told : t.trace = (if (s.req r).onFailure then [.onFailure r .abortedByCallback 0] else []) ++ s.trace
  destroyed : r :: s.destroyed ⊆ t.destroyed
  wants : ∀ b ∈ s.accepted, .resubmitted b ∉ t.hazards → (t.req b).onFailure = (s.req b).onFailure

theorem dismisses_wakeOrFail (env : Env ω) (r : ReqId) (s : Loop ω) :
    Dismisses r s (s.wakeOrFail env true r) := by
  have hcall : ((s.setNextPending r none).callOnAborted env r).2.trace =
      (if (s.req r).onFailure then [.onFailure r .abortedByCallback 0] else []) ++ s.trace := by
    rw [callOnAborted]
    have hreq : (s.setNextPending r none).req = s.req := rfl
    rw [hreq]
    split <;> rfl
  obtain ⟨w, tr, heq⟩ := callOnAborted_eq env (s.setNextPending r none) r
  have hcalls := evolves_foldl (fun s c => evolves_apiCall env s c)
    ((s.setNextPending r none).callOnAborted env r).1 ((s.setNextPending r none).callOnAborted env r).2
  rw [wakeOrFail]
  dsimp only
  rw [if_pos rfl]
  refine ⟨?_, ?_, fun b hb hz => ?_⟩
  · rw [trace_destroy, trace_apiCalls]
    exact hcall
  · have hsub := hcalls.destroyed.subset
    rw [heq] at hsub ⊢
    exact List.cons_subset_cons r hsub
  · have hkept := proj_apiCalls (b := b) (g := Request.onFailure) (fun _ => rfl) env
      ((s.setNextPending r none).callOnAborted env r).1 ((s.setNextPending r none).callOnAborted env r).2
    have hdestroy := (evolves_destroy (q := True) (((s.setNextPending r none).callOnAborted env
      r).2.apiCalls env ((s.setNextPending r none).callOnAborted env r).1) r).hazards.subset
    have hcall' := hkept (by rw [heq]; exact hb) fun h => hz (hdestroy h)
    rw [req_destroy]
    rcases eq_or_ne b r with rfl | hbr
    · rw [Function.update_self]
      refine Eq.trans hcall' ?_
      rw [heq]
      rfl
    · rw [Function.update_of_ne hbr, hcall', heq]
      rfl

theorem Dismisses.failedNow (h : Dismisses r s t) : FailedNow r s t := by
  refine ⟨?_, h.destroyed List.mem_cons_self⟩
  rw [story, h.told, List.filter_append, ← story]
  congr 1
  split
  · exact List.filter_cons_of_pos (by simp [Event.subject])
  · rfl

theorem Dismisses.story_eq (h : Dismisses r s t) (hbr : b ≠ r) : t.story b = s.story b := by
  rw [story, h.told, List.filter_append, ← story]
  split
  · have hne : ¬ (Event.onFailure r .abortedByCallback 0).subject = b := hbr.symm
    rw [List.filter_cons_of_neg (by simpa using hne)]
    rfl
  · rfl

/-- The requests of a list are failed, and nothing happens to the others. -/
structure DismissesAll (ws : List ReqId) (s t : Loop ω) : Prop where
  failed : ∀ r ∈ ws, FailedNow r s t
  others : ∀ r, r ∉ ws → t.story r = s.story r
  destroyed : s.destroyed ⊆ t.destroyed

theorem DismissesAll.cons (h : Dismisses a s t) (h' : DismissesAll ws t u) (hnd : (a :: ws).Nodup)
    (hacc : ∀ b ∈ a :: ws, b ∈ s.accepted) (hz : t.Unresubmitted) : DismissesAll (a :: ws) s u := by
  obtain ⟨ha, -⟩ := List.nodup_cons.mp hnd
  refine ⟨fun r hr => ?_, fun r hr => ?_, fun b hb =>
    h'.destroyed (h.destroyed (List.mem_cons_of_mem a hb))⟩
  · rcases List.mem_cons.mp hr with rfl | hws
    · exact ⟨(h'.others r ha).trans h.failedNow.told, h'.destroyed (h.destroyed List.mem_cons_self)⟩
    · have hra : r ≠ a := ne_of_mem_of_not_mem hws ha
      refine ⟨?_, (h'.failed r hws).destroyed⟩
      rw [(h'.failed r hws).told, h.wants r (hacc r hr) (hz r), h.story_eq hra]
  · obtain ⟨hra, hws⟩ := not_or.mp fun hor => hr (List.mem_cons.mpr hor)
    exact (h'.others r hws).trans (h.story_eq hra)

/-- One round of the loop, the node's entry being looked at. -/
theorem dismisses_wakeRound (env : Env ω) (r : ReqId) (s : Loop ω) :
    Dismisses r s (wakeOrFail env true r (s.follow r)) := by
  have h := dismisses_wakeOrFail env r (s.follow r)
  generalize wakeOrFail env true r (s.follow r) = t at h ⊢
  rw [follow] at h
  split at h
  · exact ⟨h.told, h.destroyed, h.wants⟩
  · exact h

theorem dismissesAll_forEach {n : ℕ} {p : Option ReqId} (hn : ws.length ≤ n)
    (hc : Intrusive.IsChain s.nextPending p ws) (hnd : ws.Nodup) (hacc : ∀ b ∈ ws, b ∈ s.accepted)
    (hz : (Intrusive.forEach (fun (t : Loop ω) b => t.nextPending b)
      (fun r t => wakeOrFail env true r (t.follow r)) n p s).Unresubmitted) :
    DismissesAll ws s (Intrusive.forEach (fun (t : Loop ω) b => t.nextPending b)
      (fun r t => wakeOrFail env true r (t.follow r)) n p s) := by
  induction ws generalizing n p s with
  | nil =>
    obtain rfl : p = none := hc
    rw [Intrusive.forEach_none]
    exact ⟨nofun, fun _ _ => rfl, List.Subset.refl _⟩
  | cons a ws ih =>
    obtain ⟨rfl, hc⟩ := hc
    cases n with
    | zero => simp at hn
    | succ n =>
      rw [Intrusive.forEach] at hz ⊢
      have hz' := unresubmitted_of_forEach (fails_wakeRound env) hz
      obtain ⟨hlink, -, hin⟩ := (fails_wakeRound env a s).rest hnd hacc hz'
      refine .cons (dismisses_wakeRound env a s) ?_ hnd hacc hz'
      exact ih (by simpa using hn) (hc.congr hlink) (List.nodup_cons.mp hnd).2 hin hz

/-- **A publication of a failure** fails whoever waits for the resource. -/
theorem Located.failedNow_publish (h : Located s v) {cleanup : Bool}
    (hz : (s.curlEventResPublish env id none cleanup).Unresubmitted)
    (hr : r ∈ s.contents (.blocked id)) :
    FailedNow r s (s.curlEventResPublish env id none cleanup) := by
  have hchain := h.isChain_waiters id
  rw [← fst_publishPayload id none cleanup] at hchain
  have hall := dismissesAll_forEach
    (s := s.setResources (s.resources.publishPayload id none cleanup).2) (h.length_waiters_le id)
    hchain (h.nodup_waiters id) (h.accepted_of_waiters id) hz
  have hfailed := hall.failed r hr
  exact ⟨hfailed.told, hfailed.destroyed⟩

theorem Spared.unresubmitted (h : s.Spared strict) : s.Unresubmitted := fun _ =>
  h.notMem (by simp)

/-- A call that publishes a failure, wherever it is made. -/
theorem Sited.failedNow {p : Call × Loop ω} (h : Sited strict env p) (hid : id ∈ p.1.fails p.2)
    (hr : r ∈ p.2.contents (.blocked id)) : FailedNow r p.2 (p.2.call env p.1) := by
  obtain ⟨⟨v, C, hwf, -⟩, hz⟩ := h
  obtain ⟨c, s⟩ := p
  dsimp only at hwf hz hid hr ⊢
  cases c with
  | publish j payload cleanup =>
    cases payload with
    | none =>
      obtain rfl := Option.some.inj hid
      exact hwf.located.failedNow_publish hz.unresubmitted hr
    | some p => exact nomatch hid
  | register payload cleanup =>
    cases payload with
    | none =>
      obtain rfl := Option.some.inj hid
      rw [← contents_declare hwf] at hr
      have hfailed := hwf.declare.located.failedNow_publish hz.unresubmitted hr
      exact ⟨hfailed.told, hfailed.destroyed⟩
    | some p => exact nomatch hid
  | _ => exact nomatch hid

/-! ### Nobody else starts a request -/

/-- No request is started. -/
def Startless (s t : Loop ω) : Prop := Adds Event.NotStart s t

theorem startless_callOnAborted (env : Env ω) (s : Loop ω) (r : ReqId) :
    Startless s (s.callOnAborted env r).2 := by
  rw [callOnAborted]
  split
  · exact adds_emit s (e := .onFailure r .abortedByCallback 0) trivial
  · exact .refl s

theorem startless_wakeOrFail (env : Env ω) (failed : Bool) (r : ReqId) (s : Loop ω) :
    Startless s (s.wakeOrFail env failed r) := by
  rw [wakeOrFail]
  dsimp only
  split
  · have htold : Startless s ((s.setNextPending r none).callOnAborted env r).2 :=
      startless_callOnAborted env (s.setNextPending r none) r
    exact htold.trans (.of_trace (trace_apiCalls env _ _))
  · exact .of_trace rfl

theorem startless_publish (env : Env ω) (s : Loop ω) (id : ResId) (payload : Option Payload)
    (cleanup : Bool) : Startless s (s.curlEventResPublish env id payload cleanup) :=
  Intrusive.forEach_invariant (P := Startless s)
    (fun r t ht => (ht.trans (.of_trace (trace_follow t r))).trans (startless_wakeOrFail env _ r _))
    (.of_trace rfl)

theorem startless_call (env : Env ω) (s : Loop ω) (c : Call) : Startless s (s.call env c) := by
  cases c with
  | api c => exact .of_trace (trace_apiCall env s c)
  | register payload cleanup => exact startless_publish env s.curlEventResDeclare.2 _ payload cleanup
  | publish id payload cleanup => exact startless_publish env s id payload cleanup
  | _ => exact .of_trace rfl

theorem startless_foldl {β : Type} {f : Loop ω → β → Loop ω} (h : ∀ s b, Startless s (f s b))
    (l : List β) (s : Loop ω) : Startless s (l.foldl f s) := by
  induction l generalizing s with
  | nil => exact .refl s
  | cons b l ih => exact (h s b).trans (ih (f s b))

theorem startless_callOnComplete (env : Env ω) (s : Loop ω) (r : ReqId) :
    Startless s (s.callOnComplete env r).2 := by
  have htold : Startless s (s.tellComplete env r).2.2 := by
    rw [tellComplete]
    split
    · exact adds_emit s (e := .onComplete r) trivial
    · exact adds_emit s (e := .nullCall r) trivial
  rw [callOnComplete_eq_told]
  exact htold.trans (startless_foldl (startless_call env) _ _)

theorem startless_callOnFailure (env : Env ω) (s : Loop ω) (r : ReqId) (m : Message) :
    Startless s (s.callOnFailure env r m.easy m.result m.httpCode).2 := by
  have htold : Startless s (s.tellFailure env r m).2.2 := by
    rw [tellFailure]
    split
    · exact adds_emit s (e := .onFailure r m.result m.httpCode) trivial
    · exact .refl s
  rw [callOnFailure_eq_told]
  exact htold.trans (startless_foldl (startless_call env) _ _)

theorem startless_settle (env : Env ω) (s : Loop ω) (r : ReqId) (httpCode : ℤ) (success : Bool)
    (retryIn : ℤ) : Startless s (s.settle env r httpCode success retryIn) := by
  have hnull : ∀ {tr : List Event} {t : Loop ω}, TraceNull r s tr → t.trace = tr → Startless s t := by
    rintro tr t (rfl | rfl) ht
    · exact .of_trace ht
    · exact ⟨[.nullCall r], ht, fun e he => List.mem_singleton.mp he ▸ trivial⟩
  have hout := settle_outcome env s r httpCode success retryIn
  generalize s.settle env r httpCode success retryIn = t at hout ⊢
  cases hout with
  | parked w due => exact .of_trace rfl
  | again w tr n f _ htr => exact hnull htr rfl
  | ended w tr n f _ htr => exact hnull htr rfl

theorem startless_completedRound (env : Env ω) (s : Loop ω) (m : Message) :
    Startless s (s.completedRound env m) := by
  rw [completedRound]
  cases s.transferOf m with
  | none => exact .refl s
  | some a =>
    have htaken : Startless s ((((s.reportMessage m.easy).follow a.priv).eraseMap .queued
        a.priv).addNum .queued (-1)) := .of_trace (trace_follow (s.reportMessage m.easy) a.priv)
    have hreceive : Startless s (s.receive env m a.priv).2 := by
      rw [receive]
      split
      · exact htaken.trans (startless_callOnComplete env _ _)
      · exact htaken.trans (startless_callOnFailure env _ _ m)
    exact hreceive.trans (startless_settle env _ _ _ _ _)

theorem startless_processCompletedRequests (env : Env ω) (s : Loop ω) (msgs : List Message) :
    Startless s (s.processCompletedRequests env msgs) := by
  have hround : ∀ r (t : Loop ω), Startless t (t.injectedRound env r) := by
    intro r t
    rw [injectedRound]
    split
    · exact startless_callOnComplete env t r
    · exact .of_trace rfl
  exact (startless_foldl (startless_completedRound env) msgs s).trans
    (Intrusive.forEach_invariant (P := Startless _)
      (fun r t ht => (ht.trans (.of_trace (trace_follow t r))).trans (hround r _)) (.of_trace rfl))

/-- The two passes that schedule requests are the only actions that start any. -/
theorem startless_act (env : Env ω) (s : Loop ω) {a : Action} (hd : a ≠ .destroy)
    (hp : a ≠ .processCancelledAndPendingRequests) (hm : a ≠ .moveInactiveRequestsToQueue) :
    Startless s (act env a s) := by
  cases a with
  | call c => exact startless_call env s c
  | applyOp op =>
    rw [act, applyOp_eq_call]
    exact startless_call env { s with applied := op :: s.applied } op.call
  | processCompletedRequests msgs => exact startless_processCompletedRequests env s msgs
  | calculateNextTimerExpiry =>
    obtain ⟨w, hw⟩ := calculateNextTimerExpiry_eq env s 200
    rw [act, hw]
    exact .of_trace rfl
  | processCancelledAndPendingRequests => exact absurd rfl hp
  | moveInactiveRequestsToQueue => exact absurd rfl hm
  | destroy => exact absurd rfl hd
  | _ => exact .of_trace rfl

/-! ### Passes -/

/-- What a pass does, if it is one that comes to requests to schedule them. -/
theorem AtRest.spares_act (h : s.AtRest strict) {a : Action} (hz : (Loop.act env a s).Spared strict)
    (ha : a = .processCancelledAndPendingRequests ∨ a = .moveInactiveRequestsToQueue) :
    Spares (Schedules a s) s (Loop.act env a s) := by
  rcases ha with rfl | rfl
  · exact h.spares_processCancelledAndPendingRequests hz
  · exact spares_moveInactiveRequestsToQueue (fun _ hr => hr) env

theorem AtRest.accepted_of_schedules (h : s.AtRest strict) {a : Action} (hr : Schedules a s r) :
    r ∈ s.accepted := by
  cases a with
  | processCancelledAndPendingRequests =>
    obtain ⟨v, C, hwf, -⟩ := h
    have hpend := hr.1
    rw [hwf.contents_eq] at hpend
    exact hwf.located.accepted_of_mem hpend
  | moveInactiveRequestsToQueue =>
    obtain ⟨m, -, hm⟩ := hr
    exact (h.mapped hm).1.1
  | _ => exact hr.elim

/-- Nobody with a failed dependency is started, unless a pass came to him. -/
theorem Spares.unstarted {D : ReqId → Prop} (h : Spares D s t) (hacc : D r → r ∈ s.accepted)
    (hno : ¬ (D r ∧ s.Doomed r)) (hd : s.Doomed r ∨ t.Doomed r) :
    t.trace.count (.started r) = s.trace.count (.started r) := by
  by_cases hD : D r
  · have hbefore : s.Doomed r := hd.elim id (h.doomed (hacc hD))
    exact absurd ⟨hD, hbefore⟩ hno
  · exact h.told.count_eq hD

/-- A pass reports no failure, so it fails nobody who would be told of it. -/
theorem Spares.not_failedNow {D : ReqId → Prop} (h : Spares D s t)
    (hreq : (s.req r).onFailure = true) : ¬ FailedNow r s t := by
  rintro ⟨htold, -⟩
  let e : Event := .onFailure r .abortedByCallback 0
  have hcount : (t.story r).count e = (s.story r).count e + 1 := by
    rw [htold, if_pos hreq, List.singleton_append, List.count_cons_self]
  have hsame : t.trace.count e = s.trace.count e := h.told.count_eq fun he => he
  rw [← count_story t e, ← count_story s e] at hsame
  exact Nat.succ_ne_self _ (hcount.symm.trans hsame)

/-- **One step** of a loop that is atRest. -/
theorem AtRest.sharesFate (h : s.AtRest False) {a : Action} (ha : Orderly env a s)
    (hno : ¬ (Schedules a s r ∧ s.Doomed r)) : SharesFate env a s r := by
  have hspared := ha.spared
  refine ⟨fun p hp id hid hr => (h.sited hspared hp).failedNow hid hr,
    fun hs hd => absurd ⟨hs, hd⟩ hno, fun hd => ?_⟩
  by_cases hpass : a = .processCancelledAndPendingRequests ∨ a = .moveInactiveRequestsToQueue
  · exact (h.spares_act hspared hpass).unstarted h.accepted_of_schedules hno hd
  · obtain ⟨hp, hm⟩ := not_or.mp hpass
    exact (startless_act env s ha.1 hp hm).count_eq (e := .started r) fun he => he

/-- A pass that comes to a request with a failed dependency breaks the law. -/
theorem AtRest.not_sharesFate (h : s.AtRest strict) {a : Action} (hz : (Loop.act env a s).Spared strict)
    (hreq : (s.req r).onFailure = true) (hs : Schedules a s r) (hd : s.Doomed r) :
    ¬ SharesFate env a s r := by
  intro hfate
  have hpass : a = .processCancelledAndPendingRequests ∨ a = .moveInactiveRequestsToQueue := by
    cases a with
    | processCancelledAndPendingRequests => exact .inl rfl
    | moveInactiveRequestsToQueue => exact .inr rfl
    | _ => exact hs.elim
  exact (h.spares_act hz hpass).not_failedNow hreq (hfate.late hs hd)

/-! ### Runs -/

/-- **The law holds of a step** of a run exactly if the step is no pass that comes to the request while
a dependency of it has failed. -/
theorem sharesFate_iff (env : Env ω) (mem : Memory) (world : ω) (as : List Action)
    (has : Guarded.Allowed (Loop.act env) (Orderly env) (curlEventLoopInit mem world) as) (a : Action)
    (ha : Orderly env a (Guarded.run (Loop.act env) (curlEventLoopInit mem world) as)) (r : ReqId) :
    let s := Guarded.run (Loop.act env) (curlEventLoopInit mem world) as
    (¬ (Schedules a s r ∧ s.Doomed r) → SharesFate env a s r) ∧
      ((s.req r).onFailure = true → SharesFate env a s r → ¬ (Schedules a s r ∧ s.Doomed r)) := by
  intro s
  have hatRest : s.AtRest False := atRest_of_orderly mem world has
  exact ⟨hatRest.sharesFate ha, fun hreq hfate hboth =>
    hatRest.not_sharesFate ha.spared hreq hboth.1 hboth.2 hfate⟩

/-- Requests 1 and 2 wait for a resource, and its failure is published by another thread. When the
operation is taken from the inbox, request 1 is failed. -/
theorem sharesFate_iff_blocked : SharesFate Env.uneventful
    (.applyOp ⟨.publish, 5, none, false, 1⟩) (Guarded.run (Loop.act Env.uneventful)
      (curlEventLoopInit (Memory.plain fun _ => [5]) ())
      [.call (.api (.submit 1 0)), .call (.api (.submit 2 0)), .processCancelledAndPendingRequests,
        .call (.api (.publishAsync 1 5 none false)), .takeInbox]) 1 :=
  (sharesFate_iff Env.uneventful _ () _ (by decide +kernel) _ (by decide +kernel) 1).1
    fun h => h.1.elim

/-- The failure is published before the request is submitted, and the request is started. -/
theorem not_sharesFate_submitted_late :
    let s := Guarded.run (Loop.act Env.uneventful) (curlEventLoopInit (Memory.plain fun _ => [5]) ())
      [.call (.publish 5 none false), .call (.api (.submit 1 0))]
    ¬ SharesFate Env.uneventful .processCancelledAndPendingRequests s 1 ∧
      (Loop.act Env.uneventful .processCancelledAndPendingRequests s).story 1 = [.started 1] := by
  refine ⟨fun h => ?_, by decide +kernel⟩
  have hfailed := h.late ⟨by decide +kernel, by decide +kernel⟩ (by decide +kernel)
  exact absurd hfailed.destroyed (by decide +kernel)

end Loop

end CurlLoop
