import CurlLoop.Evolution

/-!
# Nothing but the drain looks at the inbox

The functions that publish and release resources move requests and call callbacks, and a callback may
post operations. Posting writes the inbox and draws ids; nothing else reads either. So two loops that
differ in the inbox, in what is recorded of it, and in the next id, go on alike, and what their
callbacks post differs in the ids of the registrations only.

## Main definitions

* `ResOp.unnumbered` — an operation less the id that was drawn for it
* `Loop.forget`, `Loop.Alike` — loops that differ in the inbox and the next id
* `ResOp.asCall` — the call an operation stands for

## Main results

* `Loop.Alike.applyOps` — to apply the operations is to make the calls
* `Loop.alike_inboxDrain` — so a drain that nothing interrupts is the calls in posting order
-/

namespace CurlLoop

/-- The operation, less the id that was drawn when it was posted. -/
def ResOp.unnumbered (op : ResOp) : ResOp := if op.kind = .register then { op with id := 0 } else op

/-- The store, less the next id. -/
def Resources.forget (s : Resources) : Resources := { s with gNextId := 0 }

namespace Resources

variable (s : Resources) (id : ResId)

theorem publishPayload_forget (payload : Option Payload) (cleanup : Bool) :
    s.forget.publishPayload id payload cleanup =
      ((s.publishPayload id payload cleanup).1, (s.publishPayload id payload cleanup).2.forget) := by
  have hfind : s.forget.resFind id = s.resFind id := rfl
  simp only [publishPayload, resGetOrCreate, hfind]
  cases s.resFind id <;> rfl

theorem release_forget : s.forget.curlEventResRelease id = (s.curlEventResRelease id).forget := by
  have hfind : s.forget.resFind id = s.resFind id := rfl
  simp only [curlEventResRelease, hfind]
  cases s.resFind id with
  | none => rfl
  | some n =>
    dsimp only
    split <;> rfl

theorem releaseDep_forget : s.forget.releaseDep id = (s.releaseDep id).forget := by
  have hfind : s.forget.resFind id = s.resFind id := rfl
  simp only [releaseDep, hfind]
  cases s.resFind id with
  | none => rfl
  | some n =>
    dsimp only
    rw [maybeAutoreleaseOwner, maybeAutoreleaseOwner]
    split
    · exact release_forget (s.put n.unref) n.unref.id
    · rfl

theorem releaseDeps_forget (deps : List ResId) :
    s.forget.curlResourceReleaseRequestDeps deps =
      (s.curlResourceReleaseRequestDeps deps).forget := by
  induction deps generalizing s with
  | nil => rfl
  | cons id deps ih =>
    rw [curlResourceReleaseRequestDeps, List.foldl_cons, releaseDep_forget]
    exact ih (s.releaseDep id)

end Resources

variable {ω : Type}

namespace Loop

/-- The loop, less the inbox, what was applied, and every id that was drawn. -/
def forget (s : Loop ω) : Loop ω :=
  { s with
    resInbox := []
    applied := []
    posted := s.posted.map ResOp.unnumbered
    resources := s.resources.forget }

/-- The loops differ in the inbox, in what was applied, and in ids that were drawn. -/
def Alike (s t : Loop ω) : Prop := s.forget = t.forget

variable {s t u : Loop ω} {env : Env ω}

theorem Alike.refl (s : Loop ω) : Alike s s := rfl

theorem Alike.symm (h : Alike s t) : Alike t s := Eq.symm h

theorem Alike.trans (h : Alike s t) (h' : Alike t u) : Alike s u := Eq.trans h h'

/-- A function that forgetting commutes with. -/
theorem Alike.map {f : Loop ω → Loop ω} (hf : ∀ s : Loop ω, (f s).forget = f s.forget)
    (h : Alike s t) : Alike (f s) (f t) := by
  rw [Alike, hf, hf, h]

theorem Alike.eq (h : Alike s t) : s.forget = t.forget := h

theorem Alike.nextPending (h : Alike s t) : s.nextPending = t.nextPending := by
  change s.forget.nextPending = t.forget.nextPending
  rw [h.eq]

theorem Alike.accepted (h : Alike s t) : s.accepted = t.accepted := by
  change s.forget.accepted = t.forget.accepted
  rw [h.eq]

theorem Alike.store (h : Alike s t) : s.resources.forget = t.resources.forget :=
  congrArg Loop.resources h.eq

theorem Alike.posted (h : Alike s t) :
    s.posted.map ResOp.unnumbered = t.posted.map ResOp.unnumbered := congrArg Loop.posted h.eq

theorem Alike.length_posted (h : Alike s t) : s.posted.length = t.posted.length := by
  simpa using congrArg List.length h.posted

theorem Alike.foldl {κ : Type} {f : Loop ω → κ → Loop ω}
    (hf : ∀ {s t : Loop ω} (c), Alike s t → Alike (f s c) (f t c)) (cs : List κ) (h : Alike s t) :
    Alike (cs.foldl f s) (cs.foldl f t) := by
  induction cs generalizing s t with
  | nil => exact h
  | cons c cs ih => exact ih (hf c h)

/-! ### Calls of any thread -/

theorem Alike.inboxPush (h : Alike s t) {op op' : ResOp} (hop : op.unnumbered = op'.unnumbered) :
    Alike (s.inboxPush op) (t.inboxPush op') := by
  have hpush : ∀ (s : Loop ω) op, (s.inboxPush op).forget =
      { s.forget with posted := op.unnumbered :: s.forget.posted } := fun _ _ => rfl
  rw [Alike, hpush, hpush, h, hop]

theorem Alike.setNextId (h : Alike s t) (m n : ResId) :
    Alike { s with resources := { s.resources with gNextId := m } }
      { t with resources := { t.resources with gNextId := n } } := h

theorem submit_forget (s : Loop ω) (r : ReqId) (priority : ℤ) :
    (s.curlEventRequestSubmit env r priority).2.forget =
      (s.forget.curlEventRequestSubmit env r priority).2 := by
  have hreq : s.forget.req = s.req := rfl
  simp only [curlEventRequestSubmit, hreq]
  split
  · rfl
  · split <;> rfl

theorem cancel_forget (s : Loop ω) (r : ReqId) :
    (s.curlEventLoopCancel r).2.forget = (s.forget.curlEventLoopCancel r).2 := by
  simp only [curlEventLoopCancel, apply_ite Prod.snd, apply_ite forget]
  rfl

theorem Alike.apiCall (env : Env ω) (c : ApiCall) (h : Alike s t) :
    Alike (s.apiCall env c) (t.apiCall env c) := by
  cases c with
  | submit r priority => exact h.map fun s => submit_forget s r priority
  | loopSubmit r priority =>
    exact h.map (f := fun s => s.curlEventLoopSubmit env r priority) fun _ => rfl
  | cancel r => exact h.map fun s => cancel_forget s r
  | inject w r => exact h.map (f := fun s => s.curlEventLoopInject w r) fun _ => rfl
  | registerAsync thread payload cleanup =>
    exact (h.setNextId (s.resources.gNextId + 1) (t.resources.gNextId + 1)).inboxPush rfl
  | publishAsync thread id payload cleanup => exact h.inboxPush rfl
  | releaseAsync thread id => exact h.inboxPush rfl

/-! ### The functions of the loop thread -/

theorem releaseRetained_forget (s : Loop ω) (r : ReqId) :
    (s.releaseRetained r).forget = s.forget.releaseRetained r := by
  have hstore : (if (s.req r).depsRetained then
      s.forget.resources.curlResourceReleaseRequestDeps (s.req r).depHead
        else s.forget.resources) = (s.releaseRetained r).resources.forget := by
    rw [releaseRetained]
    dsimp only
    split
    · exact s.resources.releaseDeps_forget _
    · rfl
  have hreq : s.forget.req = s.req := rfl
  simp only [releaseRetained, hreq] at hstore ⊢
  rw [hstore]
  rfl

theorem destroy_forget (s : Loop ω) (r : ReqId) :
    (s.curlEventRequestDestroy r).forget = s.forget.curlEventRequestDestroy r := by
  have hbefore : ((s.beware (r ∈ s.cancelledList) (.destroyedCancelled r)).curlEventLoopRequestCleanup
      r).forget = (s.forget.beware (r ∈ s.forget.cancelledList)
        (.destroyedCancelled r)).curlEventLoopRequestCleanup r := rfl
  have hdestroy : ∀ s : Loop ω, ({ s with destroyed := r :: s.destroyed } : Loop ω).forget =
      { s.forget with destroyed := r :: s.forget.destroyed } := fun _ => rfl
  rw [curlEventRequestDestroy, curlEventRequestDestroy, hdestroy, releaseRetained_forget, hbefore]

theorem callOnAborted_forget (env : Env ω) (s : Loop ω) (r : ReqId) :
    (s.callOnAborted env r).1 = (s.forget.callOnAborted env r).1 ∧
      (s.callOnAborted env r).2.forget = (s.forget.callOnAborted env r).2 := by
  have hreq : s.forget.req = s.req := rfl
  rw [callOnAborted, callOnAborted, hreq]
  split <;> exact ⟨rfl, rfl⟩

theorem follow_forget (s : Loop ω) (r : ReqId) : (s.follow r).forget = s.forget.follow r := by
  rw [follow, follow, apply_ite forget]
  rfl

theorem Alike.wakeOrFail (failed : Bool) (r : ReqId) (h : Alike s t) :
    Alike (wakeOrFail env failed r s) (wakeOrFail env failed r t) := by
  have hlink : Alike (s.setNextPending r none) (t.setNextPending r none) :=
    h.map (f := fun s => s.setNextPending r none) fun _ => rfl
  cases failed with
  | true =>
    obtain ⟨hcalls, hs⟩ := callOnAborted_forget env (s.setNextPending r none) r
    obtain ⟨hcalls', ht⟩ := callOnAborted_forget env (t.setNextPending r none) r
    have hask : Alike ((s.setNextPending r none).callOnAborted env r).2
        ((t.setNextPending r none).callOnAborted env r).2 := by
      rw [Alike, hs, ht, hlink.eq]
    have heq : ((s.setNextPending r none).callOnAborted env r).1 =
        ((t.setNextPending r none).callOnAborted env r).1 := by
      rw [hcalls, hcalls', hlink.eq]
    simp only [Loop.wakeOrFail, if_true, heq]
    exact (hask.foldl (fun c h => h.apiCall env c) _).map fun s => destroy_forget s r
  | false => exact hlink.map (f := fun s => s.requeuePending r) fun _ => rfl

theorem Alike.forEachPending (head : Option ReqId) {f : ReqId → Loop ω → Loop ω}
    (hf : ∀ {s t : Loop ω} (r), Alike s t → Alike (f r s) (f r t)) (h : Alike s t) :
    Alike (s.forEachPending head f) (t.forEachPending head f) := by
  rw [Loop.forEachPending, Loop.forEachPending, h.accepted]
  refine Intrusive.forEach_congr (R := Alike) (fun r s t h => ?_) (fun r s t h => ?_) h
  · rw [h.nextPending]
  · exact hf r (h.map fun s => follow_forget s r)

theorem setResources_forget (s : Loop ω) (store : Resources) :
    (s.setResources store).forget = { s.forget with resources := store.forget } := rfl

theorem Alike.setResources {store store' : Resources} (h : Alike s t)
    (hstore : store.forget = store'.forget) :
    Alike (s.setResources store) (t.setResources store') := by
  rw [Alike, setResources_forget, setResources_forget, h.eq, hstore]

theorem Alike.publish (id : ResId) (payload : Option Payload) (cleanup : Bool) (h : Alike s t) :
    Alike (s.curlEventResPublish env id payload cleanup)
      (t.curlEventResPublish env id payload cleanup) := by
  have hs := s.resources.publishPayload_forget id payload cleanup
  rw [h.store, t.resources.publishPayload_forget] at hs
  obtain ⟨hhead, hstore⟩ := Prod.mk.inj hs
  rw [curlEventResPublish, curlEventResPublish]
  dsimp only
  rw [hhead]
  exact (h.setResources hstore.symm).forEachPending _ fun r h => h.wakeOrFail _ r

theorem Alike.release (id : ResId) (h : Alike s t) :
    Alike (s.curlEventResRelease id) (t.curlEventResRelease id) := by
  refine h.map (f := fun s => s.curlEventResRelease id) fun s => ?_
  rw [curlEventResRelease, curlEventResRelease, setResources_forget, ← Resources.release_forget]
  rfl

end Loop

/-- The call an operation stands for. -/
def ResOp.asCall (op : ResOp) : Call :=
  match op.kind with
  | .register | .publish => .publish op.id op.payload op.cleanup
  | .release => .release op.id

namespace Loop

variable {s t : Loop ω} {env : Env ω}

/-- **To apply an operation is to make its call.** -/
theorem Alike.applyOp_call (op : ResOp) (h : Alike s t) :
    Alike (s.applyOp env op) (t.call env op.asCall) := by
  have hs : Alike { s with applied := op :: s.applied } t := h
  rw [applyOp, ResOp.asCall]
  cases op.kind with
  | register | publish => exact hs.publish op.id op.payload op.cleanup
  | release => exact hs.release op.id

theorem Alike.applyOp (op : ResOp) (h : Alike s t) :
    Alike (s.applyOp env op) (t.applyOp env op) :=
  (h.applyOp_call op).trans ((Alike.refl t).applyOp_call op).symm

/-- **To apply operations is to make their calls**, in the same order. -/
theorem Alike.applyOps (ops : List ResOp) (h : Alike s t) :
    Alike (ops.foldl (fun s op => s.applyOp env op) s) (t.calls env (ops.map ResOp.asCall)) := by
  induction ops generalizing s t with
  | nil => exact h
  | cons op ops ih => exact ih (h.applyOp_call op)

/-- **A drain in one go** is the calls in posting order. -/
theorem alike_inboxDrain (env : Env ω) (s : Loop ω) :
    Alike (s.curlResourceInboxDrain env)
      (s.calls env (s.resInbox.reverse.map ResOp.asCall)) := by
  have hempty : Alike { s with resInbox := [] } s := rfl
  exact hempty.applyOps s.resInbox.reverse

end Loop

end CurlLoop
