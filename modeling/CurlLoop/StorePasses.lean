import CurlLoop.NodeLifetime
import CurlLoop.Traffic

/-!
# What the passes do to the store

The passes and the destruction of requests write the store in a few ways only: references are
retained and dropped, a placeholder is created, a waiting list is written, and an id is given out.
Publications and releases come from calls. So what is to be shown of a whole pass is shown for these
few, and for the calls that the callbacks of the pass make.

The calls that callbacks make leave no trace in the loop. Here the world of the loop records them,
and nothing reads the record.

A relation between two states that holds where the store and the records are the same, that holds of
these writes, and that composes, is a *frame*. If it also holds of a callback that replies with calls,
it is a *law* of the passes.

## Main definitions

* `Env.recording` — a world that records the calls of callbacks
* `Resources.Shift` — what a pass does to the store itself
* `Loop.StoreFrame`, `Loop.StoreLaw` — what is to be shown of a relation

## Main results

* `StoreFrame.publish` — the requests that a publication finds waiting
* `StoreLaw.pass` — a law holds of the passes
-/

namespace CurlLoop

variable {ω : Type}

/-- A function of the environment, beside a record that it leaves alone. -/
def beside {β ω : Type} (f : ω → β × ω) (w : ω × List Call) : β × ω × List Call :=
  ((f w.1).1, (f w.1).2, w.2)

/-- The same environment, in a world that records the calls on the loop thread that callbacks
make. -/
def Env.recording (env : Env ω) : Env (ω × List Call) where
  macroNow := beside env.macroNow
  rateManagerCanProceed key high := beside (env.rateManagerCanProceed key high)
  rateManagerStartRequest key high := beside (env.rateManagerStartRequest key high)
  rateManagerRequestDone key w := (env.rateManagerRequestDone key w.1, w.2)
  rateManagerHandle429 key := beside (env.rateManagerHandle429 key)
  curlEasyInit := beside env.curlEasyInit
  onPrepare r := beside (env.onPrepare r)
  onRetry r q := beside (env.onRetry r q)
  computeBackoffMs q := beside (env.computeBackoffMs q)
  onComplete r w :=
    let (reply, o) := env.onComplete r w.1
    (reply, o, reply.calls ++ w.2)
  onFailure r easy code httpCode w :=
    let (reply, o) := env.onFailure r easy code httpCode w.1
    (reply, o, reply.calls ++ w.2)
  onAborted r := beside (env.onAborted r)

/-- A user whose completion callback publishes a resource of the request's number. -/
def Env.publisher : Env Unit :=
  { Env.uneventful with onComplete := fun r _ => (⟨0, [.publish r (some r) true]⟩, ()) }

/-- What a publication leaves of a node, without its waiting list and its count. -/
def Res.look (n : Res) : ResId × Option Payload × Bool × Bool :=
  (n.id, n.payload, n.cleanup, n.failed)

theorem Res.estate_of_look {n m : Res} (h : n.look = m.look) : n.estate = m.estate := by
  simp only [Res.look, Prod.mk.injEq] at h
  obtain ⟨hid, hpayload, hcleanup, -⟩ := h
  rw [Res.estate, Res.estate, Res.due, Res.due, hid, hpayload, hcleanup]

/-- What the passes, and the functions of the store but publication and release, do to the store. -/
inductive Resources.Shift : Resources → Resources → Prop
  /-- An id is given out. -/
  | claim (s : Resources) : Shift s { s with gNextId := s.gNextId + 1 }
  | insert (s : Resources) {n : Res} : n.payload = none → n.failed = false → Shift s (s.resInsert n)
  | retain (s : Resources) (deps : List ResId) : Shift s (s.curlResourceRetainRequestDeps deps)
  | letGo (s : Resources) (deps : List ResId) : Shift s (s.curlResourceReleaseRequestDeps deps)
  | create (s : Resources) (id : ResId) : Shift s (s.resGetOrCreate id).2
  /-- A node is written, but for what was published. -/
  | write (s : Resources) (id : ResId) {n : Res} : n.look = (s.resGetOrCreate id).1.look →
    Shift s ((s.resGetOrCreate id).2.put n)

namespace Loop

/-- What the records and the store say. -/
def account (s : Loop (ω × List Call)) : Resources × List Call × List ResOp :=
  (s.resources, s.world.2, s.applied)

/-- An operation of the inbox is recorded as applied. -/
def recordApplied {ω : Type} (s : Loop ω) (op : ResOp) : Loop ω :=
  { s with applied := op :: s.applied }

theorem applyOp_of_release {ω : Type} (env : Env ω) (s : Loop ω) {op : ResOp}
    (h : op.kind = .release) :
    s.applyOp env op = (s.recordApplied op).curlEventResRelease op.id := by
  rw [applyOp, h]
  rfl

theorem applyOp_of_publish {ω : Type} (env : Env ω) (s : Loop ω) {op : ResOp}
    (h : op.kind ≠ .release) : s.applyOp env op =
      (s.recordApplied op).curlEventResPublish env op.id op.payload op.cleanup := by
  rw [applyOp]
  cases hkind : op.kind with
  | register | publish => rfl
  | release => exact absurd hkind h

/-- A relation that composes, holds where nothing was written to the store, and holds of what the passes
write. -/
structure StoreFrame (R : Loop (ω × List Call) → Loop (ω × List Call) → Prop) : Prop where
  trans : ∀ {s t u}, R s t → R t u → R s u
  quiet : ∀ {s t}, t.account = s.account → R s t
  shift : ∀ {s store}, s.resources.Shift store → R s (s.setResources store)

/-- It also holds of a callback: its calls are recorded, and then made. -/
structure StoreLaw (env : Env ω) (R : Loop (ω × List Call) → Loop (ω × List Call) → Prop) : Prop
    extends StoreFrame R where
  reply : ∀ {s t : Loop (ω × List Call)} {cs}, t.resources = s.resources → t.world.2 = cs ++ s.world.2 →
    t.applied = s.applied → R s (t.calls env.recording cs)

variable {R : Loop (ω × List Call) → Loop (ω × List Call) → Prop} {env : Env ω}

namespace StoreFrame

variable {R : Loop (ω × List Call) → Loop (ω × List Call) → Prop} {s t : Loop (ω × List Call)}
  {f : ReqId → Loop (ω × List Call) → Loop (ω × List Call)}

theorem refl (h : StoreFrame R) (s : Loop (ω × List Call)) : R s s := h.quiet rfl

/-- The store is written, and nothing else that counts. -/
theorem of_shift (h : StoreFrame R) {store : Resources} (hstore : s.resources.Shift store)
    (ht : t.account = (s.setResources store).account) : R s t :=
  h.trans (h.shift hstore) (h.quiet ht)

/-- A node is written, but for what was published. -/
theorem of_write (h : StoreFrame R) {id : ResId} {n : Res}
    (ht : t.account = (s.setResources ((s.resources.resGetOrCreate id).2.put n)).account)
    (hn : n.look = (s.resources.resGetOrCreate id).1.look) : R s t :=
  h.of_shift (.write s.resources id hn) ht

theorem follow (h : StoreFrame R) (s : Loop (ω × List Call)) (r : ReqId) : R s (s.follow r) := by
  rw [Loop.follow]
  split <;> exact h.quiet rfl

theorem forEachPending (h : StoreFrame R) (hf : ∀ r s, R s (f r s)) (s : Loop (ω × List Call))
    (head : Option ReqId) : R s (s.forEachPending head f) :=
  Intrusive.forEach_invariant (P := R s)
    (fun r t ht => h.trans (h.trans ht (h.follow t r)) (hf r _)) (h.refl s)

theorem forEachCancelled (h : StoreFrame R) (hf : ∀ r s, R s (f r s)) (s : Loop (ω × List Call))
    (head : Option ReqId) : R s (s.forEachCancelled head f) :=
  Intrusive.forEach_invariant (P := R s)
    (fun r t ht => h.trans (h.trans ht (h.follow t r)) (hf r _)) (h.refl s)

/-! ### Calls -/

theorem apiCall (h : StoreFrame R) (env : Env ω) (s : Loop (ω × List Call)) (c : ApiCall) :
    R s (s.apiCall env.recording c) := by
  cases c with
  | submit r priority =>
    show R s (s.curlEventRequestSubmit env.recording r priority).2
    rw [curlEventRequestSubmit]
    dsimp only
    split
    · exact h.refl s
    · split <;> exact h.quiet rfl
  | loopSubmit r priority => exact h.quiet rfl
  | cancel r =>
    show R s (s.curlEventLoopCancel r).2
    rw [curlEventLoopCancel]
    dsimp only
    split
    · exact h.quiet rfl
    · split <;> exact h.quiet rfl
  | inject w r => exact h.quiet rfl
  | registerAsync thread payload cleanup => exact h.of_shift (.claim s.resources) rfl
  | publishAsync thread id payload cleanup => exact h.quiet rfl
  | releaseAsync thread id => exact h.quiet rfl

theorem apiCalls (h : StoreFrame R) (env : Env ω) (cs : List ApiCall) (s : Loop (ω × List Call)) :
    R s (s.apiCalls env.recording cs) := by
  induction cs generalizing s with
  | nil => exact h.refl s
  | cons c cs ih => exact h.trans (h.apiCall env s c) (ih (s.apiCall env.recording c))

/-- A request lets go of its dependencies when it is destroyed. -/
theorem destroy (h : StoreFrame R) (s : Loop (ω × List Call)) (r : ReqId) :
    R s (s.curlEventRequestDestroy r) := by
  refine h.of_shift (.letGo s.resources (s.held r)) ?_
  rw [account, account, resources_destroy]
  rfl

theorem callOnAborted (h : StoreFrame R) (env : Env ω) (s : Loop (ω × List Call)) (r : ReqId) :
    R s (s.callOnAborted env.recording r).2 := by
  rw [Loop.callOnAborted]
  split <;> exact h.quiet rfl

theorem wakeOrFail (h : StoreFrame R) (env : Env ω) (failed : Bool) (r : ReqId)
    (s : Loop (ω × List Call)) : R s (s.wakeOrFail env.recording failed r) := by
  rw [Loop.wakeOrFail]
  dsimp only
  split
  · have hunlinked : R s (s.setNextPending r none) := h.quiet rfl
    have htold := h.trans hunlinked (h.callOnAborted env _ r)
    exact h.trans (h.trans htold (h.apiCalls env _ _)) (h.destroy _ r)
  · exact h.quiet rfl

/-- The requests that a publication finds waiting. -/
theorem publish (h : StoreFrame R) (env : Env ω) (s : Loop (ω × List Call)) (id : ResId)
    (payload : Option Payload) (cleanup : Bool) :
    R (s.setResources (s.resources.publishPayload id payload cleanup).2)
      (s.curlEventResPublish env.recording id payload cleanup) :=
  h.forEachPending (h.wakeOrFail env payload.isNone) _ _

theorem declare (h : StoreFrame R) (s : Loop (ω × List Call)) : R s s.curlEventResDeclare.2 := by
  have hclaim : R s (s.setResources { s.resources with gNextId := s.resources.gNextId + 1 }) :=
    h.shift (.claim s.resources)
  exact h.trans hclaim (h.of_shift (.insert _ rfl rfl) rfl)

theorem addref (h : StoreFrame R) (s : Loop (ω × List Call)) (id : ResId) :
    R s (s.curlEventResAddref id) := h.of_write rfl rfl

theorem autoreleaseOwner (h : StoreFrame R) (s : Loop (ω × List Call)) (id : ResId) (enable : Bool) :
    R s (s.curlEventResAutoreleaseOwner id enable) := h.of_write rfl rfl

/-! ### Starts -/

theorem account_setupCurlHandle (env : Env ω) (s : Loop (ω × List Call)) (r : ReqId) :
    (s.setupCurlHandle env.recording r).2.account = s.account := by
  rw [setupCurlHandle]
  dsimp only
  split <;> split <;> try rfl
  all_goals (split <;> rfl)

theorem start (h : StoreFrame R) (env : Env ω) (s : Loop (ω × List Call)) (r : ReqId) :
    R s (s.curlEventLoopRequestStart env.recording r) := by
  have hask : (s.admission env.recording r).2.account = s.account := by
    rw [admission]
    split <;> rfl
  have hsetup : R s ((s.admission env.recording r).2.setupCurlHandle env.recording r).2 :=
    h.quiet ((account_setupCurlHandle env _ r).trans hask)
  rw [start_eq]
  split
  · exact h.quiet hask
  · split
    · exact h.trans hsetup (h.quiet rfl)
    · exact h.trans hsetup (h.destroy _ r)

theorem retainDepsOnce (h : StoreFrame R) (s : Loop (ω × List Call)) (r : ReqId) :
    R s (s.retainDepsOnce r) := by
  rw [Loop.retainDepsOnce]
  split
  · exact h.of_shift (.retain s.resources _) rfl
  · exact h.refl s

theorem blockOnId (h : StoreFrame R) (s : Loop (ω × List Call)) (r : ReqId) (id : ResId) :
    R s (s.curlResourceBlockOnId r id).2 := by
  rw [curlResourceBlockOnId]
  dsimp only
  split
  · rw [blockRequestOnRes]
    dsimp only
    split <;> exact h.of_write rfl rfl
  · exact h.shift (.create s.resources id)

theorem checkAndBlockList (h : StoreFrame R) (r : ReqId) (deps : List ResId)
    (s : Loop (ω × List Call)) : R s (s.curlResourceCheckAndBlockList r deps).2 := by
  induction deps generalizing s with
  | nil => exact h.refl s
  | cons id deps ih =>
    rw [curlResourceCheckAndBlockList]
    dsimp only
    split
    · exact h.blockOnId s r id
    · exact h.trans (h.blockOnId s r id) (ih _)

theorem requestReady (h : StoreFrame R) (env : Env ω) (s : Loop (ω × List Call)) (r : ReqId) :
    R s (s.requestReady env.recording r).2 := by
  refine h.quiet ?_
  rw [Loop.requestReady]
  dsimp only
  split
  · rfl
  · cases (s.req r).rateLimit with
    | none =>
      dsimp only
      split
      · rfl
      · split <;> rfl
    | some key =>
      dsimp only
      split
      · rfl
      · split <;> rfl

theorem requestIsRateLimited (h : StoreFrame R) (env : Env ω) (s : Loop (ω × List Call))
    (root : List ReqId) (r : ReqId) : R s (s.requestIsRateLimited env.recording root r).2.2 := by
  refine h.quiet ?_
  rw [Loop.requestIsRateLimited]
  dsimp only
  cases (s.req r).rateLimit with
  | none => rfl
  | some key =>
    dsimp only
    split <;> rfl

/-! ### Passes -/

theorem pendingRound (h : StoreFrame R) (env : Env ω) (r : ReqId) (s : Loop (ω × List Call)) :
    R s (s.pendingRound env.recording r) := by
  have hschedule : ∀ t : Loop (ω × List Call), R t (t.schedulePending env.recording r) := by
    intro t
    rw [schedulePending]
    dsimp only
    have hwaits := h.trans (h.retainDepsOnce t r)
      (h.checkAndBlockList r ((t.retainDepsOnce r).req r).depHead (t.retainDepsOnce r))
    split
    · exact hwaits
    · refine h.trans (h.trans hwaits (h.requestReady env _ r)) ?_
      split
      · exact h.start env _ r
      · exact h.quiet rfl
  have hmark : R s ((s.modifyReq r fun q => q.setPending false).setNextPending r none) :=
    h.quiet rfl
  rw [Loop.pendingRound]
  split
  · exact h.trans hmark (h.destroy _ r)
  · exact h.trans hmark (hschedule _)

theorem processCancelledAndPendingRequests (h : StoreFrame R) (env : Env ω)
    (s : Loop (ω × List Call)) : R s (s.processCancelledAndPendingRequests env.recording) := by
  have hdrop : ∀ r (t : Loop (ω × List Call)), R t (t.cancelledRound r) := by
    intro r t
    have hleft : R t (t.dropFromMap (cancelledMap (t.req r)) r) := h.quiet rfl
    exact h.trans hleft (h.destroy _ r)
  have hdetach : R s s.detachCancelled.detachPending := h.quiet rfl
  exact h.trans (h.trans hdetach (h.forEachCancelled hdrop _ _))
    (h.forEachPending (h.pendingRound env) _ _)

theorem rateLimitedRound (h : StoreFrame R) (env : Env ω) (now : ℕ) (r : ReqId)
    (p : List ReqId × Loop (ω × List Call)) : ∀ p',
    rateLimitedRound env.recording now r p = .done p' ∨
      rateLimitedRound env.recording now r p = .yield p' → R p.2 p'.2 := by
  rw [Loop.rateLimitedRound]
  dsimp only
  intro p' hp'
  have hfollow := h.follow p.2 r
  have hlimited := h.trans hfollow (h.requestIsRateLimited env (p.2.follow r) p.1 r)
  have hready := h.trans hlimited (h.requestReady env _ r)
  split at hp'
  · obtain rfl : p' = _ := by simpa [eq_comm] using hp'
    exact hfollow
  · split at hp'
    · obtain rfl : p' = _ := by simpa [eq_comm] using hp'
      exact hlimited
    · split at hp'
      · obtain rfl : p' = _ := by simpa [eq_comm] using hp'
        exact h.trans hready (h.start env _ r)
      · obtain rfl : p' = _ := by simpa [eq_comm] using hp'
        exact hready

theorem moveRateLimited (h : StoreFrame R) (env : Env ω) (s : Loop (ω × List Call)) :
    R s (s.moveRateLimited env.recording) := by
  rw [Loop.moveRateLimited]
  dsimp only
  have hscan := OrderedMap.whileFirst_rule
    (g := fun p : List ReqId × Loop (ω × List Call) => p.1.head?)
    (f := Loop.rateLimitedRound env.recording (env.recording.macroNow s.world).1)
    (P := fun p => R s p.2)
    (fun r p p' hp _ hb => h.trans hp (h.rateLimitedRound env _ r p p' (.inl hb)))
    (fun r p p' hp _ hb => h.trans hp (h.rateLimitedRound env _ r p p' (.inr hb)))
    (n := (s.maps .rateLimited).length)
    (s := (s.maps .rateLimited, ((s.setMap .rateLimited []).ask env.recording.macroNow).2))
    (h.quiet rfl)
  have hmerge := fun n => OrderedMap.whileFirst_rule
    (g := fun p : List ReqId × Loop (ω × List Call) => (p.2.maps .rateLimited).head?)
    (f := mergeRound) (P := fun p => R s p.2)
    (fun r p p' _ _ hb => by simp [mergeRound] at hb)
    (fun r p p' hp _ hb => by
      obtain rfl := ForInStep.yield.inj hb
      exact h.trans (h.trans hp (h.follow p.2 r)) (h.quiet rfl)) (n := n) hscan
  exact h.trans (hmerge _) (h.quiet rfl)

theorem waitingRound (h : StoreFrame R) (env : Env ω) (m : MapId) (r : ReqId)
    (s : Loop (ω × List Call)) : ∀ s', waitingRound env.recording m r s = .done s' ∨
      waitingRound env.recording m r s = .yield s' → R s s' := by
  rw [Loop.waitingRound]
  dsimp only
  intro s' hs'
  have hlimited := h.trans (h.follow s r)
    (h.requestIsRateLimited env (s.follow r) ((s.follow r).maps m) r)
  have hset : R s (((s.follow r).requestIsRateLimited env.recording ((s.follow r).maps m)
      r).2.2.setMap m ((s.follow r).requestIsRateLimited env.recording ((s.follow r).maps m) r).2.1) :=
    h.trans hlimited (h.quiet rfl)
  split at hs'
  · obtain rfl : s' = _ := by simpa [eq_comm] using hs'
    exact h.trans hset (h.quiet rfl)
  · have hready := h.trans hset (h.requestReady env _ r)
    split at hs'
    · obtain rfl : s' = _ := by simpa [eq_comm] using hs'
      have hnum : ∀ t : Loop (ω × List Call), R t ((t.eraseMap m r).addNum m (-1)) :=
        fun _ => h.quiet rfl
      exact h.trans (h.trans hready (hnum _)) (h.start env _ r)
    · obtain rfl : s' = _ := by simpa [eq_comm] using hs'
      exact hready

theorem moveWaiting (h : StoreFrame R) (env : Env ω) (m : MapId) (s : Loop (ω × List Call)) :
    R s (s.moveWaiting env.recording m) :=
  OrderedMap.whileFirst_rule (P := R s)
    (fun r t t' ht _ hb => h.trans ht (h.waitingRound env m r t t' (.inl hb)))
    (fun r t t' ht _ hb => h.trans ht (h.waitingRound env m r t t' (.inr hb))) (h.refl s)

theorem moveInactiveRequestsToQueue (h : StoreFrame R) (env : Env ω) (s : Loop (ω × List Call)) :
    R s (s.moveInactiveRequestsToQueue env.recording) :=
  h.trans (h.trans (h.moveRateLimited env s) (h.moveWaiting env .refresh _))
    (h.moveWaiting env .inactive _)

theorem finish (h : StoreFrame R) (s : Loop (ω × List Call)) (r : ReqId) (success : Bool) :
    R s (s.finish r success) := by
  have main : ∀ t : Loop (ω × List Call), R t (if (t.req r).shouldRefresh then
      ((t.modifyReq r fun q => { q with currentRetries := 0 }).curlEventLoopRequestCleanup
        r).enqueueRequest r
      else t.curlEventRequestDestroy r) := by
    intro t
    split
    · exact h.quiet rfl
    · exact h.destroy t r
  rw [Loop.finish]
  cases success with
  | true =>
    have hcount : R s s.countCompleted := h.quiet rfl
    exact h.trans hcount (main _)
  | false => exact main s

theorem callOnRetry (h : StoreFrame R) (env : Env ω) (s : Loop (ω × List Call)) (r : ReqId) :
    R s (s.callOnRetry env.recording r).2 := by
  refine h.quiet ?_
  rw [Loop.callOnRetry]
  cases (s.req r).onRetry with
  | none => rfl
  | some policy =>
    cases policy with
    | user => rfl
    | defaultEnhanced =>
      show (s.defaultCalculateRetryEnhanced env.recording r).2.account = s.account
      rw [defaultCalculateRetryEnhanced]
      dsimp only
      split <;> rfl

theorem reschedule (h : StoreFrame R) (env : Env ω) (s : Loop (ω × List Call)) (r : ReqId)
    (success : Bool) (retryIn : ℤ) : R s (s.reschedule env.recording r success retryIn) := by
  have main : ∀ p : Bool × Loop (ω × List Call), R s p.2 → R s (if p.1 then
      (p.2.curlEventLoopRequestCleanup r).countRetried.enqueueRequest r
      else p.2.finish r success) := by
    intro p hp
    split
    · exact h.trans hp (h.quiet rfl)
    · exact h.trans hp (h.finish p.2 r success)
  rw [Loop.reschedule]
  split
  · exact h.quiet rfl
  · refine main (if retryIn < 0 then s.callOnRetry env.recording r else (false, s)) ?_
    split
    · exact h.callOnRetry env s r
    · exact h.refl s

theorem settle (h : StoreFrame R) (env : Env ω) (s : Loop (ω × List Call)) (r : ReqId)
    (httpCode : ℤ) (success : Bool) (retryIn : ℤ) :
    R s (s.settle env.recording r httpCode success retryIn) := by
  rw [Loop.settle]
  cases (s.req r).rateLimit with
  | none => exact h.reschedule env s r success retryIn
  | some key =>
    dsimp only
    split
    · exact h.quiet rfl
    · have htold : R s { s with world := env.recording.rateManagerRequestDone key s.world } :=
        h.quiet rfl
      exact h.trans htold (h.reschedule env _ r success retryIn)

theorem calculateNextTimerExpiry (h : StoreFrame R) (env : Env ω) (s : Loop (ω × List Call)) :
    R s (s.calculateNextTimerExpiry env.recording 200).2 := by
  have hnext : R s (s.nextExpiry env.recording).2 := by
    rw [nextExpiry]
    cases (s.maps .inactive).head? with
    | none => cases (s.maps .refresh).head? <;> exact h.refl s
    | some i =>
      cases (s.maps .refresh).head? with
      | none => exact h.refl s
      | some f =>
        dsimp only
        split <;> exact h.requestReady env s i
  rw [Loop.calculateNextTimerExpiry]
  split
  · rename_i heq
    rwa [heq] at hnext
  · rename_i heq
    rw [heq] at hnext
    dsimp only
    split <;> exact h.trans hnext (h.quiet rfl)

/-- A publication, with the requests it finds waiting, records nothing. -/
theorem silent (ω : Type) : StoreFrame fun s t : Loop (ω × List Call) =>
    t.world.2 = s.world.2 ∧ t.applied = s.applied where
  trans h h' := ⟨h'.1.trans h.1, h'.2.trans h.2⟩
  quiet h := ⟨congrArg (·.2.1) h, congrArg (·.2.2) h⟩
  shift _ := ⟨rfl, rfl⟩

/-! ### The destruction of the requests -/

theorem destroyMap (h : StoreFrame R) (m : MapId) (s : Loop (ω × List Call)) :
    R s (s.destroyMap m) := by
  refine OrderedMap.whileFirst_rule (P := R s) (fun r t t' _ _ hb => ?_)
    (fun r t t' ht _ hb => ?_) (h.refl s)
  · simp [destroyMapRound] at hb
  · obtain rfl := ForInStep.yield.inj hb
    have herase : ∀ u : Loop (ω × List Call), R u (u.eraseMap m r) := fun _ => h.quiet rfl
    exact h.trans (h.trans (h.trans ht (h.follow t r)) (herase _)) (h.destroy _ r)

theorem destroyLists (h : StoreFrame R) (s : Loop (ω × List Call)) : R s s.destroyLists := by
  have hcancelled : ∀ t : Loop (ω × List Call),
      R t (t.forEachCancelled t.cancelledRequests destroyRound).detachCancelled := fun t =>
    h.trans (h.forEachCancelled (fun r u => h.destroy u r) t _) (h.quiet rfl)
  have hpending : ∀ t : Loop (ω × List Call),
      R t (t.forEachPending t.pendingRequests destroyRound).detachPending := fun t =>
    h.trans (h.forEachPending (fun r u => h.destroy u r) t _) (h.quiet rfl)
  have hinjected : ∀ t : Loop (ω × List Call),
      R t (t.forEachPending t.injectedRequests destroyRound).detachInjected := fun t =>
    h.trans (h.forEachPending (fun r u => h.destroy u r) t _) (h.quiet rfl)
  exact h.trans (h.trans (hcancelled s) (hpending _)) (hinjected _)

end StoreFrame

namespace StoreLaw

variable {R : Loop (ω × List Call) → Loop (ω × List Call) → Prop} {env : Env ω}

theorem callOnComplete (h : StoreLaw env R) (s : Loop (ω × List Call)) (r : ReqId) :
    R s (s.callOnComplete env.recording r).2 := by
  rw [Loop.callOnComplete]
  split
  · exact h.reply rfl rfl rfl
  · exact h.quiet rfl

theorem callOnFailure (h : StoreLaw env R) (s : Loop (ω × List Call)) (r : ReqId) (easy : EasyId)
    (code : CurlCode) (httpCode : ℤ) :
    R s (s.callOnFailure env.recording r easy code httpCode).2 := by
  rw [Loop.callOnFailure]
  split
  · exact h.reply rfl rfl rfl
  · exact h.refl s

theorem completedRound (h : StoreLaw env R) (s : Loop (ω × List Call)) (m : Message) :
    R s (s.completedRound env.recording m) := by
  rw [Loop.completedRound]
  cases s.transferOf m with
  | none => exact h.refl s
  | some a =>
    have hreceive : R s (s.receive env.recording m a.priv).2 := by
      have hreport : R s (s.reportMessage m.easy) := h.quiet rfl
      have hfollow := h.trans hreport (h.follow _ a.priv)
      have htaken : R s ((((s.reportMessage m.easy).follow a.priv).eraseMap .queued
          a.priv).addNum .queued (-1)) := h.trans hfollow (h.quiet rfl)
      rw [receive]
      split
      · exact h.trans htaken (h.callOnComplete _ a.priv)
      · exact h.trans htaken (h.callOnFailure _ a.priv _ _ _)
    exact h.trans hreceive (h.settle env _ a.priv _ _ _)

theorem injectedRound (h : StoreLaw env R) (r : ReqId) (s : Loop (ω × List Call)) :
    R s (s.injectedRound env.recording r) := by
  rw [Loop.injectedRound]
  split
  · exact h.trans (h.callOnComplete s r) (h.destroy _ r)
  · exact h.destroy s r

theorem processCompletedRequests (h : StoreLaw env R) (msgs : List Message)
    (s : Loop (ω × List Call)) : R s (s.processCompletedRequests env.recording msgs) := by
  have hmsgs : ∀ s : Loop (ω × List Call),
      R s (msgs.foldl (fun s m => s.completedRound env.recording m) s) := by
    induction msgs with
    | nil => exact h.refl
    | cons m msgs ih => exact fun s => h.trans (h.completedRound s m) (ih _)
  have hdetach : ∀ t : Loop (ω × List Call), R t t.detachInjected := fun _ => h.quiet rfl
  exact h.trans (h.trans (hmsgs s) (hdetach _)) (h.forEachPending h.injectedRound _ _)

/-- **A pass**, or anything else an action does that is neither a call, nor an operation of the inbox,
nor the destruction of the loop. -/
theorem pass (h : StoreLaw env R) {a : Action} (hcall : ∀ c, a ≠ .call c)
    (hop : ∀ op, a ≠ .applyOp op) (hdestroy : a ≠ .destroy) (s : Loop (ω × List Call)) :
    R s (s.act env.recording a) := by
  cases a with
  | call c => exact absurd rfl (hcall c)
  | applyOp op => exact absurd rfl (hop op)
  | destroy => exact absurd rfl hdestroy
  | processCancelledAndPendingRequests => exact h.processCancelledAndPendingRequests env s
  | moveInactiveRequestsToQueue => exact h.moveInactiveRequestsToQueue env s
  | processCompletedRequests msgs => exact h.processCompletedRequests msgs s
  | calculateNextTimerExpiry => exact h.calculateNextTimerExpiry env s
  | setOwnerThread | takeInbox | start | stop => exact h.quiet rfl

end StoreLaw

end Loop

end CurlLoop
