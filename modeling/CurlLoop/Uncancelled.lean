import CurlLoop.Scheduler

/-!
# Runs without cancellations

A run in which nothing is cancelled leaves the cancelled list empty, and of the hazards of the code
it can meet two: an address is handed to the loop again, or a resource is freed while requests wait
for it. So a run whose guard rules the first one out meets the second one only, and the invariant of
the scheduler is kept.

The relation `Unmarking` says this of a function, and composes. What a callback calls belongs to the
run, so the callbacks must not cancel either (`Env.NeverCancels`).

## Main definitions

* `Action.cancels`, `Env.NeverCancels` — what must not happen
* `Loop.Unmarking` — the function cancels nothing and meets no third hazard

## Main results

* `unmarking_act` — every action that does not cancel, but the destruction of the loop
-/

namespace CurlLoop

/-- The call cancels a request. -/
def ApiCall.cancels : ApiCall → Bool
  | .cancel _ => true
  | _ => false

/-- The call cancels a request. -/
def Call.cancels : Call → Bool
  | .api c => c.cancels
  | _ => false

/-- The action cancels a request. -/
def Action.cancels : Action → Bool
  | .call c => c.cancels
  | _ => false

/-- No callback cancels a request. -/
structure Env.NeverCancels {ω : Type} (env : Env ω) : Prop where
  onComplete : ∀ r w, ∀ c ∈ (env.onComplete r w).1.calls, c.cancels = false
  onFailure : ∀ r easy code httpCode w, ∀ c ∈ (env.onFailure r easy code httpCode w).1.calls,
    c.cancels = false
  onAborted : ∀ r w, ∀ c ∈ (env.onAborted r w).1.calls, c.cancels = false

/-- An address was handed to the loop a second time. -/
def Hazard.isResubmission : Hazard → Bool
  | .resubmitted _ => true
  | _ => false

/-- A resource was freed while requests waited for it. -/
def Hazard.isAbandonment : Hazard → Bool
  | .abandoned _ => true
  | _ => false

namespace Loop

variable {ω : Type} {s t u : Loop ω} {env : Env ω}

/-- From a loop with nothing on its cancelled list, the function leaves it so, and meets no hazard
but that an address is handed over again or a resource that is waited for is freed. -/
structure Unmarking (s t : Loop ω) : Prop where
  cancelled : s.cancelledRequests = none → t.cancelledRequests = none
  hazards : s.cancelledRequests = none → ∀ h ∈ t.hazards,
    h ∈ s.hazards ∨ h.isResubmission ∨ h.isAbandonment

theorem Unmarking.of_evolves (h : Evolves True s t) : Unmarking s t :=
  ⟨fun hs => (h.still trivial hs).1, fun hs _ hx => .inl ((h.still trivial hs).2.1 ▸ hx)⟩

theorem Unmarking.refl (s : Loop ω) : Unmarking s s := .of_evolves (.refl s)

theorem Unmarking.trans (h : Unmarking s t) (h' : Unmarking t u) : Unmarking s u := by
  refine ⟨fun hs => h'.cancelled (h.cancelled hs), fun hs x hx => ?_⟩
  rcases h'.hazards (h.cancelled hs) x hx with hx | hx
  · exact h.hazards hs x hx
  · exact .inr hx

/-- A function that is wary of one of the two hazards. -/
theorem unmarking_beware (s : Loop ω) {c : Prop} [Decidable c] {x : Hazard}
    (hx : x.isResubmission ∨ x.isAbandonment) : Unmarking s (s.beware c x) := by
  refine ⟨fun hs => hs, fun hs y hy => ?_⟩
  have hlist : (s.beware c x).hazards = if c then x :: s.hazards else s.hazards := rfl
  rw [hlist] at hy
  split at hy
  · rcases List.mem_cons.mp hy with rfl | hy
    · exact .inr hx
    · exact .inl hy
  · exact .inl hy

/-- Fields that have nothing to do with cancellation are written. -/
theorem Unmarking.of_eq (hc : t.cancelledRequests = s.cancelledRequests)
    (hh : t.hazards = s.hazards) : Unmarking s t :=
  ⟨hc.trans, fun _ _ hx => .inl (hh ▸ hx)⟩

/-- A function after one that has nothing to do with cancellation. -/
theorem Unmarking.after (h : Unmarking t u) (hc : t.cancelledRequests = s.cancelledRequests)
    (hh : t.hazards = s.hazards) : Unmarking s u :=
  (Unmarking.of_eq hc hh).trans h

theorem unmarking_foldl {β : Type} {f : Loop ω → β → Loop ω} {l : List β}
    (h : ∀ b ∈ l, ∀ s, Unmarking s (f s b)) (s : Loop ω) : Unmarking s (l.foldl f s) := by
  induction l generalizing s with
  | nil => exact .refl s
  | cons b l ih =>
    exact (h b List.mem_cons_self s).trans (ih (fun c hc => h c (List.mem_cons_of_mem b hc)) _)

theorem unmarking_forEachPending {f : ReqId → Loop ω → Loop ω} (h : ∀ r s, Unmarking s (f r s))
    (s : Loop ω) (head : Option ReqId) : Unmarking s (s.forEachPending head f) := by
  refine Intrusive.forEach_invariant (P := Unmarking s) (fun r t ht => ht.trans ?_) (.refl s)
  exact (Unmarking.of_evolves (.of_ledger (ledger_follow t r))).trans (h r _)

theorem unmarking_pushPending (s : Loop ω) (r : ReqId) : Unmarking s (s.pushPending r) :=
  (unmarking_beware s (.inl rfl)).trans (.of_eq rfl rfl)

theorem unmarking_inject (s : Loop ω) (w r : ReqId) : Unmarking s (s.curlEventLoopInject w r) := by
  have hshared : Unmarking s (s.beware (s.HandedOver r) (.resubmitted r)) :=
    unmarking_beware s (.inl rfl)
  have hwrapper := hshared.trans
    (unmarking_beware _ (c := s.HandedOver w ∨ w = r) (x := .resubmitted w) (.inl rfl))
  exact hwrapper.trans (.of_eq rfl rfl)

theorem unmarking_apiCall (env : Env ω) (s : Loop ω) {c : ApiCall} (hc : c.cancels = false) :
    Unmarking s (s.apiCall env c) := by
  cases c with
  | submit r priority =>
    change Unmarking s (s.curlEventRequestSubmit env r priority).2
    rw [curlEventRequestSubmit]
    dsimp only
    split
    · exact .refl s
    · split
      · exact .refl s
      · exact (unmarking_pushPending _ r).after rfl rfl
  | loopSubmit r priority => exact (unmarking_pushPending _ r).after rfl rfl
  | cancel r => exact absurd hc.symm Bool.false_ne_true
  | inject w r => exact unmarking_inject s w r
  | _ => exact .of_eq rfl rfl

/-- The failure callback that a publication calls, with the calls it makes. -/
theorem unmarking_wakeOrFail (henv : env.NeverCancels) (failed : Bool) (r : ReqId) (s : Loop ω) :
    Unmarking s (s.wakeOrFail env failed r) := by
  rw [wakeOrFail]
  dsimp only
  split
  · have htold : Unmarking s ((s.setNextPending r none).callOnAborted env r).2 :=
      .of_evolves (.of_ledger (ledger_callOnAborted env _ r))
    refine (htold.trans (unmarking_foldl (fun c hc u => unmarking_apiCall env u ?_) _)).trans
      (.of_evolves (evolves_destroy _ r))
    rw [callOnAborted] at hc
    split at hc
    · exact henv.onAborted r _ c hc
    · exact absurd hc List.not_mem_nil
  · exact .of_eq rfl rfl

theorem unmarking_publish (henv : env.NeverCancels) (s : Loop ω) (id : ResId)
    (payload : Option Payload) (cleanup : Bool) :
    Unmarking s (s.curlEventResPublish env id payload cleanup) :=
  (unmarking_forEachPending (unmarking_wakeOrFail henv payload.isNone)
    (s.setResources (s.resources.publishPayload id payload cleanup).2) _).after rfl rfl

theorem unmarking_release (s : Loop ω) (id : ResId) : Unmarking s (s.curlEventResRelease id) :=
  (unmarking_beware s (.inr rfl)).trans (.of_eq rfl rfl)

theorem unmarking_call (henv : env.NeverCancels) (s : Loop ω) {c : Call}
    (hc : c.cancels = false) : Unmarking s (s.call env c) := by
  cases c with
  | api c => exact unmarking_apiCall env s hc
  | register payload cleanup =>
    exact (unmarking_publish henv s.curlEventResDeclare.2 _ payload cleanup).after rfl rfl
  | publish id payload cleanup => exact unmarking_publish henv s id payload cleanup
  | release id => exact unmarking_release s id
  | _ => exact .of_eq rfl rfl

theorem unmarking_calls (henv : env.NeverCancels) (s : Loop ω) {cs : List Call}
    (hcs : ∀ c ∈ cs, c.cancels = false) : Unmarking s (s.calls env cs) :=
  unmarking_foldl (fun c hc u => unmarking_call henv u (hcs c hc)) s

theorem unmarking_callOnComplete (henv : env.NeverCancels) (s : Loop ω) (r : ReqId) :
    Unmarking s (s.callOnComplete env r).2 := by
  rw [callOnComplete]
  split
  · exact (unmarking_calls henv _ (henv.onComplete r _)).after rfl rfl
  · exact .of_eq rfl rfl

theorem unmarking_callOnFailure (henv : env.NeverCancels) (s : Loop ω) (r : ReqId)
    (easy : EasyId) (code : CurlCode) (httpCode : ℤ) :
    Unmarking s (s.callOnFailure env r easy code httpCode).2 := by
  rw [callOnFailure]
  split
  · exact (unmarking_calls henv _ (henv.onFailure r easy code httpCode _)).after rfl rfl
  · exact .refl s

theorem unmarking_completedRound (henv : env.NeverCancels) (s : Loop ω) (m : Message) :
    Unmarking s (s.completedRound env m) := by
  rw [completedRound]
  cases s.transferOf m with
  | none => exact .refl s
  | some a =>
    have htaken : Unmarking s ((((s.reportMessage m.easy).follow a.priv).eraseMap .queued
        a.priv).addNum .queued (-1)) :=
      .of_evolves (.of_ledger (ledger_follow (s.reportMessage m.easy) a.priv))
    have hreceive : Unmarking s (s.receive env m a.priv).2 := by
      rw [receive]
      split
      · exact htaken.trans (unmarking_callOnComplete henv _ _)
      · exact htaken.trans (unmarking_callOnFailure henv _ _ _ _ _)
    exact hreceive.trans (.of_evolves (evolves_settle env _ _ _ _ _))

theorem unmarking_injectedRound (henv : env.NeverCancels) (r : ReqId) (s : Loop ω) :
    Unmarking s (s.injectedRound env r) := by
  rw [injectedRound]
  split
  · exact (unmarking_callOnComplete henv s r).trans (.of_evolves (evolves_destroy _ r))
  · exact .of_evolves (evolves_destroy s r)

theorem unmarking_processCompletedRequests (henv : env.NeverCancels) (s : Loop ω)
    (msgs : List Message) : Unmarking s (s.processCompletedRequests env msgs) := by
  have hmsgs : Unmarking s (msgs.foldl (fun s m => s.completedRound env m) s) :=
    unmarking_foldl (fun m _ u => unmarking_completedRound henv u m) s
  exact hmsgs.trans ((unmarking_forEachPending (unmarking_injectedRound henv)
    (detachInjected _) _).after rfl rfl)

/-- **Without cancellations** an action meets no hazard but the two that are allowed for. -/
theorem unmarking_act (henv : env.NeverCancels) (s : Loop ω) {a : Action} (ha : a.cancels = false)
    (hd : a ≠ .destroy) : Unmarking s (act env a s) := by
  cases a with
  | call c => exact unmarking_call henv s ha
  | applyOp op =>
    change Unmarking s (s.applyOp env op)
    rw [applyOp]
    cases op.kind with
    | release => exact (unmarking_release _ op.id).after rfl rfl
    | _ => exact (unmarking_publish henv _ op.id _ _).after rfl rfl
  | processCancelledAndPendingRequests =>
    exact .of_evolves (evolves_processCancelledAndPendingRequests env s)
  | moveInactiveRequestsToQueue => exact .of_evolves (evolves_moveInactiveRequestsToQueue env s)
  | processCompletedRequests msgs => exact unmarking_processCompletedRequests henv s msgs
  | calculateNextTimerExpiry => exact .of_evolves (.of_ledger (ledger_calculateNextTimerExpiry env s))
  | destroy => exact absurd rfl hd
  | _ => exact .of_eq rfl rfl

end Loop

end CurlLoop
