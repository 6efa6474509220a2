import CurlLoop.RunLoop

/-!
# How a loop evolves

Some of the things recorded of a loop only ever grow, and most of the code does not touch them.
`Evolves` collects what holds between the state before and the state after any function of the
library, whatever state it is called in: nothing is taken off the inbox, every push is recorded, no
record is ever withdrawn, and no address is handed over twice unless that is on record. Only the
operations of the loop thread on its inbox are excepted.

## Quiet runs

A part of the statement is conditional on a proposition `quiet`. Where it holds, a loop with
nothing on its cancelled list meets no hazard, owns no further request, and still has nothing on
its cancelled list, nor anything on its injected list if that was empty. The passes satisfy this
part when no callback makes a call (`Env.Quiet`); a single call satisfies it for `quiet := False`.

## Main definitions

* `Loop.Ledger` — the fields in question
* `Loop.Evolves` — the relation

## Main results

* `evolves_call` — calls
* `evolves_processCancelledAndPendingRequests`, `evolves_moveInactiveRequestsToQueue`,
  `evolves_processCompletedRequests`, `evolves_curlEventLoopDestroy` — passes
* `evolves_act` — any action
-/

namespace CurlLoop

variable {ω : Type}

/-- No callback makes a call. -/
structure Env.Quiet (env : Env ω) : Prop where
  onComplete : ∀ r w, (env.onComplete r w).1.calls = []
  onFailure : ∀ r easy code httpCode w, (env.onFailure r easy code httpCode w).1.calls = []
  onAborted : ∀ r w, (env.onAborted r w).1.calls = []

namespace Loop

/-- The fields most functions leave alone. -/
structure Ledger where
  resInbox : List ResOp
  posted : List ResOp
  applied : List ResOp
  accepted : List ReqId
  destroyed : List ReqId
  hazards : List Hazard
  cancelledRequests : Option ReqId
  injectedRequests : Option ReqId
  copied : List ReqId

/-- The ledger of a loop. -/
def ledger (s : Loop ω) : Ledger :=
  ⟨s.resInbox, s.posted, s.applied, s.accepted, s.destroyed, s.hazards, s.cancelledRequests,
    s.injectedRequests, s.copied⟩

/-- What holds between the states before and after any function of the library. -/
structure Evolves (quiet : Prop) (s t : Loop ω) : Prop where
  inbox : ∃ ops, t.resInbox = ops ++ s.resInbox ∧ t.posted = ops ++ s.posted
  applied : t.applied = s.applied
  accepted : s.accepted <:+ t.accepted
  destroyed : s.destroyed <:+ t.destroyed
  hazards : s.hazards <:+ t.hazards
  once : (∀ r, .resubmitted r ∉ t.hazards) → (s.accepted ++ s.copied).Nodup →
    (t.accepted ++ t.copied).Nodup
  still : quiet → s.cancelledRequests = none →
    t.cancelledRequests = none ∧ t.hazards = s.hazards ∧ t.accepted = s.accepted ∧
      t.copied = s.copied ∧ (s.injectedRequests = none → t.injectedRequests = none)

variable {q : Prop} {s t u : Loop ω} {env : Env ω}

theorem Evolves.of_ledger (h : t.ledger = s.ledger) : Evolves q s t := by
  obtain ⟨hi, hp, ha, hac, hd, hh, hc, hinj, hcopied⟩ := Ledger.mk.inj h
  exact ⟨⟨[], hi, hp⟩, ha, hac ▸ List.suffix_rfl, hd ▸ List.suffix_rfl, hh ▸ List.suffix_rfl,
    fun _ h => hac ▸ hcopied ▸ h, fun _ hs => ⟨hc.trans hs, hh, hac, hcopied, hinj.trans⟩⟩

/-- A function that writes no more of the ledger than the heads of the two lists. -/
theorem Evolves.of_heads (h : t.ledger = { s.ledger with
      cancelledRequests := t.cancelledRequests
      injectedRequests := t.injectedRequests }) : Evolves False s t := by
  obtain ⟨hi, hp, ha, hac, hd, hh, -, -, hcopied⟩ := Ledger.mk.inj h
  exact ⟨⟨[], hi, hp⟩, ha, hac ▸ List.suffix_rfl, hd ▸ List.suffix_rfl, hh ▸ List.suffix_rfl,
    fun _ h => hac ▸ hcopied ▸ h, False.elim⟩

theorem Evolves.refl (s : Loop ω) : Evolves q s s := .of_ledger rfl

theorem Evolves.trans (h : Evolves q s t) (h' : Evolves q t u) : Evolves q s u := by
  obtain ⟨ops, hi, hp⟩ := h.inbox
  obtain ⟨ops', hi', hp'⟩ := h'.inbox
  refine ⟨⟨ops' ++ ops, ?_, ?_⟩, h'.applied.trans h.applied, h.accepted.trans h'.accepted,
    h.destroyed.trans h'.destroyed, h.hazards.trans h'.hazards, fun hz hs => ?_, fun hq hs => ?_⟩
  · rw [hi', hi, List.append_assoc]
  · rw [hp', hp, List.append_assoc]
  · exact h'.once hz (h.once (fun r hr => hz r (h'.hazards.subset hr)) hs)
  · obtain ⟨hc, hh, ha, hcopied, hi⟩ := h.still hq hs
    obtain ⟨hc', hh', ha', hcopied', hi'⟩ := h'.still hq hc
    exact ⟨hc', hh'.trans hh, ha'.trans ha, hcopied'.trans hcopied, fun h => hi' (hi h)⟩

/-- The quiet part may be supplied separately. -/
theorem Evolves.of_quiet (h : Evolves False s t)
    (hq : q → s.cancelledRequests = none → Evolves True s t) : Evolves q s t :=
  ⟨h.inbox, h.applied, h.accepted, h.destroyed, h.hazards, h.once,
    fun h' hs => (hq h' hs).still trivial hs⟩

/-- A step after one that leaves the ledger alone. -/
theorem Evolves.after (h : Evolves q t u) (hs : t.ledger = s.ledger) : Evolves q s u :=
  (Evolves.of_ledger hs).trans h

/-- No hazard afterwards means none before. -/
theorem Evolves.hazards_eq_nil (h : Evolves q s t) (ht : t.hazards = []) : s.hazards = [] :=
  List.suffix_nil.mp (ht ▸ h.hazards)

theorem evolves_forEachPending {f : ReqId → Loop ω → Loop ω}
    (h : ∀ r s, Evolves q s (f r s)) (s : Loop ω) (head : Option ReqId) :
    Evolves q s (s.forEachPending head f) := by
  refine Intrusive.forEach_invariant (P := Evolves q s) (fun r t ht => ht.trans ?_) (.refl s)
  refine (h r (t.follow r)).after (?_)
  rw [follow]
  split <;> rfl

theorem evolves_forEachCancelled {f : ReqId → Loop ω → Loop ω}
    (h : ∀ r s, Evolves q s (f r s)) (s : Loop ω) (head : Option ReqId) :
    Evolves q s (s.forEachCancelled head f) := by
  refine Intrusive.forEach_invariant (P := Evolves q s) (fun r t ht => ht.trans ?_) (.refl s)
  refine (h r (t.follow r)).after (?_)
  rw [follow]
  split <;> rfl

theorem evolves_foldl {β : Type} {f : Loop ω → β → Loop ω} (h : ∀ s b, Evolves q s (f s b))
    (l : List β) (s : Loop ω) : Evolves q s (l.foldl f s) := by
  induction l generalizing s with
  | nil => exact .refl s
  | cons b l ih => exact (h s b).trans (ih (f s b))

/-! ### Steps that leave the ledger alone -/

@[simp] theorem ledger_modifyReq (s : Loop ω) (r : ReqId) (f : Request → Request) :
    (s.modifyReq r f).ledger = s.ledger := rfl

@[simp] theorem ledger_follow (s : Loop ω) (r : ReqId) : (s.follow r).ledger = s.ledger := by
  rw [follow]
  split <;> rfl

@[simp] theorem ledger_enqueueRequest (s : Loop ω) (r : ReqId) :
    (s.enqueueRequest r).ledger = s.ledger := rfl

@[simp] theorem ledger_activate (env : Env ω) (s : Loop ω) (r : ReqId) :
    (s.activate env r).ledger = s.ledger := rfl

@[simp] theorem ledger_setupCurlHandle (env : Env ω) (s : Loop ω) (r : ReqId) :
    (s.setupCurlHandle env r).2.ledger = s.ledger := by
  rw [setupCurlHandle]
  dsimp only
  split <;> split <;> try rfl
  all_goals (split <;> rfl)

@[simp] theorem ledger_retainDepsOnce (s : Loop ω) (r : ReqId) :
    (s.retainDepsOnce r).ledger = s.ledger := by
  unfold retainDepsOnce
  dsimp only
  split <;> rfl

@[simp] theorem ledger_blockRequestOnRes (s : Loop ω) (n : Res) (r : ReqId) :
    (s.blockRequestOnRes n r).ledger = s.ledger := by
  unfold blockRequestOnRes
  dsimp only
  split <;> rfl

@[simp] theorem ledger_blockOnId (s : Loop ω) (r : ReqId) (id : ResId) :
    (s.curlResourceBlockOnId r id).2.ledger = s.ledger := by
  rw [curlResourceBlockOnId]
  dsimp only
  split
  · exact ledger_blockRequestOnRes _ _ r
  · rfl

@[simp] theorem ledger_checkAndBlockList (r : ReqId) (deps : List ResId) (s : Loop ω) :
    (s.curlResourceCheckAndBlockList r deps).2.ledger = s.ledger := by
  induction deps generalizing s with
  | nil => rfl
  | cons id deps ih =>
    rw [curlResourceCheckAndBlockList]
    dsimp only
    split
    · exact ledger_blockOnId s r id
    · exact (ih _).trans (ledger_blockOnId s r id)

@[simp] theorem ledger_requestReady (env : Env ω) (s : Loop ω) (r : ReqId) :
    (s.requestReady env r).2.ledger = s.ledger := by
  rw [requestReady]
  dsimp only
  split
  · rfl
  · cases (s.req r).rateLimit with
    | none =>
      dsimp only
      split
      · rfl
      · split <;> rfl
    | some key =>
      dsimp only
      split
      · rfl
      · split <;> rfl

@[simp] theorem ledger_requestIsRateLimited (env : Env ω) (s : Loop ω) (root : List ReqId)
    (r : ReqId) : (s.requestIsRateLimited env root r).2.2.ledger = s.ledger := by
  rw [requestIsRateLimited]
  dsimp only
  cases (s.req r).rateLimit with
  | none => rfl
  | some key =>
    dsimp only
    split <;> rfl

@[simp] theorem ledger_callOnAborted (env : Env ω) (s : Loop ω) (r : ReqId) :
    (s.callOnAborted env r).2.ledger = s.ledger := by
  rw [callOnAborted]
  split <;> rfl

@[simp] theorem ledger_callOnRetry (env : Env ω) (s : Loop ω) (r : ReqId) :
    (s.callOnRetry env r).2.ledger = s.ledger := by
  rw [callOnRetry]
  cases (s.req r).onRetry with
  | none => rfl
  | some policy =>
    cases policy with
    | user => rfl
    | defaultEnhanced =>
      show (s.defaultCalculateRetryEnhanced env r).2.ledger = s.ledger
      rw [defaultCalculateRetryEnhanced]
      dsimp only
      split <;> rfl

/-! ### Calls -/

theorem evolves_beware {c : Prop} [Decidable c] {s : Loop ω}
    (hc : q → s.cancelledRequests = none → ¬ c) (h : Hazard) : Evolves q s (s.beware c h) := by
  refine ⟨⟨[], rfl, rfl⟩, rfl, List.suffix_rfl, List.suffix_rfl, ?_, fun _ h => h, fun hq hs =>
    ⟨hs, ?_, rfl, rfl, fun h => h⟩⟩
  · show s.hazards <:+ if c then h :: s.hazards else s.hazards
    split
    · exact List.suffix_cons ..
    · exact List.suffix_rfl
  · exact if_neg (hc hq hs)

theorem mem_hazards_beware {c : Prop} [Decidable c] (s : Loop ω) (hc : c) (x : Hazard) :
    x ∈ (s.beware c x).hazards := by
  show x ∈ if c then x :: s.hazards else s.hazards
  rw [if_pos hc]
  exact List.mem_cons_self

/-- Submitting a request again is on record. -/
theorem resubmitted_pushPending (s : Loop ω) {r : ReqId} (hr : r ∈ s.accepted) :
    .resubmitted r ∈ (s.pushPending r).hazards :=
  s.mem_hazards_beware (c := s.HandedOver r) (.inl hr) (.resubmitted r)

/-- So is a wrapper that was handed over before. -/
theorem resubmitted_inject (s : Loop ω) {w r : ReqId} (hw : w ∈ s.accepted) :
    .resubmitted w ∈ (s.curlEventLoopInject w r).hazards :=
  mem_hazards_beware (s.beware (s.HandedOver r) (.resubmitted r)) (.inl (.inl hw)) (.resubmitted w)

theorem evolves_pushPending (s : Loop ω) (r : ReqId) : Evolves False s (s.pushPending r) := by
  have hwary : Evolves False s (s.beware (s.HandedOver r) (.resubmitted r)) :=
    evolves_beware False.elim _
  refine ⟨⟨[], rfl, rfl⟩, rfl, List.suffix_cons .., List.suffix_rfl, hwary.hazards,
    fun hz hs => ?_, False.elim⟩
  have hr : ¬ s.HandedOver r := fun h => hz r (s.mem_hazards_beware h _)
  show (r :: (s.accepted ++ s.copied)).Nodup
  exact List.nodup_cons.mpr ⟨fun hmem => hr (List.mem_append.mp hmem), hs⟩

theorem evolves_submit (env : Env ω) (s : Loop ω) (r : ReqId) (priority : ℤ) :
    Evolves False s (s.curlEventRequestSubmit env r priority).2 := by
  rw [curlEventRequestSubmit]
  dsimp only
  split
  · exact .refl s
  · split
    · exact .refl s
    · exact (evolves_pushPending _ r).after rfl

theorem evolves_inject (s : Loop ω) (w r : ReqId) :
    Evolves False s (s.curlEventLoopInject w r) := by
  have hshared : Evolves False s (s.beware (s.HandedOver r) (.resubmitted r)) :=
    evolves_beware False.elim _
  have hwrapper := evolves_beware (q := False) (s := s.beware (s.HandedOver r) (.resubmitted r))
    (c := s.HandedOver w ∨ w = r) False.elim (.resubmitted w)
  refine ⟨⟨[], rfl, rfl⟩, rfl, List.suffix_cons .., List.suffix_rfl,
    (hshared.trans hwrapper).hazards, fun hz hs => ?_, False.elim⟩
  have hr : ¬ s.HandedOver r := fun h =>
    hz r (hwrapper.hazards.subset (s.mem_hazards_beware h _))
  have hw : ¬ (s.HandedOver w ∨ w = r) := fun h =>
    hz w ((s.beware (s.HandedOver r) (.resubmitted r)).mem_hazards_beware h _)
  obtain ⟨hwnew, hne⟩ := not_or.mp hw
  show (w :: s.accepted ++ r :: s.copied).Nodup
  rw [List.nodup_middle, List.nodup_cons, List.cons_append, List.mem_cons, List.nodup_cons]
  refine ⟨fun hmem => ?_, fun hmem => hwnew (List.mem_append.mp hmem), hs⟩
  rcases hmem with rfl | hmem
  · exact hne rfl
  · exact hr (List.mem_append.mp hmem)

theorem evolves_cancel (s : Loop ω) (r : ReqId) : Evolves False s (s.curlEventLoopCancel r).2 := by
  rw [curlEventLoopCancel]
  dsimp only
  have h := evolves_beware (c := ¬ s.Live r) (s := s) False.elim (.notOwned r)
  split
  · exact h
  · have h' := h.trans (.of_ledger
      (ledger_modifyReq (s.beware (¬ s.Live r) (.notOwned r)) r Request.markCancelled))
    split
    · exact h'
    · exact h'.trans ((evolves_beware False.elim _).trans (.of_heads rfl))

theorem evolves_inboxPush (s : Loop ω) (op : ResOp) : Evolves q s (s.inboxPush op) :=
  ⟨⟨[op], rfl, rfl⟩, rfl, List.suffix_rfl, List.suffix_rfl, List.suffix_rfl,
    fun _ h => h, fun _ hs => ⟨hs, rfl, rfl, rfl, fun h => h⟩⟩

/-- A call that is safe from any thread. -/
theorem evolves_apiCall (env : Env ω) (s : Loop ω) (c : ApiCall) :
    Evolves False s (s.apiCall env c) := by
  cases c with
  | submit r priority => exact evolves_submit env s r priority
  | loopSubmit r priority => exact (evolves_pushPending _ r).after rfl
  | cancel r => exact evolves_cancel s r
  | inject w r => exact evolves_inject s w r
  | registerAsync thread p cl => exact (evolves_inboxPush _ _).after rfl
  | publishAsync thread id p cl => exact evolves_inboxPush s _
  | releaseAsync thread id => exact evolves_inboxPush s _

/-- Destruction is quiet when nothing is on the cancelled list. -/
theorem evolves_destroy (s : Loop ω) (r : ReqId) : Evolves q s (s.curlEventRequestDestroy r) := by
  have hnil : q → s.cancelledRequests = none → r ∉ s.cancelledList := by
    intro _ hs
    rw [cancelledList, hs]
    cases s.accepted.length <;> simp [Intrusive.walk]
  have hrest : Evolves q (s.beware (r ∈ s.cancelledList) (.destroyedCancelled r))
      (s.curlEventRequestDestroy r) :=
    ⟨⟨[], rfl, rfl⟩, rfl, List.suffix_rfl, List.suffix_cons .., List.suffix_rfl,
      fun _ h => h, fun _ hs => ⟨hs, rfl, rfl, rfl, fun h => h⟩⟩
  exact (evolves_beware hnil (.destroyedCancelled r)).trans hrest

/-- One of the requests a publication finds waiting. -/
theorem evolves_wakeOrFail (env : Env ω) (failed : Bool) (r : ReqId) (s : Loop ω) :
    Evolves env.Quiet s (s.wakeOrFail env failed r) := by
  rw [wakeOrFail]
  dsimp only
  split
  · have h0 : Evolves env.Quiet s ((s.setNextPending r none).callOnAborted env r).2 :=
      .of_ledger (ledger_callOnAborted env _ r)
    refine h0.trans (.trans (.of_quiet (evolves_foldl (fun s c => evolves_apiCall env s c) _ _)
      fun hq _ => ?_) (evolves_destroy _ r))
    have hnil : ((s.setNextPending r none).callOnAborted env r).1 = [] := by
      rw [callOnAborted]
      split
      · exact hq.onAborted r _
      · rfl
    rw [hnil]
    exact .refl _
  · exact .of_ledger rfl

theorem evolves_publish (env : Env ω) (s : Loop ω) (id : ResId) (p : Option Payload) (c : Bool) :
    Evolves env.Quiet s (s.curlEventResPublish env id p c) :=
  (evolves_forEachPending (evolves_wakeOrFail env p.isNone) _ _).after rfl

theorem Evolves.loud (h : Evolves q s t) : Evolves False s t :=
  ⟨h.inbox, h.applied, h.accepted, h.destroyed, h.hazards, h.once, False.elim⟩

theorem evolves_release (s : Loop ω) (id : ResId) : Evolves False s (s.curlEventResRelease id) :=
  (evolves_beware False.elim (.abandoned id)).trans (.of_ledger rfl)

/-- A call on the loop thread. -/
theorem evolves_call (env : Env ω) (s : Loop ω) (c : Call) : Evolves False s (s.call env c) := by
  cases c with
  | api c => exact evolves_apiCall env s c
  | declare => exact .of_ledger rfl
  | register p c =>
    have h := evolves_publish env s.curlEventResDeclare.2 s.curlEventResDeclare.1 p c
    exact (h.after (s := s) rfl).loud
  | publish id p c => exact (evolves_publish env s id p c).loud
  | addref id => exact .of_ledger rfl
  | release id => exact evolves_release s id
  | autoreleaseOwner id enable => exact .of_ledger rfl

/-- The calls of a callback are quiet when there are none. -/
theorem evolves_calls (env : Env ω) (s : Loop ω) {cs : List Call} (h : q → cs = []) :
    Evolves q s (s.calls env cs) := by
  refine .of_quiet (evolves_foldl (fun s c => evolves_call env s c) cs s) fun hq _ => ?_
  rw [h hq]
  exact .refl s

theorem evolves_callOnComplete (env : Env ω) (s : Loop ω) (r : ReqId) :
    Evolves env.Quiet s (s.callOnComplete env r).2 := by
  rw [callOnComplete]
  split
  · exact (evolves_calls env _ fun hq : env.Quiet => hq.onComplete r _).after rfl
  · exact .of_ledger rfl

theorem evolves_callOnFailure (env : Env ω) (s : Loop ω) (r : ReqId) (easy : EasyId)
    (code : CurlCode) (httpCode : ℤ) :
    Evolves env.Quiet s (s.callOnFailure env r easy code httpCode).2 := by
  rw [callOnFailure]
  split
  · exact (evolves_calls env _ fun hq : env.Quiet => hq.onFailure r easy code httpCode _).after rfl
  · exact .refl s

/-! ### Passes -/

theorem evolves_start (env : Env ω) (s : Loop ω) (r : ReqId) :
    Evolves q s (s.curlEventLoopRequestStart env r) := by
  rw [curlEventLoopRequestStart]
  dsimp only
  have main : ∀ t : Loop ω, Evolves q t
      (if (t.setupCurlHandle env r).1 then (t.setupCurlHandle env r).2.activate env r
        else (t.setupCurlHandle env r).2.curlEventRequestDestroy r) := by
    intro t
    split
    · exact .of_ledger (by simp)
    · exact (evolves_destroy _ r).after (ledger_setupCurlHandle env t r)
  cases (s.req r).rateLimit with
  | none =>
    dsimp only
    rw [if_neg (by simp)]
    exact main s
  | some key =>
    dsimp only
    split
    · exact .of_ledger rfl
    · exact (main _).after rfl

theorem evolves_schedulePending (env : Env ω) (s : Loop ω) (r : ReqId) :
    Evolves q s (s.schedulePending env r) := by
  rw [schedulePending]
  dsimp only
  have h : Evolves q s ((s.retainDepsOnce r).requestWaitingOnDependencies r).2 :=
    .of_ledger (by simp [requestWaitingOnDependencies])
  split
  · exact h
  · refine h.trans (.trans (.of_ledger (ledger_requestReady env _ r)) ?_)
    split
    · exact evolves_start env _ r
    · exact .of_ledger (ledger_enqueueRequest _ r)

theorem evolves_pendingRound (env : Env ω) (r : ReqId) (s : Loop ω) :
    Evolves q s (s.pendingRound env r) := by
  unfold pendingRound
  dsimp only
  split
  · exact (evolves_destroy _ r).after rfl
  · exact (evolves_schedulePending env _ r).after rfl

theorem evolves_cancelledRound (r : ReqId) (s : Loop ω) : Evolves False s (s.cancelledRound r) :=
  (evolves_beware False.elim (.misplaced r)).trans ((evolves_destroy _ r).after rfl)

/-- Detaching the lists is quiet when there is no cancelled list to detach. -/
theorem evolves_processCancelledAndPendingRequests (env : Env ω) (s : Loop ω) :
    Evolves q s (s.processCancelledAndPendingRequests env) := by
  unfold processCancelledAndPendingRequests
  dsimp only
  refine .of_quiet ?_ fun _ hs => ?_
  · refine .trans (t := s.detachCancelled.detachPending) (.of_heads rfl) ?_
    exact (evolves_forEachCancelled evolves_cancelledRound _ _).trans
      (evolves_forEachPending (evolves_pendingRound env) _ _)
  · rw [hs, forEachCancelled, Intrusive.forEach_none]
    refine (evolves_forEachPending (evolves_pendingRound env) _ _).after ?_
    simp [ledger, detachCancelled, detachPending, hs]

theorem evolves_rateLimitedRound (env : Env ω) (now : ℕ) (r : ReqId) (p : List ReqId × Loop ω) :
    ∀ p', rateLimitedRound env now r p = .done p' ∨ rateLimitedRound env now r p = .yield p' →
      Evolves q p.2 p'.2 := by
  rw [rateLimitedRound]
  dsimp only
  intro p' hp'
  have hf : Evolves q p.2 (p.2.follow r) := .of_ledger (ledger_follow p.2 r)
  have hl : Evolves q p.2 ((p.2.follow r).requestIsRateLimited env p.1 r).2.2 :=
    hf.trans (.of_ledger (ledger_requestIsRateLimited env _ p.1 r))
  have hr := hl.trans (.of_ledger (ledger_requestReady env _ r))
  split at hp'
  · obtain rfl : p' = _ := by simpa [eq_comm] using hp'
    exact hf
  · split at hp'
    · obtain rfl : p' = _ := by simpa [eq_comm] using hp'
      exact hl
    · split at hp'
      · obtain rfl : p' = _ := by simpa [eq_comm] using hp'
        exact hr.trans (evolves_start env _ r)
      · obtain rfl : p' = _ := by simpa [eq_comm] using hp'
        exact hr

theorem evolves_moveRateLimited (env : Env ω) (s : Loop ω) : Evolves q s (s.moveRateLimited env) := by
  rw [moveRateLimited]
  dsimp only
  have h1 := OrderedMap.whileFirst_rule (g := fun p : List ReqId × Loop ω => p.1.head?)
    (f := rateLimitedRound env (env.macroNow s.world).1) (P := fun p => Evolves q s p.2)
    (fun r p p' hp _ hb => hp.trans (evolves_rateLimitedRound env _ r p p' (.inl hb)))
    (fun r p p' hp _ hb => hp.trans (evolves_rateLimitedRound env _ r p p' (.inr hb)))
    (n := (s.maps .rateLimited).length)
    (s := (s.maps .rateLimited, ((s.setMap .rateLimited []).ask env.macroNow).2)) (.of_ledger rfl)
  have h2 := fun n => OrderedMap.whileFirst_rule
    (g := fun p : List ReqId × Loop ω => (p.2.maps .rateLimited).head?)
    (f := mergeRound) (P := fun p => Evolves q s p.2)
    (fun r p p' _ _ hb => by simp [mergeRound] at hb)
    (fun r p p' hp _ hb => by
      obtain rfl := ForInStep.yield.inj hb
      exact hp.trans (.of_ledger (ledger_follow p.2 r))) (n := n) h1
  exact .trans (h2 _) (.of_ledger rfl)

theorem evolves_waitingRound (env : Env ω) (m : MapId) (r : ReqId) (s : Loop ω) :
    ∀ s', waitingRound env m r s = .done s' ∨ waitingRound env m r s = .yield s' →
      Evolves q s s' := by
  rw [waitingRound]
  dsimp only
  intro s' hs'
  have hl : Evolves q s (((s.follow r).requestIsRateLimited env ((s.follow r).maps m) r).2.2.setMap m
      ((s.follow r).requestIsRateLimited env ((s.follow r).maps m) r).2.1) :=
    .of_ledger ((ledger_requestIsRateLimited env (s.follow r) _ r).trans (ledger_follow s r))
  split at hs'
  · obtain rfl : s' = _ := by simpa [eq_comm] using hs'
    exact hl.trans (.of_ledger rfl)
  · have hr := hl.trans (.of_ledger (ledger_requestReady env _ r))
    split at hs'
    · obtain rfl : s' = _ := by simpa [eq_comm] using hs'
      exact hr.trans ((evolves_start env _ r).after rfl)
    · obtain rfl : s' = _ := by simpa [eq_comm] using hs'
      exact hr

theorem evolves_moveWaiting (env : Env ω) (m : MapId) (s : Loop ω) :
    Evolves q s (s.moveWaiting env m) :=
  OrderedMap.whileFirst_rule (P := Evolves q s)
    (fun r t t' ht _ hb => ht.trans (evolves_waitingRound env m r t t' (.inl hb)))
    (fun r t t' ht _ hb => ht.trans (evolves_waitingRound env m r t t' (.inr hb))) (.refl s)

theorem evolves_moveInactiveRequestsToQueue (env : Env ω) (s : Loop ω) :
    Evolves q s (s.moveInactiveRequestsToQueue env) :=
  ((evolves_moveRateLimited env s).trans (evolves_moveWaiting env .refresh _)).trans
    (evolves_moveWaiting env .inactive _)

theorem evolves_finish (s : Loop ω) (r : ReqId) (success : Bool) :
    Evolves q s (s.finish r success) := by
  have main : ∀ t : Loop ω, Evolves q t (if (t.req r).shouldRefresh then
      ((t.modifyReq r fun q => { q with currentRetries := 0 }).curlEventLoopRequestCleanup
        r).enqueueRequest r
      else t.curlEventRequestDestroy r) := by
    intro t
    split
    · exact .of_ledger rfl
    · exact evolves_destroy t r
  unfold finish
  dsimp only
  cases success with
  | true => exact (main _).after rfl
  | false => exact main s

theorem evolves_reschedule (env : Env ω) (s : Loop ω) (r : ReqId) (success : Bool) (retryIn : ℤ) :
    Evolves q s (s.reschedule env r success retryIn) := by
  have main : ∀ p : Bool × Loop ω, Evolves q s p.2 → Evolves q s (if p.1 then
      (p.2.curlEventLoopRequestCleanup r).countRetried.enqueueRequest r
      else p.2.finish r success) := by
    intro p hp
    split
    · exact hp.trans (.of_ledger rfl)
    · exact hp.trans (evolves_finish p.2 r success)
  rw [reschedule]
  split
  · exact .of_ledger rfl
  · refine main (if retryIn < 0 then s.callOnRetry env r else (false, s)) ?_
    split
    · exact .of_ledger (ledger_callOnRetry env s r)
    · exact .refl s

theorem evolves_settle (env : Env ω) (s : Loop ω) (r : ReqId) (httpCode : ℤ) (success : Bool)
    (retryIn : ℤ) : Evolves q s (s.settle env r httpCode success retryIn) := by
  rw [settle]
  cases (s.req r).rateLimit with
  | none => exact evolves_reschedule env s r success retryIn
  | some key =>
    dsimp only
    split
    · exact .of_ledger rfl
    · exact (evolves_reschedule env _ r success retryIn).after rfl

theorem evolves_receive (env : Env ω) (s : Loop ω) (m : Message) (r : ReqId) :
    Evolves env.Quiet s (s.receive env m r).2 := by
  unfold receive
  dsimp only
  refine .trans (.of_ledger (t := ((({ s with multi := s.multi.report m.easy } : Loop ω).follow
    r).eraseMap .queued r).addNum .queued (-1)) (ledger_follow _ r)) ?_
  split
  · exact evolves_callOnComplete env _ r
  · exact evolves_callOnFailure env _ r _ _ _

theorem evolves_completedRound (env : Env ω) (s : Loop ω) (m : Message) :
    Evolves env.Quiet s (s.completedRound env m) := by
  rw [completedRound]
  cases s.transferOf m with
  | none => exact .refl s
  | some t => exact (evolves_receive env s m t.priv).trans (evolves_settle env _ t.priv _ _ _)

theorem evolves_injectedRound (env : Env ω) (r : ReqId) (s : Loop ω) :
    Evolves env.Quiet s (s.injectedRound env r) := by
  unfold injectedRound
  dsimp only
  split
  · exact (evolves_callOnComplete env s r).trans (evolves_destroy _ r)
  · exact evolves_destroy s r

theorem evolves_detachInjected (s : Loop ω) : Evolves q s s.detachInjected :=
  ⟨⟨[], rfl, rfl⟩, rfl, List.suffix_rfl, List.suffix_rfl, List.suffix_rfl,
    fun _ h => h, fun _ hs => ⟨hs, rfl, rfl, rfl, fun _ => rfl⟩⟩

theorem evolves_processInjected (env : Env ω) (s : Loop ω) :
    Evolves env.Quiet s (s.processInjected env) :=
  (evolves_detachInjected s).trans (evolves_forEachPending (evolves_injectedRound env) _ _)

theorem evolves_processCompletedRequests (env : Env ω) (s : Loop ω) (msgs : List Message) :
    Evolves env.Quiet s (s.processCompletedRequests env msgs) :=
  (evolves_foldl (fun s m => evolves_completedRound env s m) msgs s).trans
    (evolves_processInjected env _)

theorem ledger_calculateNextTimerExpiry (env : Env ω) (s : Loop ω) :
    (s.calculateNextTimerExpiry env 200).2.ledger = s.ledger := by
  have hn : (s.nextExpiry env).2.ledger = s.ledger := by
    rw [nextExpiry]
    cases (s.maps .inactive).head? with
    | none => cases (s.maps .refresh).head? <;> rfl
    | some i =>
      cases (s.maps .refresh).head? with
      | none => rfl
      | some f =>
        dsimp only
        split <;> exact ledger_requestReady env s i
  rw [calculateNextTimerExpiry]
  split
  · rename_i h
    rwa [h] at hn
  · rename_i h
    rw [h] at hn
    dsimp only
    split <;> exact hn

/-! ### Destruction -/

theorem evolves_destroyMap (m : MapId) (s : Loop ω) : Evolves q s (s.destroyMap m) := by
  refine OrderedMap.whileFirst_rule (P := Evolves q s) (fun r t t' _ _ hb => ?_)
    (fun r t t' ht _ hb => ?_) (.refl s)
  · simp [destroyMapRound] at hb
  · obtain rfl := ForInStep.yield.inj hb
    exact ht.trans ((evolves_destroy _ r).after (ledger_follow t r))

theorem evolves_destroyLists (s : Loop ω) : Evolves False s s.destroyLists := by
  have hc := evolves_forEachCancelled (q := False) (f := destroyRound)
    (fun r s => evolves_destroy s r) s s.cancelledRequests
  have hd : ∀ t : Loop ω, Evolves False t t.detachCancelled := fun _ => .of_heads rfl
  have hp : ∀ t : Loop ω,
      Evolves False t (t.forEachPending t.pendingRequests destroyRound).detachPending := fun t =>
    (evolves_forEachPending (fun r s => evolves_destroy s r) t _).trans (.of_ledger rfl)
  have hi : ∀ t : Loop ω,
      Evolves False t (t.forEachPending t.injectedRequests destroyRound).detachInjected := fun t =>
    (evolves_forEachPending (fun r s => evolves_destroy s r) t _).trans (evolves_detachInjected _)
  exact hc.trans ((hd _).trans ((hp _).trans (hi _)))

theorem evolves_failLate (env : Env ω) (r : ReqId) (s : Loop ω) :
    Evolves False s (s.failLate env r) := by
  rw [failLate]
  dsimp only
  exact ((evolves_beware False.elim _).trans (evolves_destroy _ r)).after
    (ledger_callOnAborted env _ r)

theorem evolves_destroyFirstRes (env : Env ω) (n : Res) (s : Loop ω) :
    Evolves False s (s.destroyFirstRes env n) := by
  have h := evolves_forEachPending (evolves_failLate env)
    (s.setResources (s.resources.put n.noWaiters)) n.blockedHead
  exact (h.after (s := s) rfl).trans (.of_ledger rfl)

theorem evolves_destroyAll (env : Env ω) (s : Loop ω) :
    Evolves False s (s.curlResourceDestroyAll env) := by
  have h := OrderedMap.whileFirst_rule (P := Evolves False s)
    (g := fun t : Loop ω => t.resources.nodes.head?)
    (f := fun n t => .yield (t.destroyFirstRes env n)) (n := s.resources.nodes.length)
    (fun n t t' _ _ hb => by simp at hb)
    (fun n t t' ht _ hb => by
      obtain rfl := ForInStep.yield.inj hb
      exact ht.trans (evolves_destroyFirstRes env n t)) (.refl s)
  exact h.trans (.of_ledger rfl)

theorem evolves_curlEventLoopDestroy (env : Env ω) (s : Loop ω) :
    Evolves False s (s.curlEventLoopDestroy env) :=
  (evolves_destroyMap .queued s).trans ((evolves_destroyMap .inactive _).trans
    ((evolves_destroyMap .refresh _).trans ((evolves_destroyMap .rateLimited _).trans
      ((evolves_destroyLists _).trans (evolves_destroyAll env _)))))

/-! ### Actions -/

/-- An operation taken from the inbox evolves the loop apart from being recorded. -/
theorem evolves_applyOp (env : Env ω) (s : Loop ω) (op : ResOp) :
    Evolves False { s with applied := op :: s.applied } (s.applyOp env op) := by
  unfold applyOp
  dsimp only
  cases op.kind with
  | register => exact (evolves_publish env _ _ _ _).loud
  | publish => exact (evolves_publish env _ _ _ _).loud
  | release => exact evolves_release _ _

/-- An action evolves the loop, apart from what the loop thread does to its inbox. -/
theorem evolves_act (env : Env ω) (a : Action) (s : Loop ω) : ∃ inbox applied,
    Evolves False { s with resInbox := inbox, applied := applied } (act env a s) := by
  cases a with
  | call c => exact ⟨_, _, evolves_call env s c⟩
  | setOwnerThread => exact ⟨[], s.applied, .refl _⟩
  | takeInbox => exact ⟨_, _, .refl _⟩
  | applyOp op => exact ⟨_, _, evolves_applyOp env s op⟩
  | processCancelledAndPendingRequests =>
    exact ⟨_, _, evolves_processCancelledAndPendingRequests env s⟩
  | moveInactiveRequestsToQueue => exact ⟨_, _, evolves_moveInactiveRequestsToQueue env s⟩
  | processCompletedRequests msgs =>
    exact ⟨_, _, (evolves_processCompletedRequests env s msgs).loud⟩
  | calculateNextTimerExpiry =>
    exact ⟨_, _, .of_ledger (ledger_calculateNextTimerExpiry env s)⟩
  | start => exact ⟨s.resInbox, s.applied, .of_ledger rfl⟩
  | stop => exact ⟨s.resInbox, s.applied, .of_ledger rfl⟩
  | destroy => exact ⟨_, _, evolves_curlEventLoopDestroy env s⟩

/-- No action withdraws a hazard. -/
theorem hazards_act (env : Env ω) (a : Action) (s : Loop ω) :
    s.hazards <:+ (act env a s).hazards := by
  obtain ⟨_, _, h⟩ := evolves_act env a s
  exact h.hazards

/-- A run that ends without a hazard has met none. -/
theorem hazards_eq_nil_of_act {env : Env ω} {a : Action} {s : Loop ω}
    (h : (act env a s).hazards = []) : s.hazards = [] :=
  List.suffix_nil.mp (h ▸ hazards_act env a s)

end Loop

end CurlLoop
