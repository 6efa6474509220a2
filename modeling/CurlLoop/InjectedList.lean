import CurlLoop.Bystanders

/-!
# Who is on the injected list

The injected list shares the link `next_pending` with the pending list and with the waiting lists of
the resources, and no field of a request says which of the lists it is on. That a request which was
submitted never comes to the injected list, and that one which was injected never comes to another,
follows from what the steps write: a step writes the links of the request it is about, of a request
that is handed over, and of the last request that waits for a resource. None of these is on the
injected list.

So a step other than an injection leaves the list alone as a whole (`WF.injected_eq`).

## Main definitions

* `Loop.LinkKept` — a step leaves a request of the injected list where it is

## Main results

* `WF.injected_eq` — the list of a step that leaves the links alone
* `WF.injected_apiCall`, `linkKept_pendingRound`, … — the steps
-/

namespace CurlLoop

open Function (update)

namespace Loop

variable {ω : Type} {s t u : Loop ω} {v v' : View} {C C' l root : List ReqId} {b r : ReqId} {m : MapId}
  {env : Env ω} {strict : Prop} {p p' : List ReqId × Loop ω}

/-- The head of the injected list is not written, nor the link of the request. -/
structure LinkKept (b : ReqId) (s t : Loop ω) : Prop where
  head : t.injectedRequests = s.injectedRequests
  link : t.nextPending b = s.nextPending b

theorem LinkKept.refl (b : ReqId) (s : Loop ω) : LinkKept b s s := ⟨rfl, rfl⟩

theorem LinkKept.trans (h : LinkKept b s t) (h' : LinkKept b t u) : LinkKept b s u :=
  ⟨h'.head.trans h.head, h'.link.trans h.link⟩

/-- A step that writes no link. -/
theorem LinkKept.of_eq (hhead : t.injectedRequests = s.injectedRequests)
    (hlink : t.nextPending = s.nextPending) : LinkKept b s t := ⟨hhead, congrFun hlink b⟩

/-- The head is the same, and so are the links of the list: it is the same list. -/
theorem WF.injected_eq (h : s.WF v C) (h' : t.WF v' C') (hhead : t.injectedRequests = s.injectedRequests)
    (hlink : ∀ b ∈ v .injected, t.nextPending b = s.nextPending b) : v' .injected = v .injected := by
  refine h'.located.linked.injected.unique ?_
  rw [hhead]
  exact h.located.linked.injected.congr hlink

/-! ### Steps of the passes -/

theorem linkKept_follow (s : Loop ω) (r : ReqId) : LinkKept b s (s.follow r) := by
  rw [follow]
  split <;> exact ⟨rfl, rfl⟩

theorem linkKept_start (env : Env ω) (s : Loop ω) (r : ReqId) :
    LinkKept b s (s.curlEventLoopRequestStart env r) := by
  have hout := start_outcome env s r
  generalize s.curlEventLoopRequestStart env r = t at hout ⊢
  cases hout <;> exact ⟨rfl, rfl⟩

theorem linkKept_settle (env : Env ω) (s : Loop ω) (r : ReqId) (httpCode : ℤ) (success : Bool)
    (retryIn : ℤ) : LinkKept b s (s.settle env r httpCode success retryIn) := by
  have hout := settle_outcome env s r httpCode success retryIn
  generalize s.settle env r httpCode success retryIn = t at hout ⊢
  cases hout <;> exact ⟨rfl, rfl⟩

theorem linkKept_requestReady (env : Env ω) (s : Loop ω) (r : ReqId) :
    LinkKept b s (s.requestReady env r).2 := by
  obtain ⟨w, hw⟩ := requestReady_eq env s r
  rw [hw]
  exact ⟨rfl, rfl⟩

theorem linkKept_retainDepsOnce (s : Loop ω) (r : ReqId) : LinkKept b s (s.retainDepsOnce r) := by
  rw [retainDepsOnce]
  split <;> exact ⟨rfl, rfl⟩

/-- A request is appended to a waiting list. Nobody else is touched but the last of that list. -/
theorem linkKept_checkAndBlockList (hb : b ≠ r) (deps : List ResId)
    (htail : ∀ id, s.resources.blockedTail id ≠ some b) :
    LinkKept b s (s.curlResourceCheckAndBlockList r deps).2 := by
  induction deps generalizing s with
  | nil => exact .refl b s
  | cons id deps ih =>
    have hsame := Resources.sameWaiters_getOrCreate s.resources id
    have hfind : (s.resources.resGetOrCreate id).2.resFind (s.resources.resGetOrCreate id).1.id =
        some (s.resources.resGetOrCreate id).1 := by
      rw [Resources.resFind_getOrCreate, if_pos (Resources.id_resGetOrCreate s.resources id)]
    have hlast : (s.resources.resGetOrCreate id).1.blockedTail ≠ some b := by
      rw [← Resources.blockedTail_eq hfind, (hsame _).2.1]
      exact htail _
    rw [curlResourceCheckAndBlockList, curlResourceBlockOnId]
    dsimp only
    split
    · have hlink : LinkKept b (s.setResources (s.resources.resGetOrCreate id).2)
          ((s.setResources (s.resources.resGetOrCreate id).2).blockRequestOnRes
            (s.resources.resGetOrCreate id).1 r) :=
        ⟨congrArg Ledger.injectedRequests (ledger_blockRequestOnRes _ _ r),
          nextPending_blockRequestOnRes hb hlast⟩
      rw [if_pos rfl]
      exact ⟨hlink.head, hlink.link⟩
    · rw [if_neg Bool.false_ne_true]
      have hrest := ih (s := s.setResources (s.resources.resGetOrCreate id).2) fun j => by
        rw [show (s.setResources (s.resources.resGetOrCreate id).2).resources.blockedTail j =
          s.resources.blockedTail j from (hsame j).2.1]
        exact htail j
      exact ⟨hrest.head, hrest.link⟩

theorem linkKept_pendingRound (env : Env ω) (hb : b ≠ r)
    (htail : ∀ id, s.resources.blockedTail id ≠ some b) : LinkKept b s (s.pendingRound env r) := by
  have hunmark : LinkKept b s ((s.modifyReq r fun q => q.setPending false).setNextPending r none) :=
    ⟨rfl, Function.update_of_ne hb ..⟩
  rw [pendingRound]
  split
  · exact ⟨hunmark.head, hunmark.link⟩
  · have hretain := hunmark.trans (linkKept_retainDepsOnce _ r)
    have htail' : ∀ id, (((s.modifyReq r fun q => q.setPending false).setNextPending r
        none).retainDepsOnce r).resources.blockedTail id ≠ some b := by
      intro id
      rw [retainDepsOnce]
      split
      · have hsame := Resources.sameWaiters_retain (((s.modifyReq r fun q =>
          q.setPending false).setNextPending r none).req r).depHead s.resources
        exact fun heq => htail id ((hsame id).2.1.symm.trans heq)
      · exact htail id
    generalize ((s.modifyReq r fun q => q.setPending false).setNextPending r none) = t
      at hretain htail' ⊢
    have hwait := hretain.trans
      (linkKept_checkAndBlockList hb ((t.retainDepsOnce r).req r).depHead htail')
    rw [schedulePending, requestWaitingOnDependencies]
    dsimp only
    split
    · exact hwait
    · have hready := hwait.trans (linkKept_requestReady env _ r)
      split
      · exact hready.trans (linkKept_start env _ r)
      · exact ⟨hready.head, hready.link⟩

/-- A request of the injected list waits for no resource. -/
theorem WF.tail_ne_of_injected (h : s.WF v C) (hb : b ∈ v .injected) (id : ResId) :
    s.resources.blockedTail id ≠ some b := by
  intro hid
  rw [h.located.linked.tail] at hid
  exact absurd (h.located.placed.inj hb (List.mem_of_getLast? hid)) (by simp)

/-! ### Calls -/

/-- The request a call puts on the injected list. -/
def injects : ApiCall → List ReqId
  | .inject w _ => [w]
  | _ => []

/-- **A call** leaves the injected list alone, or puts a request that is new in front of it. -/
theorem WF.injected_apiCall (h : s.WF v C) (c : ApiCall) (hz : (s.apiCall env c).Spared strict)
    (h' : (s.apiCall env c).WF v' C') : v' .injected = injects c ++ v .injected := by
  have hfresh : ∀ {r : ReqId}, r ∉ s.accepted → ∀ b ∈ v .injected, b ≠ r := by
    rintro r hr b hb rfl
    exact hr (h.located.accepted_of_mem hb)
  cases c with
  | submit r priority =>
    rw [Loop.apiCall, curlEventRequestSubmit] at hz h'
    dsimp only at hz h'
    split at hz
    · rename_i hurl
      rw [if_pos hurl] at h'
      exact h.injected_eq h' rfl fun _ _ => rfl
    · rename_i hurl
      rw [if_neg hurl] at h'
      split at hz
      · rename_i hbusy
        rw [if_pos hbusy] at h'
        exact h.injected_eq h' rfl fun _ _ => rfl
      · rename_i hbusy
        rw [if_neg hbusy] at h'
        exact h.injected_eq h' rfl fun b hb =>
          Function.update_of_ne (hfresh (notMem_of_pushPending hz) b hb) ..
  | loopSubmit r priority =>
    exact h.injected_eq h' rfl fun b hb =>
      Function.update_of_ne (hfresh (notMem_of_pushPending hz) b hb) ..
  | cancel r =>
    refine h.injected_eq h' ?_ fun b _ => ?_
    · rw [Loop.apiCall, curlEventLoopCancel]
      dsimp only
      split
      · rfl
      · split <;> rfl
    · rw [Loop.apiCall, curlEventLoopCancel]
      dsimp only
      split
      · rfl
      · split <;> rfl
  | inject w r =>
    have hw : w ∉ s.accepted := notMem_of_inject hz
    refine h'.located.linked.injected.unique ?_
    exact h.located.linked.injected.push fun hmem => hw (h.located.accepted_of_mem hmem)
  | registerAsync | publishAsync | releaseAsync => exact h.injected_eq h' rfl fun _ _ => rfl

end Loop

end CurlLoop
