import CurlLoop.Layout

/-!
# The two tests of a dependency list

The scheduler tests the dependencies of a request twice. `curl_resource_check_and_block_list` makes
the request wait for the first one that is not met, and creates its node if there is none.
`curl_resource_all_ready_list` looks and touches nothing. They agree, in every order of the list and
whatever it repeats: a list is ready where each of its resources has a node that was published.

Blocking leaves a small mark. One node changes, and of it the two ends of its waiting list; the
request is the last on that list. A node that was missing is there after, empty but for the request.

## Main definitions

* `Resources.Met` — a dependency is met
* `Loop.WaitingLists` — the waiting lists that the nodes and the links spell out
* `Loop.BlockedOn` — what blocking a request on a resource changes

## Main results

* `Loop.allReadyList_agrees`
* `Loop.Located.waitingLists`, `Loop.Located.not_waiting` — the scheduler meets the conditions on the
  waiting lists
-/

namespace CurlLoop

open Function (update)

namespace Resources

variable {s : Resources} {id : ResId}

/-- A dependency is met: its resource has a node, and the node was published. -/
def Met (s : Resources) (id : ResId) : Prop := ∃ n ∈ s.resFind id, n.ready = true

instance (s : Resources) (id : ResId) : Decidable (s.Met id) :=
  inferInstanceAs (Decidable (∃ n ∈ s.resFind id, _))

theorem ready_resGetOrCreate : (s.resGetOrCreate id).1.ready = true ↔ s.Met id := by
  rw [resGetOrCreate_fst, Met]
  cases s.resFind id with
  | none => simp [Res.fresh, Res.ready]
  | some n => simp

theorem resGetOrCreate_of_met (h : s.Met id) : (s.resGetOrCreate id).2 = s := by
  obtain ⟨n, hn, -⟩ := h
  rw [Option.mem_def] at hn
  rw [resGetOrCreate, hn]

theorem allReadyList_iff {deps : List ResId} :
    s.curlResourceAllReadyList deps = true ↔ ∀ id ∈ deps, s.Met id := by
  rw [curlResourceAllReadyList, List.all_eq_true]
  refine forall₂_congr fun id _ => ?_
  rw [Met]
  cases s.resFind id <;> simp

end Resources

namespace Loop

variable {ω : Type} {s s' : Loop ω} {r : ReqId} {id : ResId} {w : ResId → List ReqId}

/-! ### The answers -/

theorem blockOnId_of_met (r : ReqId) (h : s.resources.Met id) :
    s.curlResourceBlockOnId r id = (false, s) := by
  have hready := Resources.ready_resGetOrCreate.mpr h
  have hmet : ¬ ((s.resources.resGetOrCreate id).1.payload = none ∧
      (s.resources.resGetOrCreate id).1.failed = false) := by
    rintro ⟨hp, hf⟩
    simp [Res.ready, hp, hf] at hready
  rw [curlResourceBlockOnId]
  simp only [Resources.resGetOrCreate_of_met h]
  exact if_neg hmet

theorem blockOnId_of_not_met (r : ReqId) (h : ¬ s.resources.Met id) :
    s.curlResourceBlockOnId r id =
      (true, (s.setResources (s.resources.resGetOrCreate id).2).blockRequestOnRes
        (s.resources.resGetOrCreate id).1 r) := by
  have hready : (s.resources.resGetOrCreate id).1.payload = none ∧
      (s.resources.resGetOrCreate id).1.failed = false := by
    rw [← Resources.ready_resGetOrCreate, Res.ready] at h
    simpa using h
  rw [curlResourceBlockOnId]
  exact if_pos hready

theorem checkAndBlockList_of_met {deps : List ResId} (r : ReqId)
    (h : ∀ id ∈ deps, s.resources.Met id) : s.curlResourceCheckAndBlockList r deps = (false, s) := by
  induction deps with
  | nil => rfl
  | cons id deps ih =>
    obtain ⟨hid, hdeps⟩ := List.forall_mem_cons.mp h
    rw [curlResourceCheckAndBlockList, blockOnId_of_met r hid]
    exact ih hdeps

/-- The first dependency that is not met decides. -/
theorem checkAndBlockList_of_first {pre post : List ResId} (r : ReqId)
    (hpre : ∀ id ∈ pre, s.resources.Met id) (hid : ¬ s.resources.Met id) :
    s.curlResourceCheckAndBlockList r (pre ++ id :: post) = s.curlResourceBlockOnId r id := by
  induction pre with
  | nil =>
    rw [List.nil_append, curlResourceCheckAndBlockList, blockOnId_of_not_met r hid]
    rfl
  | cons id' pre ih =>
    obtain ⟨hid', hpre⟩ := List.forall_mem_cons.mp hpre
    rw [List.cons_append, curlResourceCheckAndBlockList, blockOnId_of_met r hid']
    exact ih hpre

theorem exists_first_unmet {store : Resources} {deps : List ResId}
    (h : ¬ ∀ id ∈ deps, store.Met id) :
    ∃ pre id post, deps = pre ++ id :: post ∧ (∀ d ∈ pre, store.Met d) ∧ ¬ store.Met id := by
  induction deps with
  | nil => exact absurd (List.forall_mem_nil _) h
  | cons id deps ih =>
    by_cases hid : store.Met id
    · obtain ⟨pre, id', post, rfl, hpre, hid'⟩ :=
        ih fun hall => h (List.forall_mem_cons.mpr ⟨hid, hall⟩)
      exact ⟨id :: pre, id', post, rfl, List.forall_mem_cons.mpr ⟨hid, hpre⟩, hid'⟩
    · exact ⟨[], id, deps, rfl, List.forall_mem_nil _, hid⟩

/-! ### The mark -/

/-- The waiting lists, as the nodes and the links spell them out: no request is twice on one, or on
two. -/
structure WaitingLists (s : Loop ω) (w : ResId → List ReqId) : Prop where
  chain : ∀ id, Intrusive.IsChain s.nextPending (s.resources.blockedHead id) (w id)
  tail : ∀ id, s.resources.blockedTail id = (w id).getLast?
  nodup : ∀ id, (w id).Nodup
  disjoint : ∀ id id' b, b ∈ w id → b ∈ w id' → id = id'

/-- What blocking a request on a resource changes. -/
structure BlockedOn (s s' : Loop ω) (r : ReqId) (id : ResId) : Prop where
  /-- The request is appended to the waiting list of the resource, and no other list changes. -/
  waits : ∀ w, s.WaitingLists w → (∀ id', r ∉ w id') →
    s'.WaitingLists (update w id (w id ++ [r]))
  /-- The node is the one there was, or an empty one, but for the ends of its waiting list. -/
  node : ∃ n, s'.resources.resFind id = some n ∧
    n.noWaiters = ((s.resources.resFind id).getD (.fresh id 0)).noWaiters
  others : ∀ id', id' ≠ id → s'.resources.resFind id' = s.resources.resFind id'
  links : ∀ b, b ≠ r → s.resources.blockedTail id ≠ some b → s'.nextPending b = s.nextPending b
  rest : ∃ link nodes, s' = { s with
    nextPending := link, resources := { s.resources with nodes := nodes } }

theorem WaitingLists.append (h : s.WaitingLists w) (hr : ∀ id', r ∉ w id')
    {link : ReqId → Option ReqId} {store : Resources} {head : Option ReqId}
    (hlink : ∀ b, b ≠ r → s.resources.blockedTail id ≠ some b → link b = s.nextPending b)
    (hchain : Intrusive.IsChain link head (w id ++ [r]))
    (hhead : ∀ j, store.blockedHead j = if j = id then head else s.resources.blockedHead j)
    (htail : ∀ j, store.blockedTail j = if j = id then some r else s.resources.blockedTail j) :
    (({ s with nextPending := link } : Loop ω).setResources store).WaitingLists
      (update w id (w id ++ [r])) := by
  have hmem : ∀ {b j}, b ∈ update w id (w id ++ [r]) j → b ∈ w j ∨ b = r ∧ j = id := by
    intro b j hb
    rcases eq_or_ne j id with rfl | hj
    · rw [Function.update_self, List.mem_append, List.mem_singleton] at hb
      exact hb.imp_right fun heq => ⟨heq, rfl⟩
    · rw [Function.update_of_ne hj] at hb
      exact .inl hb
  refine ⟨fun j => ?_, fun j => ?_, fun j => ?_, fun j j' b hb hb' => ?_⟩
  · rcases eq_or_ne j id with rfl | hj
    · rw [Function.update_self]
      change Intrusive.IsChain link (store.blockedHead j) _
      rwa [hhead, if_pos rfl]
    · rw [Function.update_of_ne hj]
      change Intrusive.IsChain link (store.blockedHead j) _
      rw [hhead, if_neg hj]
      refine (h.chain j).congr fun b hb => hlink b ?_ fun ht => ?_
      · rintro rfl
        exact hr j hb
      · rw [h.tail] at ht
        exact hj (h.disjoint j id b hb (List.mem_of_getLast? ht))
  · change store.blockedTail j = _
    rw [htail]
    rcases eq_or_ne j id with rfl | hj
    · rw [if_pos rfl, Function.update_self, List.getLast?_concat]
    · rw [if_neg hj, Function.update_of_ne hj]
      exact h.tail j
  · rcases eq_or_ne j id with rfl | hj
    · rw [Function.update_self]
      exact (h.nodup j).append (List.nodup_singleton r) (by simpa using hr j)
    · rw [Function.update_of_ne hj]
      exact h.nodup j
  · rcases hmem hb with hold | ⟨rfl, rfl⟩
    · rcases hmem hb' with hold' | ⟨rfl, -⟩
      · exact h.disjoint j j' b hold hold'
      · exact absurd hold (hr j)
    · rcases hmem hb' with hold' | ⟨-, heq⟩
      · exact absurd hold' (hr j')
      · exact heq.symm

/-- The node of the resource, and nothing else, is created or changed. -/
theorem blockedOn_of_not_met (r : ReqId) (h : ¬ s.resources.Met id) :
    BlockedOn s (s.curlResourceBlockOnId r id).2 r id := by
  rw [blockOnId_of_not_met r h]
  have hid : (s.resources.resGetOrCreate id).1.id = id := s.resources.id_resGetOrCreate id
  have hfst := s.resources.resGetOrCreate_fst id
  have hfind := s.resources.resFind_getOrCreate id
  have hsame := s.resources.sameWaiters_getOrCreate id
  have hstore : ∃ nodes, (s.resources.resGetOrCreate id).2 = { s.resources with nodes := nodes } := by
    rw [Resources.resGetOrCreate]
    cases s.resources.resFind id with
    | none => exact ⟨_, rfl⟩
    | some n => exact ⟨s.resources.nodes, rfl⟩
  generalize (s.resources.resGetOrCreate id).1 = n at hid hfst hfind ⊢
  generalize (s.resources.resGetOrCreate id).2 = store at hfind hsame hstore ⊢
  subst hid
  have hn : store.resFind n.id = some n := by rw [hfind, if_pos rfl]
  have hhead : n.blockedHead = s.resources.blockedHead n.id := by
    rw [← (hsame n.id).1, Resources.blockedHead_eq hn]
  have htail : n.blockedTail = s.resources.blockedTail n.id := by
    rw [← (hsame n.id).2.1, Resources.blockedTail_eq hn]
  obtain ⟨link, head, heq, hlink, happend⟩ := exists_blockRequestOnRes (s.setResources store) n r
  rw [heq]
  refine ⟨fun w hw hr => ?_, ⟨n.setWaiters head (some r), ?_, ?_⟩, fun j hj => ?_, fun b hb ht => ?_,
    ?_⟩
  · have hchain := happend (hhead ▸ hw.chain n.id) (htail.trans (hw.tail n.id)) (hw.nodup n.id)
      (hr n.id)
    refine hw.append hr (fun b hb ht => hlink b hb (htail ▸ ht)) hchain (fun j => ?_) fun j => ?_
    · exact (Resources.blockedHead_setWaiters hn ..).trans (by rw [(hsame j).1])
    · exact (Resources.blockedTail_setWaiters hn ..).trans (by rw [(hsame j).2.1])
  · exact (Resources.resFind_setWaiters hn ..).trans (if_pos rfl)
  · rw [← hfst]
    rfl
  · refine (Resources.resFind_setWaiters hn ..).trans ((if_neg hj).trans ?_)
    exact (hfind j).trans (if_neg hj)
  · exact hlink b hb (htail ▸ ht)
  · obtain ⟨nodes, rfl⟩ := hstore
    exact ⟨link, _, rfl⟩

/-- **The two tests agree, and blocking leaves a small mark.** In whatever order the dependencies are
and however often each is listed, the list is ready exactly when blocking on it would not block. A
list that blocks does so on its first dependency that is not met, and changes the end of the waiting
list of that resource and nothing else of any other. A list that does not block changes nothing. -/
theorem allReadyList_agrees (s : Loop ω) (r : ReqId) (deps : List ResId) :
    (∀ deps' : List ResId, (∀ id, id ∈ deps' ↔ id ∈ deps) →
      (s.resources.curlResourceAllReadyList deps' = true ↔
        (s.curlResourceCheckAndBlockList r deps).1 = false)) ∧
    ((s.curlResourceCheckAndBlockList r deps).1 = true →
      ∃ pre id post, deps = pre ++ id :: post ∧ (∀ d ∈ pre, s.resources.Met d) ∧
        ¬ s.resources.Met id ∧ BlockedOn s (s.curlResourceCheckAndBlockList r deps).2 r id) ∧
    ((s.curlResourceCheckAndBlockList r deps).1 = false →
      (s.curlResourceCheckAndBlockList r deps).2 = s) := by
  by_cases hall : ∀ id ∈ deps, s.resources.Met id
  · rw [checkAndBlockList_of_met r hall]
    refine ⟨fun deps' hmem => iff_of_true ?_ rfl, fun htrue => absurd htrue Bool.false_ne_true,
      fun _ => rfl⟩
    rw [Resources.allReadyList_iff]
    exact fun id hid => hall id ((hmem id).mp hid)
  · obtain ⟨pre, id, post, rfl, hpre, hid⟩ := exists_first_unmet hall
    have hblock := blockedOn_of_not_met r hid
    rw [checkAndBlockList_of_first r hpre hid]
    have htrue : (s.curlResourceBlockOnId r id).1 = true := by rw [blockOnId_of_not_met r hid]
    rw [htrue]
    refine ⟨fun deps' hmem => iff_of_false ?_ Bool.false_ne_true.symm,
      fun _ => ⟨pre, id, post, rfl, hpre, hid, hblock⟩,
      fun hfalse => absurd hfalse Bool.false_ne_true.symm⟩
    rw [Resources.allReadyList_iff]
    exact fun hall' => hall fun d hd => hall' d ((hmem d).mpr hd)

/-- A loop in which resource 3 is published and resource 5 is awaited by request 1. -/
def oneAwaited : Loop Unit :=
  (curlEventLoopInit (.plain fun _ => []) ()).setResources
    { Resources.init with nodes := [{ Res.fresh 3 1 with payload := some 7 },
        (Res.fresh 5 1).setWaiters (some 1) (some 1)] }

/-- Request 2 depends on both, and is blocked on the second. -/
theorem allReadyList_agrees_oneAwaited :
    (oneAwaited.resources.curlResourceAllReadyList [5, 3] = true ↔
      (oneAwaited.curlResourceCheckAndBlockList 2 [3, 5, 3]).1 = false) ∧
    ∃ pre id post, [3, 5, 3] = pre ++ id :: post ∧ (∀ d ∈ pre, oneAwaited.resources.Met d) ∧
      ¬ oneAwaited.resources.Met id ∧
        BlockedOn oneAwaited (oneAwaited.curlResourceCheckAndBlockList 2 [3, 5, 3]).2 2 id := by
  have h := allReadyList_agrees oneAwaited 2 [3, 5, 3]
  refine ⟨h.1 [5, 3] fun id => ?_, h.2.1 (by decide)⟩
  simp only [List.mem_cons, List.not_mem_nil, or_false]
  grind

/-! ### Where the scheduler stands -/

/-- The waiting lists of a loop whose requests are each in one place. -/
theorem Located.waitingLists {v : View} (h : Located s v) :
    s.WaitingLists fun id => v (.blocked id) where
  chain := h.linked.blocked
  tail := h.linked.tail
  nodup _ := h.placed.nodup _
  disjoint _ _ _ hb hb' := by simpa using h.placed.inj hb hb'

/-- A request that is being worked on waits for nothing yet. -/
theorem Located.not_waiting {v : View} (h : Located s v) (hr : r ∈ v .hand) (id : ResId) :
    r ∉ v (.blocked id) := h.placed.notMem_of_ne hr (by simp)

end Loop

end CurlLoop
