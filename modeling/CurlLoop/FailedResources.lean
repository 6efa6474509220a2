import CurlLoop.Scheduler

/-!
# Resources that have failed

`curl_event_res_publish(loop, id, NULL, …)` marks a resource as failed, and it is the only function
that does. This file says so of the passes over the pending list and over the waiting maps: a request
none of whose dependencies has failed is in the same position after the pass as before it.

With it goes what else these passes have in common. They report no failure to anybody, and whom they
start was pending or in a map when the pass began.

## Main definitions

* `Resources.Failed`, `Loop.Doomed` — a resource has failed, a request depends on one
* `Loop.Waits` — the request is in a map of requests that wait
* `Loop.Spares` — no resource fails, no failure is reported, and only some requests are started

## Main results

* `AtRest.spares_processCancelledAndPendingRequests`, `spares_moveInactiveRequestsToQueue`
-/

namespace CurlLoop

open Function (update)

/-! ### The store -/

namespace Resources

/-- The last publication under `id` was a failure. -/
def Failed (s : Resources) (id : ResId) : Prop := ∃ n ∈ s.resFind id, n.failed = true

instance (s : Resources) (id : ResId) : Decidable (s.Failed id) :=
  inferInstanceAs (Decidable (∃ n ∈ s.resFind id, _))

/-- No resource fails. -/
def Spares (s t : Resources) : Prop := ∀ id, t.Failed id → s.Failed id

variable {s t u : Resources}

theorem Spares.refl (s : Resources) : s.Spares s := fun _ h => h

theorem Spares.trans (h : s.Spares t) (h' : t.Spares u) : s.Spares u :=
  fun id hu => h id (h' id hu)

/-- Writing a node that is in the map. -/
theorem spares_put {n n' : Res} (hn : s.resFind n'.id = some n)
    (hf : n'.failed = true → n.failed = true) : s.Spares (s.put n') := by
  rintro id ⟨m, hm, hfm⟩
  rw [Option.mem_def, resFind_put] at hm
  split at hm
  · subst id
    rw [hn] at hm
    obtain rfl := Option.some.inj hm
    exact ⟨n, hn, hf hfm⟩
  · exact ⟨m, hm, hfm⟩

theorem spares_getOrCreate (s : Resources) (id : ResId) : s.Spares (s.resGetOrCreate id).2 := by
  rintro j ⟨m, hm, hfm⟩
  rw [Option.mem_def, resFind_getOrCreate] at hm
  split at hm
  · subst j
    obtain rfl := Option.some.inj hm
    rw [resGetOrCreate_fst] at hfm
    cases hs : s.resFind id with
    | none =>
      rw [hs] at hfm
      exact absurd hfm (by simp [Res.fresh])
    | some n =>
      rw [hs] at hfm
      exact ⟨n, hs, hfm⟩
  · exact ⟨m, hm, hfm⟩

/-- Get or create a node and write it back. -/
theorem spares_put_getOrCreate (s : Resources) (id : ResId) {f : Res → Res}
    (hid : ∀ n, (f n).id = n.id) (hf : ∀ n, (f n).failed = true → n.failed = true) :
    s.Spares ((s.resGetOrCreate id).2.put (f (s.resGetOrCreate id).1)) := by
  refine (spares_getOrCreate s id).trans (spares_put (n := (s.resGetOrCreate id).1) ?_ (hf _))
  rw [resFind_getOrCreate, if_pos ((hid _).trans (id_resGetOrCreate s id))]

theorem spares_free (s : Resources) (id : ResId) : s.Spares (s.free id) := by
  rintro j ⟨m, hm, hfm⟩
  rw [Option.mem_def, resFind_free] at hm
  split at hm
  · exact absurd hm (by simp)
  · exact ⟨m, hm, hfm⟩

theorem spares_release (s : Resources) (id : ResId) : s.Spares (s.curlEventResRelease id) := by
  rw [curlEventResRelease]
  cases hn : s.resFind id with
  | none => exact .refl s
  | some n =>
    dsimp only
    split
    · exact spares_free s id
    · refine spares_put (n := n) ?_ fun h => h
      rwa [Res.id_addRefs, id_of_resFind hn]

theorem spares_releaseDep (s : Resources) (id : ResId) : s.Spares (s.releaseDep id) := by
  rw [releaseDep]
  cases hn : s.resFind id with
  | none => exact .refl s
  | some n =>
    have hput : s.Spares (s.put n.unref) := by
      refine spares_put (n := n) ?_ ?_
      · rwa [Res.id_unref, id_of_resFind hn]
      · rw [Res.unref]
        split <;> exact fun h => h
    dsimp only
    rw [maybeAutoreleaseOwner]
    split
    · exact hput.trans (spares_release _ _)
    · exact hput

theorem spares_releaseDeps (deps : List ResId) (s : Resources) :
    s.Spares (s.curlResourceReleaseRequestDeps deps) := by
  induction deps generalizing s with
  | nil => exact .refl s
  | cons id deps ih => exact (spares_releaseDep s id).trans (ih _)

theorem spares_retain (deps : List ResId) (s : Resources) :
    s.Spares (s.curlResourceRetainRequestDeps deps) := by
  induction deps generalizing s with
  | nil => exact .refl s
  | cons id deps ih =>
    exact (spares_put_getOrCreate s id (f := fun n => n.addRefs 1) (fun _ => rfl)
      fun _ h => h).trans (ih (s.retainDep id))

end Resources

/-! ### The loop -/

/-- The dependencies of a request are the same, and so is what decides whether it is told of a failure
or destroyed. -/
structure Request.SameWants (q q' : Request) : Prop where
  depHead : q'.depHead = q.depHead
  onFailure : q'.onFailure = q.onFailure
  isCancelled : q'.isCancelled = q.isCancelled

theorem Request.SameWants.refl (q : Request) : q.SameWants q := ⟨rfl, rfl, rfl⟩

/-- The event is not the report of a failure. If a request is started, it is one of these. -/
def Event.Spares (D : ReqId → Prop) : Event → Prop
  | .started r => D r
  | .onFailure _ _ _ => False
  | _ => True

namespace Loop

variable {ω : Type} {s t u : Loop ω} {D : ReqId → Prop} {P Q : Event → Prop} {env : Env ω}
  {r : ReqId} {m : MapId} {strict : Prop}

/-- A dependency of the request has failed. -/
def Doomed (s : Loop ω) (r : ReqId) : Prop := ∃ id ∈ (s.req r).depHead, s.resources.Failed id

instance (s : Loop ω) (r : ReqId) : Decidable (s.Doomed r) :=
  inferInstanceAs (Decidable (∃ id ∈ (s.req r).depHead, _))

/-- The request is in a map of requests that wait for their turn. -/
def Waits (s : Loop ω) (r : ReqId) : Prop := ∃ m, m ≠ .queued ∧ r ∈ s.maps m

/-- What is recorded as told is of one kind. -/
def Adds (P : Event → Prop) (s t : Loop ω) : Prop :=
  ∃ new, t.trace = new ++ s.trace ∧ ∀ e ∈ new, P e

theorem Adds.of_trace (h : t.trace = s.trace) : Adds P s t := ⟨[], h, fun _ he => nomatch he⟩

theorem Adds.refl (s : Loop ω) : Adds P s s := .of_trace rfl

theorem Adds.trans (h : Adds P s t) (h' : Adds P t u) : Adds P s u := by
  obtain ⟨new, htr, hnew⟩ := h
  obtain ⟨new', htr', hnew'⟩ := h'
  refine ⟨new' ++ new, ?_, fun e he => ?_⟩
  · rw [htr', htr, List.append_assoc]
  · exact (List.mem_append.mp he).elim (hnew' e) (hnew e)

/-- An event that is not of the kind is told as often as before. -/
theorem Adds.count_eq (h : Adds P s t) {e : Event} (he : ¬ P e) :
    t.trace.count e = s.trace.count e := by
  obtain ⟨new, htr, hnew⟩ := h
  have hzero : new.count e = 0 := List.count_eq_zero.mpr fun hmem => he (hnew e hmem)
  rw [htr, List.count_append, hzero, Nat.zero_add]

theorem adds_emit (s : Loop ω) {e : Event} (he : P e) : Adds P s (s.emit e) :=
  ⟨[e], rfl, fun _ he' => List.mem_singleton.mp he' ▸ he⟩

/-- No resource fails, no failure is reported, and the requests of the loop keep what they were
submitted with. Whom the function starts or has waiting afterwards is one of `D`, or was waiting. -/
structure Spares (D : ReqId → Prop) (s t : Loop ω) : Prop where
  store : s.resources.Spares t.resources
  accepted : s.accepted ⊆ t.accepted
  wants : ∀ r ∈ s.accepted, (s.req r).SameWants (t.req r)
  told : Adds (Event.Spares D) s t
  waits : ∀ r, t.Waits r → s.Waits r ∨ D r

/-- Whoever depends on a failed resource afterwards did so before. -/
theorem Spares.doomed (h : Spares D s t) (hr : r ∈ s.accepted) (hd : t.Doomed r) : s.Doomed r := by
  obtain ⟨id, hid, hf⟩ := hd
  rw [(h.wants r hr).depHead] at hid
  exact ⟨id, hid, h.store id hf⟩

/-- The fields this looks at. -/
def stake (s : Loop ω) :
    (ReqId → Request) × Resources × List ReqId × List Event × (MapId → List ReqId) :=
  (s.req, s.resources, s.accepted, s.trace, s.maps)

theorem Spares.of_stake (h : t.stake = s.stake) : Spares D s t := by
  obtain ⟨hreq, hres, hacc, htr, hmaps⟩ : t.req = s.req ∧ t.resources = s.resources ∧
      t.accepted = s.accepted ∧ t.trace = s.trace ∧ t.maps = s.maps := by simpa [stake] using h
  refine ⟨hres ▸ .refl _, hacc ▸ List.Subset.refl _, fun r _ => ?_, .of_trace htr, fun r hr => .inl ?_⟩
  · rw [hreq]
    exact .refl _
  · rwa [Waits, hmaps] at hr

theorem Spares.refl (s : Loop ω) : Spares D s s := .of_stake rfl

theorem Spares.trans (h : Spares D s t) (h' : Spares D t u) : Spares D s u := by
  refine ⟨h.store.trans h'.store, List.Subset.trans h.accepted h'.accepted, fun r hr => ?_,
    h.told.trans h'.told, fun r hr => ?_⟩
  · have hw := h.wants r hr
    have hw' := h'.wants r (h.accepted hr)
    exact ⟨hw'.depHead.trans hw.depHead, hw'.onFailure.trans hw.onFailure,
      hw'.isCancelled.trans hw.isCancelled⟩
  · rcases h'.waits r hr with hr | hr
    · exact h.waits r hr
    · exact .inr hr

/-- A step after one that leaves all of this alone. -/
theorem Spares.after (h : Spares D t u) (hs : t.stake = s.stake) : Spares D s u :=
  (Spares.of_stake hs).trans h

theorem spares_setResources {store : Resources} (h : s.resources.Spares store) :
    Spares D s (s.setResources store) :=
  ⟨h, List.Subset.refl _, fun _ _ => .refl _, .of_trace rfl, fun _ hr => .inl hr⟩

theorem spares_modifyReq (s : Loop ω) (r : ReqId) {f : Request → Request}
    (hf : (s.req r).SameWants (f (s.req r))) : Spares D s (s.modifyReq r f) := by
  refine ⟨.refl _, List.Subset.refl _, fun b _ => ?_, .of_trace rfl, fun _ hr => .inl hr⟩
  show (s.req b).SameWants (update s.req r (f (s.req r)) b)
  rcases eq_or_ne b r with rfl | hbr
  · rwa [Function.update_self]
  · rw [Function.update_of_ne hbr]
    exact .refl _

theorem spares_ask {β : Type} (s : Loop ω) (f : ω → β × ω) : Spares D s (s.ask f).2 := .of_stake rfl

theorem spares_emit (s : Loop ω) {e : Event} (he : e.Spares D) : Spares D s (s.emit e) :=
  ⟨.refl _, List.Subset.refl _, fun _ _ => .refl _, adds_emit s he, fun _ hr => .inl hr⟩

/-- A map is written with requests that were waiting, or are some of `D`. The active map may be
written with any. -/
theorem Spares.setMap (h : Spares D s t) {l : List ReqId}
    (hl : m ≠ .queued → ∀ r ∈ l, s.Waits r ∨ D r) : Spares D s (t.setMap m l) := by
  refine ⟨h.store, h.accepted, h.wants, h.told, fun r hr => ?_⟩
  obtain ⟨m', hm', hr⟩ := hr
  change r ∈ update t.maps m l m' at hr
  rcases eq_or_ne m' m with rfl | hm
  · rw [Function.update_self] at hr
    exact hl hm' r hr
  · rw [Function.update_of_ne hm] at hr
    exact h.waits r ⟨m', hm', hr⟩

theorem spares_insertMap (s : Loop ω) (m : MapId) (hr : D r) : Spares D s (s.insertMap m r) := by
  refine (Spares.refl s).setMap fun hm b hb => ?_
  rw [requestInsert, OrderedMap.mem_insertMulti] at hb
  rcases hb with rfl | hb
  · exact .inr hr
  · exact .inl ⟨m, hm, hb⟩

theorem spares_eraseMap (s : Loop ω) (m : MapId) (r : ReqId) : Spares D s (s.eraseMap m r) :=
  (Spares.refl s).setMap fun hm _ hb => .inl ⟨m, hm, List.mem_of_mem_erase hb⟩

theorem spares_follow (s : Loop ω) (r : ReqId) : Spares D s (s.follow r) := by
  rw [follow]
  split
  · exact .of_stake rfl
  · exact .refl s

theorem spares_forEachCancelled {f : ReqId → Loop ω → Loop ω}
    (h : ∀ (r : ReqId) (s : Loop ω), Spares D s (f r s)) (s : Loop ω) (head : Option ReqId) :
    Spares D s (s.forEachCancelled head f) :=
  Intrusive.forEach_invariant (P := Spares D s)
    (fun r t ht => ht.trans ((spares_follow t r).trans (h r _))) (.refl s)

/-! ### Destruction and the start of a transfer -/

theorem spares_cleanup (s : Loop ω) (r : ReqId) :
    Spares D s (s.curlEventLoopRequestCleanup r) := by
  rw [curlEventLoopRequestCleanup]
  exact (spares_modifyReq _ r ⟨rfl, rfl, rfl⟩).after rfl

theorem spares_releaseRetained (s : Loop ω) (r : ReqId) : Spares D s (s.releaseRetained r) := by
  have hstore : s.resources.Spares (if (s.req r).depsRetained then
      s.resources.curlResourceReleaseRequestDeps (s.req r).depHead else s.resources) := by
    split
    · exact Resources.spares_releaseDeps _ _
    · exact .refl _
  exact (spares_modifyReq s r (f := fun q => q.setRetained false) ⟨rfl, rfl, rfl⟩).trans
    (spares_setResources hstore)

theorem spares_destroy (s : Loop ω) (r : ReqId) : Spares D s (s.curlEventRequestDestroy r) := by
  have hclean : Spares D s ((s.beware (r ∈ s.cancelledList)
      (.destroyedCancelled r)).curlEventLoopRequestCleanup r) := (spares_cleanup _ r).after rfl
  exact (hclean.trans (spares_releaseRetained _ r)).trans (.of_stake rfl)

theorem spares_newHandle (s : Loop ω) (r : ReqId) : Spares D s (s.newHandle r) :=
  (spares_modifyReq _ r ⟨rfl, rfl, rfl⟩).after rfl

theorem spares_setupCurlHandle (env : Env ω) (s : Loop ω) (r : ReqId) :
    Spares D s (s.setupCurlHandle env r).2 := by
  have hreset : Spares D s (s.modifyReq r Request.reset) := spares_modifyReq s r ⟨rfl, rfl, rfl⟩
  have halloc : ∀ t : Loop ω, Spares D s t → Spares D s (if (t.ask env.curlEasyInit).1 then
      (true, (t.ask env.curlEasyInit).2.newHandle r) else (false, (t.ask env.curlEasyInit).2)).2 := by
    intro t ht
    split
    · exact ht.trans ((spares_newHandle _ r).after rfl)
    · exact ht.trans (.of_stake rfl)
  rw [setupCurlHandle]
  dsimp only
  generalize s.modifyReq r Request.reset = t at hreset ⊢
  split
  · split
    · exact halloc _ (hreset.trans (.of_stake rfl))
    · exact hreset.trans (.of_stake rfl)
  · exact halloc t hreset

theorem spares_activate (env : Env ω) (s : Loop ω) (hr : D r) : Spares D s (s.activate env r) := by
  have hemit : Spares D s (s.emit (.started r)) := spares_emit s hr
  have hput : ∀ (t : Loop ω) (now : ℕ),
      Spares D t (((t.modifyReq r fun q => q.activated now).insertMap .queued r).addNum .queued 1) := by
    intro t now
    have hmod : Spares D t (t.modifyReq r fun q => q.activated now) := spares_modifyReq t r ⟨rfl, rfl, rfl⟩
    exact (hmod.trans (spares_insertMap _ .queued hr)).trans (.of_stake rfl)
  rw [activate]
  exact hemit.trans ((hput _ _).after rfl)

theorem spares_parkRateLimited (s : Loop ω) (due : ℕ) (hr : D r) :
    Spares D s (s.parkRateLimited r due) :=
  (spares_modifyReq s r (f := fun q => q.dueAt due) ⟨rfl, rfl, rfl⟩).trans
    (spares_insertMap _ .rateLimited hr)

theorem spares_start (env : Env ω) (s : Loop ω) (hr : D r) :
    Spares D s (s.curlEventLoopRequestStart env r) := by
  have hsetup : ∀ t : Loop ω, Spares D s t → Spares D s (if (t.setupCurlHandle env r).1 then
      (t.setupCurlHandle env r).2.activate env r
      else (t.setupCurlHandle env r).2.curlEventRequestDestroy r) := by
    intro t ht
    have ht' := ht.trans (spares_setupCurlHandle env t r)
    split
    · exact ht'.trans (spares_activate env _ hr)
    · exact ht'.trans (spares_destroy _ r)
  rw [curlEventLoopRequestStart]
  cases (s.req r).rateLimit with
  | none => exact hsetup s (.refl s)
  | some key =>
    dsimp only
    split
    · exact (spares_parkRateLimited _ _ hr).after rfl
    · exact hsetup _ (.of_stake rfl)

/-! ### Scheduling -/

theorem spares_blockRequestOnRes (s : Loop ω) {n : Res} (hn : s.resources.resFind n.id = some n)
    (r : ReqId) : Spares D s (s.blockRequestOnRes n r) := by
  have hstore : ∀ head tail, s.resources.Spares (s.resources.put (n.setWaiters head tail)) :=
    fun head tail => Resources.spares_put (n := n) hn fun h => h
  have hlink : ∀ x, Spares D s (s.setNextPending r x) := fun _ => .of_stake rfl
  rw [blockRequestOnRes]
  split
  · rename_i a _
    have hlink' : Spares D s ((s.setNextPending r none).setNextPending a (some r)) := .of_stake rfl
    exact hlink'.trans (spares_setResources (hstore _ _))
  · exact (hlink none).trans (spares_setResources (hstore _ _))

theorem spares_blockOnId (s : Loop ω) (r : ReqId) (id : ResId) :
    Spares D s (s.curlResourceBlockOnId r id).2 := by
  have hget : Spares D s (s.setResources (s.resources.resGetOrCreate id).2) :=
    spares_setResources (Resources.spares_getOrCreate s.resources id)
  have hn : (s.resources.resGetOrCreate id).2.resFind (s.resources.resGetOrCreate id).1.id =
      some (s.resources.resGetOrCreate id).1 := by
    rw [Resources.resFind_getOrCreate, if_pos (Resources.id_resGetOrCreate s.resources id)]
  rw [curlResourceBlockOnId]
  dsimp only
  split
  · exact hget.trans (spares_blockRequestOnRes _ hn r)
  · exact hget

theorem spares_checkAndBlockList (r : ReqId) (deps : List ResId) (s : Loop ω) :
    Spares D s (s.curlResourceCheckAndBlockList r deps).2 := by
  induction deps generalizing s with
  | nil => exact .refl s
  | cons id deps ih =>
    have hid : Spares D s (s.curlResourceBlockOnId r id).2 := spares_blockOnId s r id
    rw [curlResourceCheckAndBlockList]
    dsimp only
    split
    · exact hid
    · exact hid.trans (ih _)

theorem spares_retainDepsOnce (s : Loop ω) (r : ReqId) : Spares D s (s.retainDepsOnce r) := by
  rw [retainDepsOnce]
  split
  · exact (spares_setResources (Resources.spares_retain _ _)).trans
      (spares_modifyReq _ r ⟨rfl, rfl, rfl⟩)
  · exact .refl s

theorem spares_requestReady (env : Env ω) (s : Loop ω) (r : ReqId) :
    Spares D s (s.requestReady env r).2 := by
  obtain ⟨w, hw⟩ := requestReady_eq env s r
  rw [hw]
  exact .of_stake rfl

theorem spares_enqueueRequest (s : Loop ω) (hr : D r) : Spares D s (s.enqueueRequest r) :=
  (spares_insertMap s (waitingMap (s.req r)) hr).trans (.of_stake rfl)

theorem spares_schedulePending (env : Env ω) (s : Loop ω) (hr : D r) :
    Spares D s (s.schedulePending env r) := by
  have hwait : Spares D s ((s.retainDepsOnce r).requestWaitingOnDependencies r).2 :=
    (spares_retainDepsOnce s r).trans (spares_checkAndBlockList r _ _)
  rw [schedulePending]
  dsimp only
  split
  · exact hwait
  · have hready := hwait.trans (spares_requestReady env _ r)
    split
    · exact hready.trans (spares_start env _ hr)
    · exact hready.trans (spares_enqueueRequest _ hr)

theorem spares_pendingRound (env : Env ω) (s : Loop ω) (hr : (s.req r).isCancelled = false → D r) :
    Spares D s (s.pendingRound env r) := by
  have hunmark : Spares D s ((s.modifyReq r fun q => q.setPending false).setNextPending r none) :=
    (spares_modifyReq s r (f := fun q => q.setPending false) ⟨rfl, rfl, rfl⟩).trans (.of_stake rfl)
  have hreq : ((s.modifyReq r fun q => q.setPending false).setNextPending r none).req r =
      (s.req r).setPending false := Function.update_self ..
  rw [pendingRound]
  split
  · exact hunmark.trans (spares_destroy _ r)
  · rename_i hgo
    rw [hreq] at hgo
    exact hunmark.trans (spares_schedulePending env _ (hr (Bool.eq_false_iff.mpr hgo)))

theorem spares_cancelledRound (s : Loop ω) (r : ReqId) : Spares D s (s.cancelledRound r) := by
  have hdrop : Spares D s (s.dropFromMap (cancelledMap (s.req r)) r) :=
    ((spares_eraseMap _ _ r).after rfl).trans (.of_stake rfl)
  exact hdrop.trans (spares_destroy _ r)

/-- **The pass over the pending list.** -/
theorem AtRest.spares_processCancelledAndPendingRequests (h : s.AtRest strict)
    (hz : (s.processCancelledAndPendingRequests env).Spared strict) :
    Spares (fun r => r ∈ s.contents .pending ∧ (s.req r).isCancelled = false) s
      (s.processCancelledAndPendingRequests env) := by
  obtain ⟨v, C, hwf, hv⟩ := h
  have hempty := hv.detached .pending (.inr (by simp))
  obtain ⟨v₁, hwalk, hlist, hchain⟩ := hwf.sweepCancelled hempty (hwf.mapped_cancelled hempty hz)
  rw [Loop.processCancelledAndPendingRequests] at hz ⊢
  rw [hwf.marked.chain.head_eq] at hz ⊢
  generalize hD : (fun r => r ∈ s.contents .pending ∧ (s.req r).isCancelled = false) = D
  have hfirst : Spares D s (s.detachCancelled.detachPending.forEachCancelled C.head?
      Loop.cancelledRound) :=
    (spares_forEachCancelled (fun r t => spares_cancelledRound t r) _ _).after rfl
  obtain ⟨v₂, C₂, -, -, -, hspares⟩ := hwalk.wf.forEachHandled (p := .pending)
    (f := Loop.pendingRound env)
    (P := fun v' t => (∀ b ∈ v' (.detached .pending), b ∈ v .pending) ∧ Spares D s t)
    (.inr (by simp))
    (fun r t ht => (evolves_pendingRound (q := False) env r t).spared ht)
    (fun r l v' C t ht hp hP hz => by
      obtain ⟨v'', hwf', hh, _⟩ := ht.walkPending_round hp hz
      have hrest : v'' (.detached .pending) = l := hh.rest (.inr (by simp))
      have hr : r ∈ v .pending := hP.1 r (hp ▸ List.mem_cons_self)
      refine ⟨v'', C, hwf', hh, fun b hb => ?_,
        hP.2.trans (spares_pendingRound env t fun hc => ?_)⟩
      · exact hP.1 b (hp ▸ List.mem_cons_of_mem r (hrest ▸ hb))
      · -- nobody was cancelled since the pass began
        rw [(hP.2.wants r (hwf.located.accepted_of_mem hr)).isCancelled] at hc
        rw [← hD, hwf.contents_eq]
        exact ⟨hr, hc⟩)
    hchain ⟨fun b hb => hlist ▸ hb, hfirst⟩ hz
  exact hspares

/-! ### The waiting maps -/

theorem spares_requestIsRateLimited (env : Env ω) (s : Loop ω) (root : List ReqId) (hr : D r) :
    Spares D s (s.requestIsRateLimited env root r).2.2 ∧
      (s.requestIsRateLimited env root r).2.1 ⊆ root := by
  rw [requestIsRateLimited]
  dsimp only
  cases (s.req r).rateLimit with
  | none => exact ⟨.refl s, List.Subset.refl _⟩
  | some key =>
    dsimp only
    split
    · exact ⟨.of_stake rfl, List.Subset.refl _⟩
    · exact ⟨(spares_parkRateLimited _ _ hr).after rfl, List.erase_subset⟩

/-- The detached map holds requests of `D`, and the loop has been spared. -/
def SparesBoth (D : ReqId → Prop) (s : Loop ω) (p : List ReqId × Loop ω) : Prop :=
  (∀ r ∈ p.1, D r) ∧ Spares D s p.2

theorem SparesBoth.rateLimitedRound {p p' : List ReqId × Loop ω} (h : SparesBoth D s p) {now : ℕ}
    (hr : r ∈ p.1) (hp' : rateLimitedRound env now r p = .done p' ∨
      rateLimitedRound env now r p = .yield p') : SparesBoth D s p' := by
  obtain ⟨hroot, hs⟩ := h
  have hf := hs.trans (spares_follow p.2 r)
  obtain ⟨hlim, hsub⟩ := spares_requestIsRateLimited env (p.2.follow r) p.1 (hroot r hr)
  have hl := hf.trans hlim
  have hready := hl.trans (spares_requestReady env _ r)
  rw [Loop.rateLimitedRound] at hp'
  dsimp only at hp'
  split at hp'
  · obtain rfl : p' = _ := by simpa [eq_comm] using hp'
    exact ⟨hroot, hf⟩
  · split at hp'
    · obtain rfl : p' = _ := by simpa [eq_comm] using hp'
      exact ⟨fun b hb => hroot b (hsub hb), hl⟩
    · split at hp'
      · obtain rfl : p' = _ := by simpa [eq_comm] using hp'
        exact ⟨fun b hb => hroot b (hsub (List.mem_of_mem_erase hb)),
          hready.trans (spares_start env _ (hroot r hr))⟩
      · obtain rfl : p' = _ := by simpa [eq_comm] using hp'
        exact ⟨fun b hb => hroot b (hsub hb), hready⟩

variable (hD : ∀ r, s.Waits r → D r)

include hD

/-- Whoever waits afterwards is still one of `D`. -/
theorem Spares.within (h : Spares D s t) (hr : t.Waits r) : D r := (h.waits r hr).elim (hD r) id

theorem SparesBoth.mergeRound {p p' : List ReqId × Loop ω} (h : SparesBoth D s p)
    (hr : r ∈ p.2.maps .rateLimited) (hp' : mergeRound r p = .yield p') : SparesBoth D s p' := by
  obtain ⟨hroot, hs⟩ := h
  obtain rfl := ForInStep.yield.inj hp'
  refine ⟨fun b hb => ?_, hs.trans ((spares_follow p.2 r).trans (spares_eraseMap _ _ r))⟩
  dsimp only at hb
  rw [requestInsert, OrderedMap.mem_insertMulti] at hb
  rcases hb with rfl | hb
  · exact hs.within hD ⟨.rateLimited, by decide, hr⟩
  · exact hroot b hb

theorem spares_moveRateLimited (env : Env ω) : Spares D s (s.moveRateLimited env) := by
  have hstart : SparesBoth D s
      (s.maps .rateLimited, ((s.setMap .rateLimited []).ask env.macroNow).2) :=
    ⟨fun r hr => hD r ⟨.rateLimited, by decide, hr⟩,
      ((Spares.refl s).setMap (l := []) (by simp)).trans (spares_ask _ _)⟩
  have h1 := OrderedMap.whileFirst_rule (g := fun p : List ReqId × Loop ω => p.1.head?)
    (f := rateLimitedRound env (env.macroNow s.world).1) (P := SparesBoth D s)
    (fun r p p' hp hr hb => hp.rateLimitedRound (List.mem_of_head? hr) (.inl hb))
    (fun r p p' hp hr hb => hp.rateLimitedRound (List.mem_of_head? hr) (.inr hb))
    (n := (s.maps .rateLimited).length) hstart
  have h2 := fun n => OrderedMap.whileFirst_rule
    (g := fun p : List ReqId × Loop ω => (p.2.maps .rateLimited).head?)
    (f := mergeRound) (P := SparesBoth D s)
    (fun r p p' _ _ hb => by simp [mergeRound] at hb)
    (fun r p p' hp hr hb => hp.mergeRound hD (List.mem_of_head? hr) hb) (n := n) h1
  rw [moveRateLimited]
  obtain ⟨hroot, hs⟩ := h2 _
  exact hs.setMap fun _ r hr => .inr (hroot r hr)

omit hD in
theorem spares_waitingRound (env : Env ω) (hm : m ≠ .queued) (hr : D r)
    {s' : Loop ω} (hs' : waitingRound env m r s = .done s' ∨ waitingRound env m r s = .yield s') :
    Spares D s s' := by
  obtain ⟨hlim, hsub⟩ := spares_requestIsRateLimited env (s.follow r) ((s.follow r).maps m) hr
  have hl := ((spares_follow s r).trans hlim).setMap (m := m) (l := ((s.follow r).requestIsRateLimited
    env ((s.follow r).maps m) r).2.1) fun _ b hb => .inl ⟨m, hm, maps_follow s r ▸ hsub hb⟩
  have hready := hl.trans (spares_requestReady env _ r)
  rw [waitingRound] at hs'
  dsimp only at hs'
  split at hs'
  · obtain rfl : s' = _ := by simpa [eq_comm] using hs'
    exact hl.trans (.of_stake rfl)
  · split at hs'
    · obtain rfl : s' = _ := by simpa [eq_comm] using hs'
      have herase := hready.trans (spares_eraseMap _ m r)
      exact herase.trans ((spares_start env _ hr).after rfl)
    · obtain rfl : s' = _ := by simpa [eq_comm] using hs'
      exact hready

theorem spares_moveWaiting (env : Env ω) (hm : m ≠ .queued) : Spares D s (s.moveWaiting env m) := by
  have hround : ∀ r t t', Spares D s t → (t.maps m).head? = some r →
      (waitingRound env m r t = .done t' ∨ waitingRound env m r t = .yield t') → Spares D s t' :=
    fun r t t' ht hr hb => ht.trans (spares_waitingRound env hm
      (ht.within hD ⟨m, hm, List.mem_of_head? hr⟩) hb)
  exact OrderedMap.whileFirst_rule (P := Spares D s)
    (fun r t t' ht hr hb => hround r t t' ht hr (.inl hb))
    (fun r t t' ht hr hb => hround r t t' ht hr (.inr hb)) (.refl s)

/-- **The pass over the maps.** -/
theorem spares_moveInactiveRequestsToQueue (env : Env ω) :
    Spares D s (s.moveInactiveRequestsToQueue env) := by
  have h1 : Spares D s (s.moveRateLimited env) := spares_moveRateLimited hD env
  have h2 := h1.trans (spares_moveWaiting (fun _ hr => h1.within hD hr) env (m := .refresh) (by decide))
  exact h2.trans (spares_moveWaiting (fun _ hr => h2.within hD hr) env (m := .inactive) (by decide))

end Loop

end CurlLoop
