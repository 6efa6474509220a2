import CurlLoop.Scheduler
import CurlLoop.Rows

/-!
# The destruction of the loop, for one request

`curl_event_loop_destroy` is no path: it destroys the requests of a map or a list without asking who
is where. What it does to the row of one request is simple all the same. The row stays, or the
request is destroyed; if it waits for a resource it is told first, and nobody else is.

That nobody is destroyed twice is not read off the passes here. It follows from the invariant of the
scheduler, which holds at the end.

## Main definitions

* `Loop.Ends` — a step that destroys a request
* `Loop.Torn` — what the destruction of the loop does to a request
* `Loop.RunInvariant` — the invariant of the scheduler, whether or not resources were freed while
  requests waited for them

## Main results

* `Resting.torn_curlEventLoopDestroy`
* `RunInvariant.act`
-/

namespace CurlLoop

open Function (update)

namespace Loop

variable {ω : Type} {s t u : Loop ω} {r b : ReqId} {m : MapId} {env : Env ω}

/-! ### One request -/

/-- A step that destroys a request, and at most tells it so. -/
structure Ends (r : ReqId) (s t : Loop ω) : Prop where
  destroyed : t.destroyed = r :: s.destroyed
  accepted : t.accepted = s.accepted
  terms : (t.req r).terms = (s.req r).terms
  story : t.story r = s.story r ∨ t.story r = .onFailure r .abortedByCallback 0 :: s.story r
  beside : Beside r s t

theorem terms_destroy (s : Loop ω) (r b : ReqId) :
    ((s.curlEventRequestDestroy r).req b).terms = (s.req b).terms := by
  rw [req_destroy]
  rcases eq_or_ne b r with rfl | hb
  · rw [Function.update_self]
    rfl
  · rw [Function.update_of_ne hb]

/-- What goes before the destruction may take the request out of a map. -/
theorem terms_cancelledRound (s : Loop ω) (r b : ReqId) :
    ((s.cancelledRound r).req b).terms = (s.req b).terms := by
  rw [cancelledRound, terms_destroy]
  rfl

theorem Ends.of_destroy (hdestroyed : t.destroyed = s.destroyed) (haccepted : t.accepted = s.accepted)
    (hreq : t.req = s.req)
    (hstory : t.story r = s.story r ∨ t.story r = .onFailure r .abortedByCallback 0 :: s.story r)
    (hbeside : Beside r s t) : Ends r s (t.curlEventRequestDestroy r) := by
  refine ⟨congrArg (r :: ·) hdestroyed, haccepted, ?_, hstory, hbeside.trans (beside_destroy t r)⟩
  rw [terms_destroy, hreq]

theorem follow_eq (s : Loop ω) (r : ReqId) : ∃ f, s.follow r = { s with afterFree := f } := by
  rw [follow]
  split
  · exact ⟨_, rfl⟩
  · exact ⟨s.afterFree, rfl⟩

theorem beside_eraseMap (s : Loop ω) (m : MapId) (b : ReqId) : Beside b s (s.eraseMap m b) := by
  rcases eq_or_ne m .queued with rfl | hm
  · exact beside_eraseQueued s b
  · exact beside_setMap s hm _

theorem ends_destroyMapRound (s : Loop ω) (m : MapId) (r : ReqId) :
    Ends r s (((s.follow r).eraseMap m r).curlEventRequestDestroy r) := by
  obtain ⟨f, hf⟩ := follow_eq s r
  rw [hf]
  have herase : Beside r s (({ s with afterFree := f } : Loop ω).eraseMap m r) :=
    beside_eraseMap _ m r
  exact .of_destroy rfl rfl rfl (.inl rfl) herase

theorem ends_destroyRound (s : Loop ω) (r : ReqId) : Ends r s (destroyRound r (s.follow r)) := by
  obtain ⟨f, hf⟩ := follow_eq s r
  rw [destroyRound, hf]
  exact .of_destroy rfl rfl rfl (.inl rfl) fun _ _ => rfl

theorem ends_failLate (env : Env ω) (s : Loop ω) (r : ReqId) :
    Ends r s ((s.follow r).failLate env r) := by
  obtain ⟨f, hf⟩ := follow_eq s r
  rw [hf, failLate, callOnAborted]
  dsimp only
  split
  · refine .of_destroy rfl rfl rfl (.inr ?_) ?_
    · exact (story_emit s (.onFailure r .abortedByCallback 0) r).trans (if_pos rfl)
    · exact beside_emit s (.onFailure r .abortedByCallback 0)
  · exact .of_destroy rfl rfl rfl (.inl rfl) fun _ _ => rfl

/-! ### The whole loop -/

/-- The request was alive and is destroyed. -/
structure Ended (r : ReqId) (s t : Loop ω) : Prop where
  live : s.Live r
  accepted : r ∈ t.accepted
  destroyed : r ∈ t.destroyed
  terms : (t.req r).terms = (s.req r).terms
  story : t.story r = s.story r ∨ t.story r = .onFailure r .abortedByCallback 0 :: s.story r

/-- The row of the request stays, or the request is destroyed. -/
def Torn (r : ReqId) (s t : Loop ω) : Prop := t.row r = s.row r ∨ Ended r s t

theorem Torn.of_row (h : Torn r s t) (hrow : u.row r = t.row r) : Torn r s u := by
  obtain ⟨haccepted, hdestroyed, -, hterms, hstory⟩ := Row.mk.inj hrow
  rcases h with h | h
  · exact .inl (hrow.trans h)
  · exact .inr ⟨h.live, haccepted ▸ h.accepted, hdestroyed ▸ h.destroyed, hterms.trans h.terms,
      hstory ▸ h.story⟩

/-- So it is for every request, as long as nobody is destroyed twice. -/
structure Sinks (s t : Loop ω) : Prop where
  accepted : t.accepted = s.accepted
  torn : t.destroyed.Nodup → t.destroyed ⊆ s.accepted → ∀ r, Torn r s t

theorem Sinks.refl (s : Loop ω) : Sinks s s := ⟨rfl, fun _ _ _ => .inl rfl⟩

theorem Sinks.of_row (h : Sinks s t) (hrow : ∀ r, u.row r = t.row r)
    (hdestroyed : u.destroyed = t.destroyed) (haccepted : u.accepted = t.accepted) :
    Sinks s u := by
  refine ⟨haccepted.trans h.accepted, fun hnodup hsub r => ?_⟩
  exact (h.torn (hdestroyed ▸ hnodup) (hdestroyed ▸ hsub) r).of_row (hrow r)

/-- A request that is destroyed was alive so far. -/
theorem Sinks.ends (h : Sinks s t) (he : Ends b t u) : Sinks s u := by
  refine ⟨he.accepted.trans h.accepted, fun hnodup hsub r => ?_⟩
  rw [he.destroyed] at hnodup hsub
  obtain ⟨hb, hnodup'⟩ := List.nodup_cons.mp hnodup
  obtain ⟨hb', hsub'⟩ := List.cons_subset.mp hsub
  have htorn := h.torn hnodup' hsub' r
  rcases eq_or_ne r b with rfl | hne
  · rcases htorn with hrow | hended
    · obtain ⟨-, hdestroyed, -, hterms, hstory⟩ := Row.mk.inj hrow
      refine .inr ⟨⟨hb', hdestroyed ▸ hb⟩, ?_, ?_, he.terms.trans hterms, hstory ▸ he.story⟩
      · rw [he.accepted, h.accepted]
        exact hb'
      · rw [he.destroyed]
        exact List.mem_cons_self
    · exact absurd hended.destroyed hb
  · exact htorn.of_row (he.beside r hne)

theorem Sinks.destroyMap (h : Sinks s t) (m : MapId) : Sinks s (t.destroyMap m) := by
  refine OrderedMap.whileFirst_rule (P := Sinks s) (fun r t t' _ _ hb => by simp [destroyMapRound] at hb)
    (fun r t t' ht _ hb => ?_) h
  obtain rfl := ForInStep.yield.inj hb
  exact ht.ends (ends_destroyMapRound t m r)

theorem Sinks.forEachPending (h : Sinks s t) {f : ReqId → Loop ω → Loop ω}
    (hf : ∀ r u, Ends r u (f r (u.follow r))) (head : Option ReqId) :
    Sinks s (t.forEachPending head f) :=
  Intrusive.forEach_invariant (fun r u hu => hu.ends (hf r u)) h

theorem Sinks.destroyLists (h : Sinks s t) : Sinks s t.destroyLists := by
  have hround : ∀ (r : ReqId) (u : Loop ω), Ends r u (destroyRound r (u.follow r)) :=
    fun r u => ends_destroyRound u r
  have hcancelled : Sinks s (t.forEachCancelled t.cancelledRequests destroyRound) :=
    Intrusive.forEach_invariant (fun r u hu => hu.ends (hround r u)) h
  have hdetach : Sinks s (t.forEachCancelled t.cancelledRequests destroyRound).detachCancelled :=
    hcancelled.of_row (fun _ => rfl) rfl rfl
  have hpending := (hdetach.forEachPending hround (t.forEachCancelled t.cancelledRequests
    destroyRound).detachCancelled.pendingRequests).of_row (u := Loop.detachPending _)
    (fun _ => rfl) rfl rfl
  exact (hpending.forEachPending hround _).of_row (fun _ => rfl) rfl rfl

theorem Sinks.curlResourceDestroyAll (h : Sinks s t) (env : Env ω) :
    Sinks s (t.curlResourceDestroyAll env) := by
  rw [Loop.curlResourceDestroyAll]
  refine Sinks.of_row (OrderedMap.whileFirst_rule (P := Sinks s) (fun n t t' _ _ hb => by simp at hb)
    (fun n t t' ht _ hb => ?_) h) (fun _ => rfl) rfl rfl
  obtain rfl := ForInStep.yield.inj hb
  rw [destroyFirstRes]
  have hstart : Sinks s (t.setResources (t.resources.put n.noWaiters)) :=
    ht.of_row (fun _ => rfl) rfl rfl
  exact (hstart.forEachPending (fun r u => ends_failLate env u r) _).of_row (fun _ => rfl) rfl rfl

/-- **The destruction of the loop**, if it meets no hazard, leaves a request alone or destroys it. -/
theorem Resting.torn_curlEventLoopDestroy (h : s.Resting)
    (hz : (s.curlEventLoopDestroy env).hazards = []) (r : ReqId) :
    Torn r s (s.curlEventLoopDestroy env) := by
  have hsinks : Sinks s (s.curlEventLoopDestroy env) := by
    rw [Loop.curlEventLoopDestroy]
    exact ((((((Sinks.refl s).destroyMap _).destroyMap _).destroyMap _).destroyMap
      _).destroyLists).curlResourceDestroyAll env
  obtain ⟨⟨v, C, hwf, -⟩, -⟩ := h.curlEventLoopDestroy hz
  exact hsinks.torn hwf.located.destroyed_nodup (hsinks.accepted ▸ hwf.located.destroyed_subset) r

/-! ### The invariant of a run -/

/-- The invariant of the scheduler. Requests are abandoned only if a resource was freed while they
waited for it, and that is on record. -/
structure RunInvariant (s : Loop ω) : Prop where
  atRest : s.AtRest False
  resting : s.hazards = [] → s.Resting

theorem Resting.runInvariant (h : s.Resting) : s.RunInvariant := by
  obtain ⟨v, C, hwf, hv⟩ := h
  exact ⟨⟨v, C, hwf, hv.hand, fun p _ => hv.detached p⟩, fun _ => ⟨v, C, hwf, hv⟩⟩

theorem runInvariant_init (mem : Memory) (world : ω) : (curlEventLoopInit mem world).RunInvariant :=
  (resting_init mem world).runInvariant

/-- **One action.** The loop is destroyed without a hazard, and otherwise requests are abandoned at
most. -/
theorem RunInvariant.act {a : Action} (h : s.RunInvariant)
    (hz : if a = .destroy then (Loop.act env a s).hazards = []
      else ∀ x ∈ (Loop.act env a s).hazards, x.IsAbandoned) : (Loop.act env a s).RunInvariant := by
  have hresting : (Loop.act env a s).hazards = [] → (Loop.act env a s).Resting := fun hnil =>
    (h.resting (hazards_eq_nil_of_act hnil)).act hnil
  split at hz
  · exact (hresting hz).runInvariant
  · rename_i ha
    exact ⟨h.atRest.act ha (.of_abandoned hz), hresting⟩

/-- An action of a run under a regime: the loop is destroyed without a hazard, and otherwise at most
resources are freed while requests wait for them. -/
def Undergoes (env : Env ω) (W : Regime ω) (a : Action) (s : Loop ω) : Prop :=
  if a = .destroy then (Loop.act env a s).hazards = []
  else s.Admits env W a ∧ ∀ x ∈ (Loop.act env a s).hazards, x.IsAbandoned

/-- Such an action follows a path, or it is the destruction of the loop. -/
theorem RunInvariant.undergoes {W : Regime ω} {a : Action} (h : s.RunInvariant)
    (hm : env.Makes W.calls) (ha : Undergoes env W a s) : (Loop.act env a s).RunInvariant ∧
      (Path env W s (Loop.act env a s) ∨ ∀ r, Torn r s (Loop.act env a s)) := by
  rw [Undergoes] at ha
  by_cases hd : a = .destroy
  · rw [if_pos hd] at ha
    refine ⟨h.act (by rwa [if_pos hd]), .inr fun r => ?_⟩
    subst hd
    exact (h.resting (hazards_eq_nil_of_act ha)).torn_curlEventLoopDestroy ha r
  · rw [if_neg hd] at ha
    exact ⟨h.act (by rw [if_neg hd]; exact ha.2),
      .inl (h.atRest.path_admits hm ha.1 (.of_abandoned ha.2))⟩

end Loop

end CurlLoop
