import CurlLoop.LifePasses
import CurlLoop.Accounting

/-!
# Every request lives by the protocol

What the passes and calls keep, every run keeps. The destruction of the loop is no pass, but it is
made of walks, and a walk over a list or a map that destroys what it meets tells nobody anything.
Those who wait for a resource when the store is taken down are told, as by a publication.

So the story of every request follows the protocol of `CurlLoop.LifeCycle` at every time, and once the
request is destroyed the story is closed.

## Main definitions

* `AbandonsAtMost` — the actions of a run

## Main results

* `LawfulAtRest.curlEventLoopDestroy`, `LawfulAtRest.act` — the destruction of the loop, and any
  action
* `lives_of_abandonsAtMost` — every request follows the protocol, in every run
-/

namespace CurlLoop

open Function (update)

namespace Loop

variable {ω : Type} {s t u : Loop ω} {v v' : View} {C C' l : List ReqId} {b r : ReqId} {m : MapId}
  {env : Env ω} {strict : Prop}

/-! ### The destruction of the loop -/

/-- A round of a walk that destroys what it meets. -/
theorem conforms_destroyMapRound {busy : ReqId → Prop} {A : List ReqId}
    (hc : ∀ b, Conforms busy A s b) (m : MapId) (r b : ReqId) :
    Conforms busy A (((s.follow r).eraseMap m r).curlEventRequestDestroy r) b := by
  rcases eq_or_ne b r with rfl | hb
  · have hends := ends_destroyMapRound s m b
    have hstory : (((s.follow b).eraseMap m b).curlEventRequestDestroy b).story b = s.story b :=
      (keeps_follow s b b).story
    exact (hc b).gone hends.accepted (hends.destroyed ▸ List.mem_cons_self) hends.terms hstory
  · have hpass := (passesBy_eraseMap (s.follow r) m hb).trans (passesBy_destroy _ hb)
    have hbeside : Keeps b (s.follow r) (((s.follow r).eraseMap m r).curlEventRequestDestroy r) :=
      .of_beside ((beside_eraseMap _ m r).trans (beside_destroy _ r)) hpass hb
    exact (hc b).keeps ((keeps_follow s r b).trans hbeside) .rfl

/-- A map is emptied. -/
theorem LawfulAtRest.destroyMap (h : s.LawfulAtRest True) (hz : (s.destroyMap m).hazards = []) :
    (s.destroyMap m).LawfulAtRest True := by
  have hrest := (atRest_true.mp h.atRest).destroyMap hz
  refine h.of_atRest (atRest_true.mpr hrest.1) ?_ fun v C hlaw _ => ?_
  · refine OrderedMap.whileFirst_rule (P := fun t => ∀ b, LinkKept b s t)
      (fun r t t' _ _ hb => by simp [destroyMapRound] at hb) (fun r t t' ht _ hb b => ?_)
      fun b => .refl b s
    obtain rfl := ForInStep.yield.inj hb
    exact (ht b).trans ((linkKept_follow t r).trans ⟨rfl, rfl⟩)
  · refine OrderedMap.whileFirst_rule (P := fun t => ∀ b, Conforms (fun _ => False) v.injectees t b)
      (fun r t t' _ _ hb => by simp [destroyMapRound] at hb) (fun r t t' ht _ hb => ?_) hlaw.conforms
    obtain rfl := ForInStep.yield.inj hb
    exact conforms_destroyMapRound ht m r

/-- The requests on a detached list are destroyed. -/
theorem Lawful.destroyDetached {p : Place} (h : s.Lawful (fun _ => False) v C) (hv : v.StillBut p)
    {head : Option ReqId} (hc : Intrusive.IsChain s.nextPending head (v (.detached p)))
    (hz : (s.forEachPending head destroyRound).hazards = []) :
    (s.forEachPending head destroyRound).LawfulAtRest True := by
  obtain ⟨v', C', hwf, hrest, hv', hconf⟩ := h.wf.forEachHandled (p := p) (f := destroyRound)
    (P := fun v' t => v'.StillBut p ∧ ∀ b, Conforms (fun _ => False) v'.injectees t b) (.inl trivial)
    (fun r t ht => (evolves_destroy (q := False) t r).spared ht)
    (fun r l v C t ht hp hinv hz => by
      obtain ⟨hv, hconf⟩ := hinv
      have htaken := Lawful.takeUp ⟨ht, holds_nobody v, hconf⟩ hp
      obtain ⟨v', hwf, hput⟩ := (ht.takeUp hp).destroy (Function.update_self ..) hz
      have hh : Handled True p r l v v' t (t.curlEventRequestDestroy r) :=
        .of_putDown ht hp (.refl t) (.refl _ _) hput
      have hr : r ∈ t.accepted :=
        ht.located.accepted_of_mem (p := .detached p) (hp ▸ List.mem_cons_self)
      have hlaw := htaken.putDown hwf (holds_nobody v')
        (hput.injectees (htaken.wf.injected_eq hwf rfl fun _ _ => rfl))
        (fun b hb => keeps_destroy t hb)
        (.of_destroyed hr List.mem_cons_self ((hconf r).lives id).destroy)
      exact ⟨v', C, hwf, hh, hh.stillBut hv, hlaw.conforms⟩) hc ⟨hv, h.conforms⟩ (.of_nil hz)
  exact ⟨v', C', ⟨hwf, holds_nobody v', hconf⟩, View.slack_true.mpr (hv'.still hrest)⟩

/-- Where the injected list is detached, the injectees are the same. -/
theorem injectees_detachInjected (hv : v (.detached .injected) = []) :
    View.injectees (update (update v .injected []) (.detached .injected) (v .injected)) =
      v.injectees := by
  rw [View.injectees, View.injectees, Function.update_self, Function.update_of_ne (by simp),
    Function.update_self, hv, List.append_nil, List.nil_append]

theorem LawfulAtRest.destroyPending (h : s.LawfulAtRest True)
    (hz : ((s.forEachPending s.pendingRequests destroyRound).detachPending).hazards = []) :
    ((s.forEachPending s.pendingRequests destroyRound).detachPending).LawfulAtRest True := by
  -- the head of the list may as well be reset before the list is walked
  have hcomm : s.detachPending.forEachPending s.pendingRequests destroyRound =
      (s.forEachPending s.pendingRequests destroyRound).detachPending :=
    Intrusive.forEach_comm (g := detachPending) (fun _ _ => rfl) fun r t => by
      rw [follow_detachPending]
      rfl
  obtain ⟨v, C, hlaw, hv⟩ := h
  rw [← hcomm] at hz ⊢
  have hstill := View.slack_true.mp hv
  have hdetach := hlaw.keep (t := s.detachPending)
    ⟨hlaw.wf.located.detachPending (hstill.detached _), hlaw.wf.marked⟩ rfl rfl fun b =>
      .of_row rfl fun _ => .rfl
  exact hdetach.destroyDetached (p := .pending) (hstill.detach (by simp) (by simp)) (by
    rw [Function.update_self]
    exact hlaw.wf.located.linked.pending) hz

theorem LawfulAtRest.destroyInjected (h : s.LawfulAtRest True)
    (hz : ((s.forEachPending s.injectedRequests destroyRound).detachInjected).hazards = []) :
    ((s.forEachPending s.injectedRequests destroyRound).detachInjected).LawfulAtRest True := by
  have hcomm : s.detachInjected.forEachPending s.injectedRequests destroyRound =
      (s.forEachPending s.injectedRequests destroyRound).detachInjected :=
    Intrusive.forEach_comm (g := detachInjected) (fun _ _ => rfl) fun r t => by
      rw [follow_detachInjected]
      rfl
  obtain ⟨v, C, hlaw, hv⟩ := h
  rw [← hcomm] at hz ⊢
  have hstill := View.slack_true.mp hv
  have hdetach := hlaw.keep (t := s.detachInjected)
    ⟨hlaw.wf.located.detachInjected (hstill.detached _), hlaw.wf.marked⟩ rfl
    (injectees_detachInjected (hstill.detached _)) fun b => .of_row rfl fun _ => .rfl
  exact hdetach.destroyDetached (p := .injected) (hstill.detach (by simp) (by simp)) (by
    rw [Function.update_self]
    exact hlaw.wf.located.linked.injected) hz

/-- The locked section of the destruction. -/
theorem LawfulAtRest.destroyLists (h : s.LawfulAtRest True) (hz : s.destroyLists.hazards = []) :
    s.destroyLists.LawfulAtRest True := by
  have hmono : ∀ (t : Loop ω) head, (t.forEachPending head destroyRound).hazards = [] →
      t.hazards = [] := fun t head =>
    (evolves_forEachPending (q := False) (fun r s => evolves_destroy s r) t head).hazards_eq_nil
  have hpending : ∀ t : Loop ω,
      (t.forEachPending t.pendingRequests destroyRound).detachPending.hazards = [] →
      t.hazards = [] := fun t => hmono t _
  have hinjected : ∀ t : Loop ω,
      (t.forEachPending t.injectedRequests destroyRound).detachInjected.hazards = [] →
      t.hazards = [] := fun t => hmono t _
  unfold Loop.destroyLists at hz ⊢
  dsimp only at hz ⊢
  have hz₂ := hinjected _ hz
  have hz₁ := hpending _ hz₂
  have hcancelled : (s.forEachCancelled s.cancelledRequests destroyRound).detachCancelled = s := by
    obtain ⟨v, C, hlaw, -⟩ := h
    obtain rfl := hlaw.wf.cancelled_eq_nil hz₁
    have hnone : s.cancelledRequests = none := hlaw.wf.marked.chain
    rw [hnone, forEachCancelled, Intrusive.forEach_none, detachCancelled, ← hnone]
  rw [hcancelled] at hz ⊢
  exact (h.destroyPending (hcancelled ▸ hz₂)).destroyInjected hz

/-- A request that waits for a resource when the store is taken down. -/
theorem Lawful.failLate {id : ResId} (h : s.Lawful (fun _ => False) v C)
    (hp : v (.detached (.blocked id)) = r :: l) (hz : (s.failLate env r).Spared True) :
    ∃ v', (s.failLate env r).Lawful (fun _ => False) v' C ∧
      Handled True (.blocked id) r l v v' s (s.failLate env r) := by
  have hr : r ∈ v (.detached (.blocked id)) := hp ▸ List.mem_cons_self
  obtain ⟨hstory, hinj⟩ := h.idle hr (by simp) (by simp) (by simp)
  obtain ⟨v', hwf, hh⟩ := h.wf.failLate hp hz
  have hlife := life_callOnAborted env (s := s.setNextPending r none) hstory hinj
  have hunlink : ∀ b, Keeps b s (s.setNextPending r none) := fun b => .of_row rfl fun _ => .rfl
  have htold : ∀ b, b ≠ r → Keeps b s ((s.setNextPending r none).callOnAborted env r).2 :=
    fun b hb => (hunlink b).trans (keeps_callOnAborted env _ hb)
  obtain ⟨w, tr, heq⟩ := callOnAborted_eq env (s.setNextPending r none) r
  have hlist : v' .injected = v .injected := by
    refine h.wf.injected_eq hwf (rooms_failLate env r s).injectedRequests fun b hb => ?_
    have hne : b ≠ r := by
      rintro rfl
      exact absurd (h.wf.located.placed.inj hb hr) (by simp)
    rw [Loop.failLate]
    dsimp only
    rw [nextPending_destroy, heq]
    exact Function.update_of_ne hne ..
  have hreq : ((s.setNextPending r none).callOnAborted env r).2.req = s.req := by
    rw [heq]
    rfl
  have hin : r ∈ ((s.setNextPending r none).callOnAborted env r).2.accepted := by
    rw [heq]
    exact h.wf.located.accepted_of_mem hr
  refine ⟨v', h.round (r := r) hwf hh.hand (hh.injectees (by simp) hlist) (fun b hb => ?_) ?_, hh⟩
  all_goals
    rw [Loop.failLate]
    dsimp only
    generalize ((s.setNextPending r none).callOnAborted env r).1 = calls
    generalize ((s.setNextPending r none).callOnAborted env r).2 = t at htold hlife hreq hin ⊢
  · have hbeware : Keeps b t (t.beware (calls ≠ []) (.lateCall r)) := .of_row rfl fun _ => .rfl
    exact ((htold b hb).trans hbeware).trans (keeps_destroy _ hb)
  · obtain ⟨ph, hlife⟩ := hlife
    refine .of_destroyed hin List.mem_cons_self (.of_destroyed ph ?_ List.mem_cons_self)
    rw [terms_destroy]
    change Manner.Life (t.req r).terms.manner r (t.story r) ph
    rw [hreq]
    exact hlife

/-- One round over the nodes. -/
theorem LawfulAtRest.destroyFirstRes (h : s.LawfulAtRest True) {n : Res}
    (hn : s.resources.nodes.head? = some n) (hz : (s.destroyFirstRes env n).hazards = []) :
    (s.destroyFirstRes env n).LawfulAtRest True := by
  obtain ⟨⟨v'', C'', hwf'', hv''⟩, -⟩ := (atRest_true.mp h.atRest).destroyFirstRes hn hz
  obtain ⟨v, C, hlaw, hslack⟩ := h
  have hv := View.slack_true.mp hslack
  have hfind : s.resources.resFind n.id = some n := by
    obtain ⟨l, hl⟩ := List.head?_eq_some_iff.mp hn
    rw [Resources.resFind]
    rw [hl]
    exact OrderedMap.find_head
  have hdet : (s.setResources (s.resources.put n.noWaiters)).WF
      (update (update v (.blocked n.id) []) (.detached (.blocked n.id)) (v (.blocked n.id))) C :=
    ⟨hlaw.wf.located.detachBlocked (hv.detached _) (Resources.blockedHead_setWaiters hfind none none)
      (Resources.blockedTail_setWaiters hfind none none)
      fun _ _ => Resources.awaited_setWaiters hfind none none, hlaw.wf.marked⟩
  have hstart := hlaw.keep hdet rfl rfl fun b => .of_row rfl fun _ => .rfl
  obtain ⟨v', C', hwf', hrest, hv', hconf⟩ := hdet.forEachHandled (p := .blocked n.id)
    (f := Loop.failLate env)
    (P := fun v' t => v'.StillBut (.blocked n.id) ∧ ∀ b, Conforms (fun _ => False) v'.injectees t b)
    (.inl trivial) (fun r t ht => (evolves_failLate env r t).spared ht)
    (fun r l v C t ht hp hinv hz => by
      obtain ⟨hv, hconf⟩ := hinv
      obtain ⟨v', hlaw, hh⟩ := Lawful.failLate ⟨ht, holds_nobody v, hconf⟩ hp hz
      exact ⟨v', C, hlaw.wf, hh, hh.stillBut hv, hlaw.conforms⟩)
    (a := n.blockedHead) (by
      rw [Function.update_self, ← Resources.blockedHead_eq hfind]
      exact hlaw.wf.located.linked.blocked n.id)
    ⟨hv.detach (by simp) (by simp), hstart.conforms⟩ (.of_nil hz)
  have hinjectees : v''.injectees = v'.injectees := by
    rw [View.injectees, View.injectees, hv''.detached, (hv'.still hrest).detached,
      hwf'.injected_eq hwf'' rfl fun _ _ => rfl]
  refine ⟨v'', C'', ⟨hwf'', holds_nobody v'', fun b => ?_⟩, View.slack_true.mpr hv''⟩
  rw [hinjectees]
  exact (hconf b).keeps (.of_row rfl fun _ => .rfl) .rfl

/-- The store is taken down. -/
theorem LawfulAtRest.curlResourceDestroyAll (h : s.LawfulAtRest True)
    (hz : (s.curlResourceDestroyAll env).hazards = []) :
    (s.curlResourceDestroyAll env).LawfulAtRest True := by
  have hrest := (atRest_true.mp h.atRest).curlResourceDestroyAll hz
  have hinv := OrderedMap.whileFirst_rule (g := fun t : Loop ω => t.resources.nodes.head?)
    (f := fun n t => .yield (t.destroyFirstRes env n)) (n := s.resources.nodes.length) (s := s)
    (P := fun t => t.hazards = [] → t.LawfulAtRest True)
    (fun n t t' _ _ hb => by simp at hb)
    (fun n t t' hP hn hb => by
      obtain rfl := ForInStep.yield.inj hb
      exact fun hz' =>
        (hP ((evolves_destroyFirstRes env n t).hazards_eq_nil hz')).destroyFirstRes hn hz')
    fun _ => h
  rw [Loop.curlResourceDestroyAll] at hz hrest ⊢
  exact (hinv hz).of_atRest (atRest_true.mpr hrest.1) (fun b => ⟨rfl, rfl⟩) fun v C hlaw _ b =>
    (hlaw.conforms b).keeps (.of_row rfl fun _ => .rfl) .rfl

/-- **The destruction of the loop.** -/
theorem LawfulAtRest.curlEventLoopDestroy (h : s.LawfulAtRest True)
    (hz : (s.curlEventLoopDestroy env).hazards = []) :
    (s.curlEventLoopDestroy env).LawfulAtRest True := by
  unfold Loop.curlEventLoopDestroy at hz ⊢
  dsimp only at hz ⊢
  have hz₅ := (evolves_destroyAll env _).hazards_eq_nil hz
  have hz₄ := (evolves_destroyLists _).hazards_eq_nil hz₅
  have hz₃ := (evolves_destroyMap (q := False) .rateLimited _).hazards_eq_nil hz₄
  have hz₂ := (evolves_destroyMap (q := False) .refresh _).hazards_eq_nil hz₃
  have hz₁ := (evolves_destroyMap (q := False) .inactive _).hazards_eq_nil hz₂
  exact ((((h.destroyMap hz₁).destroyMap hz₂).destroyMap hz₃).destroyMap hz₄).destroyLists
    hz₅ |>.curlResourceDestroyAll hz

/-! ### Actions -/

theorem LawfulAtRest.mono (h : s.LawfulAtRest True) : s.LawfulAtRest False := by
  obtain ⟨v, C, hlaw, hv⟩ := h
  exact ⟨v, C, hlaw, hv.hand, fun p _ => hv.detached p (.inl trivial)⟩

/-- **One action** that is not the destruction of the loop. -/
theorem LawfulAtRest.act {a : Action} (h : s.LawfulAtRest strict) (ha : a ≠ .destroy)
    (hz : (Loop.act env a s).Spared strict) : (Loop.act env a s).LawfulAtRest strict := by
  have hidle : ∀ {t : Loop ω}, t.AtRest strict → t.injectedRequests = s.injectedRequests →
      t.nextPending = s.nextPending → (∀ b, Keeps b s t) → t.LawfulAtRest strict :=
    fun ht hhead hlink hkeep => h.of_atRest ht (fun b => .of_eq hhead hlink) fun v C hlaw _ b =>
      (hlaw.conforms b).keeps (hkeep b) .rfl
  have ht := h.atRest.act ha hz
  cases a with
  | call c =>
    obtain ⟨v, C, hlaw, hv⟩ := h
    obtain ⟨v', C', hlaw', hund⟩ := hlaw.call hv.noneWoken c hz
    exact ⟨v', C', hlaw', hund.slack hv⟩
  | applyOp op =>
    obtain ⟨v, C, hlaw, hv⟩ := h
    obtain ⟨v', C', hlaw', hund⟩ := hlaw.applyOp hv.noneWoken op hz
    exact ⟨v', C', hlaw', hund.slack hv⟩
  | processCancelledAndPendingRequests => exact h.processCancelledAndPendingRequests hz
  | moveInactiveRequestsToQueue => exact h.moveInactiveRequestsToQueue hz
  | processCompletedRequests msgs => exact h.processCompletedRequests hz
  | calculateNextTimerExpiry =>
    obtain ⟨w, hw⟩ := calculateNextTimerExpiry_eq env s 200
    change (s.calculateNextTimerExpiry env 200).2.LawfulAtRest strict
    change (s.calculateNextTimerExpiry env 200).2.AtRest strict at ht
    rw [hw] at ht ⊢
    exact hidle ht rfl rfl fun b => .of_row rfl fun _ => .rfl
  | destroy => exact absurd rfl ha
  | _ => exact hidle ht rfl rfl fun b => .of_row rfl fun _ => .rfl

/-! ### Runs -/

/-- The guard of a run: the loop is destroyed without a hazard, and otherwise at most resources are
freed while requests wait for them. In C a run ends where the loop is destroyed. -/
def AbandonsAtMost (env : Env ω) (a : Action) (s : Loop ω) : Prop :=
  if a = .destroy then (Loop.act env a s).hazards = []
  else ∀ x ∈ (Loop.act env a s).hazards, x.IsAbandoned

instance (env : Env ω) (a : Action) (s : Loop ω) : Decidable (AbandonsAtMost env a s) :=
  inferInstanceAs (Decidable (if a = .destroy then _ else _))

/-- The invariant of a run. As long as no request was abandoned it holds in the strict sense, which
the destruction of the loop needs. -/
structure LawfulRunInvariant (s : Loop ω) : Prop where
  atRest : s.LawfulAtRest False
  strict : s.hazards = [] → s.LawfulAtRest True

theorem LawfulRunInvariant.act {a : Action} (h : s.LawfulRunInvariant)
    (ha : AbandonsAtMost env a s) : (Loop.act env a s).LawfulRunInvariant := by
  rw [AbandonsAtMost] at ha
  by_cases hd : a = .destroy
  · rw [if_pos hd] at ha
    subst hd
    have htrue := (h.strict (hazards_eq_nil_of_act ha)).curlEventLoopDestroy ha
    exact ⟨htrue.mono, fun _ => htrue⟩
  · rw [if_neg hd] at ha
    exact ⟨h.atRest.act hd (.of_abandoned ha),
      fun hz => (h.strict (hazards_eq_nil_of_act hz)).act hd (.of_nil hz)⟩

/-- Nobody has been handed over yet. -/
theorem lawfulRunInvariant_init (mem : Memory) (world : ω) :
    (curlEventLoopInit mem world).LawfulRunInvariant := by
  obtain ⟨v, C, hwf, hv⟩ := resting_init mem world
  have hlawful : (curlEventLoopInit mem world).LawfulAtRest True := by
    refine ⟨v, C, ⟨hwf, holds_nobody v, fun b => ⟨fun _ => rfl, fun _ => ?_, fun hlive => ?_⟩⟩,
      View.slack_true.mpr hv⟩
    · exact .of_nil rfl List.not_mem_nil
    · exact absurd hlive.1 List.not_mem_nil
  exact ⟨hlawful.mono, fun _ => hlawful⟩

/-- **The story of a request that was destroyed is closed.** -/
theorem LawfulRunInvariant.story_gone {a : Action} (h : s.LawfulRunInvariant)
    (ha : AbandonsAtMost env a s) (hr : Gone r s) : (Loop.act env a s).row r = s.row r := by
  by_cases hd : a = .destroy
  · rw [AbandonsAtMost, if_pos hd] at ha
    subst hd
    have hrest := atRest_true.mp (h.strict (hazards_eq_nil_of_act ha)).atRest
    rcases hrest.torn_curlEventLoopDestroy ha r with hrow | hended
    · exact hrow
    · exact absurd hr.destroyed hended.live.2
  · rw [AbandonsAtMost, if_neg hd] at ha
    have hadmits : s.Admits env ⟨fun _ => True, fun _ => True, fun _ _ => True⟩ a := by
      cases a with
      | call c => cases c <;> trivial
      | processCancelledAndPendingRequests => exact fun _ _ => trivial
      | processCompletedRequests msgs => exact Guarded.allowed_of_forall fun _ _ => trivial
      | destroy => exact absurd rfl hd
      | _ => trivial
    exact (h.atRest.atRest.path_admits env.makes_anything hadmits (.of_abandoned ha)).row_gone hr

theorem LawfulRunInvariant.run_gone {as : List Action} (h : s.LawfulRunInvariant)
    (has : Guarded.Allowed (Loop.act env) (AbandonsAtMost env) s as) (hr : Gone r s) :
    (Guarded.run (Loop.act env) s as).row r = s.row r := by
  induction as generalizing s with
  | nil => rfl
  | cons a as ih =>
    have hrow := h.story_gone has.1 hr
    exact (ih (h.act has.1) has.2 (hr.of_row hrow)).trans hrow

/-- **Every request lives by the protocol**, in every state of every run: its story is one that the
protocol reads, the phase it ends in says where the loop keeps the request as long as it owns it, and
the story of a request that was destroyed is closed. -/
theorem lives_of_abandonsAtMost (env : Env ω) (mem : Memory) (world : ω) (as : List Action)
    (has : Guarded.Allowed (Loop.act env) (AbandonsAtMost env) (curlEventLoopInit mem world) as) :
    ∀ pre, pre <+: as → ∀ r,
      let s := Guarded.run (Loop.act env) (curlEventLoopInit mem world) pre
      (r ∉ s.accepted → s.story r = []) ∧
      (∃ ph, (s.req r).terms.manner.Life r (s.story r) ph ∧ (s.Live r → ph.Stands s r)) ∧
      (r ∈ s.destroyed →
        (Guarded.run (Loop.act env) (curlEventLoopInit mem world) as).story r = s.story r) := by
  rintro pre ⟨post, rfl⟩ r s
  obtain ⟨hpre, hpost⟩ := Guarded.allowed_append.mp has
  have hinv : s.LawfulRunInvariant :=
    hpre.invariant (fun a t (ht : t.LawfulRunInvariant) ha => ht.act ha)
      (lawfulRunInvariant_init mem world)
  obtain ⟨v, C, hlaw, -⟩ := hinv.atRest
  refine ⟨(hlaw.conforms r).fresh, (hlaw.conforms r).lives id, fun hr => ?_⟩
  rw [Guarded.run_append]
  exact congrArg Row.story
    (hinv.run_gone hpost ⟨hlaw.wf.located.destroyed_subset hr, hr⟩)

end Loop

/-- Requests that are to be tried again, one of which waits for a resource. -/
def Memory.waiting : Memory where
  req r := { Request.init with
    url := some "u", maxRetries := 2, depHead := if r = 3 then [7] else [] }
  unsubmitted _ := ⟨rfl, rfl, rfl, rfl, rfl, rfl⟩

/-- A user whose failure callback asks for another attempt. -/
def Env.insistent : Env Unit where
  macroNow _ := (0, ())
  rateManagerCanProceed _ _ _ := (0, ())
  rateManagerStartRequest _ _ _ := (0, ())
  rateManagerRequestDone _ _ := ()
  rateManagerHandle429 _ _ := (1, ())
  curlEasyInit _ := (true, ())
  onPrepare _ _ := (true, ())
  onRetry _ _ _ := ((true, 0), ())
  computeBackoffMs _ _ := (0, ())
  onComplete _ _ := (⟨0, []⟩, ())
  onFailure _ _ _ _ _ := (⟨-1, []⟩, ())
  onAborted _ _ := (⟨0, []⟩, ())

namespace Loop

/-- One request fails and is tried again with success, one that was never submitted is injected, and
one waits for a resource that fails; then the loop is destroyed. -/
theorem lives_of_abandonsAtMost_injected :
    let as : List Action := [.call (.api (.submit 1 0)), .call (.api (.inject 2 4)),
      .call (.api (.submit 3 0)), .processCancelledAndPendingRequests,
      .processCompletedRequests [⟨0, .other 7, 0⟩], .moveInactiveRequestsToQueue,
      .call (.publish 7 none false), .processCompletedRequests [⟨1, .ok, 200⟩], .destroy]
    ∀ pre, pre <+: as → ∀ r,
      let s := Guarded.run (Loop.act Env.insistent) (curlEventLoopInit Memory.waiting ()) pre
      (r ∉ s.accepted → s.story r = []) ∧
      (∃ ph, (s.req r).terms.manner.Life r (s.story r) ph ∧ (s.Live r → ph.Stands s r)) ∧
      (r ∈ s.destroyed →
        (Guarded.run (Loop.act Env.insistent) (curlEventLoopInit Memory.waiting ()) as).story r =
          s.story r) :=
  lives_of_abandonsAtMost Env.insistent Memory.waiting () _ (by decide +kernel)

end Loop

end CurlLoop
