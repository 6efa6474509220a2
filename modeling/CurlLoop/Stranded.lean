import CurlLoop.Scheduler
import CurlLoop.Rows

/-!
# Releasing a resource that requests wait for

`curl_event_res_release` erases a node when its count reaches zero and does not look at the requests
that wait for it, as `maybe_autorelease_owner` does. Requests waiting for an erased node are in no
list and no map any more: nobody will schedule them, and nobody fails them.

Usually the count does not reach zero under them. A request retains its dependencies before it is
blocked on one, so the count of a node that is waited for is at least one, and an owner's reference
comes on top of that. But not every owner is counted: a registration that is posted counts for
nothing until it is drained, and a dependent may be blocked on a placeholder by then. The owner's
release takes the dependent's reference.

## Main definitions

* `Loop.StrandsNobody` — the property of a step
* `Loop.Queuing` — whoever is first in line for a resource has retained it
* `Loop.SparesRetainers` — the last reference is not taken from under a request

## Main results

* `Queuing.path` — the invariant along a path
* `strandsNobody_of_sparing` — every run whose releases meet the condition
-/

namespace CurlLoop

open Function (update)

/-- The resource a release is about, whether called or drained. -/
def Action.releases : Action → Option ResId
  | .call (.release id) => some id
  | .applyOp op => if op.kind = .release then some op.id else none
  | _ => none

namespace Loop

variable {ω : Type} {s t u : Loop ω} {r : ReqId} {env : Env ω} {held : Option ReqId}

/-- A release erases a node only if nobody waits for it, and afterwards every request the loop owns
is scheduled or blocked on a resource of the map. -/
structure StrandsNobody (env : Env ω) (a : Action) (s : Loop ω) : Prop where
  erased : ∀ id ∈ a.releases, (Loop.act env a s).resources.resFind id = none →
    s.resources.blockedHead id = none
  settled : ∀ r, (Loop.act env a s).Live r → ∃ c, r ∈ (Loop.act env a s).contents c ∧
    ∀ id, c = .blocked id → ((Loop.act env a s).resources.resFind id).isSome

/-! ### First in line -/

/-- Whoever is first in line for a resource has retained it. -/
def Queuing (s : Loop ω) : Prop := ∀ id r, s.resources.blockedHead id = some r → s.Retains id r

/-- A function that works on one request: it touches no other, and puts nobody first in line. -/
structure Minds (r : ReqId) (s t : Loop ω) : Prop where
  others : ∀ b, b ≠ r → t.req b = s.req b
  accepted : t.accepted = s.accepted
  heads : s.resources.SubHeads t.resources

theorem Minds.trans (h : Minds r s t) (h' : Minds r t u) : Minds r s u :=
  ⟨fun b hb => (h'.others b hb).trans (h.others b hb), h'.accepted.trans h.accepted,
    h.heads.trans h'.heads⟩

/-- A function that leaves the requests and the resources alone. -/
theorem Minds.of_eq (hreq : t.req = s.req) (hacc : t.accepted = s.accepted)
    (hres : t.resources = s.resources) : Minds r s t :=
  ⟨fun _ _ => congrFun hreq _, hacc, hres ▸ .refl _⟩

/-- A function after one that leaves them alone. -/
theorem Minds.after (h : Minds r t u) (hreq : t.req = s.req) (hacc : t.accepted = s.accepted)
    (hres : t.resources = s.resources) : Minds r s u :=
  (Minds.of_eq hreq hacc hres).trans h

theorem minds_modifyReq (s : Loop ω) (r : ReqId) (f : Request → Request) :
    Minds r s (s.modifyReq r f) :=
  ⟨fun _ hb => Function.update_of_ne hb _ _, rfl, .refl _⟩

theorem minds_cleanup (s : Loop ω) (r : ReqId) : Minds r s (s.curlEventLoopRequestCleanup r) :=
  ⟨fun _ hb => Function.update_of_ne hb _ _, rfl, .refl _⟩

theorem minds_enqueueRequest (s : Loop ω) (r : ReqId) : Minds r s (s.enqueueRequest r) :=
  .of_eq rfl rfl rfl

theorem minds_parkRateLimited (s : Loop ω) (r : ReqId) (due : ℕ) :
    Minds r s (s.parkRateLimited r due) :=
  ⟨fun _ hb => Function.update_of_ne hb _ _, rfl, .refl _⟩

/-- A destroyed request lets its dependencies go. -/
theorem minds_destroy (s : Loop ω) (r : ReqId) : Minds r s (s.curlEventRequestDestroy r) := by
  have hclean : Minds r s ((s.beware (r ∈ s.cancelledList)
      (.destroyedCancelled r)).curlEventLoopRequestCleanup r) :=
    (minds_cleanup (s.beware (r ∈ s.cancelledList) (.destroyedCancelled r)) r).after rfl rfl rfl
  refine hclean.trans ⟨fun b hb => Function.update_of_ne hb _ _, rfl, ?_⟩
  change Resources.SubHeads _ (if _ then _ else _)
  split
  · exact Resources.subHeads_releaseDeps _ _
  · exact .refl _

theorem minds_activate (env : Env ω) (s : Loop ω) (r : ReqId) : Minds r s (s.activate env r) :=
  ⟨fun _ hb => Function.update_of_ne hb _ _, rfl, .refl _⟩

theorem minds_start (env : Env ω) (s : Loop ω) (r : ReqId) :
    Minds r s (s.curlEventLoopRequestStart env r) := by
  have hreset : ∀ w : ω, Minds r s (({ s with world := w } : Loop ω).modifyReq r Request.reset) :=
    fun w => (minds_modifyReq _ r _).after rfl rfl rfl
  have hout := start_outcome env s r
  generalize s.curlEventLoopRequestStart env r = t at hout ⊢
  cases hout with
  | parked w due => exact (minds_parkRateLimited _ r due).after rfl rfl rfl
  | refused w => exact (hreset w).trans (minds_destroy _ r)
  | active w =>
    have hhandle : Minds r s
        ((({ s with world := w } : Loop ω).modifyReq r Request.reset).newHandle r) :=
      (hreset w).trans ⟨fun _ hb => Function.update_of_ne hb _ _, rfl, .refl _⟩
    exact hhandle.trans (minds_activate env _ r)

theorem minds_cancelledRound (s : Loop ω) (r : ReqId) : Minds r s (s.cancelledRound r) :=
  (minds_destroy (s.dropFromMap (cancelledMap (s.req r)) r) r).after rfl rfl rfl

theorem minds_settle (env : Env ω) (s : Loop ω) (r : ReqId) (httpCode : ℤ) (success : Bool)
    (retryIn : ℤ) : Minds r s (s.settle env r httpCode success retryIn) := by
  have hwrite : ∀ (w : ω) tr n (f : Request → Request),
      Minds r s (({ s with world := w, trace := tr, metrics := n } : Loop ω).modifyReq r f) :=
    fun w tr n f => (minds_modifyReq _ r f).after rfl rfl rfl
  have hout := settle_outcome env s r httpCode success retryIn
  generalize s.settle env r httpCode success retryIn = t at hout ⊢
  cases hout with
  | parked w due => exact (minds_parkRateLimited _ r due).after rfl rfl rfl
  | again w tr n f =>
    exact ((hwrite w tr n f).trans (minds_cleanup _ r)).trans (minds_enqueueRequest _ r)
  | ended w tr n f => exact (hwrite w tr n f).trans (minds_destroy _ r)

/-! ### The invariant -/

theorem Queuing.aside (h : s.Queuing) (ha : Aside env s t) : t.Queuing := fun id r hr =>
  (ha.heads id r hr).elim (fun hs => ha.retains (h id r hs)) fun ht => ht

/-- A function that works on one request, which is not first in line. -/
theorem Queuing.minds (h : s.Queuing) (hm : Minds r s t)
    (hr : ∀ id, s.resources.blockedHead id ≠ some r) : t.Queuing := by
  intro id b hb
  have hs := hm.heads id b hb
  have hne : b ≠ r := fun heq => hr id (heq ▸ hs)
  have hret := h id b hs
  refine ⟨?_, ?_, ?_⟩
  · rw [hm.accepted]
    exact hret.accepted
  · rw [hm.others b hne]
    exact hret.depsRetained
  · rw [hm.others b hne]
    exact hret.mem

theorem Queuing.arrives (h : s.Queuing) (ha : Arrives env r s t) : t.Queuing := by
  intro id b hb
  rw [ha.resources] at hb
  have hret := h id b hb
  have hne : b ≠ r := fun heq => ha.fresh (heq ▸ hret.accepted)
  refine ⟨?_, ?_, ?_⟩
  · rw [show t.accepted = r :: s.accepted from congrArg Traffic.accepted ha.traffic]
    exact List.mem_cons_of_mem r hret.accepted
  · rw [ha.others b hne]
    exact hret.depsRetained
  · rw [ha.others b hne]
    exact hret.mem

theorem kept_queuing (env : Env ω) (W : Watch) : Kept env W fun _ (s : Loop ω) => s.Queuing where
  aside h ha := h.aside ha
  arrives h ha _ _ := h.arrives ha
  destroy h hr _ := h.minds (minds_destroy _ _) hr.heads
  drop h _ hr _ := h.minds (minds_cancelledRound _ _) hr
  start h hr := h.minds (minds_start env _ _) hr.heads
  receive h _ := fun id b hb => ⟨(h id b hb).accepted, (h id b hb).2, (h id b hb).3⟩
  settle h hr _ := h.minds (minds_settle env _ _ _ _ _) hr.heads

/-- **The invariant along a path.** -/
theorem Queuing.path {W : Watch} (h : s.Queuing) (hp : Path env W.regime s t) : t.Queuing :=
  hp.kept (kept_queuing env W) h

theorem queuing_init (mem : Memory) (world : ω) : (curlEventLoopInit mem world).Queuing := nofun

/-! ### Runs -/

/-- The reference a release of `id` drops is not the last one of an unpublished resource that a
request has retained. -/
def SparesRetainers (s : Loop ω) (id : ResId) : Prop :=
  ∀ n ∈ s.resources.resFind id, n.ready = false → n.refcnt = 1 →
    ∀ r ∈ s.accepted, r ∉ s.destroyed → (s.req r).depsRetained = true → id ∉ (s.req r).depHead

instance (s : Loop ω) (id : ResId) : Decidable (s.SparesRetainers id) :=
  inferInstanceAs (Decidable (∀ n ∈ s.resources.resFind id, _))

/-- The guard of a run: a release spares the requests that have retained the resource, and any other
step is taken in a situation the code is prepared for. -/
def Sparing (env : Env ω) (a : Action) (s : Loop ω) : Prop :=
  a ≠ .destroy ∧ (∀ id ∈ a.releases, s.SparesRetainers id) ∧ (a.releases = none → Foreseen env a s)

instance (env : Env ω) (a : Action) (s : Loop ω) : Decidable (Sparing env a s) :=
  inferInstanceAs (Decidable (_ ∧ (∀ id ∈ a.releases, s.SparesRetainers id) ∧ _))

/-- No restriction on the transfers. -/
def anything : Watch where
  drop _ := True
  settle _ _ := True

theorem watched_anything {a : Action} (ha : a ≠ .destroy) : s.Watched env anything a := by
  have hmsgs : ∀ (msgs : List Message) (s : Loop ω),
      Guarded.Allowed (fun m s => s.completedRound env m) (fun m s => s.Settles anything m) s
        msgs := by
    intro msgs
    induction msgs with
    | nil => exact fun _ => trivial
    | cons m msgs ih => exact fun s => ⟨fun _ _ => trivial, ih _⟩
  cases a with
  | processCancelledAndPendingRequests => exact fun _ _ => trivial
  | processCompletedRequests msgs => exact hmsgs msgs s
  | destroy => exact ha rfl
  | _ => trivial

/-- Nobody waits for a node whose last reference is dropped. -/
theorem Resting.not_abandons (h : s.Resting) (hq : s.Queuing) {id : ResId}
    (hs : s.SparesRetainers id) : ¬ s.Abandons id := by
  rintro ⟨n, hn, hcnt, hhead⟩
  obtain ⟨v, C, hwf, -⟩ := h
  obtain ⟨r, hr⟩ := Option.ne_none_iff_exists'.mp hhead
  have hfirst : s.resources.blockedHead id = some r := (Resources.blockedHead_eq hn).trans hr
  have hmem : r ∈ v (.blocked id) :=
    List.mem_of_head? ((hwf.located.linked.blocked id).head_eq.symm.trans hfirst)
  have hawaited : n.ready = false := hwf.located.linked.awaited id (List.ne_nil_of_mem hmem) n hn
  have hret := hq id r hfirst
  exact hs n hn hawaited hcnt r hret.accepted (hwf.located.live_of_mem hmem).2 hret.depsRetained
    hret.mem

/-- A drained release is a release. -/
theorem act_of_releases (env : Env ω) (s : Loop ω) {a : Action} {id : ResId}
    (h : a.releases = some id) :
    ∃ ops, Loop.act env a s = ({ s with applied := ops } : Loop ω).curlEventResRelease id := by
  cases a with
  | call c =>
    cases c with
    | release j =>
      obtain rfl := Option.some.inj h
      exact ⟨s.applied, rfl⟩
    | _ => exact absurd h (Option.some_ne_none id).symm
  | applyOp op =>
    rw [Action.releases] at h
    split at h
    · rename_i hk
      obtain rfl := Option.some.inj h
      refine ⟨op :: s.applied, ?_⟩
      rw [act, applyOp, hk]
    · exact absurd h (Option.some_ne_none id).symm
  | _ => exact absurd h (Option.some_ne_none id).symm

/-- A step of such a run meets no hazard. -/
theorem Resting.foreseen_of_sparing {a : Action} (h : s.Resting) (hq : s.Queuing)
    (ha : Sparing env a s) : Foreseen env a s := by
  cases hrel : a.releases with
  | none => exact ha.2.2 hrel
  | some id =>
    obtain ⟨ops, hact⟩ := act_of_releases env s hrel
    have hno : ¬ ({ s with applied := ops } : Loop ω).Abandons id :=
      h.not_abandons hq (ha.2.1 id hrel)
    rw [Foreseen, hact]
    exact if_neg hno

/-- A release that is none of the hazards erases only a node that nobody waits for. -/
theorem blockedHead_of_released {id : ResId} (hno : ¬ s.Abandons id)
    (h : (s.resources.curlEventResRelease id).resFind id = none) :
    s.resources.blockedHead id = none := by
  rw [Resources.curlEventResRelease] at h
  cases hn : s.resources.resFind id with
  | none => rw [Resources.blockedHead, hn, Option.bind_none]
  | some n =>
    rw [Resources.blockedHead_eq hn]
    by_contra hhead
    have hcnt : n.refcnt ≠ 1 := fun hcnt => hno ⟨n, hn, hcnt, hhead⟩
    rw [hn] at h
    dsimp only at h
    rw [if_neg (by omega), Resources.resFind_put, Res.id_addRefs, Resources.id_of_resFind hn,
      if_pos rfl, hn] at h
    exact absurd h (Option.some_ne_none _)

/-- In a resting loop every request is scheduled, or blocked on a resource of the map. -/
theorem Resting.settled_somewhere (h : s.Resting) (hr : s.Live r) :
    ∃ c, r ∈ s.contents c ∧ ∀ id, c = .blocked id → (s.resources.resFind id).isSome := by
  obtain ⟨c, hc, -⟩ := (h.contents r).1 hr
  have hmem : r ∈ s.contents c := List.count_pos_iff.mp (by rw [hc]; exact Nat.one_pos)
  refine ⟨c, hmem, fun id hid => ?_⟩
  obtain ⟨v, C, hwf, -⟩ := h
  rw [hid, hwf.contents_eq] at hmem
  change r ∈ v (.blocked id) at hmem
  have hhead := (hwf.located.linked.blocked id).head_eq
  by_contra hnone
  rw [Option.not_isSome_iff_eq_none] at hnone
  rw [Resources.blockedHead, hnone, Option.bind_none] at hhead
  rw [List.head?_eq_none_iff.mp hhead.symm] at hmem
  exact absurd hmem List.not_mem_nil

/-- **Releasing a resource strands nobody**, in every run whose releases never take the last
reference of an unpublished resource from under a request that has retained it. -/
theorem strandsNobody_of_sparing (env : Env ω) (mem : Memory) (world : ω) (as : List Action)
    (has : Guarded.Allowed (Loop.act env) (Sparing env) (curlEventLoopInit mem world) as) :
    ∀ pre a, pre ++ [a] <+: as →
      StrandsNobody env a (Guarded.run (Loop.act env) (curlEventLoopInit mem world) pre) := by
  intro pre a hpre
  obtain ⟨post, rfl⟩ := hpre
  obtain ⟨hbefore, ha, -⟩ := Guarded.allowed_append.mp (Guarded.allowed_append.mp has).1
  obtain ⟨hz, hrest, hqueue⟩ := hbefore.invariant
    (P := fun s => s.hazards = [] ∧ s.Resting ∧ s.Queuing)
    (fun a s hs ha => by
      have hz : (Loop.act env a s).hazards = [] :=
        (hs.2.1.foreseen_of_sparing hs.2.2 ha).trans hs.1
      exact ⟨hz, hs.2.1.act hz, hs.2.2.path (hs.2.1.path_act (watched_anything ha.1) hz)⟩)
    ⟨rfl, resting_init mem world, queuing_init mem world⟩
  have hforeseen := hrest.foreseen_of_sparing hqueue ha
  refine ⟨fun id hid hgone => ?_, fun r hr => ?_⟩
  · obtain ⟨ops, hact⟩ := act_of_releases env _ hid
    rw [hact] at hgone
    exact blockedHead_of_released (hrest.not_abandons hqueue (ha.2.1 id hid)) hgone
  · exact (hrest.act (hforeseen.trans hz)).settled_somewhere hr

/-- Two resources are declared and a request waits for each. The owner lets the second one go, which
the request keeps; and it lets the first one go when that is published and its request is done, which
erases the node. -/
theorem strandsNobody_of_sparing_declared :
    let run := Guarded.run (Loop.act Env.uneventful)
      (curlEventLoopInit (Memory.plain fun r => [r]) ())
    let as : List Action := [.call .declare, .call .declare, .call (.api (.submit 1 0)),
      .call (.api (.submit 2 0)), .processCancelledAndPendingRequests]
    let bs : List Action := [.call (.release 2), .call (.publish 1 (some 9) true),
      .processCancelledAndPendingRequests, .processCompletedRequests [⟨0, .ok, 200⟩]]
    (run as).resources.blockedHead 2 = some 2 ∧
      StrandsNobody Env.uneventful (.call (.release 2)) (run as) ∧
      (run (as ++ bs ++ [.call (.release 1)])).resources.resFind 1 = none ∧
      StrandsNobody Env.uneventful (.call (.release 1)) (run (as ++ bs)) := by
  intro run as bs
  have hrun := strandsNobody_of_sparing Env.uneventful (Memory.plain fun r => [r]) ()
    (as ++ bs ++ [.call (.release 1)]) (by decide +kernel)
  refine ⟨by decide +kernel, hrun as _ ?_, by decide +kernel,
    hrun (as ++ bs) _ (List.prefix_refl _)⟩
  exact List.prefix_iff_eq_take.mpr rfl

/-- A registration is posted and draws id 1, a request that depends on it is handled and waits for
the placeholder, and the owner lets the resource go before its registration is drained. The node is
erased under the request, which is nowhere then, also after the registration is drained. -/
theorem not_strandsNobody_before_drain :
    let run := Guarded.run (Loop.act Env.uneventful)
      (curlEventLoopInit (Memory.plain fun _ => [1]) ())
    let as := [.call (.api (.registerAsync 0 (some 9) true)), .call (.api (.submit 1 0)),
      .processCancelledAndPendingRequests]
    (run as).hazards = [] ∧ ¬ StrandsNobody Env.uneventful (.call (.release 1)) (run as) := by
  intro run as
  have hstate : (run as).hazards = [] ∧ (run as).resources.blockedHead 1 = some 1 ∧
      (Loop.act Env.uneventful (.call (.release 1)) (run as)).resources.resFind 1 = none := by
    decide +kernel
  refine ⟨hstate.1, fun h => ?_⟩
  have hnone := h.erased 1 rfl hstate.2.2
  rw [hstate.2.1] at hnone
  exact absurd hnone nofun

end Loop

end CurlLoop
