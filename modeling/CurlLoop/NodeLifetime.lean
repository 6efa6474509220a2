import CurlLoop.AutoRelease
import CurlLoop.Scheduler

/-!
# Resource nodes under the functions that fail requests

A publication of `NULL` and `curl_resource_destroy_all` walk the waiting list of a node and fail the
requests on it, and they go on to use the node: the one reads `n->failed` before each request, the
other reads the payload after the last and frees the node. A failed request lets go of its
dependencies, and nothing keeps this from auto-releasing the node, since the waiting list has been
detached from it.

So both are safe exactly if the count of the node does not fall to one on the way. Where the owner
is counted beside the requests that wait, a publication is safe: the count falls to one with the last
request, and the node is not looked at again. The destruction of the store is not.

## Main definitions

* `Failure` — the two operations
* `Loop.NodesSafe` — no node is used or freed after it was freed
* `Loop.held`, `Loop.load` — what a request lets go, and what those that wait for a resource do
* `Failure.Spares` — the exact condition

## Main results

* `Loop.live_visits_iff` — when the node outlasts a publication
* `Loop.nodesSafe_iff` — the two operations
-/

namespace CurlLoop

open Function (update)

variable {ω : Type}

namespace Loop

/-- The references the request drops when it is destroyed. -/
def held (s : Loop ω) (r : ReqId) : List ResId :=
  if (s.req r).depsRetained then (s.req r).depHead else []

/-- The requests that wait for a resource, first to last. -/
def waiters (s : Loop ω) (id : ResId) : List ReqId := s.pendingChain (s.resources.blockedHead id)

/-- The references that the requests waiting for a resource drop when they are failed. -/
def load (s : Loop ω) (id : ResId) : List ResId := (s.waiters id).flatMap s.held

/-- The first part of a round of `curl_resource_destroy_all`: the requests that wait for the node
are failed. -/
def failWaiters (env : Env ω) (n : Res) (s : Loop ω) : Loop ω :=
  (s.setResources (s.resources.put n.noWaiters)).forEachPending n.blockedHead (failLate env)

end Loop

/-- The operations that fail the requests waiting for a node. -/
inductive Failure
  /-- `curl_event_res_publish(loop, id, NULL, cleanup)`. -/
  | publishNull (id : ResId) (cleanup : Bool)
  /-- `curl_resource_destroy_all(loop)`. -/
  | destroyAll
deriving DecidableEq, Repr

namespace Failure

/-- Carry out the operation. -/
def run (env : Env ω) : Failure → Loop ω → Loop ω
  | .publishNull id cleanup, s => s.curlEventResPublish env id none cleanup
  | .destroyAll, s => s.curlResourceDestroyAll env

/-- The node the operation works on is in the map whenever the operation looks at it again. A
publication reads `n->failed` before each of the waiting requests; the destruction of the store
reads the payload of a node after its last waiting request, and erases and frees the node. -/
def TouchesLive (env : Env ω) : Failure → Loop ω → Prop
  | .publishNull id cleanup, s =>
    let p := s.resources.publishPayload id none cleanup
    ∀ v ∈ Intrusive.visits (fun (t : Loop ω) r => t.nextPending r)
        (fun r t => Loop.wakeOrFail env true r (t.follow r)) s.accepted.length p.1
        (s.setResources p.2),
      (v.2.resources.resFind id).isSome
  | .destroyAll, s =>
    ∀ v ∈ OrderedMap.rounds (fun t : Loop ω => t.resources.nodes.head?) (Loop.destroyFirstRes env)
        s.resources.nodes.length s,
      ((v.2.failWaiters env v.1).resources.resFind v.1.id).isSome

/-- No callback hands the loop a request it has already, or calls the library while the loop is
being destroyed. -/
def Tame (env : Env ω) (a : Failure) (s : Loop ω) : Prop :=
  ∀ r, .resubmitted r ∉ (a.run env s).hazards ∧ .lateCall r ∉ (a.run env s).hazards

/-- The count of no node falls to one too early. -/
def Spares : Failure → Loop ω → Prop
  | .publishNull id cleanup, s =>
    ¬ ((s.resources.resGetOrCreate id).1.publish none cleanup).Overtaken 0
      (((s.waiters id).dropLast.flatMap s.held).count id)
  | .destroyAll, s => Resources.Outlast s.load [] s.resources.nodes

instance Spares.decidable (a : Failure) (s : Loop ω) : Decidable (a.Spares s) :=
  match a with
  | .publishNull _ _ => inferInstanceAs (Decidable (¬ _))
  | .destroyAll => inferInstanceAs (Decidable (Resources.Outlast _ _ _))

end Failure

namespace Loop

variable {s t u : Loop ω} {v : View} {C : List ReqId} {r : ReqId} {id : ResId} {env : Env ω}
  {strict : Prop}

/-- **The law.** No node is used after it was freed, and none is freed twice. Of the destruction of
the store: no node is left, and every payload that was held is disposed of exactly once. -/
structure NodesSafe (env : Env ω) (a : Failure) (s : Loop ω) : Prop where
  live : a.TouchesLive env s
  once : ∃ frees, (a.run env s).resources.freed = frees ++ s.resources.freed ∧ frees.Nodup
  all : a = .destroyAll → (a.run env s).resources.nodes = [] ∧
    ∃ cleans, (a.run env s).resources.cleaned = cleans ++ s.resources.cleaned ∧
      cleans.Perm (s.resources.nodes.flatMap Res.due)

/-! ### What callbacks leave alone -/

/-- A request of the loop that was not handed to it again keeps its link and its references. The
store is the same but for the next id. -/
structure Bystanding (s t : Loop ω) : Prop where
  bystander : ∀ b ∈ s.accepted, .resubmitted b ∉ t.hazards →
    t.nextPending b = s.nextPending b ∧ t.held b = s.held b
  accepted : s.accepted <:+ t.accepted
  hazards : s.hazards ⊆ t.hazards
  store : t.resources.uncounted = s.resources.uncounted

theorem Bystanding.refl (s : Loop ω) : Bystanding s s :=
  ⟨fun _ _ _ => ⟨rfl, rfl⟩, List.suffix_rfl, List.Subset.refl _, rfl⟩

theorem Bystanding.trans (h : Bystanding s t) (h' : Bystanding t u) : Bystanding s u := by
  refine ⟨fun b hb hz => ?_, h.accepted.trans h'.accepted, List.Subset.trans h.hazards h'.hazards,
    h'.store.trans h.store⟩
  obtain ⟨hlink, hheld⟩ := h.bystander b hb fun hz' => hz (h'.hazards hz')
  obtain ⟨hlink', hheld'⟩ := h'.bystander b (h.accepted.subset hb) hz
  exact ⟨hlink'.trans hlink, hheld'.trans hheld⟩

/-- A function that hands `r` to the loop. -/
theorem Bystanding.of_accept (hlink : ∀ b, b ≠ r → t.nextPending b = s.nextPending b)
    (hreq : ∀ b, b ≠ r → t.req b = s.req b) (hacc : t.accepted = r :: s.accepted)
    (hagain : r ∈ s.accepted → .resubmitted r ∈ t.hazards) (hhaz : s.hazards ⊆ t.hazards)
    (hres : t.resources = s.resources) : Bystanding s t := by
  refine ⟨fun b hb hz => ?_, ?_, hhaz, hres ▸ rfl⟩
  · have hbr : b ≠ r := by
      rintro rfl
      exact hz (hagain hb)
    rw [held, held, hreq b hbr]
    exact ⟨hlink b hbr, rfl⟩
  · rw [hacc]
    exact List.suffix_cons r s.accepted

/-- A function that writes no link, and of requests nothing that matters here. -/
theorem Bystanding.of_held (hlink : t.nextPending = s.nextPending) (hheld : t.held = s.held)
    (hacc : t.accepted = s.accepted) (hhaz : s.hazards ⊆ t.hazards)
    (hstore : t.resources.uncounted = s.resources.uncounted) : Bystanding s t :=
  ⟨fun b _ _ => ⟨congrFun hlink b, congrFun hheld b⟩, hacc ▸ List.suffix_rfl, hhaz, hstore⟩

theorem bystanding_pushPending (s : Loop ω) (r : ReqId) {f : Request → Request} {w : ω} :
    Bystanding s ((({ s with world := w } : Loop ω).modifyReq r f).pushPending r) := by
  refine .of_accept (fun b hb => Function.update_of_ne hb _ _) (fun b hb => ?_) rfl
    (resubmitted_pushPending _) (evolves_pushPending _ r).hazards.subset rfl
  show update (update s.req r (f (s.req r))) r _ b = s.req b
  rw [Function.update_of_ne hb, Function.update_of_ne hb]

theorem held_modifyReq (s : Loop ω) (r : ReqId) {f : Request → Request}
    (hdeps : (f (s.req r)).depHead = (s.req r).depHead)
    (hret : (f (s.req r)).depsRetained = (s.req r).depsRetained) :
    (s.modifyReq r f).held = s.held := by
  funext b
  rw [held, held]
  rcases eq_or_ne b r with rfl | hb
  · have hreq : (s.modifyReq b f).req b = f (s.req b) := Function.update_self ..
    rw [hreq, hdeps, hret]
  · have hreq : (s.modifyReq r f).req b = s.req b := Function.update_of_ne hb ..
    rw [hreq]

theorem bystanding_cancel (s : Loop ω) (r : ReqId) : Bystanding s (s.curlEventLoopCancel r).2 := by
  have hmark : (((s.beware (¬ s.Live r) (.notOwned r)).modifyReq r
      Request.markCancelled)).held = s.held :=
    held_modifyReq (s.beware (¬ s.Live r) (.notOwned r)) r rfl rfl
  have hhaz := (evolves_cancel s r).hazards.subset
  rw [curlEventLoopCancel] at hhaz ⊢
  dsimp only at hhaz ⊢
  split at hhaz
  · rename_i hlink
    rw [if_pos hlink]
    exact .of_held rfl rfl rfl hhaz rfl
  · rename_i hlink
    rw [if_neg hlink]
    split at hhaz
    · rename_i hpend
      rw [if_pos hpend]
      exact .of_held rfl hmark rfl hhaz rfl
    · rename_i hpend
      rw [if_neg hpend]
      exact .of_held rfl hmark rfl hhaz rfl

theorem bystanding_apiCall (env : Env ω) (s : Loop ω) (c : ApiCall) :
    Bystanding s (s.apiCall env c) := by
  cases c with
  | submit r priority =>
    rw [apiCall, curlEventRequestSubmit]
    dsimp only
    split
    · exact .refl s
    · split
      · exact .refl s
      · exact bystanding_pushPending s r
  | loopSubmit r priority => exact bystanding_pushPending s r
  | cancel r => exact bystanding_cancel s r
  | inject w r =>
    exact .of_accept (fun b hb => Function.update_of_ne hb _ _)
      (fun b hb => Function.update_of_ne hb _ _) rfl (resubmitted_inject s)
      (evolves_inject s w r).hazards.subset rfl
  | registerAsync thread payload cleanup =>
    exact .of_held rfl rfl rfl (List.Subset.refl _) rfl
  | publishAsync thread id payload cleanup =>
    exact .of_held rfl rfl rfl (List.Subset.refl _) rfl
  | releaseAsync thread id => exact .of_held rfl rfl rfl (List.Subset.refl _) rfl

theorem bystanding_apiCalls (env : Env ω) (cs : List ApiCall) (s : Loop ω) :
    Bystanding s (s.apiCalls env cs) := by
  induction cs generalizing s with
  | nil => exact .refl s
  | cons c cs ih => exact (bystanding_apiCall env s c).trans (ih _)

/-! ### Failing a list of requests -/

theorem resources_destroy (s : Loop ω) (r : ReqId) : (s.curlEventRequestDestroy r).resources =
    s.resources.curlResourceReleaseRequestDeps (s.held r) := by
  have hreq : ((s.beware (r ∈ s.cancelledList) (.destroyedCancelled r)).curlEventLoopRequestCleanup
      r).req r = (s.req r).cleaned := Function.update_self ..
  rw [curlEventRequestDestroy, releaseRetained]
  dsimp only
  rw [hreq, held]
  cases h : (s.req r).depsRetained with
  | false =>
    rw [if_neg (by simp [Request.cleaned, h]), if_neg (by simp)]
    rfl
  | true =>
    rw [if_pos (by simp [Request.cleaned, h]), if_pos rfl]
    rfl

/-- What failing a request does: it lets go of its references, and the other requests of the loop
stay as they are. -/
structure Fails (r : ReqId) (s t : Loop ω) : Prop where
  bystander : ∀ b ∈ s.accepted, b ≠ r → .resubmitted b ∉ t.hazards →
    t.nextPending b = s.nextPending b ∧ t.held b = s.held b
  accepted : s.accepted <:+ t.accepted
  hazards : s.hazards ⊆ t.hazards
  store : r ∈ s.accepted → .resubmitted r ∉ t.hazards → t.resources.uncounted =
    s.resources.uncounted.curlResourceReleaseRequestDeps (s.held r)

theorem fails_destroy (s : Loop ω) (r : ReqId) : Fails r s (s.curlEventRequestDestroy r) where
  bystander b _ hb _ := by
    refine ⟨rfl, ?_⟩
    rw [held, held, req_destroy, Function.update_of_ne hb]
  accepted := List.suffix_rfl
  hazards := (evolves_destroy (q := True) s r).hazards.subset
  store _ _ := by rw [resources_destroy, Resources.uncounted_releaseDeps]

theorem Fails.after (h : Fails r t u) (hs : Bystanding s t) : Fails r s u where
  bystander b hb hbr hz := by
    obtain ⟨hlink, hheld⟩ := hs.bystander b hb fun hz' => hz (h.hazards hz')
    obtain ⟨hlink', hheld'⟩ := h.bystander b (hs.accepted.subset hb) hbr hz
    exact ⟨hlink'.trans hlink, hheld'.trans hheld⟩
  accepted := hs.accepted.trans h.accepted
  hazards := List.Subset.trans hs.hazards h.hazards
  store hr hz := by
    rw [h.store (hs.accepted.subset hr) hz, hs.store,
      (hs.bystander r hr fun hz' => hz (h.hazards hz')).2]

/-- The link of the request is cleared and its callback is called. -/
theorem Fails.afterCall {env : Env ω}
    (h : Fails r ((s.setNextPending r none).callOnAborted env r).2 t) : Fails r s t := by
  obtain ⟨w, tr, heq⟩ := callOnAborted_eq env (s.setNextPending r none) r
  rw [heq] at h
  refine ⟨fun b hb hbr hz => ?_, h.accepted, h.hazards, h.store⟩
  obtain ⟨hlink, hheld⟩ := h.bystander b hb hbr hz
  have hset : (s.setNextPending r none).nextPending b = s.nextPending b :=
    Function.update_of_ne hbr _ _
  exact ⟨hlink.trans hset, hheld⟩

/-- The entry is followed first. -/
theorem Fails.follow (h : Fails r (s.follow r) t) : Fails r s t := by
  rw [Loop.follow] at h
  split at h
  · exact ⟨h.bystander, h.accepted, h.hazards, h.store⟩
  · exact h

theorem fails_wakeOrFail (env : Env ω) (r : ReqId) (s : Loop ω) :
    Fails r s (s.wakeOrFail env true r) := by
  rw [wakeOrFail]
  dsimp only
  rw [if_pos rfl]
  exact ((fails_destroy _ r).after (bystanding_apiCalls env _ _)).afterCall

theorem fails_failLate (env : Env ω) (r : ReqId) (s : Loop ω) : Fails r s (s.failLate env r) := by
  have hbeware : ∀ (t : Loop ω) (c : Prop) [Decidable c],
      Bystanding t (t.beware c (.lateCall r)) := by
    intro t c _
    refine .of_held rfl rfl rfl (fun x hx => ?_) rfl
    rw [beware]
    dsimp only
    split
    · exact List.mem_cons_of_mem _ hx
    · exact hx
  exact ((fails_destroy _ r).after (hbeware _ _)).afterCall

/-- Nobody was handed to the loop a second time. -/
def Unresubmitted (s : Loop ω) : Prop := ∀ b, .resubmitted b ∉ s.hazards

/-- What failing a list of requests does: they let go of their references, and the other requests
of the loop stay as they are. -/
structure FailedAll (ws : List ReqId) (s t : Loop ω) : Prop where
  bystander : ∀ b ∈ s.accepted, b ∉ ws → t.nextPending b = s.nextPending b ∧ t.held b = s.held b
  accepted : s.accepted <:+ t.accepted
  store : t.resources.uncounted =
    s.resources.uncounted.curlResourceReleaseRequestDeps (ws.flatMap s.held)

section Walk

variable {f : ReqId → Loop ω → Loop ω} {a : ReqId} {ws : List ReqId} {n : ℕ} {p : Option ReqId}

/-- What failing the first request leaves of the others. -/
theorem Fails.rest (h : Fails a s t) (hnd : (a :: ws).Nodup) (hacc : ∀ b ∈ a :: ws, b ∈ s.accepted)
    (hz : t.Unresubmitted) : (∀ b ∈ ws, t.nextPending b = s.nextPending b) ∧
      (∀ b ∈ ws, t.held b = s.held b) ∧ ∀ b ∈ ws, b ∈ t.accepted := by
  have hother : ∀ b ∈ ws, b ≠ a := fun b hb => ne_of_mem_of_not_mem hb (List.nodup_cons.mp hnd).1
  have hin : ∀ b ∈ ws, b ∈ s.accepted := fun b hb => hacc b (List.mem_cons_of_mem a hb)
  exact ⟨fun b hb => (h.bystander b (hin b hb) (hother b hb) (hz b)).1,
    fun b hb => (h.bystander b (hin b hb) (hother b hb) (hz b)).2,
    fun b hb => h.accepted.subset (hin b hb)⟩

theorem Fails.keyed (h : Fails a s t) (ha : a ∈ s.accepted) (hz : .resubmitted a ∉ t.hazards)
    (hs : s.resources.Keyed) : t.resources.Keyed := by
  have hview : t.resources.Keyed ↔ t.resources.uncounted.Keyed := Iff.rfl
  rw [hview, h.store ha hz]
  exact Resources.Keyed.sublist hs (Resources.ids_releaseDeps _ _)

/-- What becomes of a node. -/
theorem Fails.resFind (h : Fails a s t) (ha : a ∈ s.accepted) (hz : .resubmitted a ∉ t.hazards)
    {m : Res} (hm : s.resources.resFind id = some m) :
    t.resources.resFind id = m.aged ((s.held a).count id) := by
  have hview : t.resources.resFind id = t.resources.uncounted.resFind id := rfl
  have hfind : s.resources.uncounted.resFind id = some m := hm
  rw [hview, h.store ha hz, Resources.resFind_releaseDeps_aged, hfind, Option.bind_some]

theorem FailedAll.cons (h : Fails a s t) (h' : FailedAll ws t u) (hnd : (a :: ws).Nodup)
    (hacc : ∀ b ∈ a :: ws, b ∈ s.accepted) (hz : t.Unresubmitted) : FailedAll (a :: ws) s u where
  bystander b hb hbw := by
    obtain ⟨hba, hbw⟩ := not_or.mp fun hor => hbw (List.mem_cons.mpr hor)
    obtain ⟨hlink, hheld⟩ := h.bystander b hb hba (hz b)
    obtain ⟨hlink', hheld'⟩ := h'.bystander b (h.accepted.subset hb) hbw
    exact ⟨hlink'.trans hlink, hheld'.trans hheld⟩
  accepted := h.accepted.trans h'.accepted
  store := by
    have hheld : ws.flatMap t.held = ws.flatMap s.held :=
      List.flatMap_congr (h.rest hnd hacc hz).2.1
    rw [h'.store, h.store (hacc a List.mem_cons_self) (hz a), hheld, List.flatMap_cons]
    exact (List.foldl_append ..).symm

variable (hf : ∀ b (t : Loop ω), Fails b t (f b t))

include hf

theorem unresubmitted_of_forEach
    (hz : (Intrusive.forEach (fun (t : Loop ω) b => t.nextPending b) f n p s).Unresubmitted) :
    s.Unresubmitted :=
  Intrusive.forEach_reflect (G := Unresubmitted)
    (fun b t ht x hx => ht x ((hf b t).hazards hx)) hz

/-- **Failing a list.** -/
theorem failedAll_forEach (hn : ws.length ≤ n) (hc : Intrusive.IsChain s.nextPending p ws)
    (hnd : ws.Nodup) (hacc : ∀ b ∈ ws, b ∈ s.accepted)
    (hz : (Intrusive.forEach (fun (t : Loop ω) b => t.nextPending b) f n p s).Unresubmitted) :
    FailedAll ws s (Intrusive.forEach (fun (t : Loop ω) b => t.nextPending b) f n p s) := by
  induction ws generalizing n p s with
  | nil =>
    obtain rfl : p = none := hc
    rw [Intrusive.forEach_none]
    exact ⟨fun _ _ _ => ⟨rfl, rfl⟩, List.suffix_rfl, rfl⟩
  | cons a ws ih =>
    obtain ⟨rfl, hc⟩ := hc
    cases n with
    | zero => simp at hn
    | succ n =>
      rw [Intrusive.forEach] at hz ⊢
      have hz' := unresubmitted_of_forEach hf hz
      obtain ⟨hlink, -, hin⟩ := (hf a s).rest hnd hacc hz'
      refine .cons (hf a s) ?_ hnd hacc hz'
      exact ih (by simpa using hn) (hc.congr hlink) (List.nodup_cons.mp hnd).2 hin hz

/-- **When a node outlasts** the requests of a list: the references of all of them but the last do
not kill it. -/
theorem live_visits_iff (hn : ws.length ≤ n) (hc : Intrusive.IsChain s.nextPending p ws)
    (hnd : ws.Nodup) (hacc : ∀ b ∈ ws, b ∈ s.accepted)
    (hz : (Intrusive.forEach (fun (t : Loop ω) b => t.nextPending b) f n p s).Unresubmitted)
    (hs : s.resources.Keyed) {m : Res} (hm : s.resources.resFind id = some m) :
    (∀ v ∈ Intrusive.visits (fun (t : Loop ω) b => t.nextPending b) f n p s,
      (v.2.resources.resFind id).isSome) ↔ ¬ m.Dies ((ws.dropLast.flatMap s.held).count id) := by
  induction ws generalizing n p s m with
  | nil =>
    obtain rfl : p = none := hc
    rw [Intrusive.visits_none]
    exact ⟨fun _ => m.not_dies_zero, fun _ v hv => absurd hv List.not_mem_nil⟩
  | cons a ws ih =>
    obtain ⟨rfl, hc⟩ := hc
    cases n with
    | zero => simp at hn
    | succ n =>
      have hn' : ws.length ≤ n := by simpa using hn
      rw [Intrusive.forEach] at hz
      have hz' := unresubmitted_of_forEach hf hz
      have hhere : (s.resources.resFind id).isSome := by
        rw [hm]
        rfl
      rw [Intrusive.visits, List.forall_mem_cons, and_iff_right hhere]
      cases ws with
      | nil =>
        have hlast : s.nextPending a = none := hc
        rw [hlast, Intrusive.visits_none]
        exact ⟨fun _ => m.not_dies_zero, fun _ v hv => absurd hv List.not_mem_nil⟩
      | cons b ws =>
        obtain ⟨hlink, hheld, hin⟩ := (hf a s).rest hnd hacc hz'
        have hfind := (hf a s).resFind (hacc a List.mem_cons_self) (hz' a) hm
        have hrest : (b :: ws).dropLast.flatMap (f a s).held =
            (b :: ws).dropLast.flatMap s.held :=
          List.flatMap_congr fun c hmem => hheld c (List.dropLast_subset _ hmem)
        rw [List.dropLast_cons_cons, List.flatMap_cons, List.count_append]
        rw [Res.aged] at hfind
        split at hfind
        · -- the node goes with the first request, and is looked at before the second
          rename_i hdies
          refine ⟨fun h => ?_, fun h => absurd (hdies.mono _) h⟩
          have hsecond : ((f a s).resources.resFind id).isSome := by
            refine h (b, f a s) ?_
            cases n with
            | zero => simp at hn'
            | succ n =>
              rw [hc.1, Intrusive.visits]
              exact List.mem_cons_self
          rw [hfind] at hsecond
          exact absurd hsecond (by simp)
        · rename_i hdies
          have hkeyed := (hf a s).keyed (hacc a List.mem_cons_self) (hz' a) hs
          rw [ih hn' (hc.congr hlink) (List.nodup_cons.mp hnd).2 hin hz hkeyed hfind, hrest,
            Res.dies_unrefs_iff hdies]

end Walk

/-! ### The waiting requests -/

theorem Located.waiters_eq (h : Located s v) (id : ResId) : s.waiters id = v (.blocked id) :=
  Intrusive.walk_eq (h.linked.blocked id) (h.length_le _)

theorem Located.isChain_waiters (h : Located s v) (id : ResId) :
    Intrusive.IsChain s.nextPending (s.resources.blockedHead id) (s.waiters id) :=
  h.waiters_eq id ▸ h.linked.blocked id

theorem Located.nodup_waiters (h : Located s v) (id : ResId) : (s.waiters id).Nodup :=
  h.waiters_eq id ▸ h.placed.nodup _

theorem Located.accepted_of_waiters (h : Located s v) (id : ResId) :
    ∀ b ∈ s.waiters id, b ∈ s.accepted := fun _ hb =>
  h.accepted_of_mem (p := .blocked id) (h.waiters_eq id ▸ hb)

theorem Located.length_waiters_le (h : Located s v) (id : ResId) :
    (s.waiters id).length ≤ s.accepted.length := h.waiters_eq id ▸ h.length_le _

/-- A request waits for one resource. -/
theorem Located.notMem_waiters (h : Located s v) {b : ReqId} {id id' : ResId} (hid : id ≠ id') :
    b ∈ s.waiters id → b ∉ s.waiters id' := by
  intro hb
  rw [h.waiters_eq] at hb ⊢
  exact h.placed.notMem_of_ne hb (by simpa using hid)

theorem blockedHead_of_mem (hs : s.resources.Keyed) {m : Res} (hm : m ∈ s.resources.nodes) :
    s.resources.blockedHead m.id = m.blockedHead := by
  have hfind : s.resources.resFind m.id = some m := OrderedMap.find_of_mem hs hm
  rw [Resources.blockedHead, hfind, Option.bind_some]

/-! ### Publishing a failure -/

section Publish

variable {cleanup : Bool}

theorem keyed_publishPayload (hs : s.resources.Keyed) (id : ResId) (payload : Option Payload)
    (cleanup : Bool) : (s.resources.publishPayload id payload cleanup).2.Keyed := by
  have hfound : (s.resources.resGetOrCreate id).2.Keyed := by
    rw [Resources.resGetOrCreate]
    split
    · exact hs
    · exact OrderedMap.nodup_insertUnique hs
  rw [Resources.Keyed, Resources.publishPayload, Resources.ids_put]
  exact hfound

theorem resFind_publishPayload (id : ResId) (payload : Option Payload) (cleanup : Bool) :
    (s.resources.publishPayload id payload cleanup).2.resFind id =
      some ((s.resources.resGetOrCreate id).1.publish payload cleanup) := by
  have hid : ((s.resources.resGetOrCreate id).1.publish payload cleanup).id = id :=
    Resources.id_resGetOrCreate _ id
  rw [Resources.publishPayload, Resources.resFind_put, hid, if_pos rfl, Resources.resFind_clean,
    Resources.resFind_getOrCreate, if_pos rfl]
  rfl

theorem freed_publishPayload (id : ResId) (payload : Option Payload) (cleanup : Bool) :
    (s.resources.publishPayload id payload cleanup).2.freed = s.resources.freed := by
  have hfound : (s.resources.resGetOrCreate id).2.freed = s.resources.freed := by
    rw [Resources.resGetOrCreate]
    split <;> rfl
  exact hfound

/-- The list that a publication detaches. -/
theorem fst_publishPayload (id : ResId) (payload : Option Payload) (cleanup : Bool) :
    (s.resources.publishPayload id payload cleanup).1 = s.resources.blockedHead id := by
  show (s.resources.resGetOrCreate id).1.blockedHead = _
  rw [Resources.resGetOrCreate_fst, Resources.blockedHead]
  cases s.resources.resFind id <;> rfl

/-- The requests that wait are failed one after the other, the node's entry being looked at. -/
theorem fails_wakeRound (env : Env ω) (r : ReqId) (s : Loop ω) :
    Fails r s (wakeOrFail env true r (s.follow r)) := (fails_wakeOrFail env r (s.follow r)).follow

theorem touchesLive_publishNull_iff (h : Located s v) (hs : s.resources.Keyed)
    (hz : (s.curlEventResPublish env id none cleanup).Unresubmitted) :
    (Failure.publishNull id cleanup).TouchesLive env s ↔
      (Failure.publishNull id cleanup).Spares s := by
  have hchain := h.isChain_waiters id
  rw [← fst_publishPayload id none cleanup] at hchain
  have hbare : ∀ c, ((s.resources.resGetOrCreate id).1.publish none cleanup).Dies c ↔
      ((s.resources.resGetOrCreate id).1.publish none cleanup).Overtaken 0 c := fun c =>
    Res.dies_noWaiters_iff ((s.resources.resGetOrCreate id).1.publish none cleanup) c
  have hlive := live_visits_iff (s := s.setResources (s.resources.publishPayload id none cleanup).2)
    (fails_wakeRound env) (h.length_waiters_le id) hchain (h.nodup_waiters id)
    (h.accepted_of_waiters id) hz (keyed_publishPayload hs id none cleanup)
    (resFind_publishPayload id none cleanup)
  rw [hbare] at hlive
  exact hlive

/-- A publication frees no node twice. -/
theorem once_publishNull (h : Located s v) (hs : s.resources.Keyed)
    (hz : (s.curlEventResPublish env id none cleanup).Unresubmitted) :
    ∃ frees, (s.curlEventResPublish env id none cleanup).resources.freed =
      frees ++ s.resources.freed ∧ frees.Nodup := by
  have hchain := h.isChain_waiters id
  rw [← fst_publishPayload id none cleanup] at hchain
  have hkeyed := keyed_publishPayload hs id none cleanup
  have hall := failedAll_forEach
    (s := s.setResources (s.resources.publishPayload id none cleanup).2)
    (fails_wakeRound env) (h.length_waiters_le id) hchain (h.nodup_waiters id)
    (h.accepted_of_waiters id) hz
  have huncounted : (s.resources.publishPayload id none cleanup).2.uncounted.Keyed := hkeyed
  obtain ⟨frees, hfreed, hnd⟩ := (Resources.disposes_releaseDeps huncounted
    ((s.waiters id).flatMap s.held)).once huncounted
  have hstore : (s.curlEventResPublish env id none cleanup).resources.uncounted =
      (s.resources.publishPayload id none cleanup).2.uncounted.curlResourceReleaseRequestDeps
        ((s.waiters id).flatMap s.held) := hall.store
  rw [← hstore] at hfreed
  exact ⟨frees, hfreed.trans (congrArg _ (freed_publishPayload id none cleanup)), hnd⟩

end Publish

/-! ### Destroying the store -/

/-- What the rounds of `curl_resource_destroy_all` keep, of the state `s` it begins with: the requests
that wait for the nodes that are left are untouched. -/
structure Failing (s t : Loop ω) : Prop where
  keyed : t.resources.Keyed
  unresubmitted : t.Unresubmitted
  accepted : s.accepted <:+ t.accepted
  chain : ∀ m ∈ t.resources.nodes,
    Intrusive.IsChain t.nextPending m.blockedHead (s.waiters m.id)
  held : ∀ m ∈ t.resources.nodes, ∀ b ∈ s.waiters m.id, t.held b = s.held b

theorem Unresubmitted.beware (h : s.Unresubmitted) {x : Hazard} (hx : ∀ b, .resubmitted b ≠ x)
    (c : Prop) [Decidable c] : (s.beware c x).Unresubmitted := by
  intro b hb
  rw [Loop.beware] at hb
  dsimp only at hb
  split at hb
  · exact (List.mem_cons.mp hb).elim (hx b) (h b)
  · exact h b hb

theorem Unresubmitted.destroy (h : s.Unresubmitted) (r : ReqId) :
    (s.curlEventRequestDestroy r).Unresubmitted :=
  h.beware (by simp) (r ∈ s.cancelledList)

theorem Unresubmitted.failLate (h : s.Unresubmitted) (env : Env ω) (r : ReqId) :
    (s.failLate env r).Unresubmitted := by
  obtain ⟨w, tr, heq⟩ := callOnAborted_eq env (s.setNextPending r none) r
  have hcall : ((s.setNextPending r none).callOnAborted env r).2.Unresubmitted := by
    rw [heq]
    exact h
  exact (hcall.beware (by simp) _).destroy r

theorem Unresubmitted.failWaiters (h : s.Unresubmitted) (env : Env ω) (n : Res) :
    (s.failWaiters env n).Unresubmitted := by
  refine Intrusive.forEach_invariant (P := Unresubmitted) (fun r u hu => ?_) h
  have hfollow : (u.follow r).Unresubmitted := by
    rw [Unresubmitted, hazards_follow]
    exact hu
  exact hfollow.failLate env r

/-- The waiting requests are failed. -/
theorem Failing.failedAll (h : Failing s t) (env : Env ω) (hloc : Located s v) {n : Res}
    (hn : n ∈ t.resources.nodes) :
    FailedAll (s.waiters n.id) (t.setResources (t.resources.put n.noWaiters))
      (t.failWaiters env n) := by
  have hlate : ∀ r (u : Loop ω), Fails r u ((u.follow r).failLate env r) := fun r u =>
    (fails_failLate env r (u.follow r)).follow
  refine failedAll_forEach hlate ?_ (h.chain n hn) (hloc.nodup_waiters n.id) ?_ ?_
  · exact le_trans (hloc.length_waiters_le n.id) h.accepted.length_le
  · exact fun b hb => h.accepted.subset (hloc.accepted_of_waiters n.id b hb)
  · exact h.unresubmitted.failWaiters env n

/-- **A round**, as far as the store goes. -/
theorem Failing.uncounted_destroyFirstRes (h : Failing s t) (env : Env ω) (hloc : Located s v)
    {n : Res} (hn : n ∈ t.resources.nodes) : (t.destroyFirstRes env n).resources.uncounted =
      Resources.tearDownFirst s.load n t.resources.uncounted := by
  have hheld : (s.waiters n.id).flatMap t.held = s.load n.id :=
    List.flatMap_congr (h.held n hn)
  have hstore : (t.failWaiters env n).resources.uncounted =
      (t.resources.put n.noWaiters).uncounted.curlResourceReleaseRequestDeps
        ((s.waiters n.id).flatMap t.held) := (h.failedAll env hloc hn).store
  rw [hheld] at hstore
  show ((t.failWaiters env n).resources.uncounted.clean n).free n.id = _
  rw [hstore]
  rfl

/-- **Step lemma.** -/
theorem Failing.destroyFirstRes (h : Failing s t) (hloc : Located s v) {n : Res}
    (hn : t.resources.nodes.head? = some n) : Failing s (t.destroyFirstRes env n) := by
  have hmem : n ∈ t.resources.nodes := List.mem_of_mem_head? hn
  obtain ⟨l, hl⟩ : ∃ l, t.resources.nodes = n :: l := List.head?_eq_some_iff.mp hn
  have hall := h.failedAll env hloc hmem
  have hstore := h.uncounted_destroyFirstRes env hloc hmem
  have hnodes : (t.destroyFirstRes env n).resources.nodes =
      l.filterMap fun m => m.aged ((s.load n.id).count m.id) := by
    show (t.destroyFirstRes env n).resources.uncounted.nodes = _
    rw [hstore]
    exact Resources.nodes_tearDownFirst (s := t.resources.uncounted) h.keyed hl s.load
  -- a node that is left was there before, and other requests wait for it
  have hleft : ∀ m ∈ (t.destroyFirstRes env n).resources.nodes, ∃ b ∈ t.resources.nodes,
      m.id = b.id ∧ m.blockedHead = b.blockedHead ∧ b.id ≠ n.id := by
    intro m hm
    rw [hnodes] at hm
    obtain ⟨b, hb, hbm⟩ := List.mem_filterMap.mp hm
    exact ⟨b, hl ▸ List.mem_cons_of_mem n hb, congrArg Prod.fst (Res.estate_of_aged hbm),
      Res.blockedHead_of_aged hbm, Resources.notMem_tail h.keyed hl hb⟩
  have hother : ∀ b ∈ t.resources.nodes, b.id ≠ n.id → ∀ c ∈ s.waiters b.id,
      (t.destroyFirstRes env n).nextPending c = t.nextPending c ∧
        (t.destroyFirstRes env n).held c = t.held c := fun b _ hbn c hc =>
    hall.bystander c (h.accepted.subset (hloc.accepted_of_waiters b.id c hc))
      (hloc.notMem_waiters hbn hc)
  refine ⟨?_, ?_, h.accepted.trans hall.accepted, fun m hm => ?_, fun m hm c hc => ?_⟩
  · show (t.destroyFirstRes env n).resources.uncounted.Keyed
    rw [hstore]
    exact Resources.keyed_tearDownFirst (s := t.resources.uncounted) h.keyed s.load n
  · exact h.unresubmitted.failWaiters env n
  · obtain ⟨b, hb, hid, hhead, hbn⟩ := hleft m hm
    rw [hid, hhead]
    exact (h.chain b hb).congr fun c hc => (hother b hb hbn c hc).1
  · obtain ⟨b, hb, hid, -, hbn⟩ := hleft m hm
    rw [hid] at hc
    exact (hother b hb hbn c hc).2.trans (h.held b hb c hc)

theorem Failing.refl (hloc : Located s v) (hs : s.resources.Keyed) (hz : s.Unresubmitted) :
    Failing s s := by
  refine ⟨hs, hz, List.suffix_rfl, fun m hm => ?_, fun m _ b _ => rfl⟩
  have hchain := hloc.isChain_waiters m.id
  rw [blockedHead_of_mem hs hm] at hchain
  exact hchain

/-- Nobody waits for a node without waiting list. -/
theorem load_eq_nil (hs : s.resources.Keyed) {m : Res} (hm : m ∈ s.resources.nodes)
    (hhead : m.blockedHead = none) : s.load m.id = [] := by
  have hnone : s.waiters m.id = [] := by
    rw [waiters, blockedHead_of_mem hs hm, hhead, pendingChain]
    cases s.accepted.length <;> rfl
  rw [load, hnone, List.flatMap_nil]

/-- When a node is there at the end of its turn. -/
theorem Failing.isSome_iff (h : Failing s t) (hloc : Located s v) {n : Res}
    (hn : t.resources.nodes.head? = some n) :
    ((t.failWaiters env n).resources.resFind n.id).isSome ↔
      ¬ n.Overtaken 0 ((s.load n.id).count n.id) := by
  obtain ⟨l, hl⟩ : ∃ l, t.resources.nodes = n :: l := List.head?_eq_some_iff.mp hn
  have hmem : n ∈ t.resources.nodes := List.mem_of_mem_head? hn
  have hstore : (t.failWaiters env n).resources.uncounted =
      (t.resources.put n.noWaiters).uncounted.curlResourceReleaseRequestDeps
        ((s.waiters n.id).flatMap t.held) := (h.failedAll env hloc hmem).store
  have hheld : (s.waiters n.id).flatMap t.held = s.load n.id := List.flatMap_congr (h.held n hmem)
  have hfind := Resources.resFind_tearDownFirst (s := t.resources.uncounted) h.keyed hl s.load
  show ((t.failWaiters env n).resources.uncounted.resFind n.id).isSome ↔ _
  rw [hstore, hheld]
  rw [show (t.resources.put n.noWaiters).uncounted = t.resources.uncounted.put n.noWaiters from rfl,
    hfind]
  split
  · rename_i hover
    exact ⟨fun h => absurd h (by simp), fun h => absurd hover h⟩
  · rename_i hover
    exact ⟨fun _ => hover, fun _ => rfl⟩

section DestroyAll

variable (hloc : Located s v) (hs : s.resources.Keyed) (hz : s.Unresubmitted)

include hloc hs hz

/-- The loop does to the store what the loop on the store alone does. -/
theorem rounds_destroyFirstRes (env : Env ω) :
    (OrderedMap.rounds (fun t : Loop ω => t.resources.nodes.head?) (Loop.destroyFirstRes env)
        s.resources.nodes.length s).map (fun p => (p.1, p.2.resources.uncounted)) =
      OrderedMap.rounds (fun t : Resources => t.nodes.head?) (Resources.tearDownFirst s.load)
        s.resources.nodes.length s.resources.uncounted ∧
    (OrderedMap.whileFirst (fun t : Loop ω => t.resources.nodes.head?)
        (fun n t => .yield (t.destroyFirstRes env n)) s.resources.nodes.length
        s).resources.uncounted =
      OrderedMap.whileFirst (fun t : Resources => t.nodes.head?)
        (fun n t => .yield (Resources.tearDownFirst s.load n t)) s.resources.nodes.length
        s.resources.uncounted :=
  OrderedMap.rounds_sim (P := Failing s) (v := fun t : Loop ω => t.resources.uncounted)
    (g := fun t : Loop ω => t.resources.nodes.head?) (fun _ _ => rfl) (fun _ _ ht hn => ⟨ht.destroyFirstRes hloc hn,
      ht.uncounted_destroyFirstRes env hloc (List.mem_of_mem_head? hn)⟩) (.refl hloc hs hz)

/-- **When every node is there** at the end of its turn. -/
theorem touchesLive_destroyAll_iff (env : Env ω) :
    Failure.destroyAll.TouchesLive env s ↔ Failure.destroyAll.Spares s := by
  have hrule := OrderedMap.rounds_rule (P := Failing s)
    (g := fun t : Loop ω => t.resources.nodes.head?) (f := Loop.destroyFirstRes env)
    (n := s.resources.nodes.length) (fun n t ht hn => ht.destroyFirstRes hloc hn)
    (.refl hloc hs hz)
  have hidle : ∀ m ∈ s.resources.uncounted.nodes, m.blockedHead = none → s.load m.id = [] :=
    fun m hm => load_eq_nil hs hm
  have hkeyed : s.resources.uncounted.Keyed := hs
  calc Failure.destroyAll.TouchesLive env s
      ↔ ∀ v ∈ OrderedMap.rounds (fun t : Loop ω => t.resources.nodes.head?)
          (Loop.destroyFirstRes env) s.resources.nodes.length s,
          ¬ v.1.Overtaken 0 ((s.load v.1.id).count v.1.id) :=
        forall₂_congr fun v hv => (hrule v hv).1.isSome_iff hloc (hrule v hv).2
    _ ↔ ∀ p ∈ OrderedMap.rounds (fun t : Resources => t.nodes.head?)
          (Resources.tearDownFirst s.load) s.resources.nodes.length s.resources.uncounted,
          ¬ p.1.Overtaken 0 ((s.load p.1.id).count p.1.id) := by
        rw [← (rounds_destroyFirstRes hloc hs hz env).1, List.forall_mem_map]
    _ ↔ Failure.destroyAll.Spares s := Resources.forall_rounds_iff hkeyed hidle le_rfl

/-- **Everything is disposed of once**, if every node is there at the end of its turn. -/
theorem disposes_destroyAll (env : Env ω) (h : Failure.destroyAll.Spares s) :
    s.resources.uncounted.Disposes (s.curlResourceDestroyAll env).resources.uncounted ∧
      (s.curlResourceDestroyAll env).resources.nodes = [] := by
  have hidle : ∀ m ∈ s.resources.uncounted.nodes, m.blockedHead = none → s.load m.id = [] :=
    fun m hm => load_eq_nil hs hm
  have hkeyed : s.resources.uncounted.Keyed := hs
  obtain ⟨hdisp, hempty⟩ :=
    Resources.disposes_tearDown (k := s.resources.nodes.length) hkeyed hidle le_rfl h
  rw [← (rounds_destroyFirstRes hloc hs hz env).2] at hdisp hempty
  have hnone : (s.curlResourceDestroyAll env).resources.uncounted =
      (OrderedMap.whileFirst (fun t : Loop ω => t.resources.nodes.head?)
        (fun n t => .yield (t.destroyFirstRes env n)) s.resources.nodes.length
        s).resources.uncounted := by
    have hnodes : ∀ store : Resources, store.uncounted.nodes = [] →
        ({ store with nodes := [] } : Resources).uncounted = store.uncounted := by
      intro store hstore
      have heq : store.nodes = [] := hstore
      rw [Resources.uncounted, Resources.uncounted, heq]
    exact hnodes _ hempty
  exact ⟨hnone ▸ hdisp, rfl⟩

end DestroyAll

/-! ### The law -/

/-- **No node is touched or freed after it was freed** exactly if the count of none falls to one too
early, for every store, every set of requests that wait, every count and every set of nodes that
release their owner. -/
theorem nodesSafe_iff (env : Env ω) (a : Failure) (h : s.AtRest strict)
    (hs : s.resources.Keyed) (ht : a.Tame env s) : s.NodesSafe env a ↔ a.Spares s := by
  obtain ⟨v, C, hwf, -⟩ := h
  have hloc := hwf.located
  have hz : (a.run env s).Unresubmitted := fun r => (ht r).1
  cases a with
  | publishNull id cleanup =>
    have hlive := touchesLive_publishNull_iff hloc hs hz
    exact ⟨fun h => hlive.mp h.live, fun h => ⟨hlive.mpr h, once_publishNull hloc hs hz, nofun⟩⟩
  | destroyAll =>
    have hz' : s.Unresubmitted := fun r hr =>
      hz r ((evolves_destroyAll env s).hazards.subset hr)
    have hlive := touchesLive_destroyAll_iff hloc hs hz' env
    refine ⟨fun h => hlive.mp h.live, fun h => ?_⟩
    obtain ⟨hdisp, hempty⟩ := disposes_destroyAll hloc hs hz' env h
    have hkeyed : s.resources.uncounted.Keyed := hs
    exact ⟨hlive.mpr h, hdisp.once hkeyed, fun _ => ⟨hempty, hdisp.all hempty⟩⟩

/-- Two requests wait for a resource that was declared. It releases its owner, and when the second
request is failed that is what happens; a publication is safe nevertheless. -/
theorem nodesSafe_iff_declared :
    let s := Guarded.run (Loop.act Env.uneventful)
      (curlEventLoopInit (Memory.plain fun _ => [1]) ())
      [.call .declare, .call (.autoreleaseOwner 1 true), .call (.api (.submit 1 0)),
        .call (.api (.submit 2 0)), .processCancelledAndPendingRequests]
    s.NodesSafe Env.uneventful (.publishNull 1 false) ∧
      (s.curlEventResPublish Env.uneventful 1 none false).resources.freed = [1] := by
  intro s
  have hz : s.hazards = [] := by decide +kernel
  have hz' : (s.curlEventResPublish Env.uneventful 1 none false).hazards = [] := by decide +kernel
  have htame : (Failure.publishNull 1 false).Tame Env.uneventful s := fun r => by
    show Hazard.resubmitted r ∉ (s.curlEventResPublish Env.uneventful 1 none false).hazards ∧
      Hazard.lateCall r ∉ (s.curlEventResPublish Env.uneventful 1 none false).hazards
    rw [hz']
    exact ⟨List.not_mem_nil, List.not_mem_nil⟩
  have hkeyed : s.resources.ids.Nodup := by decide +kernel
  refine ⟨(nodesSafe_iff Env.uneventful _ (atRest_true.mpr (resting_run _ _ hz)) hkeyed htame).mpr
    ?_, by decide +kernel⟩
  decide +kernel

/-- The count of the node falls to one while `curl_resource_destroy_all` is failing the request that
waits, and the node is freed twice. It falls to one while a publication is failing the first of two
requests, if the node has no owner, and the node is looked at once more. -/
theorem not_nodesSafe_autoReleased :
    let s := Guarded.run (Loop.act Env.uneventful)
      (curlEventLoopInit (Memory.plain fun _ => [1]) ())
      [.call .declare, .call (.autoreleaseOwner 1 true), .call (.api (.submit 1 0)),
        .processCancelledAndPendingRequests]
    let s' := Guarded.run (Loop.act Env.uneventful)
      (curlEventLoopInit (Memory.plain fun _ => [5]) ())
      [.call (.autoreleaseOwner 5 true), .call (.api (.submit 1 0)), .call (.api (.submit 2 0)),
        .processCancelledAndPendingRequests]
    ¬ s.NodesSafe Env.uneventful .destroyAll ∧
      ¬ s'.NodesSafe Env.uneventful (.publishNull 5 false) := by
  intro s s'
  have hfreed : (s.curlResourceDestroyAll Env.uneventful).resources.freed = [1, 1] ∧
      s.resources.freed = [] := by decide +kernel
  refine ⟨fun h => ?_, fun h => ?_⟩
  · obtain ⟨frees, heq, hnd⟩ := h.once
    have heq' : [1, 1] = frees ++ [] := by
      rw [← hfreed.1, ← hfreed.2]
      exact heq
    rw [List.append_nil] at heq'
    rw [← heq'] at hnd
    exact absurd hnd (by decide)
  · have hlive : ∀ v ∈ Intrusive.visits (fun (t : Loop Unit) r => t.nextPending r)
        (fun r t => Loop.wakeOrFail Env.uneventful true r (t.follow r)) s'.accepted.length
        (s'.resources.publishPayload 5 none false).1
        (s'.setResources (s'.resources.publishPayload 5 none false).2),
        (v.2.resources.resFind 5).isSome := h.live
    exact absurd hlive (by decide +kernel)

end Loop

end CurlLoop
