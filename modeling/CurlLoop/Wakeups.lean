import CurlLoop.Uncancelled

/-!
# No wake-up is lost

A request that waits for a resource is woken by the publication of the resource, and by nothing else.
So a resource somebody waits for must not have been published yet, its waiting list must be one that
a walk from `blocked_head` reads in full, and a publication must carry everybody it finds there over
to the pending list.

This holds in every run in which nothing is cancelled and nothing is submitted twice, whatever else
is done to the resources. In particular a resource may be released while requests wait for it. Those
requests are lost, and the lists that are left are as they should be: the invariant is kept beside
the abandoned requests (`Loop.AtRest`).

## Main definitions

* `Loop.SubmitsOnce` — the step cancels nothing and hands nothing over again
* `Loop.WaitersKept` — the waiting lists of a loop are in order
* `Loop.Wakes` — a publication wakes everybody it finds waiting

## Main results

* `WF.contents_publish` — what a publication does to the lists
* `waitersKept_of_submitsOnce` — every run
-/

namespace CurlLoop

open Function (update)

/-! ### Publications -/

/-- The resource that the action publishes with a payload, if it does. -/
def Action.publishes {ω : Type} : Action → Loop ω → Option ResId
  | .call (.publish id (some _) _), _ => some id
  | .call (.register (some _) _), s => some s.resources.gNextId
  | .applyOp op, _ => if op.kind ≠ .release ∧ op.payload.isSome then some op.id else none
  | _, _ => none

namespace Loop

variable {ω : Type} {s t u : Loop ω} {v v' : View} {C : List ReqId} {r : ReqId} {l : List ReqId}
  {env : Env ω}

/-- The waiting lists are in order: whoever waits for a resource waits for one that has not been
published, and a walk from either list head reads a list without repetitions, at whose end
`blocked_tail` points. -/
structure WaitersKept (s : Loop ω) : Prop where
  awaited : ∀ id n, s.resources.resFind id = some n → n.blockedHead ≠ none →
    n.payload = none ∧ n.failed = false
  ends : ∀ id n, s.resources.resFind id = some n →
    (n.blockedHead = none ↔ n.blockedTail = none)
  chain : ∀ id n, s.resources.resFind id = some n →
    Intrusive.IsChain s.nextPending n.blockedHead (s.contents (.blocked id)) ∧
      n.blockedTail = (s.contents (.blocked id)).getLast? ∧ (s.contents (.blocked id)).Nodup
  pending : Intrusive.IsChain s.nextPending s.pendingRequests (s.contents .pending) ∧
    (s.contents .pending).Nodup

/-- If the action publishes a resource with a payload, it empties its waiting list, puts everybody
who was on it on the pending list, once, and leaves there whoever was there before. -/
structure Wakes (env : Env ω) (a : Action) (s : Loop ω) : Prop where
  emptied : ∀ id ∈ a.publishes s, ∀ n ∈ (act env a s).resources.resFind id,
    n.blockedHead = none ∧ n.blockedTail = none
  woken : ∀ id ∈ a.publishes s, ∀ r ∈ s.contents (.blocked id),
    ((act env a s).contents .pending).count r = 1
  kept : ∀ id ∈ a.publishes s, s.contents .pending <:+ (act env a s).contents .pending

/-- In a well-formed loop the waiting lists are in order, whatever is in transit. -/
theorem WF.waitersKept (h : s.WF v C) : s.WaitersKept := by
  have hlinked := h.located.linked
  have hcontents : ∀ id, s.contents (.blocked id) = v (.blocked id) := fun id =>
    h.contents_eq (.blocked id)
  have hpending : s.contents .pending = v .pending := h.contents_eq .pending
  refine ⟨fun id n hn hne => ?_, fun id n hn => ?_, fun id n hn => ?_, ?_⟩
  · have hwaits : v (.blocked id) ≠ [] := fun hnil => by
      rw [← Resources.blockedHead_eq hn, (hlinked.blocked id).head_eq_none_iff.mpr hnil] at hne
      exact hne rfl
    have hready := hlinked.awaited id hwaits n hn
    rw [Res.ready, Bool.or_eq_false_iff, Option.isSome_eq_false_iff, Option.isNone_iff_eq_none]
      at hready
    exact hready
  · rw [← Resources.blockedHead_eq hn, ← Resources.blockedTail_eq hn, hlinked.tail,
      (hlinked.blocked id).head_eq_none_iff, List.getLast?_eq_none_iff]
  · rw [hcontents, ← Resources.blockedHead_eq hn, ← Resources.blockedTail_eq hn]
    exact ⟨hlinked.blocked id, hlinked.tail id, h.located.placed.nodup _⟩
  · rw [hpending]
    exact ⟨hlinked.pending, h.located.placed.nodup _⟩

/-- A woken request goes in front of the pending list. -/
theorem WF.wake {id : ResId} (h : s.WF v C) (hp : v (.detached (.blocked id)) = r :: l)
    (env : Env ω) :
    ∃ v', (s.wakeOrFail env false r).WF v' C ∧
      Handled True (.blocked id) r l v v' s (s.wakeOrFail env false r) ∧
      v' .pending = r :: v .pending := by
  have hmem : r ∈ v (.detached (.blocked id)) := hp ▸ List.mem_cons_self
  have hhand : update (update v (.detached (.blocked id)) l) .hand (r :: v .hand) .hand =
      r :: v .hand := Function.update_self ..
  have hwf := (h.takeUp hp).setNextPending_hand (hhand ▸ List.mem_cons_self) none
  obtain ⟨v', hwf', hput⟩ := hwf.requeue hhand (h.located.fits (.detached (.blocked id)) r hmem).1
  refine ⟨v', hwf', .of_putDown h hp (touched_setNextPending s r none) (.refl _ _) hput, ?_⟩
  have hkept : update (update v (.detached (.blocked id)) l) .hand (r :: v .hand) .pending =
      v .pending := by
    rw [Function.update_of_ne (by simp), Function.update_of_ne (by simp)]
  have hnot : r ∉ v .pending := h.located.placed.notMem_of_ne hmem (by simp)
  have hpush := (hkept ▸ hwf.located.linked.pending).push hnot
  exact hwf'.located.linked.pending.unique hpush

/-- **A publication** with a payload carries the waiting list over to the pending list. -/
theorem WF.contents_publish (h : s.WF v C) {id : ResId}
    (hid : v (.detached (.blocked id)) = []) (env : Env ω) (payload : Payload) (cleanup : Bool) :
    (s.curlEventResPublish env id (some payload) cleanup).WaitersKept ∧
      (s.curlEventResPublish env id (some payload) cleanup).contents .pending =
        (s.contents (.blocked id)).reverse ++ s.contents .pending := by
  have hdet : (s.setResources (s.resources.publishPayload id (some payload) cleanup).2).WF
      (update (update v (.blocked id) []) (.detached (.blocked id)) (v (.blocked id))) C :=
    ⟨h.located.detachBlocked hid (Resources.blockedHead_publishPayload s.resources id _ _)
      (Resources.blockedTail_publishPayload s.resources id _ _)
      fun _ hj => Resources.awaited_publishPayload _ _ hj, h.marked⟩
  have hstart : update (update v (.blocked id) []) (.detached (.blocked id)) (v (.blocked id))
      .pending = v .pending := by
    rw [Function.update_of_ne (by simp), Function.update_of_ne (by simp)]
  have hchain : Intrusive.IsChain
      (s.setResources (s.resources.publishPayload id (some payload) cleanup).2).nextPending
      (s.resources.publishPayload id (some payload) cleanup).1 (v (.blocked id)) := by
    rw [Resources.publishPayload_fst]
    exact h.located.linked.blocked id
  obtain ⟨v', C', hwf, hrest, woken, hdone, hpend⟩ := Intrusive.forEach_rule
    (k := fun (t : Loop ω) r => t.nextPending r)
    (f := fun r t => Loop.wakeOrFail env false r (t.follow r)) (G := fun _ => True)
    (P := fun l t => ∃ v' C', t.WF v' C' ∧ v' (.detached (.blocked id)) = l ∧
      ∃ woken, v (.blocked id) = woken ++ l ∧ v' .pending = woken.reverse ++ v .pending)
    (fun _ _ _ => trivial) (fun r l t ht _ => by
      obtain ⟨v', C', hwf, hp, woken, hdone, hpend⟩ := ht
      rw [hwf.located.follow (p := .detached (.blocked id)) (hp ▸ List.mem_cons_self)]
      obtain ⟨v'', hwf', hh, hpend'⟩ := hwf.wake hp env
      refine ⟨⟨v'', C', hwf', hh.rest (.inl trivial), woken ++ [r], ?_, ?_⟩,
        hh.link_rest hwf (.inl trivial) hp⟩
      · rw [hdone, List.append_assoc, List.singleton_append]
      · rw [hpend', hpend, List.reverse_concat, List.cons_append])
    (s := s.setResources (s.resources.publishPayload id (some payload) cleanup).2)
    (h.located.length_le _) hchain
    ⟨_, C, hdet, Function.update_self .., [], rfl, hstart⟩ trivial
  have hfinal : (s.curlEventResPublish env id (some payload) cleanup).WF v' C' := hwf
  refine ⟨hfinal.waitersKept, ?_⟩
  rw [hfinal.contents_eq .pending, h.contents_eq (.blocked id), h.contents_eq .pending]
  change v' .pending = (v (.blocked id)).reverse ++ v .pending
  rw [hpend, hdone, List.append_nil]

/-- Waking requests does not touch the store. -/
theorem resources_publish (env : Env ω) (s : Loop ω) (id : ResId) (payload : Payload)
    (cleanup : Bool) : (s.curlEventResPublish env id (some payload) cleanup).resources =
      (s.resources.publishPayload id (some payload) cleanup).2 :=
  Intrusive.forEach_invariant (k := fun (t : Loop ω) r => t.nextPending r)
    (f := fun r t => Loop.wakeOrFail env false r (t.follow r)) (P := fun t : Loop ω => t.resources =
      (s.resources.publishPayload id (some payload) cleanup).2)
    (fun r t ht => (resources_follow t r).trans ht) rfl

/-- The three parts of the statement about a publication. -/
theorem WF.wakes_publish (h : s.WF v C) {id : ResId} (hid : v (.detached (.blocked id)) = [])
    (env : Env ω) (payload : Payload) (cleanup : Bool) :
    let t := s.curlEventResPublish env id (some payload) cleanup
    (∀ n ∈ t.resources.resFind id, n.blockedHead = none ∧ n.blockedTail = none) ∧
      (∀ r ∈ s.contents (.blocked id), (t.contents .pending).count r = 1) ∧
      s.contents .pending <:+ t.contents .pending := by
  intro t
  obtain ⟨hkept, hpend⟩ := h.contents_publish hid env payload cleanup
  refine ⟨fun n hn => ?_, fun r hr => ?_, ?_⟩
  · have hpublished : n.payload = some payload := by
      have hfind : (s.resources.publishPayload id (some payload) cleanup).2.resFind id = some n := by
        rw [← resources_publish env s]
        exact hn
      rw [Resources.resFind_publishPayload, if_pos rfl] at hfind
      rw [← Option.some.inj hfind]
      rfl
    have hhead : n.blockedHead = none := by
      by_contra hne
      rw [(hkept.awaited id n hn hne).1] at hpublished
      exact absurd hpublished nofun
    exact ⟨hhead, (hkept.ends id n hn).mp hhead⟩
  · refine List.count_eq_one_of_mem hkept.pending.2 ?_
    rw [hpend]
    exact List.mem_append_left _ (List.mem_reverse.mpr hr)
  · rw [hpend]
    exact List.suffix_append _ _

/-- A registration finds the waiting lists as they were before the id was drawn. -/
theorem contents_declare (h : s.WF v C) (c : Container) :
    s.curlEventResDeclare.2.contents c = s.contents c := by
  rw [h.declare.contents_eq, h.contents_eq]

/-- **A publication wakes** everybody it finds waiting, between any two passes. -/
theorem AtRest.wakes {strict : Prop} (h : s.AtRest strict) (env : Env ω) (a : Action) :
    s.Wakes env a := by
  obtain ⟨v, C, hwf, hv⟩ := h
  have main : ∀ (u : Loop ω) id payload cleanup, u.WF v C →
      Loop.act env a s = u.curlEventResPublish env id (some payload) cleanup →
      (∀ c, u.contents c = s.contents c) → (∀ j ∈ a.publishes s, j = id) → s.Wakes env a := by
    intro u id payload cleanup hu hact hsame hpub
    obtain ⟨hempty, hwoken, hkept⟩ := hu.wakes_publish (hv.noneWoken id) env payload cleanup
    rw [← hact, hsame] at hwoken
    rw [← hact, hsame] at hkept
    rw [← hact] at hempty
    refine ⟨fun j hj => ?_, fun j hj => ?_, fun j hj => ?_⟩
    · rw [hpub j hj]
      exact hempty
    · rw [hpub j hj]
      exact hwoken
    · exact hkept
  have hnone : a.publishes s = none → s.Wakes env a := fun hn =>
    ⟨fun j hj => absurd (hn ▸ hj) nofun, fun j hj => absurd (hn ▸ hj) nofun,
      fun j hj => absurd (hn ▸ hj) nofun⟩
  cases a with
  | call c =>
    cases c with
    | publish id payload cleanup =>
      cases payload with
      | none => exact hnone rfl
      | some p =>
        exact main s id p cleanup hwf rfl (fun _ => rfl) fun j hj => (Option.some.inj hj).symm
    | register payload cleanup =>
      cases payload with
      | none => exact hnone rfl
      | some p =>
        exact main s.curlEventResDeclare.2 _ p cleanup hwf.declare rfl (contents_declare hwf)
          fun j hj => (Option.some.inj hj).symm
    | _ => exact hnone rfl
  | applyOp op =>
    by_cases hop : op.kind ≠ .release ∧ op.payload.isSome
    · obtain ⟨p, hp⟩ := Option.isSome_iff_exists.mp hop.2
      refine main { s with applied := op :: s.applied } op.id p op.cleanup
        ⟨hwf.located, hwf.marked⟩ ?_ (fun c => ?_) fun j hj => ?_
      · change s.applyOp env op = _
        rw [applyOp, ← hp]
        cases hk : op.kind with
        | release => exact absurd hk hop.1
        | _ => rfl
      · cases c <;> rfl
      · rw [Action.publishes, if_pos hop] at hj
        exact (Option.some.inj hj).symm
    · exact hnone (if_neg hop)
  | _ => exact hnone rfl

/-! ### Runs -/

/-- The step cancels nothing, hands no address over a second time, and is not the destruction of the
loop. -/
def SubmitsOnce (env : Env ω) (a : Action) (s : Loop ω) : Prop :=
  a.cancels = false ∧ a ≠ .destroy ∧ ∀ h ∈ (act env a s).hazards, h.isResubmission = false

instance (env : Env ω) (a : Action) (s : Loop ω) : Decidable (SubmitsOnce env a s) :=
  inferInstanceAs (Decidable (_ ∧ _ ∧ _))

/-- **No wake-up is lost.** In every run in which nothing is cancelled and each request is submitted
once, the waiting lists are in order, and a publication with a payload wakes everybody it finds. -/
theorem waitersKept_of_submitsOnce (env : Env ω) (henv : env.NeverCancels) (mem : Memory) (world : ω)
    (as : List Action)
    (has : Guarded.Allowed (Loop.act env) (SubmitsOnce env) (curlEventLoopInit mem world) as) :
    let s := Guarded.run (Loop.act env) (curlEventLoopInit mem world) as
    s.WaitersKept ∧ ∀ a, s.Wakes env a := by
  intro s
  obtain ⟨hatRest, -, -⟩ := has.invariant
    (P := fun s => s.AtRest False ∧ s.cancelledRequests = none ∧ s.Spared False)
    (fun a s hs ha => by
      have hstep := unmarking_act henv s ha.1 ha.2.1
      have hspared : (Loop.act env a s).Spared False := fun x hx => by
        refine ⟨not_false, ?_⟩
        rcases hstep.hazards hs.2.1 x hx with hx | hx | hx
        · exact (hs.2.2 x hx).2
        · rw [ha.2.2 x ‹_›] at hx
          exact absurd hx nofun
        · cases x with
          | abandoned id => exact ⟨id, rfl⟩
          | _ => exact absurd hx nofun
      exact ⟨hs.1.act ha.2.1 hspared, hstep.cancelled hs.2.1, hspared⟩)
    ⟨(atRest_true.mpr (resting_init mem world)).imp fun _ h => h.imp fun _ h =>
      ⟨h.1, h.2.hand, fun p _ => h.2.detached p (.inl trivial)⟩, rfl, nofun⟩
  refine ⟨?_, hatRest.wakes env⟩
  obtain ⟨v, C, hwf, -⟩ := hatRest
  exact hwf.waitersKept

/-- Two requests wait for a resource and are woken by its publication, and a third waits for one that
is released under it. One of the first two waits for yet another resource when the run ends. -/
theorem waitersKept_of_submitsOnce_released :
    let mem := Memory.plain fun r => if r = 1 then [1, 2] else if r = 2 then [1] else [3]
    let s := Guarded.run (Loop.act Env.uneventful) (curlEventLoopInit mem ())
      [.call .declare, .call (.api (.submit 1 0)), .call (.api (.submit 2 0)),
        .call (.api (.submit 3 0)), .processCancelledAndPendingRequests, .call (.release 3),
        .call (.publish 1 (some 9) true), .processCancelledAndPendingRequests]
    s.contents (.blocked 2) = [1] ∧ s.WaitersKept ∧ ∀ a, s.Wakes Env.uneventful a :=
  ⟨by decide +kernel,
    waitersKept_of_submitsOnce Env.uneventful ⟨nofun, nofun, nofun⟩ _ () _ (by decide +kernel)⟩

end Loop

end CurlLoop
