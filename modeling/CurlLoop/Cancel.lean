import CurlLoop.Scheduler
import Mathlib.Algebra.Order.Ring.Int

/-!
# Cancelling a request

`curl_event_loop_cancel` marks a request, and unless the request is pending puts it on the cancelled
list. The next `process_cancelled_and_pending_requests` destroys the marked requests it finds on the
pending list, and takes each request of the cancelled list out of the map that `multi_handle` and
`should_refresh` name.

The fields tell where a request is when it is active, or was put into a map by `enqueue_request`.
They do not when it is in the rate-limited map, waits for a resource, or was put back on the pending
list by a publication. Then the request is destroyed where it is, and a counter is lowered that
should not be. The counter is what the failing direction looks at: a step that lowers it without
need is never made good.

## Main definitions

* `Loop.CancelWorks` — what a cancellation should achieve

## Main results

* `cancelWorks_iff` — when it does
-/

namespace CurlLoop

open Function (update)

namespace Loop

variable {ω : Type} {s t : Loop ω} {v v' : View} {C : List ReqId} {r : ReqId} {l : List ReqId}
  {env : Env ω}

/-! ### What the pass does when every request is in its map -/

/-- The state of the walk over the pending list that began at `t` with view `v`. -/
structure WalkPending (t : Loop ω) (v : View) (v' : View) (u : Loop ω) : Prop where
  still : v'.StillBut .pending
  stays : ∀ p, p ≠ .detached .pending → v p ⊆ v' p
  reqs : ∀ b ∈ v' (.detached .pending), u.req b = t.req b
  visited : ∀ b ∈ v (.detached .pending), b ∈ v' (.detached .pending) ∨
    ((t.req b).isCancelled = true → b ∈ u.destroyed)
  destroyed : t.destroyed ⊆ u.destroyed

/-- A cancelled request is destroyed by its round. -/
theorem destroyed_pendingRound (hc : (s.req r).isCancelled = true) :
    r ∈ (s.pendingRound env r).destroyed := by
  have hreq : ((s.modifyReq r fun q => q.setPending false).setNextPending r none).req r =
      (s.req r).setPending false := Function.update_self ..
  unfold pendingRound
  dsimp only
  rw [if_pos (by rw [hreq]; exact hc)]
  exact List.mem_cons_self

theorem WalkPending.round {u : Loop ω} {v₀ : View} (h : WalkPending t v₀ v u) (hwf : u.WF v C)
    (hp : v (.detached .pending) = r :: l) (hz : (u.pendingRound env r).Spared True) :
    ∃ v', (u.pendingRound env r).WF v' C ∧ v' (.detached .pending) = l ∧
      (∀ b ∈ l, (u.pendingRound env r).nextPending b = u.nextPending b) ∧
      WalkPending t v₀ v' (u.pendingRound env r) := by
  obtain ⟨v', hwf', hh, hstays, hreqs⟩ := hwf.walkPending_round hp hz
  have hrl : r ∉ l := (List.nodup_cons.mp (hp ▸ hwf.located.placed.nodup (.detached .pending))).1
  have hmem : r ∈ v (.detached .pending) := hp ▸ List.mem_cons_self
  have hmono := (evolves_pendingRound (q := False) env r u).destroyed.subset
  have hrest : v' (.detached .pending) = l := hh.rest (.inl trivial)
  refine ⟨v', hwf', hrest, hh.link_rest hwf (.inl trivial) hp, hh.stillBut h.still,
    fun p hpp b hb => ?_,
    fun b hb => ?_, fun b hb => ?_, fun b hb => hmono (h.destroyed hb)⟩
  · have hbv := h.stays p hpp hb
    refine hstays p b ?_ hbv
    rintro rfl
    exact hpp (hwf.located.placed.inj hbv hmem)
  · rw [hrest] at hb
    have hbr : b ≠ r := by
      rintro rfl
      exact hrl hb
    rw [hreqs b hbr]
    exact h.reqs b (hp ▸ List.mem_cons_of_mem r hb)
  · rw [hrest]
    rcases h.visited b hb with hbv | hdone
    · rw [hp] at hbv
      rcases List.mem_cons.mp hbv with rfl | hbl
      · right
        intro hc
        exact destroyed_pendingRound (by rw [h.reqs b hmem]; exact hc)
      · exact .inl hbl
    · exact .inr fun hc => hmono (hdone hc)

/-- What `process_cancelled_and_pending_requests` achieves when every request on the cancelled list
is in the map its fields name. -/
structure Purged (s : Loop ω) (v : View) (C : List ReqId) (t : Loop ω) (v' : View) : Prop where
  wf : t.WF v' []
  still : v'.Still
  hazards : t.hazards = s.hazards
  cancelled : ∀ b ∈ C, b ∈ t.destroyed
  pending : ∀ b ∈ v .pending, (s.req b).isCancelled = true → b ∈ t.destroyed
  stays : ∀ p, p ≠ .pending → ∀ b ∈ v p, b ∉ C → b ∈ v' p

theorem WF.processCancelledAndPendingRequests (h : s.WF v C) (env : Env ω) (hv : v.Still)
    (hmapped : ∀ b ∈ C, s.Mapped b) (hz : s.hazards = []) :
    ∃ v', Purged s v C (s.processCancelledAndPendingRequests env) v' := by
  obtain ⟨v₁, hwalk, hlist, hchain⟩ := h.sweepCancelled (hv.detached _) hmapped
  unfold Loop.processCancelledAndPendingRequests
  dsimp only
  rw [h.marked.chain.head_eq]
  generalize s.detachCancelled.detachPending.forEachCancelled C.head? cancelledRound = t₁
    at hwalk hchain ⊢
  have hquiet := (evolves_forEachPending (q := True) (evolves_pendingRound env) t₁
    s.pendingRequests).still trivial hwalk.none
  have hv₁ := hv.detach (p := .pending) (by simp) (by simp)
  have hstart : WalkPending t₁ v₁ v₁ t₁ :=
    ⟨⟨(hwalk.elsewhere _ (by simp)).trans hv₁.hand, fun p hp =>
      (hwalk.elsewhere _ (by simp)).trans (hv₁.detached p hp)⟩, fun _ _ _ hb => hb,
      fun _ _ => rfl, fun _ hb => .inl hb, fun _ hb => hb⟩
  obtain ⟨v₂, C₂, hwf₂, hrest, hw⟩ := hwalk.wf.forEachPending (p := .pending)
    (f := Loop.pendingRound env) (P := fun v' u => WalkPending t₁ v₁ v' u)
    (fun r t ht => (evolves_pendingRound (q := False) env r t).spared ht)
    (fun r l v C t ht hp hw hz => by
      obtain ⟨v', hwf', hrest', hlink, hw'⟩ := hw.round ht hp hz
      exact ⟨v', C, hwf', hrest', hlink, hw'⟩)
    hchain hstart (.of_nil (hquiet.2.1.trans (hwalk.hazards.trans hz)))
  have hC₂ : C₂ = [] := by
    have hhead := hwf₂.marked.chain.head_eq_none_iff.mp hquiet.1
    exact hhead
  subst hC₂
  refine ⟨v₂, hwf₂, hw.still.still hrest, hquiet.2.1.trans hwalk.hazards,
    fun b hb => hw.destroyed (hwalk.done b hb (by simp)), fun b hb hc => ?_, fun p hp b hb hbC => ?_⟩
  · by_cases hbC : b ∈ C
    · exact hw.destroyed (hwalk.done b hbC (by simp))
    · rcases hw.visited b (hlist ▸ hb) with hleft | hdone
      · rw [hrest] at hleft
        simp at hleft
      · refine hdone ?_
        rw [hwalk.reqs b hbC]
        exact hc
  · by_cases hpd : p = .detached .pending
    · rw [hpd, hv.detached] at hb
      simp at hb
    · refine hw.stays p hpd (hwalk.stays p b hbC ?_)
      rw [Function.update_of_ne hpd, Function.update_of_ne hp]
      exact hb

/-! ### What the pass does when some request is not -/

theorem follow_mapped (s : Loop ω) (r b : ReqId) : (s.follow r).Mapped b ↔ s.Mapped b := by
  rw [Loop.follow]
  split <;> exact .rfl

theorem req_follow (s : Loop ω) (r : ReqId) : (s.follow r).req = s.req := by
  rw [Loop.follow]
  split <;> rfl

/-- A counter is too low after the walk over the cancelled list. -/
theorem offset_walkCancelled_neg (hC : CancelledList s.req s.nextCancelled C.head? s.accepted
    s.destroyed C) (hcount : s.Counted) {q : ReqId} (hq : q ∈ C) (hno : ¬ s.Mapped q) :
    (s.forEachCancelled C.head? cancelledRound).offset (cancelledMap (s.req q)) < 0 := by
  have hlen : C.length ≤ s.accepted.length :=
    (List.subperm_of_subset hC.nodup fun b hb => (hC.live b hb).1).length_le
  have hoff : ∀ m, s.offset m ≤ 0 := fun m => le_of_eq (counted_iff_offset.mp hcount m)
  have key := Intrusive.forEach_rule (k := fun (t : Loop ω) r => t.nextCancelled r)
    (f := fun r t => cancelledRound r (t.follow r)) (G := fun _ : Loop ω => True)
    (P := fun l t => l.Nodup ∧ (∀ m, t.offset m ≤ 0) ∧
      (q ∈ l → t.req q = s.req q ∧ ¬ t.Mapped q) ∧
      (q ∉ l → t.offset (cancelledMap (s.req q)) < 0))
    (fun _ _ _ => trivial) (fun r l t ht _ => ?_) hlen hC.chain
    ⟨hC.nodup, hoff, fun _ => ⟨rfl, hno⟩, fun hq' => absurd hq hq'⟩ trivial
  · exact key.2.2.2 (by simp)
  · obtain ⟨hnd, hle, hin, hout⟩ := ht
    obtain ⟨hrl, hl⟩ := List.nodup_cons.mp hnd
    rw [← (sameMaps_follow t r).offset] at hle hout
    rw [← req_follow t r, ← follow_mapped t r q] at hin
    have hlink : (t.follow r).nextCancelled = t.nextCancelled := by
      rw [Loop.follow]
      split <;> rfl
    generalize t.follow r = t' at hle hin hout hlink ⊢
    -- a round leaves the offsets alone, or lowers one of them by one
    have hoffset : (∀ m, (t'.cancelledRound r).offset m ≤ t'.offset m) ∧
        (¬ t'.Mapped r → (t'.cancelledRound r).offset (cancelledMap (t'.req r)) < 0) := by
      by_cases hr : t'.Mapped r
      · rw [offset_cancelledRound hr]
        exact ⟨fun _ => le_rfl, fun h => absurd hr h⟩
      · rw [offset_cancelledRound_of_not hr]
        refine ⟨fun m => ?_, fun _ => ?_⟩
        · rcases eq_or_ne m (cancelledMap (t'.req r)) with rfl | hm
          · rw [Function.update_self]
            omega
          · rw [Function.update_of_ne hm]
        · rw [Function.update_self]
          have := hle (cancelledMap (t'.req r))
          omega
    refine ⟨⟨hl, fun m => (hoffset.1 m).trans (hle m), fun hql => ?_, fun hql => ?_⟩,
      fun b _ => congrFun ((nextCancelled_cancelledRound t' r).trans hlink) b⟩
    · have hqr : q ≠ r := by
        rintro rfl
        exact hrl hql
      obtain ⟨hreq, hmap⟩ := hin (List.mem_cons_of_mem r hql)
      exact ⟨(req_cancelledRound t' hqr).trans hreq, fun h => hmap (h.of_cancelledRound hqr)⟩
    · rcases eq_or_ne q r with rfl | hqr
      · obtain ⟨hreq, hmap⟩ := hin List.mem_cons_self
        rw [← hreq]
        exact hoffset.2 hmap
      · refine lt_of_le_of_lt (hoffset.1 _) (hout fun h => ?_)
        exact (List.mem_cons.mp h).elim hqr hql

/-- The pass then leaves a counter that does not agree with its map. -/
theorem WF.not_counted_of_not_mapped (h : s.WF v C) (hcount : s.Counted) {q : ReqId} (hq : q ∈ C)
    (hno : ¬ s.Mapped q) : ¬ (s.processCancelledAndPendingRequests env).Counted := by
  have hC : CancelledList s.req s.nextCancelled C.head? s.accepted s.destroyed C := by
    have hm := h.marked
    rwa [Marked, hm.chain.head_eq] at hm
  have hneg := offset_walkCancelled_neg (s := s.detachCancelled.detachPending) hC hcount hq hno
  intro hc
  have hzero := counted_iff_offset.mp hc (cancelledMap (s.req q))
  unfold Loop.processCancelledAndPendingRequests at hzero
  dsimp only at hzero
  rw [offset_walkPending, h.marked.chain.head_eq] at hzero
  exact absurd hzero hneg.ne

/-! ### Cancelling -/

/-- What a cancellation should achieve by the end of the next pass: the request was destroyed once
and is nowhere, nothing led to a request after it was destroyed, the counters are right, and every
other request that was not cancelled is still in the map or list it was in, unless that is the
pending list, which the pass takes apart. -/
structure CancelWorks (env : Env ω) (s : Loop ω) (r : ReqId) : Prop where
  destroyed : ((s.curlEventLoopCancel r).2.processCancelledAndPendingRequests
    env).destroyed.count r = 1
  nowhere : ∀ c, r ∉ ((s.curlEventLoopCancel r).2.processCancelledAndPendingRequests env).contents c
  notCancelled : r ∉ ((s.curlEventLoopCancel r).2.processCancelledAndPendingRequests
    env).cancelledList
  afterFree : ((s.curlEventLoopCancel r).2.processCancelledAndPendingRequests env).afterFree = []
  counted : ((s.curlEventLoopCancel r).2.processCancelledAndPendingRequests env).Counted
  others : ∀ q, q ≠ r → (s.req q).isCancelled = false → ∀ c, c ≠ .pending → q ∈ s.contents c →
    q ∈ ((s.curlEventLoopCancel r).2.processCancelledAndPendingRequests env).contents c

/-- A cancellation of a live request, for the first time. -/
theorem WF.cancel_eq (h : s.WF v C) (hlive : s.Live r) (hr : r ∉ C) :
    ∃ t : Loop ω, (s.curlEventLoopCancel r).2 = t ∧ t.hazards = s.hazards ∧
      t.maps = s.maps ∧ t.num = s.num ∧ t.req = update s.req r (s.req r).markCancelled ∧
      t.WF v (if (s.req r).isPending then C else r :: C) := by
  have hoff : s.nextCancelled r = none := h.marked.off r hr hlive.2
  have hpend : ((s.beware (¬ s.Live r) (.notOwned r)).modifyReq r Request.markCancelled |>.req
      r).isPending = (s.req r).isPending := by
    show (update s.req r (s.req r).markCancelled r).isPending = _
    rw [Function.update_self]
    rfl
  have hwf : (s.modifyReq r Request.markCancelled).WF v C :=
    ⟨h.located.modifyReq_same hlive.1 (Request.samePlace_markCancelled _),
      h.marked.modifyReq fun _ => rfl⟩
  have hmark : ((s.modifyReq r Request.markCancelled).req r).isCancelled = true := by
    show (update s.req r (s.req r).markCancelled r).isCancelled = true
    rw [Function.update_self]
    rfl
  have hbeware : (s.beware (¬ s.Live r) (.notOwned r)).hazards = s.hazards :=
    if_neg (not_not.mpr hlive)
  refine ⟨_, rfl, ?_⟩
  rw [curlEventLoopCancel]
  dsimp only
  rw [if_neg (show ¬ ((s.beware (¬ s.Live r) (.notOwned r)).nextCancelled r).isSome = true by
    show ¬ (s.nextCancelled r).isSome = true
    rw [hoff]
    simp), hpend]
  split
  · exact ⟨hbeware, rfl, rfl, rfl, hwf.located, hwf.marked⟩
  · have hlist : r ∉ ((s.beware (¬ s.Live r) (.notOwned r)).modifyReq r
        Request.markCancelled).cancelledList := by
      rw [show ((s.beware (¬ s.Live r) (.notOwned r)).modifyReq r
        Request.markCancelled).cancelledList = C from hwf.marked.cancelledList_eq]
      exact hr
    exact ⟨(if_neg hlist).trans hbeware, rfl, rfl, rfl, hwf.located,
      hwf.marked.push hr hlive hmark⟩

/-- Marking a request does not change the map its fields name. -/
theorem mapped_of_mark {b : ReqId} (hmaps : t.maps = s.maps)
    (hreq : t.req = update s.req r (s.req r).markCancelled) : t.Mapped b ↔ s.Mapped b := by
  unfold Mapped
  rw [hmaps, hreq]
  rcases eq_or_ne b r with rfl | hb
  · rw [Function.update_self]
    exact .rfl
  · rw [Function.update_of_ne hb]

/-- A pending request is on the pending list. -/
theorem WF.mem_pending (h : s.WF v C) (hv : v.Still) (hlive : s.Live r)
    (hp : (s.req r).isPending = true) : r ∈ v .pending := by
  obtain ⟨p, hmem⟩ := (h.located.placed.live_iff r).mp hlive
  have hfit := h.located.fits p r hmem
  cases p with
  | pending => exact hmem
  | injected => exact absurd (hp.symm.trans hfit) (by simp)
  | blocked id => exact absurd (hp.symm.trans hfit.2) (by simp)
  | map m => exact absurd (hp.symm.trans (Place.Fits.isPending hfit)) (by simp)
  | detached p => rw [hv.detached] at hmem; simp at hmem
  | hand => rw [hv.hand] at hmem; simp at hmem

/-- **When a cancellation works.** In every state reached by a run that met no hazard, for every live
request that was not cancelled: exactly when the request is pending or in the map its fields name,
and so is every request that waits on the cancelled list. -/
theorem cancelWorks_iff (env : Env ω) (mem : Memory) (world : ω) (as : List Action) (r : ReqId) :
    let s := Guarded.run (Loop.act env) (curlEventLoopInit mem world) as
    .destroy ∉ as → s.hazards = [] → s.Live r → (s.req r).isCancelled = false →
      (CancelWorks env s r ↔ ((s.req r).isPending = true ∨ s.Mapped r) ∧
        ∀ q ∈ s.cancelledList, s.Mapped q) := by
  intro s has hz hlive hfirst
  obtain ⟨v, C, hwf, hv⟩ := resting_run mem world hz
  have hcount : s.Counted := (resting_init mem world).counted_run (counted_init mem world) has hz
  have hr : r ∉ C := fun hr => absurd (hfirst.symm.trans (hwf.marked.cancelled r hr)) (by simp)
  obtain ⟨t, ht, hhaz, hmaps, hnum, hreq, hwf'⟩ := hwf.cancel_eq hlive hr
  have hmapped : ∀ {b}, t.Mapped b ↔ s.Mapped b := mapped_of_mark hmaps hreq
  have hcount' : t.Counted := hcount.of_offset (SameMaps.offset ⟨hmaps, hnum⟩)
  rw [hwf.marked.cancelledList_eq]
  constructor
  · intro hworks
    have hright := hworks.counted
    rw [ht] at hright
    have hall : ∀ q ∈ (if (s.req r).isPending then C else r :: C), s.Mapped q := by
      intro q hq
      by_contra hno
      exact hwf'.not_counted_of_not_mapped hcount' hq (fun h => hno (hmapped.mp h)) hright
    split at hall
    · exact ⟨.inl ‹_›, hall⟩
    · exact ⟨.inr (hall r List.mem_cons_self), fun q hq => hall q (List.mem_cons_of_mem r hq)⟩
  · rintro ⟨hplace, hothers⟩
    have hall : ∀ q ∈ (if (s.req r).isPending then C else r :: C), t.Mapped q := by
      intro q hq
      rw [hmapped]
      split at hq
      · exact hothers q hq
      · rename_i hp
        rcases List.mem_cons.mp hq with rfl | hq
        · exact hplace.resolve_left hp
        · exact hothers q hq
    obtain ⟨v', hpurged⟩ := hwf'.processCancelledAndPendingRequests env hv hall
      (hhaz.trans hz)
    have hdead : r ∈ (t.processCancelledAndPendingRequests env).destroyed := by
      cases hp : (s.req r).isPending with
      | true =>
        refine hpurged.pending r (hwf.mem_pending hv hlive hp) ?_
        rw [hreq, Function.update_self]
        rfl
      | false =>
        refine hpurged.cancelled r ?_
        rw [hp]
        exact List.mem_cons_self
    have hgone : ∀ p, r ∉ v' p := fun p hp => (hpurged.wf.located.live_of_mem hp).2 hdead
    have hzt := hpurged.hazards.trans (hhaz.trans hz)
    refine ⟨?_, fun c => ?_, ?_, ?_, ?_, fun q hqr hq c hc hmem => ?_⟩
    all_goals rw [ht]
    · exact List.count_eq_one_of_mem hpurged.wf.located.destroyed_nodup hdead
    · rw [hpurged.wf.contents_eq]
      exact hgone _
    · rw [hpurged.wf.marked.cancelledList_eq]
      simp
    · exact hpurged.wf.located.afterFree
    · exact hcount'.of_offset (offset_processCancelledAndPendingRequests hzt)
    · rw [hpurged.wf.contents_eq]
      rw [hwf.contents_eq] at hmem
      refine hpurged.stays _ ?_ q hmem ?_
      · cases c <;> simp_all [Container.place]
      · intro hqC
        have hqC' : q ∈ C := by
          split at hqC
          · exact hqC
          · exact (List.mem_cons.mp hqC).resolve_left hqr
        exact absurd (hq.symm.trans (hwf.marked.cancelled q hqC')) (by simp)

/-- The active request 1 is cancelled. -/
theorem cancelWorks_iff_active :
    let s := Guarded.run (Loop.act Env.uneventful) (curlEventLoopInit (Memory.plain fun _ => []) ())
      [.call (.api (.submit 1 0)), .processCancelledAndPendingRequests]
    CancelWorks Env.uneventful s 1 ↔ ((s.req 1).isPending = true ∨ s.Mapped 1) ∧
      ∀ q ∈ s.cancelledList, s.Mapped q :=
  cancelWorks_iff Env.uneventful (Memory.plain fun _ => []) ()
    [.call (.api (.submit 1 0)), .processCancelledAndPendingRequests] 1 (by decide)
    (by decide +kernel) (by decide +kernel) (by decide +kernel)

/-- Request 1 waits for resource 7. It is taken to be in the inactive map: the counter of that map
falls to `-1`, and the request is destroyed while it is still on the waiting list. -/
theorem not_cancelWorks_blocked :
    let s := Guarded.run (Loop.act Env.uneventful)
      (curlEventLoopInit (Memory.plain fun _ => [7]) ())
      [.call (.api (.submit 1 0)), .processCancelledAndPendingRequests]
    s.hazards = [] ∧ s.Live 1 ∧ (s.req 1).isCancelled = false ∧ s.contents (.blocked 7) = [1] ∧
      ¬ CancelWorks Env.uneventful s 1 := by
  intro s
  have hstate : s.hazards = [] ∧ s.Live 1 ∧ (s.req 1).isCancelled = false ∧
      s.contents (.blocked 7) = [1] := by decide +kernel
  refine ⟨hstate.1, hstate.2.1, hstate.2.2.1, hstate.2.2.2, fun h => ?_⟩
  exact absurd (h.nowhere (.blocked 7)) (by decide +kernel)

end Loop

end CurlLoop
