import CurlLoop.Scheduler
import CurlLoop.Paths

/-!
# Easy handles and active requests

Between two actions, the requests that have an easy handle are the active ones. A handle is attached
in one place, where a request starts, and has to be detached on each exit of a finished request
before the request is parked or put on the way to another attempt.

One exit does not: a request with a rate-limit key that is answered with 429 is parked in
`rate_limited_requests` and keeps its handle. Its next start allocates another one and leaves the
first attached.

## Main definitions

* `Loop.HandlesMatch` — handles and active requests match
* `Loop.Tidy` — the same while a finished request is held, as an invariant
* `unthrottled` — the watch that excludes the exit above

## Main results

* `Tidy.path` — the invariant along a path
* `handlesMatch_of_unthrottled` — every run without that exit
-/

namespace CurlLoop

open Function (update)

namespace Loop

/-- No request with a rate-limit key is answered with 429. -/
def unthrottled : Watch where
  drop _ := True
  settle a httpCode := ¬ (a.rateLimit.isSome ∧ httpCode = 429)

variable {ω : Type} {s t u : Loop ω} {r : ReqId} {env : Env ω} {held : Option ReqId}

/-- Transfer handles match active requests. -/
structure HandlesMatch (s : Loop ω) : Prop where
  /-- `num_multi_requests` is the number of handles attached to the multi handle. -/
  counted : s.numMultiRequests = s.multi.transfers.length
  distinct : (s.multi.transfers.map Transfer.easy).Nodup
  /-- Each belongs to one request, which is active. -/
  owned : ∀ a ∈ s.multi.transfers, ∃ r ∈ s.maps .queued, (s.req r).easyHandle = some a.easy ∧
    ∀ r', (s.req r').easyHandle = some a.easy → r' = r
  /-- A request that waits has none. -/
  waiting : ∀ m, m ≠ .queued → ∀ r ∈ s.maps m,
    (s.req r).easyHandle = none ∧ (s.req r).multiHandle = false

/-- Handles match requests that are active or held. -/
structure Tidy (held : Option ReqId) (s : Loop ω) : Prop where
  counted : s.numMultiRequests = s.multi.transfers.length
  allocated : ∀ a ∈ s.multi.transfers, a.easy < s.multi.nextEasy
  distinct : (s.multi.transfers.map Transfer.easy).Nodup
  owner : ∀ a ∈ s.multi.transfers, (s.req a.priv).easyHandle = some a.easy
  attached : ∀ r e, (s.req r).easyHandle = some e → ⟨e, r⟩ ∈ s.multi.transfers.map fun a =>
    (a.easy, a.priv)
  multiHandle : ∀ r, (s.req r).multiHandle = (s.req r).easyHandle.isSome
  active : ∀ r, (s.req r).easyHandle.isSome ↔ r ∈ s.maps .queued ∨ held = some r
  once : (s.maps .queued).Nodup
  apart : ∀ r, held = some r → r ∉ s.maps .queued

/-- The invariant is about the transfers only. -/
theorem Tidy.congr (h : Tidy held s) (hmulti : t.multi = s.multi)
    (hnum : t.numMultiRequests = s.numMultiRequests) (hqueued : t.maps .queued = s.maps .queued)
    (hattempt : ∀ r, (t.req r).attempt = (s.req r).attempt) : Tidy held t := by
  have heasy : ∀ r, (t.req r).easyHandle = (s.req r).easyHandle := fun r =>
    congrArg AttemptState.easyHandle (hattempt r)
  have hflag : ∀ r, (t.req r).multiHandle = (s.req r).multiHandle := fun r =>
    congrArg AttemptState.multiHandle (hattempt r)
  refine ⟨?_, ?_, ?_, fun a ha => ?_, fun r e he => ?_, fun r => ?_, fun r => ?_, ?_, ?_⟩
  · rw [hnum, hmulti]
    exact h.counted
  · rw [hmulti]
    exact h.allocated
  · rw [hmulti]
    exact h.distinct
  · rw [heasy]
    exact h.owner a (hmulti ▸ ha)
  · rw [hmulti]
    exact h.attached r e (heasy r ▸ he)
  · rw [heasy, hflag]
    exact h.multiHandle r
  · rw [heasy, hqueued]
    exact h.active r
  · rw [hqueued]
    exact h.once
  · rw [hqueued]
    exact h.apart

theorem Tidy.of_traffic (h : Tidy held s) {d : List ReqId}
    (ht : t.traffic = { s.traffic with destroyed := d }) : Tidy held t :=
  h.congr (congrArg Traffic.multi ht) (congrArg Traffic.numMultiRequests ht)
    (congrArg Traffic.queued ht) (congrFun (congrArg Traffic.attempt ht))

theorem Tidy.same (h : Tidy held s) (ht : t.traffic = s.traffic) : Tidy held t :=
  h.of_traffic (d := s.destroyed) ht

theorem Tidy.aside (h : Tidy held s) (ha : Aside env s t) : Tidy held t := h.same ha.traffic

/-- A request that is neither active nor held has no handle. -/
theorem Tidy.easyHandle_eq_none (h : Tidy held s) (hq : r ∉ s.maps .queued)
    (hheld : held ≠ some r) : (s.req r).easyHandle = none := by
  rw [← Option.not_isSome_iff_eq_none, h.active]
  exact not_or.mpr ⟨hq, hheld⟩

theorem Tidy.destroy (h : Tidy held s) (hq : r ∉ s.maps .queued) (hheld : held ≠ some r) :
    Tidy held (s.curlEventRequestDestroy r) :=
  h.of_traffic (traffic_destroy (h.easyHandle_eq_none hq hheld))

/-- The written attempt of a request, and those of the others. -/
theorem attempt_of_traffic {q : AttemptState}
    (ht : t.traffic.attempt = update s.traffic.attempt r q) :
    (t.req r).attempt = q ∧ ∀ b, b ≠ r → (t.req b).attempt = (s.req b).attempt := by
  refine ⟨(congrFun ht r).trans (Function.update_self ..), fun b hb => ?_⟩
  exact (congrFun ht b).trans (Function.update_of_ne hb _ _)

/-- An attempt without a handle replaces another one. -/
theorem Tidy.arrives (h : Tidy held s) (ha : Arrives env r s t) (hq : r ∉ s.maps .queued)
    (hheld : held ≠ some r) : Tidy held t := by
  have hnone := h.easyHandle_eq_none hq hheld
  have hflag : (s.req r).multiHandle = false := by
    rw [h.multiHandle, hnone]
    rfl
  obtain ⟨-, hother⟩ := attempt_of_traffic (congrArg Traffic.attempt ha.traffic)
  have heasy : ∀ b, (t.req b).easyHandle = (s.req b).easyHandle := fun b => by
    rcases eq_or_ne b r with rfl | hb
    · rw [ha.easyHandle, hnone]
    · exact congrArg AttemptState.easyHandle (hother b hb)
  have hmulti : t.multi = s.multi := congrArg Traffic.multi ha.traffic
  have hqueued : t.maps .queued = s.maps .queued := congrArg Traffic.queued ha.traffic
  refine ⟨?_, ?_, ?_, fun a ht => ?_, fun b e he => ?_, fun b => ?_, fun b => ?_, ?_, ?_⟩
  · rw [hmulti]
    exact (congrArg Traffic.numMultiRequests ha.traffic).trans h.counted
  · rw [hmulti]
    exact h.allocated
  · rw [hmulti]
    exact h.distinct
  · rw [heasy]
    exact h.owner a (hmulti ▸ ht)
  · rw [hmulti]
    exact h.attached b e (heasy b ▸ he)
  · rw [heasy]
    rcases eq_or_ne b r with rfl | hb
    · rw [ha.multiHandle, hnone]
      rfl
    · exact (congrArg AttemptState.multiHandle (hother b hb)).trans (h.multiHandle b)
  · rw [heasy, hqueued]
    exact h.active b
  · rw [hqueued]
    exact h.once
  · rw [hqueued]
    exact h.apart

/-- An active request is taken in hand. -/
theorem Tidy.takeUp (h : Tidy none s) (hr : r ∈ s.maps .queued)
    (ht : t.traffic = { s.traffic with queued := (s.maps .queued).erase r }) : Tidy (some r) t := by
  have hmulti : t.multi = s.multi := congrArg Traffic.multi ht
  have hqueued : t.maps .queued = (s.maps .queued).erase r := congrArg Traffic.queued ht
  have hattempt : ∀ b, (t.req b).attempt = (s.req b).attempt :=
    congrFun (congrArg Traffic.attempt ht)
  have heasy : ∀ b, (t.req b).easyHandle = (s.req b).easyHandle := fun b =>
    congrArg AttemptState.easyHandle (hattempt b)
  refine ⟨?_, ?_, ?_, fun a ha => ?_, fun b e he => ?_, fun b => ?_, fun b => ?_, ?_,
    fun b hb => ?_⟩
  · rw [hmulti]
    exact (congrArg Traffic.numMultiRequests ht).trans h.counted
  · rw [hmulti]
    exact h.allocated
  · rw [hmulti]
    exact h.distinct
  · rw [heasy]
    exact h.owner a (hmulti ▸ ha)
  · rw [hmulti]
    exact h.attached b e (heasy b ▸ he)
  · rw [heasy]
    exact (congrArg AttemptState.multiHandle (hattempt b)).trans (h.multiHandle b)
  · rw [heasy, hqueued, h.active]
    rcases eq_or_ne b r with rfl | hb
    · exact iff_of_true (.inl hr) (.inr rfl)
    · rw [List.mem_erase_of_ne hb]
      have hne : some r ≠ some b := fun heq => hb (Option.some.inj heq).symm
      exact or_congr_right (iff_of_false nofun hne)
  · rw [hqueued]
    exact h.once.erase r
  · obtain rfl := Option.some.inj hb
    rw [hqueued]
    exact fun hmem => (h.once.mem_erase_iff.mp hmem).1 rfl

/-- Reading a message changes neither the handle nor the owner of a transfer. -/
theorem Tidy.reportMessage (h : Tidy held s) (easy : EasyId) :
    Tidy held (s.reportMessage easy) := by
  have hmap : ∀ {β : Type} (f : Transfer → β), (∀ c : Transfer,
      f (if c.easy = easy then { c with reported := true } else c) = f c) →
      (s.multi.report easy).transfers.map f = s.multi.transfers.map f := by
    intro β f hf
    rw [Multi.report, List.map_map]
    exact List.map_congr_left fun c _ => hf c
  have heasy := hmap Transfer.easy fun c => by split <;> rfl
  have hpair := hmap (fun a => (a.easy, a.priv)) fun c => by split <;> rfl
  refine ⟨?_, fun b hb => ?_, heasy ▸ h.distinct, fun b hb => ?_,
    fun r e he => hpair ▸ h.attached r e he, h.multiHandle, h.active, h.once, h.apart⟩
  · have hlen := congrArg List.length heasy
    rw [List.length_map, List.length_map] at hlen
    exact h.counted.trans (congrArg Nat.cast hlen.symm)
  · obtain ⟨c, hc, rfl⟩ := List.mem_map.mp hb
    have hc' := h.allocated c hc
    split <;> exact hc'
  · obtain ⟨c, hc, rfl⟩ := List.mem_map.mp hb
    have hc' := h.owner c hc
    split <;> exact hc'

/-- An attached handle belongs to an active request. -/
theorem Tidy.mem_queued (h : Tidy none s) {a : Transfer} (ha : a ∈ s.multi.transfers) :
    a.priv ∈ s.maps .queued := by
  refine ((h.active a.priv).mp ?_).resolve_right nofun
  rw [h.owner a ha]
  rfl

/-- The message of a transfer is read, and its request taken in hand. -/
theorem Tidy.receive (h : Tidy none s) {m : Message} {a : Transfer} (ha : s.transferOf m = some a) :
    Tidy (some a.priv)
      (((s.reportMessage m.easy).eraseMap .queued a.priv).addNum .queued (-1)) := by
  exact (h.reportMessage m.easy).takeUp (h.mem_queued (mem_of_transferOf ha).1)
    (traffic_eraseQueued _ a.priv)

/-- The handle of a request that is held is detached. -/
theorem Tidy.cleanup (h : Tidy (some r) s) :
    Tidy none (s.curlEventLoopRequestCleanup r) := by
  obtain ⟨e, he⟩ := Option.isSome_iff_exists.mp ((h.active r).mpr (.inr rfl))
  have hflag : (s.req r).multiHandle = true := by
    rw [h.multiHandle, he]
    rfl
  have hmulti : (s.curlEventLoopRequestCleanup r).multi = s.multi.detach e := by
    rw [curlEventLoopRequestCleanup, he, hflag]
    rfl
  have hnum : (s.curlEventLoopRequestCleanup r).numMultiRequests = s.numMultiRequests - 1 := by
    rw [curlEventLoopRequestCleanup, he, hflag]
    rfl
  have hself : (s.curlEventLoopRequestCleanup r).req r = (s.req r).cleaned :=
    Function.update_self ..
  have hother : ∀ b, b ≠ r → (s.curlEventLoopRequestCleanup r).req b = s.req b := fun b hb =>
    Function.update_of_ne hb _ _
  obtain ⟨a, ha, hpair⟩ := List.mem_map.mp (h.attached r e he)
  obtain ⟨rfl, rfl⟩ := Prod.mk.inj hpair
  -- the transfer of the handle is the request's
  have honly : ∀ b ∈ s.multi.transfers, b.priv = a.priv → b.easy = a.easy := fun b hb hp => by
    have hown := h.owner b hb
    rw [hp, he] at hown
    exact (Option.some.inj hown).symm
  have hmem : ∀ b, b ∈ (s.multi.detach a.easy).transfers ↔
      b ∈ s.multi.transfers ∧ b.easy ≠ a.easy := fun b => by
    rw [Multi.detach, List.mem_filter, decide_eq_true_iff]
  have heasies : (s.multi.detach a.easy).transfers.map Transfer.easy =
      (s.multi.transfers.map Transfer.easy).erase a.easy := by
    rw [h.distinct.erase_eq_filter, Multi.detach, List.filter_map]
    refine congrArg (List.map Transfer.easy) (List.filter_congr fun b _ => ?_)
    by_cases hb : b.easy = a.easy <;> simp [hb]
  have hlen : (s.multi.detach a.easy).transfers.length + 1 = s.multi.transfers.length := by
    have h1 := congrArg List.length heasies
    rw [List.length_map, List.length_erase_of_mem (List.mem_map_of_mem ha), List.length_map] at h1
    have h2 := List.length_pos_of_mem ha
    omega
  refine ⟨?_, fun b hb => ?_, ?_, fun b hb => ?_, fun b e' hb => ?_, fun b => ?_, fun b => ?_,
    h.once, fun b hb => absurd hb (Option.some_ne_none b).symm⟩
  · rw [hnum, hmulti, h.counted]
    omega
  · rw [hmulti] at hb ⊢
    exact h.allocated b ((hmem b).mp hb).1
  · rw [hmulti, heasies]
    exact h.distinct.erase _
  · rw [hmulti] at hb
    obtain ⟨hin, hne⟩ := (hmem b).mp hb
    rw [hother b.priv fun hp => hne (honly b hin hp)]
    exact h.owner b hin
  · have hbr : b ≠ a.priv := by
      rintro rfl
      rw [hself] at hb
      exact absurd hb (by simp [Request.cleaned])
    rw [hother b hbr] at hb
    obtain ⟨c, hc, hpc⟩ := List.mem_map.mp (h.attached b e' hb)
    obtain ⟨rfl, rfl⟩ := Prod.mk.inj hpc
    rw [hmulti]
    refine List.mem_map.mpr ⟨c, (hmem c).mpr ⟨hc, fun hce => ?_⟩, rfl⟩
    exact hbr (congrArg Transfer.priv (List.inj_on_of_nodup_map h.distinct hc ha hce))
  · rcases eq_or_ne b a.priv with rfl | hbr
    · rw [hself, Request.cleaned, he]
      rfl
    · rw [hother b hbr]
      exact h.multiHandle b
  · show _ ↔ b ∈ s.maps .queued ∨ _
    rcases eq_or_ne b a.priv with rfl | hbr
    · rw [hself]
      exact iff_of_false (by simp [Request.cleaned]) (not_or.mpr ⟨h.apart _ rfl, (Option.some_ne_none _).symm⟩)
    · rw [hother b hbr]
      have hne : some a.priv ≠ some b := fun heq => hbr (Option.some.inj heq).symm
      exact (h.active b).trans (or_congr_right (iff_of_false hne (Option.some_ne_none b).symm))

/-- A request gets a transfer. -/
theorem Tidy.attached_start (h : Tidy none s) (hq : r ∉ s.maps .queued)
    (hperm : (t.maps .queued).Perm (r :: s.maps .queued))
    (ht : t.traffic = { s.traffic with
      multi := ⟨⟨s.multi.nextEasy, r, false⟩ :: s.multi.transfers, s.multi.nextEasy + 1⟩
      numMultiRequests := s.numMultiRequests + 1
      queued := t.maps .queued
      attempt := update s.traffic.attempt r
        ⟨some s.multi.nextEasy, true, (s.req r).rateLimit, (s.req r).depHead⟩ }) :
    Tidy none t := by
  have hnone := h.easyHandle_eq_none hq nofun
  have hmulti : t.multi =
      ⟨⟨s.multi.nextEasy, r, false⟩ :: s.multi.transfers, s.multi.nextEasy + 1⟩ :=
    congrArg Traffic.multi ht
  have hnum : t.numMultiRequests = s.numMultiRequests + 1 := congrArg Traffic.numMultiRequests ht
  obtain ⟨hself, hother⟩ := attempt_of_traffic (congrArg Traffic.attempt ht)
  have heasy : (t.req r).easyHandle = some s.multi.nextEasy :=
    congrArg AttemptState.easyHandle hself
  have heasy' : ∀ b, b ≠ r → (t.req b).easyHandle = (s.req b).easyHandle := fun b hb =>
    congrArg AttemptState.easyHandle (hother b hb)
  refine ⟨?_, fun a ha => ?_, ?_, fun a ha => ?_, fun b e he => ?_, fun b => ?_, fun b => ?_, ?_,
    nofun⟩
  · rw [hnum, hmulti, h.counted]
    rfl
  · rw [hmulti] at ha ⊢
    rcases List.mem_cons.mp ha with rfl | ha
    · exact Nat.lt_succ_self _
    · exact Nat.lt_succ_of_lt (h.allocated a ha)
  · rw [hmulti]
    refine List.nodup_cons.mpr ⟨fun hmem => ?_, h.distinct⟩
    obtain ⟨a, ha, heq⟩ := List.mem_map.mp hmem
    exact absurd heq (Nat.ne_of_lt (h.allocated a ha))
  · rw [hmulti] at ha
    rcases List.mem_cons.mp ha with rfl | ha
    · exact heasy
    · have hne : a.priv ≠ r := by
        rintro hp
        have hown := h.owner a ha
        rw [hp, hnone] at hown
        exact absurd hown nofun
      rw [heasy' _ hne]
      exact h.owner a ha
  · rw [hmulti, List.map_cons]
    rcases eq_or_ne b r with rfl | hb
    · rw [heasy] at he
      obtain rfl := Option.some.inj he
      exact List.mem_cons_self
    · rw [heasy' b hb] at he
      exact List.mem_cons_of_mem _ (h.attached b e he)
  · rcases eq_or_ne b r with rfl | hb
    · rw [heasy]
      exact congrArg AttemptState.multiHandle hself
    · rw [heasy' b hb]
      exact (congrArg AttemptState.multiHandle (hother b hb)).trans (h.multiHandle b)
  · rw [hperm.mem_iff]
    rcases eq_or_ne b r with rfl | hb
    · rw [heasy]
      exact iff_of_true rfl (.inl List.mem_cons_self)
    · rw [heasy' b hb, List.mem_cons]
      exact (h.active b).trans (or_congr_left (or_iff_right hb).symm)
  · exact hperm.nodup_iff.mpr (List.nodup_cons.mpr ⟨hq, h.once⟩)

/-- A request is started. -/
theorem Tidy.start (h : Tidy none s) (hq : r ∉ s.maps .queued) :
    Tidy none (s.curlEventLoopRequestStart env r) := by
  cases launch_start env (h.easyHandle_eq_none hq nofun) with
  | parked _ ht _ => exact h.same ht
  | failed _ _ ht _ => exact h.of_traffic ht
  | attached _ _ hperm ht _ => exact h.attached_start hq hperm ht

/-- A cleaned-up request waits for another attempt. -/
theorem Tidy.cleanupEnqueue (h : Tidy (some r) s) :
    Tidy none ((s.curlEventLoopRequestCleanup r).enqueueRequest r) :=
  h.cleanup.same (traffic_enqueueRequest _ r)

/-- The destruction of a request detaches its handle. -/
theorem Tidy.destroy_held (h : Tidy (some r) s) : Tidy none (s.curlEventRequestDestroy r) := by
  have hclean := h.cleanup
  have ht : (s.curlEventRequestDestroy r).traffic =
      { (s.curlEventLoopRequestCleanup r).traffic with destroyed := r :: s.destroyed } :=
    congrArg (fun t : Traffic => { t with destroyed := r :: s.destroyed })
      (traffic_modifyReq (s.curlEventLoopRequestCleanup r) r
        (f := fun q => q.setRetained false) rfl)
  exact hclean.of_traffic ht

/-- Every exit of a finished request detaches its handle, but that of a throttled one. -/
theorem Tidy.finish (h : Tidy (some r) s) {success : Bool} : Tidy none (s.finish r success) := by
  have main : ∀ t : Loop ω, Tidy (some r) t →
      Tidy none (if (t.req r).shouldRefresh then ((t.modifyReq r fun q =>
        { q with currentRetries := 0 }).curlEventLoopRequestCleanup r).enqueueRequest r
        else t.curlEventRequestDestroy r) := by
    intro t ht
    split
    · exact Tidy.cleanupEnqueue (ht.same (traffic_modifyReq t r rfl))
    · exact ht.destroy_held
  rw [Loop.finish]
  cases success with
  | true => exact main s.countCompleted (h.same rfl)
  | false => exact main s h

theorem Tidy.reschedule (h : Tidy (some r) s) (env : Env ω) {success : Bool} {retryIn : ℤ} :
    Tidy none (s.reschedule env r success retryIn) := by
  have main : ∀ p : Bool × Loop ω, Tidy (some r) p.2 →
      Tidy none (if p.1 then (p.2.curlEventLoopRequestCleanup r).countRetried.enqueueRequest r
        else p.2.finish r success) := by
    intro p hp
    split
    · have hcounted : Tidy none (p.2.curlEventLoopRequestCleanup r).countRetried :=
        hp.cleanup.same rfl
      exact hcounted.same (traffic_enqueueRequest _ r)
    · exact hp.finish
  rw [Loop.reschedule]
  split
  · exact Tidy.cleanupEnqueue (h.same (traffic_modifyReq s r (f := fun q => q.dueAt _) rfl))
  · refine main (if retryIn < 0 then s.callOnRetry env r else (false, s)) ?_
    split
    · exact h.aside (aside_callOnRetry env s r)
    · exact h

theorem Tidy.settle (h : Tidy (some r) s) {httpCode : ℤ} {success : Bool} {retryIn : ℤ}
    (hw : unthrottled.settle (s.req r).attempt httpCode) :
    Tidy none (s.settle env r httpCode success retryIn) := by
  rw [Loop.settle]
  cases hkey : (s.req r).rateLimit with
  | none => exact h.reschedule env
  | some key =>
    have hcode : httpCode ≠ 429 := fun hcode => hw ⟨congrArg Option.isSome hkey, hcode⟩
    have hdone : Tidy (some r) (s.ask fun w => ((), env.rateManagerRequestDone key w)).2 :=
      h.same rfl
    dsimp only
    rw [if_neg hcode]
    exact hdone.reschedule env

/-- A cancelled request is taken out of its map, and its handle detached. -/
theorem Tidy.cancelledRound (h : Tidy none s) (hm : s.Mapped r) :
    Tidy none (s.cancelledRound r) := by
  rw [Mapped, cancelledMap] at hm
  rw [Loop.cancelledRound, cancelledMap]
  split
  · rename_i hflag
    rw [if_pos hflag] at hm
    exact Tidy.destroy_held
      (h.takeUp (t := s.dropFromMap .queued r) hm (traffic_eraseQueued s r))
  · rename_i hflag
    have hq : r ∉ s.maps .queued := fun hq => by
      rw [h.multiHandle] at hflag
      exact hflag ((h.active r).mpr (.inl hq))
    have hother := waitingMap_ne_queued (s.req r)
    have hdrop : Tidy none (s.dropFromMap (waitingMap (s.req r)) r) :=
      h.same (traffic_setMap s hother _)
    refine hdrop.destroy ?_ (Option.some_ne_none r).symm
    rw [maps_dropFromMap, Function.update_of_ne hother.symm]
    exact hq

theorem kept_tidy (env : Env ω) : Kept env unthrottled Tidy where
  aside h ha := h.aside ha
  arrives h ha hq hheld := h.arrives ha hq hheld
  destroy h hr hheld := h.destroy hr.queued hheld
  drop h hm _ _ := h.cancelledRound hm
  start h hr := h.start hr.queued
  receive h ha := h.receive ha
  settle h _ hw := h.settle hw

/-- **The invariant along a path.** -/
theorem Tidy.path (h : Tidy none s) (hp : Path env unthrottled.regime s t) : Tidy none t :=
  hp.kept (kept_tidy env) h

theorem tidy_init (mem : Memory) (world : ω) : Tidy none (curlEventLoopInit mem world) := by
  have hnone : ∀ r, ((curlEventLoopInit mem world).req r).easyHandle = none := fun r =>
    (mem.unsubmitted r).easyHandle
  refine ⟨rfl, nofun, List.nodup_nil, nofun, fun r e he => ?_, fun r => ?_, fun r => ?_,
    List.nodup_nil, nofun⟩
  · rw [hnone] at he
    exact absurd he nofun
  · rw [hnone]
    exact (mem.unsubmitted r).multiHandle
  · rw [hnone]
    exact iff_of_false nofun nofun

/-- What the invariant says of a resting loop. -/
theorem Tidy.handlesMatch (h : Tidy none s) (hrest : s.Resting) : s.HandlesMatch where
  counted := h.counted
  distinct := h.distinct
  owned a ha := by
    refine ⟨a.priv, h.mem_queued ha, h.owner a ha, fun r hr => ?_⟩
    obtain ⟨b, hb, hpair⟩ := List.mem_map.mp (h.attached r a.easy hr)
    obtain ⟨heasy, rfl⟩ := Prod.mk.inj hpair
    exact congrArg Transfer.priv (List.inj_on_of_nodup_map h.distinct hb ha heasy)
  waiting m hm r hr := by
    have hnone := h.easyHandle_eq_none (((atRest_true.mpr hrest).mapped hr).2.2.1 .queued hm.symm) nofun
    exact ⟨hnone, (h.multiHandle r).trans (congrArg Option.isSome hnone)⟩

/-- A run that meets no hazard, and in which no request with a rate-limit key is answered with
429. -/
theorem tidy_run (mem : Memory) (world : ω) {as : List Action}
    (has : Guarded.Allowed (Loop.act env)
      (fun a s => Foreseen env a s ∧ s.Watched env unthrottled a) (curlEventLoopInit mem world) as) :
    (Guarded.run (Loop.act env) (curlEventLoopInit mem world) as).hazards = [] ∧
      (Guarded.run (Loop.act env) (curlEventLoopInit mem world) as).Resting ∧
      Tidy none (Guarded.run (Loop.act env) (curlEventLoopInit mem world) as) :=
  has.invariant (P := fun s => s.hazards = [] ∧ s.Resting ∧ Tidy none s)
    (fun _ _ hs ha =>
      have hz := ha.1.trans hs.1
      ⟨hz, hs.2.1.act hz, hs.2.2.path (hs.2.1.path_act ha.2 hz)⟩)
    ⟨rfl, resting_init mem world, tidy_init mem world⟩

/-- **Handles match active requests**, in every state that a run reaches in which no step meets a
hazard and no request with a rate-limit key is answered with 429. -/
theorem handlesMatch_of_unthrottled (env : Env ω) (mem : Memory) (world : ω) (as : List Action)
    (has : Guarded.Allowed (Loop.act env)
      (fun a s => Foreseen env a s ∧ s.Watched env unthrottled a) (curlEventLoopInit mem world) as) :
    ∀ pre, pre <+: as →
      (Guarded.run (Loop.act env) (curlEventLoopInit mem world) pre).HandlesMatch := by
  rintro pre ⟨post, rfl⟩
  obtain ⟨-, hrest, htidy⟩ := tidy_run mem world (Guarded.allowed_append.mp has).1
  exact htidy.handlesMatch hrest

instance (a : AttemptState) : Decidable (unthrottled.drop a) := inferInstanceAs (Decidable True)

instance (a : AttemptState) (code : ℤ) : Decidable (unthrottled.settle a code) :=
  inferInstanceAs (Decidable (¬ _))

/-- Request 1, under a rate limit, fails with 500 and request 2, which is under none, with 429. -/
theorem handlesMatch_of_unthrottled_failed :
    (Guarded.run (Loop.act Env.uneventful) (curlEventLoopInit
      (Memory.keyed fun r => if r = 1 then some "k" else none) ()) [.call (.api (.submit 1 0)),
        .call (.api (.submit 2 0)), .processCancelledAndPendingRequests,
        .processCompletedRequests [⟨0, .ok, 429⟩, ⟨1, .ok, 500⟩]]).HandlesMatch :=
  handlesMatch_of_unthrottled Env.uneventful
    (Memory.keyed fun r => if r = 1 then some "k" else none) () _ (by decide +kernel) _
    (List.prefix_refl _)

/-- Request 1, under a rate limit, is answered with 429. It is parked with its handle attached, and
its next start attaches another one. -/
theorem not_handlesMatch_throttled :
    let run := Guarded.run (Loop.act Env.uneventful)
      (curlEventLoopInit (Memory.keyed fun _ => some "k") ())
    let as := [.call (.api (.submit 1 0)), .processCancelledAndPendingRequests,
      .processCompletedRequests [⟨0, .ok, 429⟩]]
    (run as).hazards = [] ∧ ¬ (run as).HandlesMatch := by
  intro run as
  have hmap : (run as).hazards = [] ∧ 1 ∈ (run as).maps .rateLimited ∧
      ((run as).req 1).easyHandle = some 0 := by
    decide +kernel
  refine ⟨hmap.1, fun h => ?_⟩
  have hnone := (h.waiting .rateLimited (by decide) 1 hmap.2.1).1
  rw [hmap.2.2] at hnone
  exact absurd hnone nofun

end Loop

end CurlLoop
