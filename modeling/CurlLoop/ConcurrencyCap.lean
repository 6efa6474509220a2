import CurlLoop.Rows
import CurlLoop.Uncancelled

/-!
# The cap on active requests

`max_concurrent_requests` is compared with `num_queued_requests` in `request_ready`, just before a
request is started. A request becomes active in no other place, so the number of active requests
never exceeds the cap, if the counter is right: it is an `int` that is converted to `size_t`.

The counter is right along every path. A run in which nothing is cancelled and no address is handed
to the loop a second time follows one: it may free resources while requests wait for them, and meets
no other hazard.

## Main definitions

* `Loop.slots`, `Loop.Capped` — the active requests, their counter and the cap
* `Loop.HandedOnce` — the guard of a run

## Main results

* `Capped.path` — the cap along a path
* `queued_le_cap` — the cap in every run
-/

namespace CurlLoop

open Function (update)

/-- The active requests, their counter and the cap. -/
structure Slots where
  active : List ReqId
  num : ℤ
  cap : ℕ

/-- The call cancels no request. -/
def ApiCall.IsOther : ApiCall → Prop
  | .cancel _ => False
  | _ => True

theorem ApiCall.IsOther.cancels {c : ApiCall} (hc : c.IsOther) : c.cancels = false := by
  cases c with
  | cancel r => exact hc.elim
  | _ => rfl

theorem Call.cancels_of_among {c : Call} (hc : c.Among ApiCall.IsOther) : c.cancels = false := by
  cases c with
  | api c => exact ApiCall.IsOther.cancels hc
  | _ => rfl

/-- Callbacks that make no cancelling call. -/
theorem Env.Makes.neverCancels {ω : Type} {env : Env ω} (hm : env.Makes ApiCall.IsOther) :
    env.NeverCancels := by
  refine ⟨fun r w c hc => ?_, fun r easy code httpCode w c hc => ?_, fun r w c hc =>
    (hm.onAborted r w c hc).cancels⟩
  · cases c with
    | api c => exact (hm.onComplete r w c hc).cancels
    | _ => rfl
  · cases c with
    | api c => exact (hm.onFailure r easy code httpCode w c hc).cancels
    | _ => rfl

namespace Loop

variable {ω : Type} {s t u : Loop ω} {r : ReqId} {m : MapId} {env : Env ω} {n : ℕ}

/-- The active requests of a loop, their counter and the cap. -/
def slots (s : Loop ω) : Slots := ⟨s.maps .queued, s.num .queued, s.maxConcurrentRequests⟩

/-- The counter of the active requests is right, and they are no more than the cap. -/
structure Capped (n : ℕ) (s : Loop ω) : Prop where
  num : s.num .queued = (s.maps .queued).length
  le : (s.maps .queued).length ≤ n
  cap : s.maxConcurrentRequests = n

theorem Capped.of_slots (h : Capped n s) (ht : t.slots = s.slots) : Capped n t := by
  obtain ⟨hactive, hnum, hcap⟩ := Slots.mk.inj ht
  refine ⟨?_, ?_, hcap.trans h.cap⟩
  · rw [hactive, hnum]
    exact h.num
  · rw [hactive]
    exact h.le

/-! ### Steps that leave the active requests alone -/

theorem Calm.slots (h : Calm env s t) : t.slots = s.slots := by
  have hnum : t.num .queued = s.num .queued := congrArg Chronicle.numQueued h.chronicle
  have hcap : t.maxConcurrentRequests = s.maxConcurrentRequests :=
    congrArg Chronicle.maxConcurrentRequests h.chronicle
  rw [Loop.slots, Loop.slots, h.queued, hnum, hcap]

theorem slots_cancel (s : Loop ω) (r : ReqId) : (s.curlEventLoopCancel r).2.slots = s.slots := by
  rw [curlEventLoopCancel]
  dsimp only
  split
  · rfl
  · split <;> rfl

theorem Arrives.slots (h : Arrives env r s t) : t.slots = s.slots := by
  rw [Loop.slots, Loop.slots, h.maps, h.num, h.maxConcurrentRequests]

theorem Errands.slots {calls : ApiCall → Prop} {busy : ReqId → Prop}
    (h : Errands env calls busy s t) : t.slots = s.slots := by
  induction h with
  | refl => rfl
  | calm _ ha ih => exact ha.slots.trans ih
  | cancel r _ _ _ ih => exact (slots_cancel _ r).trans ih
  | arrives r _ _ ha _ _ _ _ ih => exact ha.slots.trans ih

theorem Interlude.slots {calls : ApiCall → Prop} {held : Option ReqId}
    (h : Interlude env calls held s t) : t.slots = s.slots := by
  induction h with
  | refl => rfl
  | errands _ he ih => exact he.slots.trans ih
  | @abort t u r _ _ _ he _ ih =>
    obtain ⟨w, tr, heq⟩ := callOnAborted_eq env t r
    rw [heq] at he
    exact he.slots.trans ih

theorem slots_setMap (s : Loop ω) (hm : m ≠ .queued) (map : List ReqId) :
    (s.setMap m map).slots = s.slots := by
  have hactive : (s.setMap m map).maps .queued = s.maps .queued := Function.update_of_ne hm.symm ..
  rw [Loop.slots, hactive]
  rfl

theorem slots_addNum (s : Loop ω) (hm : m ≠ .queued) (d : ℤ) :
    (s.addNum m d).slots = s.slots := by
  have hnum : (s.addNum m d).num .queued = s.num .queued := Function.update_of_ne hm.symm ..
  rw [Loop.slots, hnum]
  rfl

theorem slots_enqueueRequest (s : Loop ω) (r : ReqId) : (s.enqueueRequest r).slots = s.slots :=
  (slots_addNum _ (waitingMap_ne_queued _) 1).trans (slots_setMap s (waitingMap_ne_queued _) _)

theorem slots_settle (env : Env ω) (s : Loop ω) (r : ReqId) (httpCode : ℤ) (success : Bool)
    (retryIn : ℤ) : (s.settle env r httpCode success retryIn).slots = s.slots := by
  have hout := settle_outcome env s r httpCode success retryIn
  generalize s.settle env r httpCode success retryIn = t at hout ⊢
  cases hout with
  | parked w due => exact slots_setMap _ (by decide) _
  | again w tr n f => exact slots_enqueueRequest _ r
  | ended w tr n f => rfl

/-! ### The cap along a path -/

/-- A request leaves the active map, and the counter falls. -/
theorem Capped.eraseQueued (h : Capped n s) (hr : r ∈ s.maps .queued)
    (hactive : t.maps .queued = (s.maps .queued).erase r)
    (hnum : t.num .queued = s.num .queued + -1)
    (hcap : t.maxConcurrentRequests = s.maxConcurrentRequests) : Capped n t := by
  have hlength := List.length_erase_of_mem hr
  have hpos := List.length_pos_of_mem hr
  refine ⟨?_, ?_, hcap.trans h.cap⟩
  · rw [hnum, hactive, h.num]
    omega
  · rw [hactive]
    exact Nat.le_trans (List.length_erase_le ..) h.le

theorem Capped.cancelledRound (h : Capped n s) (hr : s.Mapped r) :
    Capped n (s.cancelledRound r) := by
  rw [Mapped] at hr
  have hmaps := maps_cancelledRound s r
  have hnum : (s.cancelledRound r).num = update s.num (cancelledMap (s.req r))
      (s.num (cancelledMap (s.req r)) + -1) := rfl
  rcases eq_or_ne (cancelledMap (s.req r)) .queued with hq | hq
  · rw [hq] at hr hmaps hnum
    refine h.eraseQueued hr ?_ ?_ (maxConcurrentRequests_cancelledRound s r)
    · rw [hmaps, Function.update_self]
    · rw [hnum, Function.update_self]
  · refine h.of_slots ?_
    rw [Loop.slots, hmaps, hnum, Function.update_of_ne hq.symm, Function.update_of_ne hq.symm,
      maxConcurrentRequests_cancelledRound, Loop.slots]

theorem Capped.pickUp (h : Capped n s) (easy : EasyId) (hr : r ∈ s.maps .queued) :
    Capped n (s.pickUp easy r) := by
  have hmaps : (s.pickUp easy r).maps = update s.maps .queued ((s.maps .queued).erase r) := rfl
  have hnum : (s.pickUp easy r).num = update s.num .queued (s.num .queued + -1) := rfl
  refine h.eraseQueued hr ?_ ?_ rfl
  · rw [hmaps, Function.update_self]
  · rw [hnum, Function.update_self]

/-- A counter within the range of `size_t` is read as it is. -/
theorem sizeT_natCast {k : ℕ} (hk : k < 2 ^ 64) : sizeT k = k := by
  rw [sizeT]
  omega

/-- **A start keeps within the cap**, if it finds a slot. -/
theorem Capped.start (h : Capped n s) (hn : n < 2 ^ 64)
    (hslot : sizeT (s.num .queued) < s.maxConcurrentRequests) :
    Capped n (s.curlEventLoopRequestStart env r) := by
  have hroom : (s.maps .queued).length < n := by
    rw [h.num, h.cap, sizeT_natCast (Nat.lt_of_le_of_lt h.le hn)] at hslot
    exact hslot
  have hout := start_outcome env s r
  generalize s.curlEventLoopRequestStart env r = t at hout ⊢
  cases hout with
  | parked w due => exact h.of_slots (slots_setMap _ (by decide) _)
  | refused w => exact h.of_slots rfl
  | active w =>
    have hperm := perm_activate env
      ((({ s with world := w } : Loop ω).modifyReq r Request.reset).newHandle r) r
    refine ⟨?_, ?_, h.cap⟩
    · rw [hperm.length_eq, List.length_cons]
      change update s.num .queued (s.num .queued + 1) .queued = _
      rw [Function.update_self, h.num]
      rfl
    · rw [hperm.length_eq, List.length_cons]
      exact hroom

/-- **The cap along a path.** -/
theorem Capped.path {W : Regime ω} (h : Capped n s) (hn : n < 2 ^ 64) (hp : Path env W s t) :
    Capped n t := by
  induction hp with
  | refl => exact h
  | interlude _ hi ih => exact ih.of_slots hi.slots
  | drop r _ _ hm _ _ _ ih => exact ih.cancelledRound hm
  | discard r _ _ _ ih => exact ih.of_slots rfl
  | start r _ _ hslot _ ih => exact ih.start hn hslot
  | @complete t u m a _ _ hq _ _ hi _ ih =>
    obtain ⟨w, tr, heq⟩ := hear_eq env t m a.priv
    rw [heq] at hi
    exact (ih.pickUp m.easy hq).of_slots ((slots_settle env u _ _ _ _).trans hi.slots)
  | @injected t u r _ _ hi _ ih =>
    refine ih.of_slots (Eq.trans hi.slots ?_)
    split
    · obtain ⟨w, tr, heq⟩ := tellComplete_eq env t r
      rw [heq]
      rfl
    · rfl

end Loop

/-- The action is no cancellation, and not the destruction of the loop. -/
def Action.IsOther : Action → Prop
  | .call c => c.Among ApiCall.IsOther
  | .destroy => False
  | _ => True

theorem Action.IsOther.cancels {a : Action} (ha : a.IsOther) : a.cancels = false := by
  cases a with
  | call c => exact Call.cancels_of_among ha
  | _ => rfl

theorem Action.IsOther.ne_destroy {a : Action} (ha : a.IsOther) : a ≠ .destroy := by
  rintro rfl
  exact ha

namespace Loop

variable {ω : Type} {s t u : Loop ω} {env : Env ω} {n : ℕ}

/-- The guard of a run: nothing is cancelled, the loop is not destroyed, and no address is handed to
it a second time. -/
def HandedOnce (env : Env ω) (a : Action) (s : Loop ω) : Prop :=
  a.IsOther ∧ ∀ r, .resubmitted r ∉ (act env a s).hazards

/-- What such a run keeps. -/
structure Unforced (n : ℕ) (s : Loop ω) : Prop where
  atRest : s.AtRest False
  cancelledRequests : s.cancelledRequests = none
  abandoned : ∀ x ∈ s.hazards, x.IsAbandoned
  capped : Capped n s

theorem Unforced.act (h : Unforced n s) (hm : env.Makes ApiCall.IsOther) (hn : n < 2 ^ 64)
    {a : Action} (ha : HandedOnce env a s) : Unforced n (Loop.act env a s) := by
  have hun := unmarking_act hm.neverCancels s ha.1.cancels ha.1.ne_destroy
  have habandoned : ∀ x ∈ (Loop.act env a s).hazards, x.IsAbandoned := by
    intro x hx
    rcases hun.hazards h.cancelledRequests x hx with hold | hagain | hfreed
    · exact h.abandoned x hold
    · cases x with
      | resubmitted r => exact absurd hx (ha.2 r)
      | _ => exact absurd hagain Bool.false_ne_true
    · cases x with
      | abandoned id => trivial
      | _ => exact absurd hfreed Bool.false_ne_true
  have hspared : (Loop.act env a s).Spared False := .of_abandoned habandoned
  have hadmits : s.Admits env ⟨ApiCall.IsOther, fun _ => True, fun _ _ => True⟩ a := by
    cases a with
    | call c => exact ha.1
    | processCancelledAndPendingRequests => exact fun _ _ => trivial
    | processCompletedRequests msgs =>
      exact Guarded.allowed_of_forall fun _ _ => trivial
    | destroy => exact ha.1
    | _ => trivial
  exact ⟨h.atRest.act ha.1.ne_destroy hspared, hun.cancelled h.cancelledRequests, habandoned,
    h.capped.path hn (h.atRest.path_admits hm hadmits hspared)⟩

/-- The loop `curl_event_loop_init` returns, with a cap that its user sets. -/
def initCapped (mem : Memory) (world : ω) (n : ℕ) : Loop ω :=
  { curlEventLoopInit mem world with maxConcurrentRequests := n }

theorem unforced_init (mem : Memory) (world : ω) (n : ℕ) : Unforced n (initCapped mem world n) := by
  obtain ⟨v, C, hwf, hv⟩ := resting_init mem world
  refine ⟨⟨v, C, ⟨hwf.located, hwf.marked⟩, hv.hand, fun p _ => hv.detached p⟩, rfl, nofun, ?_⟩
  exact ⟨rfl, Nat.zero_le n, rfl⟩

/-- **The cap on active requests.** In every run in which nothing is cancelled and no address is
handed to the loop a second time, the number of active requests never exceeds the cap, whatever it
is. -/
theorem queued_le_cap (env : Env ω) (hm : env.Makes ApiCall.IsOther) (mem : Memory) (world : ω)
    {n : ℕ} (hn : n < 2 ^ 64) (as : List Action)
    (has : Guarded.Allowed (Loop.act env) (HandedOnce env) (initCapped mem world n) as) :
    ∀ pre, pre <+: as →
      ((Guarded.run (Loop.act env) (initCapped mem world n) pre).maps .queued).length ≤ n := by
  rintro pre ⟨post, rfl⟩
  have hrun : Unforced n (Guarded.run (Loop.act env) (initCapped mem world n) pre) :=
    (Guarded.allowed_append.mp has).1.invariant (fun _ _ hs ha => hs.act hm hn ha)
      (unforced_init mem world n)
  exact hrun.capped.le

/-- Two requests and one slot. The pending list is a stack, so request 2 is served first. It fails and
is destroyed, and request 1, which found no slot, takes the one that is free again. -/
theorem queued_le_cap_one :
    ((Guarded.run (Loop.act Env.uneventful) (initCapped (Memory.plain fun _ => []) () 1)
      [.call (.api (.submit 1 0)), .call (.api (.submit 2 0)), .processCancelledAndPendingRequests,
        .moveInactiveRequestsToQueue, .processCompletedRequests [⟨0, .other 7, 0⟩],
        .moveInactiveRequestsToQueue]).maps .queued).length ≤ 1 :=
  queued_le_cap Env.uneventful ⟨nofun, nofun, nofun⟩ (Memory.plain fun _ => []) () (by decide) _
    (by
      refine ⟨⟨trivial, ?_⟩, ⟨trivial, ?_⟩, ⟨trivial, ?_⟩, ⟨trivial, ?_⟩, ⟨trivial, ?_⟩,
        ⟨trivial, ?_⟩, trivial⟩ <;> exact fun r hr => nomatch hr)
    _ (List.prefix_refl _)

end Loop

end CurlLoop
