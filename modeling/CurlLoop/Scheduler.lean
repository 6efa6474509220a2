import CurlLoop.Counters
import CurlLoop.Destruction

/-!
# Runs of the scheduler

What holds of a loop after any run that met no hazard. First in terms of the invariant, which the
passes and calls of the previous files were shown to keep; then in terms of what the loop holds:
the lists its head pointers lead to and its maps.

A run without cancellations and releases cannot meet a hazard, so `contents_of_scheduled` asks for
nothing more. For the destruction of the loop the condition is needed: a request that is cancelled
while it is active, and completes before the next pass, is freed and stays on the cancelled list.

## Main definitions

* `Container`, `Loop.contents` — where the loop keeps requests, and what is there
* `Loop.Scheduled` — a step in which nothing is cancelled, injected or given up
* `Loop.Foreseen` — a step that meets no hazard
* `Loop.TornDownOnce` — every request was destroyed exactly once

## Main results

* `Resting.act`, `resting_run` — the invariant after one action and after a run
* `nodup_handedOver` — no memory is handed to the loop twice, but for a hazard
* `contents_of_scheduled` — no request is lost or duplicated
* `tornDownOnce_of_foreseen` — every request is destroyed exactly once
-/

namespace CurlLoop

open Function (update)

namespace Loop

variable {ω : Type} {s t : Loop ω} {v : View} {C : List ReqId} {r : ReqId} {env : Env ω}
  {strict : Prop}

/-! ### The invariant of a run -/

theorem resting_init (mem : Memory) (world : ω) : (curlEventLoopInit mem world).Resting := by
  refine ⟨fun _ => [], [], ⟨⟨⟨rfl, rfl, fun _ => rfl, fun _ => rfl, fun _ h => absurd rfl h⟩,
    fun _ => rfl, fun p r hr => absurd hr (by simp),
    fun a ha => absurd ha (by simp [curlEventLoopInit]),
    ⟨fun _ => List.nodup_nil, fun h => absurd h (by simp), fun r => ?_⟩, fun r _ => mem.unsubmitted r,
    List.nodup_nil, List.nodup_nil, List.nil_subset _, rfl⟩,
    ⟨rfl, List.nodup_nil, fun r hr => absurd hr (by simp), fun r hr => absurd hr (by simp),
      fun _ _ _ => rfl⟩⟩, rfl, fun _ => rfl⟩
  simp [curlEventLoopInit]

theorem counted_init (mem : Memory) (world : ω) : (curlEventLoopInit mem world).Counted :=
  fun _ _ => rfl

/-- The calculation of the waiting time only asks the outside world. -/
theorem calculateNextTimerExpiry_eq (env : Env ω) (s : Loop ω) (n : ℕ) :
    ∃ w, (s.calculateNextTimerExpiry env n).2 = { s with world := w } := by
  have hnext : ∃ next w, s.nextExpiry env = (next, { s with world := w }) := by
    rw [nextExpiry]
    split
    · exact ⟨_, s.world, rfl⟩
    · exact ⟨_, s.world, rfl⟩
    · exact ⟨_, s.world, rfl⟩
    · rename_i i f _ _
      obtain ⟨w, hw⟩ := requestReady_eq env s i
      dsimp only
      rw [hw]
      split <;> exact ⟨_, w, rfl⟩
  obtain ⟨next, w, hw⟩ := hnext
  rw [calculateNextTimerExpiry]
  rw [hw]
  cases next with
  | none => exact ⟨w, rfl⟩
  | some next =>
    dsimp only
    split <;> exact ⟨_, rfl⟩

/-- Every action but the destruction of the loop keeps the invariant, if it meets no hazard but that
it abandons requests. -/
theorem AtRest.act {a : Action} (h : s.AtRest strict) (ha : a ≠ .destroy)
    (hz : (act env a s).Spared strict) : (act env a s).AtRest strict := by
  obtain ⟨v, C, hwf, hv⟩ := h
  cases a with
  | call c =>
    obtain ⟨v', C', hwf', hund⟩ := hwf.call hv.noneWoken c hz
    exact ⟨v', C', hwf', hund.slack hv⟩
  | setOwnerThread => exact ⟨v, C, ⟨hwf.located, hwf.marked⟩, hv⟩
  | takeInbox => exact ⟨v, C, ⟨hwf.located, hwf.marked⟩, hv⟩
  | applyOp op =>
    obtain ⟨v', C', hwf', hund⟩ := hwf.applyOp hv.noneWoken op hz
    exact ⟨v', C', hwf', hund.slack hv⟩
  | processCancelledAndPendingRequests =>
    exact AtRest.processCancelledAndPendingRequests ⟨v, C, hwf, hv⟩ hz
  | moveInactiveRequestsToQueue => exact AtRest.moveInactiveRequestsToQueue ⟨v, C, hwf, hv⟩ hz
  | processCompletedRequests msgs => exact AtRest.processCompletedRequests ⟨v, C, hwf, hv⟩ hz
  | calculateNextTimerExpiry =>
    obtain ⟨w, hw⟩ := calculateNextTimerExpiry_eq env s 200
    show (s.calculateNextTimerExpiry env 200).2.AtRest strict
    rw [hw]
    exact ⟨v, C, ⟨hwf.located, hwf.marked⟩, hv⟩
  | start => exact ⟨v, C, ⟨hwf.located, hwf.marked⟩, hv⟩
  | stop => exact ⟨v, C, ⟨hwf.located, hwf.marked⟩, hv⟩
  | destroy => exact absurd rfl ha

/-- **One action.** If it meets no hazard, the invariant is kept. -/
theorem Resting.act {a : Action} (h : s.Resting) (hz : (act env a s).hazards = []) :
    (act env a s).Resting := by
  by_cases ha : a = .destroy
  · subst ha
    exact (h.curlEventLoopDestroy hz).1
  · exact atRest_true.mp ((atRest_true.mpr h).act ha (.of_nil hz))

/-- Every action but the destruction of the loop keeps the counters right. -/
theorem Resting.counted_act {a : Action} (h : s.Resting) (hc : s.Counted) (ha : a ≠ .destroy)
    (hz : (Loop.act env a s).hazards = []) : (Loop.act env a s).Counted := by
  refine hc.of_offset ?_
  cases a with
  | call c => exact (sameMaps_call env s c).offset
  | applyOp op => exact (sameMaps_applyOp env s op).offset
  | processCancelledAndPendingRequests => exact offset_processCancelledAndPendingRequests hz
  | moveInactiveRequestsToQueue => exact offset_moveInactiveRequestsToQueue env s
  | processCompletedRequests msgs => exact h.offset_processCompletedRequests hz
  | calculateNextTimerExpiry =>
    obtain ⟨w, hw⟩ := calculateNextTimerExpiry_eq env s 200
    show (s.calculateNextTimerExpiry env 200).2.offset = s.offset
    rw [hw]
    exact SameMaps.offset ⟨rfl, rfl⟩
  | destroy => exact absurd rfl ha
  | _ => exact SameMaps.offset ⟨rfl, rfl⟩

theorem hazards_run (env : Env ω) (s : Loop ω) (as : List Action) :
    s.hazards <:+ (Guarded.run (Loop.act env) s as).hazards := by
  induction as generalizing s with
  | nil => exact List.suffix_rfl
  | cons a as ih => exact (hazards_act env a s).trans (ih _)

/-- No hazard after a run means none after each of its beginnings. -/
theorem hazards_eq_nil_of_run {as : List Action}
    (hz : (Guarded.run (Loop.act env) s as).hazards = []) : s.hazards = [] :=
  List.suffix_nil.mp (hz ▸ hazards_run env s as)

theorem nodup_handedOver_run {as : List Action} (hs : (s.accepted ++ s.copied).Nodup)
    (hz : ∀ r, .resubmitted r ∉ (Guarded.run (Loop.act env) s as).hazards) :
    ((Guarded.run (Loop.act env) s as).accepted ++
      (Guarded.run (Loop.act env) s as).copied).Nodup := by
  induction as generalizing s with
  | nil => exact hs
  | cons a as ih =>
    obtain ⟨_, _, hev⟩ := evolves_act env a s
    refine ih (hev.once (fun r hr => hz r ?_) hs) hz
    exact (hazards_run env _ as).subset hr

/-- **Memory is handed over once.** In a run that has no such hazard on record, the requests that were
submitted, the wrappers, and the requests that wrappers were made of are different from each other. So
what a wrapper frees is nobody else's. -/
theorem nodup_handedOver (env : Env ω) (mem : Memory) (world : ω) (as : List Action)
    (hz : ∀ r, .resubmitted r ∉
      (Guarded.run (Loop.act env) (curlEventLoopInit mem world) as).hazards) :
    let s := Guarded.run (Loop.act env) (curlEventLoopInit mem world) as
    (s.accepted ++ s.copied).Nodup :=
  nodup_handedOver_run List.nodup_nil hz

/-- A request that the loop has may not be injected, nor an injected one submitted. -/
example :
    let run := Guarded.run (Loop.act Env.uneventful)
      (curlEventLoopInit (Memory.plain fun _ => []) ())
    (run [.call (.api (.submit 1 0)), .call (.api (.inject 2 1))]).hazards = [.resubmitted 1] ∧
      (run [.call (.api (.inject 2 1)), .call (.api (.loopSubmit 1 0))]).hazards =
        [.resubmitted 1] ∧
      (run [.call (.api (.inject 2 1)), .call (.api (.inject 3 1))]).hazards =
        [.resubmitted 1] := by
  decide

theorem Resting.run {as : List Action} (h : s.Resting)
    (hz : (Guarded.run (Loop.act env) s as).hazards = []) :
    (Guarded.run (Loop.act env) s as).Resting := by
  induction as generalizing s with
  | nil => exact h
  | cons a as ih => exact ih (h.act (hazards_eq_nil_of_run hz)) hz

theorem Resting.counted_run {as : List Action} (h : s.Resting) (hc : s.Counted)
    (has : .destroy ∉ as) (hz : (Guarded.run (Loop.act env) s as).hazards = []) :
    (Guarded.run (Loop.act env) s as).Counted := by
  induction as generalizing s with
  | nil => exact hc
  | cons a as ih =>
    obtain ⟨ha, has⟩ := not_or.mp fun h => has (List.mem_cons.mpr h)
    have hz' : (Loop.act env a s).hazards = [] := hazards_eq_nil_of_run hz
    exact ih (h.act hz') (h.counted_act hc (Ne.symm ha) hz') has hz

/-- **The invariant of a run.** -/
theorem resting_run (mem : Memory) (world : ω) {as : List Action}
    (hz : (Guarded.run (Loop.act env) (curlEventLoopInit mem world) as).hazards = []) :
    (Guarded.run (Loop.act env) (curlEventLoopInit mem world) as).Resting :=
  (resting_init mem world).run hz

/-! ### Containers -/

end Loop

/-- Where a loop keeps requests. -/
inductive Container
  | pending
  | injected
  | blocked (id : ResId)
  | map (m : MapId)
deriving DecidableEq, Repr

/-- The place of a container. -/
def Container.place : Container → Place
  | .pending => .pending
  | .injected => .injected
  | .blocked id => .blocked id
  | .map m => .map m

namespace Loop

variable {ω : Type} {s t : Loop ω} {v : View} {C : List ReqId} {r : ReqId} {env : Env ω}

/-- The head pointer of a container that is a list. -/
def head (s : Loop ω) : Container → Option ReqId
  | .pending => s.pendingRequests
  | .injected => s.injectedRequests
  | .blocked id => s.resources.blockedHead id
  | .map _ => none

/-- The requests in a container. -/
def contents (s : Loop ω) : Container → List ReqId
  | .map m => s.maps m
  | c => s.pendingChain (s.head c)

theorem WF.contents_eq (h : s.WF v C) (c : Container) : s.contents c = v c.place := by
  cases c with
  | pending => exact Intrusive.walk_eq h.located.linked.pending (h.located.length_le _)
  | injected => exact Intrusive.walk_eq h.located.linked.injected (h.located.length_le _)
  | blocked id => exact Intrusive.walk_eq (h.located.linked.blocked id) (h.located.length_le _)
  | map m => exact h.located.maps m

/-- The contents of a list are all that its links lead to. -/
theorem WF.isChain_contents (h : s.WF v C) {c : Container} (hc : ∀ m, c ≠ .map m) :
    Intrusive.IsChain s.nextPending (s.head c) (s.contents c) := by
  rw [h.contents_eq]
  cases c with
  | pending => exact h.located.linked.pending
  | injected => exact h.located.linked.injected
  | blocked id => exact h.located.linked.blocked id
  | map m => exact absurd rfl (hc m)

/-- In a resting loop every request is in one container, where it occurs once, and a container
holds no other requests. -/
theorem Resting.contents (h : s.Resting) (r : ReqId) :
    (s.Live r → ∃ c, (s.contents c).count r = 1 ∧ ∀ c', c' ≠ c → r ∉ s.contents c') ∧
      ∀ c, r ∈ s.contents c → s.Live r := by
  obtain ⟨v, C, hwf, hv⟩ := h
  have hplace : Function.Injective Container.place := by
    intro c c' hcc
    cases c <;> cases c' <;> simp_all [Container.place]
  refine ⟨fun hr => ?_, fun c hc => hwf.located.live_of_mem (hwf.contents_eq c ▸ hc)⟩
  obtain ⟨p, hp, hother⟩ := hwf.located.placed.existsUnique hr
  have hmem : r ∈ v p := List.count_pos_iff.mp (by rw [hp]; exact Nat.one_pos)
  have hfind : ∃ c : Container, c.place = p := by
    cases p with
    | pending => exact ⟨.pending, rfl⟩
    | injected => exact ⟨.injected, rfl⟩
    | blocked id => exact ⟨.blocked id, rfl⟩
    | map m => exact ⟨.map m, rfl⟩
    | detached p => rw [hv.detached] at hmem; simp at hmem
    | hand => rw [hv.hand] at hmem; simp at hmem
  obtain ⟨c, rfl⟩ := hfind
  refine ⟨c, hwf.contents_eq c ▸ hp, fun c' hc' => ?_⟩
  rw [hwf.contents_eq]
  exact hother _ fun hpp => hc' (hplace hpp)

/-! ### No request is lost or duplicated -/

/-- The actions of a run in which nothing is cancelled, injected or given up, and each request is
submitted once. -/
def Scheduled (a : Action) (s : Loop ω) : Prop :=
  match a with
  | .call (.api (.submit r _)) => r ∉ s.accepted
  | .call .declare | .call (.register _ _) | .call (.publish _ _ _) | .call (.addref _) => True
  | .processCancelledAndPendingRequests | .moveInactiveRequestsToQueue
  | .processCompletedRequests _ => True
  | _ => False

instance (a : Action) (s : Loop ω) : Decidable (Scheduled a s) := by
  unfold Scheduled
  split <;> infer_instance

/-- What such a run keeps beside the invariant. -/
structure Undemanding (s : Loop ω) : Prop where
  hazards : s.hazards = []
  cancelledRequests : s.cancelledRequests = none
  injectedRequests : s.injectedRequests = none
  copied : s.copied = []

theorem Undemanding.evolves (h : s.Undemanding) {q : Prop} (hq : q) (he : Evolves q s t) :
    t.Undemanding := by
  obtain ⟨hc, hh, -, hcopied, hi⟩ := he.still hq h.cancelledRequests
  exact ⟨hh.trans h.hazards, hc, hi h.injectedRequests, hcopied.trans h.copied⟩

/-- A request that was not handed over before is put on the pending list. -/
theorem Undemanding.pushPending (h : s.Undemanding) (hr : r ∉ s.accepted) (w : ω)
    (f : Request → Request) :
    ((({ s with world := w } : Loop ω).modifyReq r f).pushPending r).Undemanding := by
  have hnew : ¬ s.HandedOver r := by
    rw [HandedOver, h.copied]
    exact not_or.mpr ⟨hr, List.not_mem_nil⟩
  exact ⟨(if_neg hnew).trans h.hazards, h.cancelledRequests, h.injectedRequests, h.copied⟩

theorem Undemanding.submit (h : s.Undemanding) (hr : r ∉ s.accepted) {priority : ℤ} :
    (s.curlEventRequestSubmit env r priority).2.Undemanding := by
  rw [curlEventRequestSubmit]
  dsimp only
  split
  · exact h
  · split
    · exact h
    · exact h.pushPending hr _ _

/-- An action of such a run. -/
theorem Undemanding.act {a : Action} (hq : env.Quiet) (h : s.Undemanding) (ha : Scheduled a s) :
    (Loop.act env a s).Undemanding := by
  cases a with
  | call c =>
    cases c with
    | api c =>
      cases c with
      | submit r priority => exact h.submit ha
      | _ => exact ha.elim
    | declare => exact ⟨h.hazards, h.cancelledRequests, h.injectedRequests, h.copied⟩
    | register payload cleanup =>
      exact h.evolves hq
        ((evolves_publish env s.curlEventResDeclare.2 _ payload cleanup).after rfl)
    | publish id payload cleanup => exact h.evolves hq (evolves_publish env s id payload cleanup)
    | addref id => exact ⟨h.hazards, h.cancelledRequests, h.injectedRequests, h.copied⟩
    | _ => exact ha.elim
  | processCancelledAndPendingRequests =>
    exact h.evolves trivial (evolves_processCancelledAndPendingRequests env s)
  | moveInactiveRequestsToQueue =>
    exact h.evolves trivial (evolves_moveInactiveRequestsToQueue env s)
  | processCompletedRequests msgs =>
    exact h.evolves hq (evolves_processCompletedRequests env s msgs)
  | _ => exact ha.elim

theorem notMem_destroy_of_scheduled {as : List Action}
    (has : Guarded.Allowed (Loop.act env) Scheduled s as) : .destroy ∉ as := by
  induction as generalizing s with
  | nil => simp
  | cons a as ih =>
    intro hd
    rcases List.mem_cons.mp hd with rfl | hd
    · exact has.1
    · exact ih has.2 hd

/-- **No request is lost or duplicated.** In every run of submissions, resource operations and
passes, in any order and for any outcomes, each live request is in one container, where it occurs
once, and no container holds anything else; the injected list is empty; the lists end where the
links end; and the counters are right. -/
theorem contents_of_scheduled (env : Env ω) (hq : env.Quiet) (mem : Memory) (world : ω)
    (as : List Action)
    (has : Guarded.Allowed (Loop.act env) Scheduled (curlEventLoopInit mem world) as) :
    let s := Guarded.run (Loop.act env) (curlEventLoopInit mem world) as
    (∀ r, s.Live r → ∃ c, c ≠ .injected ∧ (s.contents c).count r = 1 ∧
      ∀ c', c' ≠ c → r ∉ s.contents c') ∧
    (∀ c r, r ∈ s.contents c → s.Live r) ∧
    (∀ c, (∀ m, c ≠ .map m) → Intrusive.IsChain s.nextPending (s.head c) (s.contents c)) ∧
    s.num .queued = (s.maps .queued).length ∧ s.num .inactive = (s.maps .inactive).length ∧
    s.num .refresh = (s.maps .refresh).length := by
  intro s
  have hun : s.Undemanding :=
    has.invariant (fun a s hs ha => hs.act hq ha) ⟨rfl, rfl, rfl, rfl⟩
  have hrest : s.Resting := resting_run mem world hun.hazards
  have hcount : s.Counted := (resting_init mem world).counted_run (counted_init mem world)
    (notMem_destroy_of_scheduled has) hun.hazards
  refine ⟨fun r hr => ?_, fun c r hr => (hrest.contents r).2 c hr, ?_, hcount _ (by simp),
    hcount _ (by simp), hcount _ (by simp)⟩
  · obtain ⟨c, hc, hother⟩ := (hrest.contents r).1 hr
    refine ⟨c, ?_, hc, hother⟩
    rintro rfl
    have hnil : s.contents .injected = [] := by
      show Intrusive.walk s.nextPending s.accepted.length s.injectedRequests = []
      rw [hun.injectedRequests]
      cases s.accepted.length <;> rfl
    rw [hnil] at hc
    simp at hc
  · obtain ⟨v, C, hwf, _⟩ := hrest
    exact fun c hc => hwf.isChain_contents hc

/-- A request is submitted, started, and finishes with a result that is not retried. -/
theorem contents_of_scheduled_completed :
    let s := Guarded.run (Loop.act Env.uneventful)
      (curlEventLoopInit (Memory.plain fun _ => []) ())
      [.call (.api (.submit 1 0)), .call (.api (.submit 2 0)), .processCancelledAndPendingRequests,
        .processCompletedRequests [⟨0, .ok, 200⟩]]
    (∀ r, s.Live r → ∃ c, c ≠ .injected ∧ (s.contents c).count r = 1 ∧
      ∀ c', c' ≠ c → r ∉ s.contents c') ∧
    (∀ c r, r ∈ s.contents c → s.Live r) ∧
    (∀ c, (∀ m, c ≠ .map m) → Intrusive.IsChain s.nextPending (s.head c) (s.contents c)) ∧
    s.num .queued = (s.maps .queued).length ∧ s.num .inactive = (s.maps .inactive).length ∧
    s.num .refresh = (s.maps .refresh).length :=
  contents_of_scheduled Env.uneventful ⟨fun _ _ => rfl, fun _ _ _ _ _ => rfl, fun _ _ => rfl⟩
    (Memory.plain fun _ => []) () _ (by decide +kernel)

/-! ### Every request is destroyed exactly once -/

/-- The step is taken in a situation the code is prepared for. -/
def Foreseen (env : Env ω) (a : Action) (s : Loop ω) : Prop :=
  (Loop.act env a s).hazards = s.hazards

instance (env : Env ω) (a : Action) (s : Loop ω) : Decidable (Foreseen env a s) :=
  inferInstanceAs (Decidable (_ = _))

theorem hazards_of_foreseen {as : List Action}
    (has : Guarded.Allowed (Loop.act env) (Foreseen env) s as) :
    (Guarded.run (Loop.act env) s as).hazards = s.hazards := by
  induction as generalizing s with
  | nil => rfl
  | cons a as ih => exact (ih has.2).trans has.1

/-- A run in which nothing is cancelled, injected or given up, and each request is submitted once,
meets no hazard. -/
theorem foreseen_of_scheduled (hq : env.Quiet) (h : s.Undemanding) {as : List Action}
    (has : Guarded.Allowed (Loop.act env) Scheduled s as) :
    Guarded.Allowed (Loop.act env) (Foreseen env) s as :=
  has.mono (P := Undemanding) (fun _ _ hs ha => hs.act hq ha)
    (fun _ _ hs ha => (hs.act hq ha).hazards.trans hs.hazards.symm) h

/-- Every request handed to the loop was destroyed exactly once, and no list or map entry led to a
request that had been destroyed. -/
def TornDownOnce (s : Loop ω) : Prop :=
  (∀ r ∈ s.accepted, s.destroyed.count r = 1) ∧ s.afterFree = []

instance (s : Loop ω) : Decidable s.TornDownOnce := inferInstanceAs (Decidable (_ ∧ _))

/-- **Every request is destroyed exactly once**, in every run that is ended by the destruction of
the loop and in which no step meets a hazard. On the way nothing is destroyed twice. -/
theorem tornDownOnce_of_foreseen (env : Env ω) (mem : Memory) (world : ω) (as : List Action)
    (has : Guarded.Allowed (Loop.act env) (Foreseen env) (curlEventLoopInit mem world)
      (as ++ [.destroy])) :
    (Guarded.run (Loop.act env) (curlEventLoopInit mem world) (as ++ [.destroy])).TornDownOnce ∧
    ∀ pre, pre <+: as →
      (Guarded.run (Loop.act env) (curlEventLoopInit mem world) pre).destroyed.Nodup ∧
      (Guarded.run (Loop.act env) (curlEventLoopInit mem world) pre).afterFree = [] := by
  have hall := hazards_of_foreseen has
  obtain ⟨hpre, hlast, _⟩ := Guarded.allowed_append.mp has
  refine ⟨?_, fun pre hprefix => ?_⟩
  · have hrest := resting_run mem world (hazards_of_foreseen hpre)
    have hz : ((Guarded.run (Loop.act env) (curlEventLoopInit mem world)
        as).curlEventLoopDestroy env).hazards = [] := hlast.trans (hazards_of_foreseen hpre)
    obtain ⟨⟨v, C, hwf, _⟩, hdead⟩ := hrest.curlEventLoopDestroy hz
    rw [Guarded.run_append]
    refine ⟨fun r hr => ?_, hwf.located.afterFree⟩
    refine List.count_eq_one_of_mem hwf.located.destroyed_nodup ?_
    by_contra hlive
    exact hdead r ⟨hr, hlive⟩
  · obtain ⟨post, rfl⟩ := hprefix
    have hz := hazards_of_foreseen (Guarded.allowed_append.mp hpre).1
    obtain ⟨v, C, hwf, _⟩ := resting_run mem world hz
    exact ⟨hwf.located.destroyed_nodup, hwf.located.afterFree⟩

/-- A request that is cancelled while it is active, and taken off the list by the next pass. -/
theorem tornDownOnce_of_foreseen_cancelled :
    (Guarded.run (Loop.act Env.uneventful) (curlEventLoopInit (Memory.plain fun _ => [7]) ())
      ([.call (.publish 7 (some 1) false), .call (.api (.submit 1 0)),
        .processCancelledAndPendingRequests, .call (.api (.cancel 1)),
        .processCancelledAndPendingRequests] ++ [.destroy])).TornDownOnce ∧
    ∀ pre : List Action, pre <+: [.call (.publish 7 (some 1) false), .call (.api (.submit 1 0)),
        .processCancelledAndPendingRequests, .call (.api (.cancel 1)),
        .processCancelledAndPendingRequests] →
      (Guarded.run (Loop.act Env.uneventful) (curlEventLoopInit (Memory.plain fun _ => [7]) ())
        pre).destroyed.Nodup ∧
      (Guarded.run (Loop.act Env.uneventful) (curlEventLoopInit (Memory.plain fun _ => [7]) ())
        pre).afterFree = [] :=
  tornDownOnce_of_foreseen Env.uneventful (Memory.plain fun _ => [7]) () _ (by decide +kernel)

/-- The active request 1 is cancelled and completes before the next pass. It is destroyed, and the
destruction of the loop then finds it on the cancelled list. -/
theorem not_tornDownOnce_completed_after_cancel :
    ¬ (Guarded.run (Loop.act Env.uneventful) (curlEventLoopInit (Memory.plain fun _ => []) ())
      ([.call (.api (.submit 1 0)), .processCancelledAndPendingRequests, .call (.api (.cancel 1)),
        .processCompletedRequests [⟨0, .ok, 200⟩]] ++ [.destroy])).TornDownOnce := by
  decide +kernel

end Loop

end CurlLoop
