import CurlLoop.Scheduler

/-!
# Submissions during a wake-up

The pending list belongs to everybody: other threads push requests on it under the lock of the loop,
and the loop thread detaches it under the lock. `requeue_pending` puts a woken request on it without
the lock. It reads the head of the list in one step and stores the new head in a later one; a
request submitted in between is linked behind a head that is overwritten.

In the rest of the development a wake-up is one step. Here the loop thread performs
`curl_event_res_publish` and `process_cancelled_and_pending_requests` step by step, and other threads
may submit between any two of its steps. The locked sections are one step each.

## Main definitions

* `Station`, `Racer`, `Racer.turn` — the loop thread step by step, and the submissions
* `Racer.Kept` — every live request is somewhere, once
* `Racer.HeadUnmoved` — the store of a wake-up finds the head its read found

## Main results

* `kept_iff_headUnmoved`
-/

namespace CurlLoop

open Function (update)

variable {ω : Type}

/-! ### The loop thread, step by step -/

/-- Where the loop thread stands. -/
inductive Station
  | idle
  /-- Before the test `while (head)` of `curl_event_res_publish`. -/
  | waiters (id : ResId) (failed : Bool) (head : Option ReqId)
  /-- In `requeue_pending`, before it reads `pending_requests`. -/
  | readHead (id : ResId) (r : ReqId) (next : Option ReqId)
  /-- In `requeue_pending`, before it stores `pending_requests`, of which it has read `seen`. -/
  | storeHead (id : ResId) (r : ReqId) (next seen : Option ReqId)
  /-- Before the test `while (pending)` of `process_cancelled_and_pending_requests`. -/
  | pending (head : Option ReqId)
deriving DecidableEq, Repr

/-- A loop, and where its thread stands. -/
structure Racer (ω : Type) where
  loop : Loop ω
  station : Station

/-- What can happen next. -/
inductive Turn
  /-- Another thread calls `curl_event_request_submit(loop, r, priority)`. -/
  | submit (r : ReqId) (priority : ℤ)
  /-- Another thread calls `curl_event_loop_submit(loop, r, priority)`. -/
  | loopSubmit (r : ReqId) (priority : ℤ)
  /-- The loop thread enters `curl_event_res_publish`. -/
  | publish (id : ResId) (payload : Option Payload) (cleanup : Bool)
  /-- The loop thread enters `process_cancelled_and_pending_requests`. -/
  | process
  /-- The loop thread goes on in the function it is in. -/
  | step
deriving DecidableEq, Repr

namespace Racer

/-- The next step of the loop thread. Of a failure callback the calls are left out: a submission it
makes takes the lock, and is a turn like any other. -/
def advance (env : Env ω) (s : Racer ω) : Racer ω :=
  match s.station with
  | .idle => s
  | .waiters _ _ none => { s with station := .idle }
  | .waiters id failed (some r) =>
    let next := s.loop.nextPending r
    let t := (s.loop.follow r).setNextPending r none
    if failed then ⟨(t.callOnAborted env r).2.curlEventRequestDestroy r, .waiters id failed next⟩
    else ⟨t, .readHead id r next⟩
  | .readHead id r next =>
    ⟨s.loop.setNextPending r s.loop.pendingRequests, .storeHead id r next s.loop.pendingRequests⟩
  | .storeHead id r next _ => ⟨{ s.loop with pendingRequests := some r }, .waiters id false next⟩
  | .pending none => { s with station := .idle }
  | .pending (some r) =>
    ⟨(s.loop.follow r).pendingRound env r, .pending (s.loop.nextPending r)⟩

/-- One turn. The loop thread enters a function when it is in none. -/
def turn (env : Env ω) (a : Turn) (s : Racer ω) : Racer ω :=
  match a, s.station with
  | .submit r priority, _ => { s with loop := (s.loop.curlEventRequestSubmit env r priority).2 }
  | .loopSubmit r priority, _ => { s with loop := s.loop.curlEventLoopSubmit env r priority }
  | .publish id payload cleanup, .idle =>
    let (head, store) := s.loop.resources.publishPayload id payload cleanup
    ⟨s.loop.setResources store, .waiters id payload.isNone head⟩
  | .process, .idle =>
    ⟨s.loop.detachCancelled.detachPending.forEachCancelled s.loop.cancelledRequests
      Loop.cancelledRound, .pending s.loop.pendingRequests⟩
  | .step, _ => s.advance env
  | _, _ => s

/-- A loop just created. -/
def init (mem : Memory) (world : ω) : Racer ω := ⟨curlEventLoopInit mem world, .idle⟩

/-- Undisturbed, the two steps of a wake-up are `requeue_pending`. -/
theorem advance_advance_readHead (env : Env ω) (s : Loop ω) (id : ResId) (r : ReqId)
    (next : Option ReqId) :
    (advance env (advance env ⟨s, .readHead id r next⟩)) =
      ⟨s.requeuePending r, .waiters id false next⟩ := rfl

/-- A request is handed over once. -/
def Legal (a : Turn) (s : Racer ω) : Prop :=
  match a with
  | .submit r _ | .loopSubmit r _ => r ∉ s.loop.accepted
  | _ => True

instance (a : Turn) (s : Racer ω) : Decidable (Legal a s) := by
  unfold Legal
  split <;> infer_instance

/-- The store of a wake-up finds the head its read found. -/
def HeadUnmoved (a : Turn) (s : Racer ω) : Prop :=
  match a, s.station with
  | .step, .storeHead _ _ _ seen => s.loop.pendingRequests = seen
  | _, _ => True

instance (a : Turn) (s : Racer ω) : Decidable (HeadUnmoved a s) := by
  unfold HeadUnmoved
  split <;> infer_instance

/-! ### What the loop thread has in transit -/

end Racer

namespace Station

/-- The request being woken. -/
def hand : Station → List ReqId
  | .readHead _ r _ | .storeHead _ r _ _ => [r]
  | _ => []

/-- The first request still to be dealt with. -/
def next : Station → Option ReqId
  | .idle => none
  | .waiters _ _ head | .pending head => head
  | .readHead _ _ next | .storeHead _ _ next _ => next

/-- The list that was detached. -/
def place : Station → Option Place
  | .idle => none
  | .waiters id _ _ | .readHead id _ _ | .storeHead id _ _ _ => some (.blocked id)
  | .pending _ => some .pending

end Station

/-- Where a request can be: in a container, or in the hands of the loop thread. -/
inductive Site
  | container (c : Container)
  | transit
deriving DecidableEq, Repr

/-- The site a place belongs to. -/
def Place.site : Place → Site
  | .pending => .container .pending
  | .injected => .container .injected
  | .blocked id => .container (.blocked id)
  | .map m => .container (.map m)
  | .detached _ | .hand => .transit

namespace Racer

/-- The requests at a site. -/
def requests (s : Racer ω) : Site → List ReqId
  | .container c => s.loop.contents c
  | .transit => s.station.hand ++ s.loop.pendingChain s.station.next

/-- **No request is lost.** Every live request, be it submitted or woken, is at one site, where it
occurs once. -/
def Kept (s : Racer ω) : Prop :=
  ∀ r, s.loop.Live r → ∃ p, (s.requests p).count r = 1 ∧ ∀ p', p' ≠ p → r ∉ s.requests p'

/-- The invariant of an undisturbed run. -/
structure Steady (s : Racer ω) (v : View) (C : List ReqId) : Prop where
  wf : s.loop.WF v C
  undemanding : s.loop.Undemanding
  hand : v .hand = s.station.hand
  fits : ∀ b ∈ v .hand, (s.loop.req b).multiHandle = false
  elsewhere : ∀ p, s.station.place ≠ some p → v (.detached p) = []
  walked : ∀ p, s.station.place = some p →
    Intrusive.IsChain s.loop.nextPending s.station.next (v (.detached p))
  /-- What was read leads to the requests that were pending then; others have been pushed since. -/
  seen : ∀ id r next seen, s.station = .storeHead id r next seen →
    s.loop.nextPending r = seen ∧
      ∃ pushed, ∃ old, v .pending = pushed ++ old ∧ Intrusive.IsChain s.loop.nextPending seen old

variable {s t : Racer ω} {v v' : View} {C : List ReqId} {r : ReqId} {env : Env ω} {mem : Memory}
  {world : ω}

theorem Steady.transit (h : s.Steady v C) :
    s.requests .transit = v .hand ++ (s.station.place.elim [] fun p => v (.detached p)) := by
  rw [requests, h.hand]
  congr 1
  cases hp : s.station.place with
  | none =>
    have hidle : s.station = .idle := by
      cases hs : s.station <;> simp_all [Station.place]
    rw [hidle]
    show Intrusive.walk s.loop.nextPending s.loop.accepted.length none = []
    cases s.loop.accepted.length <;> rfl
  | some p => exact Intrusive.walk_eq (h.walked p hp) (h.wf.located.length_le _)

theorem Steady.container (h : s.Steady v C) (c : Container) :
    s.requests (.container c) = v c.place := h.wf.contents_eq c

/-- A site holds the requests of its places. -/
theorem Steady.mem_requests (h : s.Steady v C) {p : Site} :
    r ∈ s.requests p ↔ ∃ q : Place, q.site = p ∧ r ∈ v q := by
  constructor
  · intro hr
    cases p with
    | container c =>
      rw [h.container] at hr
      exact ⟨c.place, by cases c <;> rfl, hr⟩
    | transit =>
      rw [h.transit, List.mem_append] at hr
      rcases hr with hr | hr
      · exact ⟨.hand, rfl, hr⟩
      · cases hp : s.station.place with
        | none => simp [hp] at hr
        | some p => exact ⟨.detached p, rfl, by simpa [hp] using hr⟩
  · rintro ⟨q, rfl, hr⟩
    have hcontainer : ∀ c : Container, r ∈ v c.place → r ∈ s.requests (.container c) := by
      intro c hc
      rwa [h.container]
    cases q with
    | pending => exact hcontainer .pending hr
    | injected => exact hcontainer .injected hr
    | blocked id => exact hcontainer (.blocked id) hr
    | map m => exact hcontainer (.map m) hr
    | hand =>
      show r ∈ s.requests .transit
      rw [h.transit]
      exact List.mem_append_left _ hr
    | detached p =>
      show r ∈ s.requests .transit
      rw [h.transit]
      by_cases hp : s.station.place = some p
      · rw [hp]
        exact List.mem_append_right _ hr
      · rw [h.elsewhere p hp] at hr
        simp at hr

/-- No site lists a request twice. -/
theorem Steady.nodup_requests (h : s.Steady v C) (p : Site) : (s.requests p).Nodup := by
  have hplaced := h.wf.located.placed
  cases p with
  | container c =>
    rw [h.container]
    exact hplaced.nodup c.place
  | transit =>
    rw [h.transit]
    cases s.station.place with
    | none => simpa using hplaced.nodup .hand
    | some p =>
      refine List.nodup_append.mpr ⟨hplaced.nodup .hand, hplaced.nodup (.detached p), ?_⟩
      rintro a ha b hb rfl
      exact absurd (hplaced.inj ha hb) (by simp)

theorem Steady.kept (h : s.Steady v C) : s.Kept := by
  intro r hr
  obtain ⟨q, hq⟩ := (h.wf.located.placed.live_iff r).mp hr
  refine ⟨q.site, List.count_eq_one_of_mem (h.nodup_requests _) (h.mem_requests.mpr ⟨q, rfl, hq⟩),
    fun p' hp' hr' => ?_⟩
  obtain ⟨q', hsite, hq'⟩ := h.mem_requests.mp hr'
  obtain rfl := h.wf.located.placed.inj hq hq'
  exact hp' hsite.symm

/-! ### A submission -/

/-- What the locked section of a submission does to the pending list, or nothing. -/
theorem links_submit (env : Env ω) (s : Loop ω) (r : ReqId) (priority : ℤ) :
    (s.curlEventRequestSubmit env r priority).2 = s ∨
      (s.curlEventRequestSubmit env r priority).2.nextPending =
          update s.nextPending r s.pendingRequests ∧
        (s.curlEventRequestSubmit env r priority).2.pendingRequests = some r := by
  rw [Loop.curlEventRequestSubmit]
  dsimp only
  split
  · exact .inl rfl
  · split
    · exact .inl rfl
    · exact .inr ⟨rfl, rfl⟩

/-- A submission may come in anywhere. -/
theorem Steady.push (h : s.Steady v C) {t : Loop ω} (hr : r ∉ s.loop.accepted)
    (hwf : t.WF v' C) (hund : Loop.Undisturbed True v v' s.loop t) (hun : t.Undemanding)
    (hlinks : t = s.loop ∨ t.nextPending = update s.loop.nextPending r s.loop.pendingRequests ∧
      t.pendingRequests = some r) : ({ s with loop := t } : Racer ω).Steady v' C := by
  refine ⟨hwf, hun, hund.hand.trans h.hand, fun b hb => ?_,
    fun p hp => (hund.detached p (.inl trivial)).trans (h.elsewhere p hp), fun p hp => ?_,
    fun id b next seen hs => ?_⟩
  · rw [hund.hand] at hb
    exact (hund.reqs b hb).multiHandle.trans (h.fits b hb)
  · rw [hund.detached p (.inl trivial)]
    exact (h.walked p hp).congr (hund.links p (.inl trivial))
  · obtain ⟨hb, pushed, old, hpend, hold⟩ := h.seen id b next seen hs
    have hbr : b ≠ r := by
      rintro rfl
      have hmem : b ∈ v .hand := by
        rw [h.hand, hs]
        exact List.mem_singleton_self b
      exact hr (h.wf.located.accepted_of_mem hmem)
    have hrv : r ∉ v .pending := fun hp => hr (h.wf.located.accepted_of_mem hp)
    have hchain := hwf.located.linked.pending
    rcases hlinks with rfl | ⟨hnext, hhead⟩
    · have heq : v' .pending = v .pending := hchain.unique h.wf.located.linked.pending
      exact ⟨hb, pushed, old, heq.trans hpend, hold⟩
    · have hnew := h.wf.located.linked.pending.push hrv
      rw [hnext, hhead] at hchain
      refine ⟨?_, r :: pushed, old, ?_, ?_⟩
      · show t.nextPending b = seen
        rw [hnext, Function.update_of_ne hbr, hb]
      · rw [hchain.unique hnew, hpend, List.cons_append]
      · show Intrusive.IsChain t.nextPending seen old
        rw [hnext]
        exact hold.update (fun hm => hrv (hpend ▸ List.mem_append_right _ hm)) _

/-! ### The loop thread -/

/-- One round over the detached list is over. -/
theorem Steady.of_handled (h : s.Steady v C) {p : Place} {l : List ReqId}
    (hplace : s.station.place = some p) (hp : v (.detached p) = r :: l) {t : Loop ω}
    (hwf : t.WF v' C) (hun : t.Undemanding) (hh : Loop.Handled True p r l v v' s.loop t) {q : Station}
    (hq : q.place = some p) (hhand : q.hand = s.station.hand)
    (hnext : q.next = s.loop.nextPending r) (hset : ∀ id r next seen, q ≠ .storeHead id r next seen) :
    (⟨t, q⟩ : Racer ω).Steady v' C := by
  refine ⟨hwf, hun, (hh.hand.trans h.hand).trans hhand.symm, fun b hb => ?_, fun p' hp' => ?_,
    fun p' hp' => ?_, fun id b next seen hs => absurd hs (hset id b next seen)⟩
  · rw [hh.hand] at hb
    exact (hh.reqs b hb).multiHandle.trans (h.fits b hb)
  · have hne : p' ≠ p := by
      rintro rfl
      exact hp' hq
    rw [hh.detached p' (.inl trivial), Function.update_of_ne (by simpa using hne)]
    exact h.elsewhere p' fun hs => hne (Option.some.inj (hs.symm.trans hplace))
  · obtain rfl : p' = p := Option.some.inj (hp'.symm.trans hq)
    have hchain := h.walked p' hplace
    rw [hp] at hchain
    rw [hh.rest (.inl trivial), hnext]
    exact hchain.2.congr (hh.link_rest h.wf (.inl trivial) hp)

/-- The loop thread leaves a function when its list is empty. -/
theorem Steady.leave (h : s.Steady v C) (hhand : s.station.hand = [])
    (hnext : s.station.next = none) : ({ s with station := .idle } : Racer ω).Steady v C := by
  refine ⟨h.wf, h.undemanding, h.hand.trans hhand, h.fits, fun p _ => ?_,
    fun p hp => absurd hp (by simp [Station.place]), fun id b next seen hs => absurd hs (by simp)⟩
  by_cases hp : s.station.place = some p
  · have hchain := h.walked p hp
    rw [hnext] at hchain
    exact hchain.head_eq_none_iff.mp rfl
  · exact h.elsewhere p hp

/-- A list is detached, to be walked. -/
theorem Steady.detach (h : s.Steady v C) (hs : s.station = .idle) {p : Place} (hp : p ≠ .hand)
    (hd : ∀ p', p ≠ .detached p') {t : Loop ω} {q : Station}
    (hwf : t.WF (update (update v p []) (.detached p) (v p)) C) (hun : t.Undemanding)
    (hplace : q.place = some p) (hhand : q.hand = [])
    (hchain : Intrusive.IsChain t.nextPending q.next (v p))
    (hset : ∀ id r next seen, q ≠ .storeHead id r next seen) :
    (⟨t, q⟩ : Racer ω).Steady (update (update v p []) (.detached p) (v p)) C := by
  have hstill : v.Still := by
    refine ⟨by rw [h.hand, hs]; rfl, fun p' => h.elsewhere p' ?_⟩
    rw [hs]
    simp [Station.place]
  have hbut := hstill.detach hp hd
  refine ⟨hwf, hun, hbut.hand.trans hhand.symm, fun b hb => ?_, fun p' hp' => hbut.detached p' ?_,
    fun p' hp' => ?_, fun id b next seen hs => absurd hs (hset id b next seen)⟩
  · rw [hbut.hand] at hb
    simp at hb
  · rintro rfl
    exact hp' hplace
  · obtain rfl : p' = p := Option.some.inj (hp'.symm.trans hplace)
    rwa [Function.update_self]

theorem Steady.publish (h : s.Steady v C) (hs : s.station = .idle) (id : ResId)
    (payload : Option Payload) (cleanup : Bool) :
    ∃ v' C', (s.turn env (.publish id payload cleanup)).Steady v' C' := by
  obtain ⟨s, q⟩ := s
  obtain rfl : q = .idle := hs
  have hempty : v (.detached (.blocked id)) = [] := h.elsewhere _ (by simp [Station.place])
  refine ⟨_, C, h.detach rfl (p := .blocked id) (by simp) (by simp)
    ⟨h.wf.located.detachBlocked hempty
      (Resources.blockedHead_publishPayload s.resources id payload cleanup)
      (Resources.blockedTail_publishPayload s.resources id payload cleanup)
      fun _ hj => Resources.awaited_publishPayload _ _ hj, h.wf.marked⟩
    ⟨h.undemanding.hazards, h.undemanding.cancelledRequests, h.undemanding.injectedRequests,
      h.undemanding.copied⟩
    rfl rfl ?_ (by simp)⟩
  show Intrusive.IsChain s.nextPending (s.resources.publishPayload id payload cleanup).1 _
  rw [Resources.publishPayload_fst]
  exact h.wf.located.linked.blocked id

theorem Steady.process (h : s.Steady v C) (hs : s.station = .idle) :
    ∃ v' C', (s.turn env .process).Steady v' C' := by
  obtain ⟨s, q⟩ := s
  obtain rfl : q = .idle := hs
  have hnone : s.cancelledRequests = none := h.undemanding.cancelledRequests
  have hempty : v (.detached .pending) = [] := h.elsewhere _ (by simp [Station.place])
  have hC : s.detachCancelled.detachPending.Marked C := by
    have hm := h.wf.marked
    rw [Loop.Marked, hnone] at hm
    exact hm
  have hturn : turn env .process ⟨s, .idle⟩ =
      ⟨s.detachCancelled.detachPending, .pending s.pendingRequests⟩ := by
    show (⟨Loop.forEachCancelled _ s.cancelledRequests _, _⟩ : Racer ω) = _
    rw [hnone, Loop.forEachCancelled, Intrusive.forEach_none]
  rw [hturn]
  exact ⟨_, C, h.detach rfl (p := .pending) (by simp) (by simp)
    ⟨Loop.Located.detachPending h.wf.located hempty, hC⟩
    ⟨h.undemanding.hazards, rfl, h.undemanding.injectedRequests, h.undemanding.copied⟩ rfl rfl
    h.wf.located.linked.pending (by simp)⟩

variable {s : Loop ω} {id : ResId} {next : Option ReqId}

/-- The first of the waiting requests is failed. -/
theorem Steady.fail (h : (⟨s, .waiters id true (some r)⟩ : Racer ω).Steady v C) :
    ∃ v' C', (advance env ⟨s, .waiters id true (some r)⟩).Steady v' C' := by
  obtain ⟨l, hp, -⟩ := (h.walked (.blocked id) rfl).exists_cons
  have hhand : update (update v (.detached (.blocked id)) l) .hand (r :: v .hand) .hand =
      r :: v .hand := Function.update_self ..
  have hwf := (h.wf.takeUp hp).setNextPending_hand (hhand ▸ List.mem_cons_self) none
  obtain ⟨w, tr, heq⟩ := Loop.callOnAborted_eq env (s.setNextPending r none) r
  have hfollow : s.follow r = s :=
    h.wf.located.follow (p := .detached (.blocked id)) (hp ▸ List.mem_cons_self)
  have hstep : advance env ⟨s, .waiters id true (some r)⟩ =
      ⟨((s.setNextPending r none).callOnAborted env r).2.curlEventRequestDestroy r,
        .waiters id true (s.nextPending r)⟩ := by
    rw [advance]
    dsimp only
    rw [hfollow]
    rfl
  have hcalled : ((s.setNextPending r none).callOnAborted env r).2.WF
      (update (update v (.detached (.blocked id)) l) .hand (r :: v .hand)) C := by
    rw [heq]
    exact ⟨hwf.located, hwf.marked⟩
  have htouch : Loop.Touched r s ((s.setNextPending r none).callOnAborted env r).2 := by
    rw [heq]
    exact fun b hb => Loop.touched_setNextPending s r none b hb
  have hcalm : ((s.setNextPending r none).callOnAborted env r).2.Undemanding := by
    rw [heq]
    exact ⟨h.undemanding.hazards, h.undemanding.cancelledRequests, h.undemanding.injectedRequests,
      h.undemanding.copied⟩
  have hun := hcalm.evolves trivial (Loop.evolves_destroy (q := True) _ r)
  obtain ⟨v', hwf', hput⟩ := hcalled.destroy hhand (.of_nil hun.hazards)
  rw [hstep]
  exact ⟨v', C, h.of_handled rfl hp hwf' hun (.of_putDown h.wf hp htouch (.refl _ _) hput)
    rfl rfl rfl (by simp)⟩

/-- The first of the waiting requests is taken off the list. -/
theorem Steady.take (h : (⟨s, .waiters id false (some r)⟩ : Racer ω).Steady v C) :
    ∃ v' C', (advance env ⟨s, .waiters id false (some r)⟩).Steady v' C' := by
  obtain ⟨l, hp, hrest⟩ := (h.walked (.blocked id) rfl).exists_cons
  have hhand : update (update v (.detached (.blocked id)) l) .hand (r :: v .hand) .hand = [r] := by
    rw [Function.update_self, h.hand]
    rfl
  have hwf := (h.wf.takeUp hp).setNextPending_hand (x := none) (hhand ▸ List.mem_cons_self)
  have hfollow : s.follow r = s :=
    h.wf.located.follow (p := .detached (.blocked id)) (hp ▸ List.mem_cons_self)
  have hstep : advance env ⟨s, .waiters id false (some r)⟩ =
      ⟨s.setNextPending r none, .readHead id r (s.nextPending r)⟩ := by
    rw [advance]
    dsimp only
    rw [hfollow]
    rfl
  have hrl : r ∉ l := (List.nodup_cons.mp (hp ▸ h.wf.located.placed.nodup _)).1
  rw [hstep]
  refine ⟨_, C, hwf, ⟨h.undemanding.hazards, h.undemanding.cancelledRequests,
    h.undemanding.injectedRequests, h.undemanding.copied⟩, hhand, fun b hb => ?_, fun p hp' => ?_,
    fun p hp' => ?_, by simp⟩
  · rw [hhand] at hb
    obtain rfl := List.mem_singleton.mp hb
    exact (h.wf.located.fits (.detached (.blocked id)) b (hp ▸ List.mem_cons_self)).1
  · rw [Function.update_of_ne (by simp), Function.update_of_ne]
    · exact h.elsewhere p hp'
    · rintro hd
      exact hp' (congrArg some (Place.detached.inj hd).symm)
  · obtain rfl : Place.blocked id = p := Option.some.inj hp'
    rw [Function.update_of_ne (by simp), Function.update_self]
    exact hrest.update hrl _

/-- The head of the pending list is read. -/
theorem Steady.readHead (h : (⟨s, .readHead id r next⟩ : Racer ω).Steady v C) :
    (advance env ⟨s, .readHead id r next⟩).Steady v C := by
  have hr : r ∈ v .hand := h.hand ▸ List.mem_singleton_self r
  have hnot : ∀ p, p ≠ .hand → r ∉ v p := fun p hp =>
    h.wf.located.placed.notMem_of_ne hr hp.symm
  refine ⟨h.wf.setNextPending_hand hr _, ⟨h.undemanding.hazards,
    h.undemanding.cancelledRequests, h.undemanding.injectedRequests, h.undemanding.copied⟩,
    h.hand, h.fits, h.elsewhere, fun p hp => (h.walked p hp).update (hnot _ (by simp)) _,
    fun id' b next' seen hs => ?_⟩
  obtain ⟨rfl, rfl, rfl, rfl⟩ := Station.storeHead.inj hs
  refine ⟨Function.update_self .., [], v .pending, rfl, ?_⟩
  exact h.wf.located.linked.pending.update (hnot _ (by simp)) _

/-- The woken request is stored as the new head, of a list that has not changed since it was read. -/
theorem Steady.storeHead
    (h : (⟨s, .storeHead id r next s.pendingRequests⟩ : Racer ω).Steady v C) :
    ∃ v' C', (advance env ⟨s, .storeHead id r next s.pendingRequests⟩).Steady v' C' := by
  have hhand : v .hand = r :: [] := h.hand
  have hr : r ∈ v .hand := hhand ▸ List.mem_singleton_self r
  have hlink : s.nextPending r = s.pendingRequests := (h.seen id r next _ rfl).1
  have hstep : advance env ⟨s, .storeHead id r next s.pendingRequests⟩ =
      ⟨s.requeuePending r, .waiters id false next⟩ := by
    show (⟨{ s with pendingRequests := some r }, _⟩ : Racer ω) = _
    rw [Loop.requeuePending, Loop.setNextPending, ← hlink, Function.update_eq_self]
  obtain ⟨v', hwf, hput⟩ := h.wf.requeue hhand (h.fits r hr)
  rw [hstep]
  refine ⟨v', C, hwf, ⟨h.undemanding.hazards, h.undemanding.cancelledRequests,
    h.undemanding.injectedRequests, h.undemanding.copied⟩, hput.hand, fun b hb => ?_,
    fun p hp => ?_, fun p hp => ?_, by simp⟩
  · rw [hput.hand] at hb
    simp at hb
  · exact (hput.detached p).trans (h.elsewhere p hp)
  · rw [hput.detached]
    exact (h.walked p hp).congr (hput.links p)

/-- One round over the list that was pending. -/
theorem Steady.schedule (h : (⟨s, .pending (some r)⟩ : Racer ω).Steady v C) :
    ∃ v' C', (advance env ⟨s, .pending (some r)⟩).Steady v' C' := by
  obtain ⟨l, hp, -⟩ := (h.walked .pending rfl).exists_cons
  have hfollow : s.follow r = s :=
    h.wf.located.follow (p := .detached .pending) (hp ▸ List.mem_cons_self)
  have hun := h.undemanding.evolves trivial (Loop.evolves_pendingRound (q := True) env r s)
  obtain ⟨v', hwf, hh, -⟩ := h.wf.walkPending_round hp (.of_nil hun.hazards)
  have hstep : advance env ⟨s, .pending (some r)⟩ =
      ⟨s.pendingRound env r, .pending (s.nextPending r)⟩ := by
    rw [advance]
    dsimp only
    rw [hfollow]
  rw [hstep]
  exact ⟨v', C, h.of_handled rfl hp hwf hun hh rfl rfl rfl (by simp)⟩

theorem Steady.advance {s : Racer ω} (h : s.Steady v C) (hs : HeadUnmoved .step s) :
    ∃ v' C', (Racer.advance env s).Steady v' C' := by
  obtain ⟨s, q⟩ := s
  cases q with
  | idle => exact ⟨v, C, h⟩
  | waiters id failed head =>
    cases head with
    | none => exact ⟨v, C, h.leave rfl rfl⟩
    | some r =>
      cases failed with
      | true => exact h.fail
      | false => exact h.take
  | readHead id r next => exact ⟨v, C, h.readHead⟩
  | storeHead id r next seen =>
    obtain rfl : s.pendingRequests = seen := hs
    exact h.storeHead
  | pending head =>
    cases head with
    | none => exact ⟨v, C, h.leave rfl rfl⟩
    | some r => exact h.schedule

/-- **One turn** in which no store overwrites a submission. -/
theorem Steady.turn {s : Racer ω} {a : Turn} (h : s.Steady v C) (ha : Legal a s)
    (hs : HeadUnmoved a s) : ∃ v' C', (Racer.turn env a s).Steady v' C' := by
  cases a with
  | submit r priority =>
    have hun : (s.loop.curlEventRequestSubmit env r priority).2.Undemanding :=
      h.undemanding.submit ha
    obtain ⟨v', hwf, hund⟩ := h.wf.submit (.of_nil hun.hazards)
    exact ⟨v', C, h.push ha hwf hund hun (links_submit env s.loop r priority)⟩
  | loopSubmit r priority =>
    have hun : (s.loop.curlEventLoopSubmit env r priority).Undemanding :=
      h.undemanding.pushPending ha _ _
    obtain ⟨v', hwf, hund⟩ := h.wf.loopSubmit (.of_nil hun.hazards)
    exact ⟨v', C, h.push ha hwf hund hun (.inr ⟨rfl, rfl⟩)⟩
  | publish id payload cleanup =>
    obtain ⟨s, q⟩ := s
    cases q with
    | idle => exact h.publish rfl id payload cleanup
    | _ => exact ⟨v, C, h⟩
  | process =>
    obtain ⟨s, q⟩ := s
    cases q with
    | idle => exact h.process rfl
    | _ => exact ⟨v, C, h⟩
  | step => exact h.advance hs

/-- A store over a head that has moved loses the request submitted last. -/
theorem Steady.not_kept_storeHead {seen : Option ReqId}
    (h : (⟨s, .storeHead id r next seen⟩ : Racer ω).Steady v C)
    (env : Env ω) (hs : s.pendingRequests ≠ seen) :
    ¬ (Racer.advance env ⟨s, .storeHead id r next seen⟩).Kept := by
  obtain ⟨hlink, pushed, old, hpend, hold⟩ := h.seen id r next seen rfl
  have hchain := h.wf.located.linked.pending
  obtain ⟨x, rest, hx⟩ : ∃ x rest, pushed = x :: rest := by
    cases pushed with
    | nil => exact absurd (((hpend ▸ hchain).head_eq).trans hold.head_eq.symm) hs
    | cons x rest => exact ⟨x, rest, rfl⟩
  have hplaced := h.wf.located.placed
  have hxv : x ∈ v .pending := by simp [hpend, hx]
  have hr : r ∈ v .hand := h.hand ▸ List.mem_singleton_self r
  have hxr : x ≠ r := by
    rintro rfl
    exact absurd (hplaced.inj hxv hr) (by simp)
  have hxold : x ∉ old := by
    have hnd := hplaced.nodup .pending
    rw [hpend, hx, List.cons_append] at hnd
    exact fun hm => (List.nodup_cons.mp hnd).1 (List.mem_append_right rest hm)
  -- the list that is left: the woken request and those that were pending when the head was read
  have hleft : Intrusive.walk s.nextPending s.accepted.length (some r) = r :: old := by
    have hold' : ∀ b ∈ old, b ∈ v .pending := fun b hb => by
      rw [hpend]
      exact List.mem_append_right _ hb
    refine Intrusive.walk_eq ⟨rfl, by rwa [hlink]⟩ ?_
    refine (List.subperm_of_subset (List.nodup_cons.mpr ⟨fun hm => ?_, ?_⟩) fun b hb => ?_).length_le
    · exact absurd (hplaced.inj (hold' r hm) hr) (by simp)
    · have hnd := hplaced.nodup .pending
      rw [hpend] at hnd
      exact (List.nodup_append.mp hnd).2.1
    · rcases List.mem_cons.mp hb with rfl | hb
      · exact h.wf.located.accepted_of_mem hr
      · exact h.wf.located.accepted_of_mem (hold' b hb)
  intro hkept
  obtain ⟨p, hp, -⟩ := hkept x (h.wf.located.live_of_mem hxv)
  have hxp : x ∈ (Racer.advance env ⟨s, .storeHead id r next seen⟩).requests p :=
    List.count_pos_iff.mp (hp ▸ Nat.one_pos)
  have helsewhere : ∀ c : Container, c ≠ .pending → x ∉ s.contents c := by
    intro c hc hxc
    rw [h.wf.contents_eq] at hxc
    have hplace := hplaced.inj hxv hxc
    cases c with
    | pending => exact hc rfl
    | _ => simp [Container.place] at hplace
  cases p with
  | transit =>
    have hwalk : Intrusive.walk s.nextPending s.accepted.length next =
        v (.detached (.blocked id)) :=
      Intrusive.walk_eq (h.walked (.blocked id) rfl) (h.wf.located.length_le _)
    have hxd : x ∈ Intrusive.walk s.nextPending s.accepted.length next := hxp
    rw [hwalk] at hxd
    exact absurd (hplaced.inj hxv hxd) (by simp)
  | container c =>
    cases c with
    | pending =>
      have hxl : x ∈ Intrusive.walk s.nextPending s.accepted.length (some r) := hxp
      rw [hleft] at hxl
      exact (List.mem_cons.mp hxl).elim hxr hxold
    | injected => exact helsewhere .injected (by simp) hxp
    | blocked j => exact helsewhere (.blocked j) (by simp) hxp
    | map m => exact helsewhere (.map m) (by simp) hxp

theorem Steady.not_kept {s : Racer ω} {a : Turn} (h : s.Steady v C) (env : Env ω)
    (hs : ¬ HeadUnmoved a s) :
    ¬ (Racer.turn env a s).Kept := by
  obtain ⟨s, q⟩ := s
  cases a with
  | step =>
    cases q with
    | storeHead id r next seen => exact h.not_kept_storeHead env hs
    | _ => exact absurd trivial hs
  | _ => exact absurd trivial hs

theorem steady_init (mem : Memory) (world : ω) : ∃ v C, (init mem world).Steady v C := by
  obtain ⟨v, C, hwf, hv⟩ := Loop.resting_init mem world
  refine ⟨v, C, hwf, ⟨rfl, rfl, rfl, rfl⟩, hv.hand, fun b hb => ?_, fun p _ => hv.detached p,
    fun p hp => absurd hp (by simp [init, Station.place]),
    fun _ _ _ _ hs => absurd hs (by simp [init])⟩
  rw [hv.hand] at hb
  simp at hb

/-- **No pending request is lost, unless a store overwrites a submission.** In every run of
submissions, publications and passes over the pending list, every live request is at one site in
every state met if and only if the store of every wake-up finds the head its read found. -/
theorem kept_iff_headUnmoved (env : Env ω) (mem : Memory) (world : ω) (as : List Turn)
    (has : Guarded.Allowed (turn env) Legal (init mem world) as) :
    (∀ pre, pre <+: as → (Guarded.run (turn env) (init mem world) pre).Kept) ↔
      Guarded.Allowed (turn env) HeadUnmoved (init mem world) as := by
  refine Guarded.forall_prefix_iff_allowed (I := fun s => ∃ v C, s.Steady v C) ?_ ?_ ?_
    (steady_init mem world) has
  · rintro s ⟨v, C, h⟩
    exact h.kept
  · rintro a s ⟨v, C, h⟩ ha hs
    exact h.turn ha hs
  · rintro a s ⟨v, C, h⟩ _ hs
    exact h.not_kept env hs

/-- A request is woken and handed to the scheduler again, and nobody comes in between. -/
theorem kept_iff_headUnmoved_woken :
    let mem := Memory.plain fun r => if r = 1 then [5] else []
    let as : List Turn := [.submit 1 0, .process, .step, .step, .publish 5 (some 7) false, .step,
      .step, .step, .step, .submit 2 0, .process]
    (∀ pre, pre <+: as → (Guarded.run (turn Env.uneventful) (init mem ()) pre).Kept) ↔
      Guarded.Allowed (turn Env.uneventful) HeadUnmoved (init mem ()) as := by
  intro mem as
  exact kept_iff_headUnmoved Env.uneventful mem () as (by decide +kernel)

/-- The second request is submitted after the wake-up of the first has read the head of the pending
list, and before it stores the new one. -/
theorem not_kept_submitted_in_between :
    let mem := Memory.plain fun r => if r = 1 then [5] else []
    let as : List Turn := [.submit 1 0, .process, .step, .step, .publish 5 (some 7) false, .step,
      .step, .submit 2 0]
    Guarded.Allowed (turn Env.uneventful) Legal (init mem ()) (as ++ [.step]) ∧
      ¬ (Guarded.run (turn Env.uneventful) (init mem ()) (as ++ [.step])).Kept := by
  intro mem as
  refine ⟨by decide +kernel, ?_⟩
  have has : Guarded.Allowed (turn Env.uneventful) (fun a s => Legal a s ∧ HeadUnmoved a s)
      (init mem ()) as := by decide +kernel
  obtain ⟨v, C, h⟩ := has.invariant (P := fun s => ∃ v C, s.Steady v C)
    (fun a s ⟨_, _, h⟩ ha => h.turn ha.1 ha.2) (steady_init mem ())
  have hmoved : ¬ HeadUnmoved .step (Guarded.run (turn Env.uneventful) (init mem ()) as) := by
    decide +kernel
  rw [Guarded.run_concat]
  exact h.not_kept Env.uneventful hmoved

end Racer

end CurlLoop
