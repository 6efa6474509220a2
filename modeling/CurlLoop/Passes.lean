import CurlLoop.Calls

/-!
# What the scheduling passes preserve

The passes over the cancelled and pending lists and over the waiting maps keep the invariant of the
scheduler, each under the condition that it meets no hazard. Between passes nothing is in transit
(`View.Still`), and a loop that is well formed with nothing in transit is *resting*.

## Main definitions

* `View.Still`, `Loop.Resting` — nothing is in transit
* `View.Slack`, `Loop.AtRest` — nothing is, but for abandoned requests where these are allowed
* `Loop.Mapped` — a request is in the map its fields name

## Main results

* `Located.walkCancelled` — the walk over the cancelled list, when each request is in its map
* `mapped_of_walkCancelled` — a walk that meets no hazard found each request in its map
* `AtRest.processCancelledAndPendingRequests`, `AtRest.moveInactiveRequestsToQueue` — the passes
-/

namespace CurlLoop

open Function (update)

/-- Nothing is in transit. -/
structure View.Still (v : View) : Prop where
  hand : v .hand = []
  detached : ∀ p, v (.detached p) = []

/-- Nothing is in transit but what was detached from `p`. -/
structure View.StillBut (p : Place) (v : View) : Prop where
  hand : v .hand = []
  detached : ∀ p', p' ≠ p → v (.detached p') = []

/-- Nothing is in transit but abandoned requests. -/
structure View.Slack (strict : Prop) (v : View) : Prop where
  hand : v .hand = []
  detached : ∀ p : Place, p.Kept strict → v (.detached p) = []

/-- Nothing is in transit but what was detached from `p`, and abandoned requests. -/
structure View.SlackBut (strict : Prop) (p : Place) (v : View) : Prop where
  hand : v .hand = []
  detached : ∀ p' : Place, p'.Kept strict → p' ≠ p → v (.detached p') = []

theorem View.slack_true {v : View} : v.Slack True ↔ v.Still :=
  ⟨fun h => ⟨h.hand, fun p => h.detached p (.inl trivial)⟩,
    fun h => ⟨h.hand, fun p _ => h.detached p⟩⟩

theorem View.slackBut_true {v : View} {p : Place} : v.SlackBut True p ↔ v.StillBut p :=
  ⟨fun h => ⟨h.hand, fun p' => h.detached p' (.inl trivial)⟩,
    fun h => ⟨h.hand, fun p' _ => h.detached p'⟩⟩

theorem View.SlackBut.slack {v : View} {p : Place} {strict : Prop} (h : v.SlackBut strict p)
    (hp : v (.detached p) = []) : v.Slack strict := by
  refine ⟨h.hand, fun p' hk => ?_⟩
  rcases eq_or_ne p' p with rfl | hne
  · exact hp
  · exact h.detached p' hk hne

theorem View.Slack.noneWoken {v : View} {strict : Prop} (h : v.Slack strict) : v.NoneWoken :=
  fun id => h.detached (.blocked id) (.inr (by simp))

theorem View.SlackBut.noneWoken {v : View} {p : Place} {strict : Prop} (h : v.SlackBut strict p)
    (hp : ∀ id, p ≠ .blocked id) : v.NoneWoken :=
  fun id => h.detached (.blocked id) (.inr (by simp)) (hp id).symm

theorem View.StillBut.still {v : View} {p : Place} (h : v.StillBut p) (hp : v (.detached p) = []) :
    v.Still := by
  refine ⟨h.hand, fun p' => ?_⟩
  rcases eq_or_ne p' p with rfl | hne
  · exact hp
  · exact h.detached p' hne

/-- A list is detached while nothing else is in transit. -/
theorem View.Slack.detach {v : View} {strict : Prop} (hv : v.Slack strict) {p : Place}
    (hp : p ≠ .hand) (hd : ∀ p', p ≠ .detached p') :
    View.SlackBut strict p (update (update v p []) (.detached p) (v p)) := by
  refine ⟨?_, fun p' hk hp' => ?_⟩
  · rw [Function.update_of_ne (by simp), Function.update_of_ne hp.symm]
    exact hv.hand
  · rw [Function.update_of_ne (by simpa using hp'), Function.update_of_ne (hd p').symm]
    exact hv.detached p' hk

theorem View.Still.detach {v : View} (hv : v.Still) {p : Place} (hp : p ≠ .hand)
    (hd : ∀ p', p ≠ .detached p') :
    View.StillBut p (update (update v p []) (.detached p) (v p)) :=
  View.slackBut_true.mp ((View.slack_true.mpr hv).detach hp hd)

/-- A request is taken out of a map while nothing is in transit. -/
theorem View.Slack.erase {v : View} {strict : Prop} (hv : v.Slack strict) (m : MapId)
    (r : ReqId) :
    update (update v (.map m) ((v (.map m)).erase r)) .hand (r :: v .hand) .hand = [r] ∧
      ∀ p : Place, p.Kept strict →
        update (update v (.map m) ((v (.map m)).erase r)) .hand (r :: v .hand)
          (.detached p) = [] := by
  refine ⟨?_, fun p hk => ?_⟩
  · rw [Function.update_self, hv.hand]
  · rw [Function.update_of_ne (by simp), Function.update_of_ne (by simp)]
    exact hv.detached p hk

/-- What a round leaves of a cancelled list. -/
theorem CancelledList.rest {req : ReqId → Request} {link : ReqId → Option ReqId}
    {head : Option ReqId} {accepted destroyed l : List ReqId} {r : ReqId}
    (h : CancelledList req link head accepted destroyed (r :: l)) (req' : ReqId → Request)
    (hreq : ∀ b, b ≠ r → req' b = req b) :
    CancelledList req' link (link r) accepted (r :: destroyed) l := by
  obtain ⟨hr, hl⟩ := List.nodup_cons.mp h.nodup
  have hne : ∀ {b : ReqId}, b ∈ l → b ≠ r := by
    rintro b hb rfl
    exact hr hb
  refine ⟨h.chain.2, hl, fun b hb => ?_, fun b hb => ?_, fun b hb hd => ?_⟩
  · obtain ⟨ha, hd⟩ := h.live b (List.mem_cons_of_mem r hb)
    exact ⟨ha, fun hd' => (List.mem_cons.mp hd').elim (hne hb) hd⟩
  · rw [hreq b (hne hb)]
    exact h.cancelled b (List.mem_cons_of_mem r hb)
  · obtain ⟨hbr, hd⟩ := not_or.mp (fun h' => hd (List.mem_cons.mpr h'))
    exact h.off b (fun hb' => (List.mem_cons.mp hb').elim hbr hb) hd

namespace Loop

variable {ω : Type} {s t u w : Loop ω} {v v' v₁ v₂ : View} {C : List ReqId} {r : ReqId}
  {l : List ReqId} {p : Place} {m : MapId} {env : Env ω} {strict : Prop}

/-- A well-formed loop between two passes. -/
def Resting (s : Loop ω) : Prop := ∃ v C, s.WF v C ∧ v.Still

/-- A well-formed loop between two passes, which may have abandoned requests before, unless the
reading is strict. -/
def AtRest (strict : Prop) (s : Loop ω) : Prop := ∃ v C, s.WF v C ∧ v.Slack strict

theorem atRest_true : s.AtRest True ↔ s.Resting :=
  exists_congr fun _ => exists_congr fun _ => and_congr_right fun _ => View.slack_true

theorem Undisturbed.slack (h : Undisturbed strict v v' s t) (hv : v.Slack strict) :
    v'.Slack strict :=
  ⟨h.hand.trans hv.hand, fun p hk => (h.detached p hk).trans (hv.detached p hk)⟩

theorem Handled.slackBut (h : Handled strict p r l v v' s t) (hv : v.SlackBut strict p) :
    v'.SlackBut strict p :=
  ⟨h.hand.trans hv.hand, fun p' hk hp' => by
    rw [h.detached p' hk, Function.update_of_ne (by simpa using hp')]
    exact hv.detached p' hk hp'⟩

theorem Handled.stillBut (h : Handled True p r l v v' s t) (hv : v.StillBut p) : v'.StillBut p :=
  View.slackBut_true.mp (h.slackBut (View.slackBut_true.mpr hv))

/-! ### The cancelled list -/

/-- The request is in the map its fields name. -/
def Mapped (s : Loop ω) (r : ReqId) : Prop := r ∈ s.maps (cancelledMap (s.req r))

instance (s : Loop ω) (r : ReqId) : Decidable (s.Mapped r) :=
  inferInstanceAs (Decidable (_ ∈ _))

/-- Erasing from a map of the loop is erasing from the view. -/
theorem Located.maps_erase (h : Located s v) (m : MapId) (r : ReqId) (m' : MapId) :
    update s.maps m ((s.maps m).erase r) m' =
      update v (.map m) ((v (.map m)).erase r) (.map m') := by
  rcases eq_or_ne m' m with rfl | hm
  · rw [Function.update_self, Function.update_self, h.maps]
  · rw [Function.update_of_ne hm, Function.update_of_ne (by simpa using hm)]
    exact h.maps m'

theorem maps_dropFromMap (s : Loop ω) (m : MapId) (r : ReqId) :
    (s.dropFromMap m r).maps = update s.maps m ((s.maps m).erase r) := rfl

theorem maps_cancelledRound (s : Loop ω) (r : ReqId) :
    (s.cancelledRound r).maps = update s.maps (cancelledMap (s.req r))
      ((s.maps (cancelledMap (s.req r))).erase r) := by
  rw [cancelledRound, maps_destroy, maps_dropFromMap]

theorem req_cancelledRound (s : Loop ω) {b : ReqId} (hb : b ≠ r) :
    (s.cancelledRound r).req b = s.req b := by
  rw [cancelledRound, req_destroy, Function.update_of_ne hb]
  rfl

/-- With nothing on the cancelled list, a destruction meets no hazard. -/
theorem hazards_destroy (hnone : s.cancelledRequests = none) :
    (s.curlEventRequestDestroy r).hazards = s.hazards :=
  ((evolves_destroy (q := True) s r).still trivial hnone).2.1

theorem hazards_cancelledRound (hnone : s.cancelledRequests = none) :
    (s.cancelledRound r).hazards =
      if s.Mapped r then s.hazards else .misplaced r :: s.hazards := by
  have h := hazards_destroy (s := s.dropFromMap (cancelledMap (s.req r)) r) (r := r) hnone
  rw [cancelledRound, h]
  exact ite_not ..

theorem nextCancelled_cancelledRound (s : Loop ω) (r : ReqId) :
    (s.cancelledRound r).nextCancelled = s.nextCancelled := by
  rw [cancelledRound, nextCancelled_destroy]
  rfl

theorem nextPending_cancelledRound (s : Loop ω) (r : ReqId) :
    (s.cancelledRound r).nextPending = s.nextPending := by
  rw [cancelledRound, nextPending_destroy]
  rfl

theorem cancelledRequests_cancelledRound (s : Loop ω) (r : ReqId) :
    (s.cancelledRound r).cancelledRequests = s.cancelledRequests := by
  rw [cancelledRound, cancelledRequests_destroy]
  rfl

theorem destroyed_cancelledRound (s : Loop ω) (r : ReqId) :
    (s.cancelledRound r).destroyed = r :: s.destroyed := by
  rw [cancelledRound, destroyed_destroy]
  rfl

theorem accepted_cancelledRound (s : Loop ω) (r : ReqId) :
    (s.cancelledRound r).accepted = s.accepted := by
  rw [cancelledRound, accepted_destroy]
  rfl

theorem trace_cancelledRound (s : Loop ω) (r : ReqId) : (s.cancelledRound r).trace = s.trace := by
  rw [cancelledRound, trace_destroy]
  rfl

theorem world_cancelledRound (s : Loop ω) (r : ReqId) : (s.cancelledRound r).world = s.world := by
  rw [cancelledRound, world_destroy]
  rfl

theorem maxConcurrentRequests_cancelledRound (s : Loop ω) (r : ReqId) :
    (s.cancelledRound r).maxConcurrentRequests = s.maxConcurrentRequests := by
  rw [cancelledRound, maxConcurrentRequests_destroy]
  rfl

/-- A round over the cancelled list leaves the links alone, and takes nobody else out of a map. -/
theorem Mapped.of_cancelledRound {b : ReqId} (h : (s.cancelledRound r).Mapped b) (hb : b ≠ r) :
    s.Mapped b := by
  unfold Mapped at h
  rw [req_cancelledRound s hb, maps_cancelledRound] at h
  rcases eq_or_ne (cancelledMap (s.req b)) (cancelledMap (s.req r)) with he | he
  · rw [he, Function.update_self] at h
    rw [Mapped, he]
    exact List.mem_of_mem_erase h
  · rwa [Function.update_of_ne he] at h

theorem Mapped.cancelledRound {b : ReqId} (h : s.Mapped b) (hb : b ≠ r) :
    (s.cancelledRound r).Mapped b := by
  rw [Mapped]
  rw [req_cancelledRound s hb, maps_cancelledRound]
  rcases eq_or_ne (cancelledMap (s.req b)) (cancelledMap (s.req r)) with he | he
  · rw [he, Function.update_self, List.mem_erase_of_ne hb, ← he]
    exact h
  · rw [Function.update_of_ne he]
    exact h

/-- The state of the walk over the cancelled list `C` when `l` is left of it. -/
structure WalkCancelled (s : Loop ω) (v : View) (C l : List ReqId) (t : Loop ω) (v' : View) :
    Prop where
  located : Located t v'
  marked : CancelledList t.req t.nextCancelled l.head? t.accepted t.destroyed l
  none : t.cancelledRequests = none
  subset : l ⊆ C
  mapped : ∀ b ∈ l, t.Mapped b
  done : ∀ b ∈ C, b ∉ l → b ∈ t.destroyed
  hazards : t.hazards = s.hazards
  nextPending : t.nextPending = s.nextPending
  elsewhere : ∀ p, (∀ m, p ≠ .map m) → v' p = v p
  stays : ∀ p b, b ∉ C → b ∈ v p → b ∈ v' p
  reqs : ∀ b, b ∉ C → t.req b = s.req b

theorem Located.cancelledRound (h : Located s v) (hr : r ∈ v (.map (cancelledMap (s.req r)))) :
    Located (s.cancelledRound r) (update v (.map (cancelledMap (s.req r)))
      ((v (.map (cancelledMap (s.req r)))).erase r)) := by
  refine Located.retire (t := s.dropFromMap (cancelledMap (s.req r)) r) (f := s.maps) h
    (List.perm_cons_erase hr) (fun hp => hp) fun m => ?_
  rw [maps_dropFromMap]
  exact h.maps_erase _ _ m

theorem WalkCancelled.round (h : WalkCancelled s v C (r :: l) t v') :
    ∃ v'', WalkCancelled s v C l (t.cancelledRound r) v'' := by
  have hr : r ∈ v' (.map (cancelledMap (t.req r))) := by
    rw [← h.located.maps]
    exact h.mapped r List.mem_cons_self
  obtain ⟨hrl, hl⟩ := List.nodup_cons.mp h.marked.nodup
  have hne : ∀ {b : ReqId}, b ∈ l → b ≠ r := by
    rintro b hb rfl
    exact hrl hb
  have hrC : r ∈ C := h.subset List.mem_cons_self
  refine ⟨_, h.located.cancelledRound hr, ?_, ?_,
    fun b hb => h.subset (List.mem_cons_of_mem r hb),
    fun b hb => (h.mapped b (List.mem_cons_of_mem r hb)).cancelledRound (hne hb),
    fun b hb hbl => ?_, ?_, ?_, fun p hp => ?_, fun p b hb hbp => ?_, fun b hb => ?_⟩
  · have hrest := h.marked.rest (t.cancelledRound r).req fun b => req_cancelledRound t
    have hhead : t.nextCancelled r = l.head? := h.marked.chain.2.head_eq
    rw [hhead] at hrest
    rw [nextCancelled_cancelledRound, accepted_cancelledRound, destroyed_cancelledRound]
    exact hrest
  · rw [cancelledRequests_cancelledRound]
    exact h.none
  · rw [destroyed_cancelledRound]
    rcases eq_or_ne b r with rfl | hbr
    · exact List.mem_cons_self
    · exact List.mem_cons_of_mem r (h.done b hb fun hb' => (List.mem_cons.mp hb').elim hbr hbl)
  · rw [hazards_cancelledRound h.none, if_pos (h.mapped r List.mem_cons_self)]
    exact h.hazards
  · rw [nextPending_cancelledRound]
    exact h.nextPending
  · rw [Function.update_of_ne (hp _)]
    exact h.elsewhere p hp
  · have hbr : b ≠ r := by
      rintro rfl
      exact hb hrC
    rcases eq_or_ne p (.map (cancelledMap (t.req r))) with rfl | hpm
    · rw [Function.update_self, List.mem_erase_of_ne hbr]
      exact h.stays _ b hb hbp
    · rw [Function.update_of_ne hpm]
      exact h.stays p b hb hbp
  · have hbr : b ≠ r := by
      rintro rfl
      exact hb hrC
    exact (req_cancelledRound t hbr).trans (h.reqs b hb)

/-- **The walk over the cancelled list**, when each request on it is in the map its fields name: the
requests are taken out and destroyed, and nothing else happens. -/
theorem Located.walkCancelled (h : Located s v)
    (hC : CancelledList s.req s.nextCancelled C.head? s.accepted s.destroyed C)
    (hnone : s.cancelledRequests = none) (hmapped : ∀ b ∈ C, s.Mapped b) :
    ∃ v', WalkCancelled s v C [] (s.forEachCancelled C.head? Loop.cancelledRound) v' := by
  have hlen : C.length ≤ s.accepted.length :=
    (List.subperm_of_subset hC.nodup fun b hb => (hC.live b hb).1).length_le
  refine Intrusive.forEach_rule (G := fun _ => True)
    (P := fun l t => ∃ v', WalkCancelled s v C l t v') (fun _ _ _ => trivial) (fun r l t ht _ => ?_)
    hlen hC.chain ⟨v, h, hC, hnone, fun _ h => h, hmapped, fun b hb hb' => absurd hb hb', rfl, rfl,
      fun _ _ => rfl, fun _ _ _ h => h, fun _ _ => rfl⟩ trivial
  obtain ⟨v', ht⟩ := ht
  have hr : r ∈ v' (.map (cancelledMap (t.req r))) := by
    rw [← ht.located.maps]
    exact ht.mapped r List.mem_cons_self
  rw [ht.located.follow hr]
  exact ⟨ht.round, fun b _ => congrFun (nextCancelled_cancelledRound t r) b⟩

/-- A walk that meets no hazard found each request in the map its fields name. -/
theorem mapped_of_walkCancelled {head : Option ReqId}
    (hC : CancelledList s.req s.nextCancelled head s.accepted s.destroyed C)
    (hnone : s.cancelledRequests = none)
    (hz : (s.forEachCancelled head cancelledRound).Spared strict) : ∀ b ∈ C, s.Mapped b := by
  have hlen : C.length ≤ s.accepted.length :=
    (List.subperm_of_subset hC.nodup fun b hb => (hC.live b hb).1).length_le
  have key := Intrusive.forEach_rule (k := fun (t : Loop ω) r => t.nextCancelled r)
    (f := fun r t => cancelledRound r (t.follow r)) (G := fun t : Loop ω => t.Spared strict)
    (P := fun l t => l.Nodup ∧ t.cancelledRequests = none ∧ (∀ b ∈ l, t.Mapped b → s.Mapped b) ∧
      ∀ b ∈ C, b ∉ l → s.Mapped b)
    (fun r t ht => ?_) (fun r l t ht hz => ?_) hlen hC.chain
    ⟨hC.nodup, hnone, fun _ _ h => h, fun b hb hb' => absurd hb hb'⟩ hz
  · exact fun b hb => key.2.2.2 b hb (by simp)
  · exact ((evolves_cancelledRound r _).spared ht).of_suffix
      (hazards_follow t r ▸ List.suffix_rfl)
  · obtain ⟨hnd, hnone, hmap, hdone⟩ := ht
    obtain ⟨hrl, hl⟩ := List.nodup_cons.mp hnd
    have hfollow : (t.follow r).cancelledRequests = none ∧
        (∀ b ∈ r :: l, (t.follow r).Mapped b → s.Mapped b) ∧
        (t.follow r).nextCancelled = t.nextCancelled := by
      rw [Loop.follow]
      split <;> exact ⟨hnone, hmap, rfl⟩
    generalize t.follow r = t' at hfollow hz ⊢
    obtain ⟨hnone', hmap', hlink⟩ := hfollow
    have hr : t'.Mapped r := by
      by_contra hno
      have hcons := hazards_cancelledRound (r := r) hnone'
      rw [if_neg hno] at hcons
      exact hz.notMem (by simp) (hcons ▸ List.mem_cons_self)
    refine ⟨⟨hl, ?_, fun b hb hm => ?_, fun b hb hbl => ?_⟩, fun b _ => ?_⟩
    · rw [cancelledRequests_cancelledRound]
      exact hnone'
    · have hbr : b ≠ r := by
        rintro rfl
        exact hrl hb
      exact hmap' b (List.mem_cons_of_mem r hb) (hm.of_cancelledRound hbr)
    · rcases eq_or_ne b r with rfl | hbr
      · exact hmap' b List.mem_cons_self hr
      · exact hdone b hb fun hb' => (List.mem_cons.mp hb').elim hbr hbl
    · exact congrFun ((nextCancelled_cancelledRound t' r).trans hlink) b

/-! ### The pending list -/

/-- One round of the walk over the pending list: the request is put down, and everybody else stays
where they are. -/
theorem WF.walkPending_round (h : s.WF v C) (hp : v (.detached .pending) = r :: l)
    (hz : (s.pendingRound env r).Spared strict) :
    ∃ v', (s.pendingRound env r).WF v' C ∧
      Handled strict .pending r l v v' s (s.pendingRound env r) ∧
      (∀ p b, b ≠ r → b ∈ v p → b ∈ v' p) ∧
      ∀ b, b ≠ r → (s.pendingRound env r).req b = s.req b := by
  have hhand : update (update v (.detached .pending) l) .hand (r :: v .hand) .hand = r :: v .hand :=
    Function.update_self ..
  have hmulti : (s.req r).multiHandle = false :=
    h.located.fits (.detached .pending) r (hp ▸ List.mem_cons_self)
  obtain ⟨v', hwf, hput⟩ := (h.takeUp hp).pendingRound hhand hmulti hz
  refine ⟨v', hwf, .of_putDown h hp (.refl s) (.refl _ _) hput, fun p b hbr hb => ?_, hput.reqs⟩
  refine hput.stays p b hbr ?_
  rcases eq_or_ne p .hand with rfl | hph
  · rw [hhand]
    exact List.mem_cons_of_mem r hb
  · rw [Function.update_of_ne hph]
    rcases eq_or_ne p (.detached .pending) with rfl | hpd
    · rw [Function.update_self]
      rw [hp] at hb
      exact (List.mem_cons.mp hb).resolve_left hbr
    · rwa [Function.update_of_ne hpd]

/-- The lists as `process_cancelled_and_pending_requests` leaves them before it walks them. -/
theorem WF.detachBoth (h : s.WF v C) (hv : v (.detached .pending) = []) :
    Located s.detachCancelled.detachPending
        (update (update v .pending []) (.detached .pending) (v .pending)) ∧
      CancelledList s.req s.nextCancelled C.head? s.accepted s.destroyed C := by
  refine ⟨h.located.detachPending hv, ?_⟩
  have hm := h.marked
  rw [Marked, hm.chain.head_eq] at hm
  exact hm

/-- What the walk over the cancelled list hands to the walk over the pending list. -/
theorem WalkCancelled.wf (h : WalkCancelled s v C [] t v') : t.WF v' [] := by
  refine ⟨h.located, ?_⟩
  rw [Marked, h.none]
  exact h.marked

/-- A pass that meets no hazard finds whoever was cancelled in the map his fields name. -/
theorem WF.mapped_cancelled (h : s.WF v C) (hv : v (.detached .pending) = [])
    (hz : (s.processCancelledAndPendingRequests env).Spared strict) : ∀ b ∈ C, s.Mapped b := by
  obtain ⟨-, hC⟩ := h.detachBoth hv
  rw [Loop.processCancelledAndPendingRequests] at hz
  rw [h.marked.chain.head_eq] at hz
  exact mapped_of_walkCancelled (s := s.detachCancelled.detachPending) hC rfl
    ((evolves_forEachPending (q := False) (evolves_pendingRound env) _ _).spared hz)

/-- The walk over the cancelled list leaves the detached pending list as it was. -/
theorem WF.sweepCancelled (h : s.WF v C) (hv : v (.detached .pending) = [])
    (hmapped : ∀ b ∈ C, s.Mapped b) :
    let t := s.detachCancelled.detachPending.forEachCancelled C.head? cancelledRound
    ∃ v₁, WalkCancelled s.detachCancelled.detachPending
        (update (update v .pending []) (.detached .pending) (v .pending)) C [] t v₁ ∧
      v₁ (.detached .pending) = v .pending ∧
      Intrusive.IsChain t.nextPending s.pendingRequests (v₁ (.detached .pending)) := by
  obtain ⟨hloc, hC⟩ := h.detachBoth hv
  obtain ⟨v₁, hwalk⟩ := hloc.walkCancelled hC rfl hmapped
  have hlist : v₁ (.detached .pending) = v .pending := by
    rw [hwalk.elsewhere _ (by simp), Function.update_self]
  refine ⟨v₁, hwalk, hlist, ?_⟩
  rw [hlist, hwalk.nextPending]
  exact h.located.linked.pending

theorem AtRest.processCancelledAndPendingRequests (h : s.AtRest strict)
    (hz : (s.processCancelledAndPendingRequests env).Spared strict) :
    (s.processCancelledAndPendingRequests env).AtRest strict := by
  obtain ⟨v, C, hwf, hv⟩ := h
  have hempty := hv.detached .pending (.inr (by simp))
  obtain ⟨v₁, hwalk, -, hchain⟩ := hwf.sweepCancelled hempty (hwf.mapped_cancelled hempty hz)
  rw [Loop.processCancelledAndPendingRequests] at hz ⊢
  rw [hwf.marked.chain.head_eq] at hz ⊢
  have hslack : v₁.SlackBut strict .pending := by
    have hv₁ := hv.detach (p := .pending) (by simp) (by simp)
    refine ⟨(hwalk.elsewhere _ (by simp)).trans hv₁.hand, fun p hk hp => ?_⟩
    exact (hwalk.elsewhere _ (by simp)).trans (hv₁.detached p hk hp)
  obtain ⟨v₂, C₂, hwf₂, hrest, hv₂⟩ := hwalk.wf.forEachHandled (p := .pending)
    (f := Loop.pendingRound env) (P := fun v _ => v.SlackBut strict .pending) (.inr (by simp))
    (fun r t ht => (evolves_pendingRound (q := False) env r t).spared ht)
    (fun r l v C t ht hp hv hz => by
      obtain ⟨v', hwf', hh, _⟩ := ht.walkPending_round hp hz
      exact ⟨v', C, hwf', hh, hh.slackBut hv⟩)
    hchain hslack hz
  exact ⟨v₂, C₂, hwf₂, hv₂.slack hrest⟩

/-! ### Requests whose time has come -/

/-- Only an active request has a transfer that was not reported. -/
theorem Located.not_attached (h : Located s v) (hr : r ∈ v p) (hp : p ≠ .map .queued) :
    ∀ a ∈ s.multi.transfers, a.reported = false → a.priv ≠ r := by
  rintro a ha hrep rfl
  exact hp (h.placed.inj hr (h.attached a ha hrep).1)

theorem WF.eraseMap (h : s.WF v C) (hr : r ∈ v (.map m))
    (hdone : ∀ a ∈ s.multi.transfers, a.reported = false → a.priv ≠ r) :
    (s.eraseMap m r).WF
      (update (update v (.map m) ((v (.map m)).erase r)) .hand (r :: v .hand)) C :=
  ⟨h.located.eraseMap hr hdone, h.marked⟩

/-- The request in hand goes to a list in transit. -/
theorem WF.stash (h : s.WF v C) (hh : v .hand = r :: l) {n : List ReqId}
    (hn : n.Perm (r :: v (.detached p))) (hfit : p.Fits (s.req r)) :
    s.WF (update (update v .hand l) (.detached p) n) C := by
  refine ⟨h.located.reindex (fun p' hp' => ?_) (fun m => ?_)
    (h.located.fits_putDown (p := .detached p) hfit hn)
    (h.located.placed.move (by simp) (.of_eq hh) hn), h.marked⟩
  · rw [Function.update_of_ne, Function.update_of_ne] <;> rintro rfl <;> exact hp'
  · rw [Function.update_of_ne (by simp), Function.update_of_ne (by simp)]

/-- Everything in a map, or in a list detached from one, is not pending. -/
theorem Place.Fits.isPending {m : MapId} {q : Request} (h : (Place.map m).Fits q) :
    q.isPending = false := by
  cases m with
  | rateLimited => exact h
  | _ => exact h.2.1

/-- `request_is_rate_limited` parks the request or only asks. -/
theorem requestIsRateLimited_cases (env : Env ω) (s : Loop ω) (root : List ReqId) (r : ReqId) :
    (∃ w, s.requestIsRateLimited env root r = (false, root, { s with world := w })) ∨
    ∃ w due, s.requestIsRateLimited env root r =
      (true, root.erase r, ({ s with world := w } : Loop ω).parkRateLimited r due) := by
  rw [Loop.requestIsRateLimited]
  dsimp only
  cases (s.req r).rateLimit with
  | none => exact .inl ⟨s.world, rfl⟩
  | some key =>
    dsimp only
    split
    · exact .inl ⟨_, rfl⟩
    · exact .inr ⟨_, _, rfl⟩

/-- What a round over the detached rate-limited map can do. -/
theorem rateLimitedRound_cases (env : Env ω) (now : ℕ) (r : ReqId) (root : List ReqId)
    (s : Loop ω) :
    (∃ w, rateLimitedRound env now r (root, s) = .done (root, { s.follow r with world := w })) ∨
    (∃ w due, rateLimitedRound env now r (root, s) =
      .yield (root.erase r, ({ s.follow r with world := w } : Loop ω).parkRateLimited r due)) ∨
    ∃ w, rateLimitedRound env now r (root, s) =
      .yield (root.erase r,
        ({ s.follow r with world := w } : Loop ω).curlEventLoopRequestStart env r) := by
  rw [rateLimitedRound]
  dsimp only
  generalize s.follow r = s
  split
  · exact .inl ⟨s.world, rfl⟩
  · obtain ⟨w, hw⟩ | ⟨w, due, hw⟩ := requestIsRateLimited_cases env s root r
    · rw [hw]
      obtain ⟨w', hw'⟩ := requestReady_eq env { s with world := w } r
      dsimp only
      rw [hw']
      split
      · contradiction
      · split
        · exact .inr (.inr ⟨w', rfl⟩)
        · exact .inl ⟨w', rfl⟩
    · rw [hw]
      exact .inr (.inl ⟨w, due, rfl⟩)

/-- The state of the loop over the detached rate-limited map, which is `p.1`. -/
def Sorting (strict : Prop) (p : List ReqId × Loop ω) : Prop :=
  ∃ v C, p.2.WF v C ∧ v (.detached (.map .rateLimited)) = p.1 ∧
    v.SlackBut strict (.map .rateLimited)

/-- The first request of the detached map was put down. -/
theorem WF.sorting_putDown (hwf : t.WF v' C) (hv : v.SlackBut strict (.map .rateLimited))
    (hput : PutDown r (v .hand)
      (update (update v (.detached (.map .rateLimited)) l) .hand (r :: v .hand)) v' s t) :
    Sorting strict (((r :: l).erase r), t) := by
  have hdet : ∀ p, v' (.detached p) =
      update v (.detached (.map .rateLimited)) l (.detached p) := fun p =>
    (hput.detached p).trans (Function.update_of_ne (by simp) _ _)
  refine ⟨v', C, hwf, ?_, hput.hand.trans hv.hand, fun p hk hp' => ?_⟩
  · rw [hdet, Function.update_self, List.erase_cons_head]
  · rw [hdet, Function.update_of_ne (by simpa using hp')]
    exact hv.detached p hk hp'

/-- A round over the detached rate-limited map that meets no hazard. -/
theorem Sorting.round {root : List ReqId} {now : ℕ} (h : Sorting strict (root, s))
    (hr : root.head? = some r) {q : List ReqId × Loop ω}
    (hq : rateLimitedRound env now r (root, s) = .done q ∨
      rateLimitedRound env now r (root, s) = .yield q) (hz : q.2.Spared strict) :
    Sorting strict q := by
  obtain ⟨v, C, hwf, hp, hv⟩ := h
  obtain ⟨l, rfl⟩ := List.head?_eq_some_iff.mp hr
  have hmem : r ∈ v (.detached (.map .rateLimited)) := hp ▸ List.mem_cons_self
  have hpend : (s.req r).isPending = false :=
    Place.Fits.isPending (hwf.located.fits (.detached (.map .rateLimited)) r hmem)
  have hask : ∀ w, ({ s with world := w } : Loop ω).WF
      (update (update v (.detached (.map .rateLimited)) l) .hand (r :: v .hand)) C := fun w =>
    ⟨(hwf.takeUp hp).located, (hwf.takeUp hp).marked⟩
  have hhand : update (update v (.detached (.map .rateLimited)) l) .hand (r :: v .hand) .hand =
      r :: v .hand := Function.update_self ..
  have hcases := rateLimitedRound_cases env now r (r :: l) s
  rw [hwf.located.follow hmem] at hcases
  obtain ⟨w, hw⟩ | ⟨w, due, hw⟩ | ⟨w, hw⟩ := hcases
  · obtain rfl : q = (r :: l, { s with world := w }) := by simpa [hw, eq_comm] using hq
    exact ⟨v, C, ⟨hwf.located, hwf.marked⟩, hp, hv⟩
  · obtain rfl : q = ((r :: l).erase r,
        ({ s with world := w } : Loop ω).parkRateLimited r due) := by
      simpa only [hw, reduceCtorEq, false_or, ForInStep.yield.injEq, eq_comm] using hq
    obtain ⟨v', hwf', hput⟩ := (hask w).parkRateLimited hhand hpend due
    exact hwf'.sorting_putDown hv hput
  · obtain rfl : q = ((r :: l).erase r,
        ({ s with world := w } : Loop ω).curlEventLoopRequestStart env r) := by
      simpa only [hw, reduceCtorEq, false_or, ForInStep.yield.injEq, eq_comm] using hq
    obtain ⟨v', hwf', hput⟩ := (hask w).start hhand hpend hz
    exact hwf'.sorting_putDown hv hput

/-- A round that merges a request throttled again into the detached map. -/
theorem Sorting.merge {q : List ReqId × Loop ω} (h : Sorting strict q)
    (hr : (q.2.maps .rateLimited).head? = some r) :
    Sorting strict (((q.2.follow r).eraseMap .rateLimited r).requestInsert r q.1,
      (q.2.follow r).eraseMap .rateLimited r) := by
  obtain ⟨v, C, hwf, hp, hv⟩ := h
  have hmem : r ∈ v (.map .rateLimited) := by
    rw [← hwf.located.maps]
    exact List.mem_of_head? hr
  rw [hwf.located.follow hmem]
  have herase := hwf.eraseMap hmem (hwf.located.not_attached hmem (by simp))
  have hdet : ∀ p, update (update v (.map .rateLimited) ((v (.map .rateLimited)).erase r)) .hand
      (r :: v .hand) (.detached p) = v (.detached p) := fun p => by
    rw [Function.update_of_ne (by simp), Function.update_of_ne (by simp)]
  refine ⟨_, C, herase.stash (p := .map .rateLimited) (l := v .hand) (Function.update_self ..)
    (n := (q.2.eraseMap .rateLimited r).requestInsert r q.1) ?_
    (hwf.located.fits (.map .rateLimited) r hmem), Function.update_self .., ?_, fun p hk hp' => ?_⟩
  · rw [hdet, hp]
    exact OrderedMap.insertMulti_perm ..
  · rw [Function.update_of_ne (by simp), Function.update_self]
    exact hv.hand
  · rw [Function.update_of_ne (by simpa using hp'), Function.update_of_ne (by simp), hdet]
    exact hv.detached p hk hp'

/-- The rate-limited map is put back. -/
theorem Sorting.putBack {q : List ReqId × Loop ω} (h : Sorting strict q)
    (hempty : q.2.maps .rateLimited = []) : (q.2.setMap .rateLimited q.1).AtRest strict := by
  obtain ⟨v, C, hwf, hp, hv⟩ := h
  have hnil : v (.map .rateLimited) = [] := (hwf.located.maps .rateLimited).symm.trans hempty
  have hback := hwf.located.putBackMap (by simp) hnil
  rw [hp] at hback
  refine ⟨_, C, ⟨hback, hwf.marked⟩, ?_, fun p hk => ?_⟩
  · rw [Function.update_of_ne (by simp), Function.update_of_ne (by simp)]
    exact hv.hand
  · rw [Function.update_of_ne (by simp)]
    rcases eq_or_ne p (.map .rateLimited) with rfl | hne
    · exact Function.update_self ..
    · rw [Function.update_of_ne (by simpa using hne)]
      exact hv.detached p hk hne

/-- Nobody is left to merge: every round takes its request out of the map. -/
theorem maps_merged (p : List ReqId × Loop ω) :
    (OrderedMap.whileFirst (fun p : List ReqId × Loop ω => (p.2.maps .rateLimited).head?) mergeRound
      (p.2.maps .rateLimited).length p).2.maps .rateLimited = [] := by
  refine List.head?_eq_none_iff.mp (OrderedMap.whileFirst_none
    (fun p : List ReqId × Loop ω => (p.2.maps .rateLimited).length)
    (g := fun p : List ReqId × Loop ω => (p.2.maps .rateLimited).head?)
    (fun p hp => ?_) (fun r (p : List ReqId × Loop ω) hr => ⟨_, rfl, ?_⟩) le_rfl)
  · rw [List.eq_nil_of_length_eq_zero hp]
    rfl
  · have hlen := List.length_pos_of_mem (List.mem_of_head? hr)
    show (((p.2.follow r).eraseMap .rateLimited r).maps .rateLimited).length < _
    rw [maps_eraseMap, Function.update_self, maps_follow,
      List.length_erase_of_mem (List.mem_of_head? hr)]
    omega

theorem AtRest.moveRateLimited (h : s.AtRest strict)
    (hz : (s.moveRateLimited env).Spared strict) : (s.moveRateLimited env).AtRest strict := by
  obtain ⟨v, C, hwf, hv⟩ := h
  have hstart : Sorting strict (s.maps .rateLimited,
      ((s.setMap .rateLimited []).ask env.macroNow).2) := by
    have hdet := hwf.located.detachMap (m := .rateLimited) (by simp)
      (hv.detached _ (.inr (by simp)))
    refine ⟨_, C, ⟨hdet, hwf.marked⟩, ?_, hv.detach (by simp) (by simp)⟩
    rw [Function.update_self, hwf.located.maps]
  have h1 := fun n => OrderedMap.whileFirst_rule
    (g := fun p : List ReqId × Loop ω => p.1.head?)
    (f := rateLimitedRound env (env.macroNow s.world).1)
    (P := fun p => p.2.Spared strict → Sorting strict p)
    (fun r p p' hP hr hb hz' => Sorting.round
      (hP ((evolves_rateLimitedRound (q := False) env _ r p p' (.inl hb)).spared hz'))
      hr (.inl hb) hz')
    (fun r p p' hP hr hb hz' => Sorting.round
      (hP ((evolves_rateLimitedRound (q := False) env _ r p p' (.inr hb)).spared hz'))
      hr (.inr hb) hz')
    (n := n) (fun _ => hstart)
  have h2 := fun n n' => OrderedMap.whileFirst_rule
    (g := fun p : List ReqId × Loop ω => (p.2.maps .rateLimited).head?)
    (f := mergeRound) (P := fun p => p.2.Spared strict → Sorting strict p)
    (fun r p p' _ _ hb => by simp [mergeRound] at hb)
    (fun r p p' hP hr hb hz' => by
      obtain rfl := ForInStep.yield.inj hb
      exact (hP (hz'.of_suffix (hazards_follow p.2 r ▸ List.suffix_rfl))).merge hr)
    (n := n') (h1 n)
  rw [Loop.moveRateLimited] at hz ⊢
  dsimp only at hz ⊢
  exact (h2 _ _ hz).putBack (maps_merged _)

theorem PutDown.slack (h : PutDown r [] v v' s t)
    (hv : ∀ p : Place, p.Kept strict → v (.detached p) = []) : v'.Slack strict :=
  ⟨h.hand, fun p hk => (h.detached p).trans (hv p hk)⟩

/-- Parking a request and taking it out of another map. -/
theorem setMap_parkRateLimited (s : Loop ω) (hm : m ≠ .rateLimited) (due : ℕ) :
    (s.parkRateLimited r due).setMap m ((s.maps m).erase r) =
      (s.eraseMap m r).parkRateLimited r due := by
  unfold Loop.parkRateLimited Loop.eraseMap Loop.insertMap Loop.setMap Loop.modifyReq requestInsert
  dsimp only
  rw [Function.update_comm hm.symm, Function.update_of_ne hm.symm]

theorem setMap_self (s : Loop ω) (m : MapId) : s.setMap m (s.maps m) = s := by
  rw [Loop.setMap]
  rw [Function.update_eq_self]

/-- What a round over `refresh_requests` or `inactive_requests` can do. -/
theorem waitingRound_cases (env : Env ω) (hm : m ≠ .rateLimited) (r : ReqId) (s : Loop ω) :
    (∃ w, waitingRound env m r s = .done { s.follow r with world := w }) ∨
    (∃ w due, waitingRound env m r s = .yield (((({ s.follow r with world := w } :
      Loop ω).eraseMap m r).parkRateLimited r due).addNum m (-1))) ∨
    ∃ w, waitingRound env m r s = .yield (((({ s.follow r with world := w } :
      Loop ω).eraseMap m r).addNum m (-1)).curlEventLoopRequestStart env r) := by
  rw [waitingRound]
  dsimp only
  generalize s.follow r = s
  obtain ⟨w, hw⟩ | ⟨w, due, hw⟩ := requestIsRateLimited_cases env s (s.maps m) r
  · rw [hw]
    dsimp only
    rw [setMap_self { s with world := w } m]
    obtain ⟨w', hw'⟩ := requestReady_eq env { s with world := w } r
    rw [hw']
    split
    · contradiction
    · split
      · exact .inr (.inr ⟨w', rfl⟩)
      · exact .inl ⟨w', rfl⟩
  · rw [hw]
    refine .inr (.inl ⟨w, due, ?_⟩)
    rw [← setMap_parkRateLimited _ hm]
    rfl

theorem AtRest.waitingRound (h : s.AtRest strict) (hm : m = .refresh ∨ m = .inactive)
    (hr : (s.maps m).head? = some r)
    (ht : Loop.waitingRound env m r s = .done t ∨ Loop.waitingRound env m r s = .yield t)
    (hz : t.Spared strict) : t.AtRest strict := by
  obtain ⟨v, C, hwf, hv⟩ := h
  have hlim : m ≠ .rateLimited := by
    rintro rfl
    simp at hm
  have hqueued : m ≠ .queued := by
    rintro rfl
    simp at hm
  have hmem : r ∈ v (.map m) := by
    rw [← hwf.located.maps]
    exact List.mem_of_head? hr
  have hpend : (s.req r).isPending = false :=
    Place.Fits.isPending (hwf.located.fits (.map m) r hmem)
  have hask : ∀ w, (({ s with world := w } : Loop ω).eraseMap m r).WF
      (update (update v (.map m) ((v (.map m)).erase r)) .hand (r :: v .hand)) C := fun w =>
    WF.eraseMap ⟨hwf.located, hwf.marked⟩ hmem
      (hwf.located.not_attached hmem (by simpa using hqueued))
  obtain ⟨hhand, hdet⟩ := hv.erase m r
  have hcases := waitingRound_cases env hlim r s
  rw [hwf.located.follow hmem] at hcases
  obtain ⟨w, hw⟩ | ⟨w, due, hw⟩ | ⟨w, hw⟩ := hcases
  · obtain rfl : t = { s with world := w } := by simpa [hw, eq_comm] using ht
    exact ⟨v, C, ⟨hwf.located, hwf.marked⟩, hv⟩
  · obtain rfl : t = ((({ s with world := w } : Loop ω).eraseMap m r).parkRateLimited r
        due).addNum m (-1) := by
      simpa only [hw, reduceCtorEq, false_or, ForInStep.yield.injEq, eq_comm] using ht
    obtain ⟨v', hwf', hput⟩ := (hask w).parkRateLimited hhand hpend due
    exact ⟨v', C, ⟨hwf'.located, hwf'.marked⟩, hput.slack hdet⟩
  · obtain rfl : t = ((({ s with world := w } : Loop ω).eraseMap m r).addNum m
        (-1)).curlEventLoopRequestStart env r := by
      simpa only [hw, reduceCtorEq, false_or, ForInStep.yield.injEq, eq_comm] using ht
    have hnum : ((({ s with world := w } : Loop ω).eraseMap m r).addNum m (-1)).WF
        (update (update v (.map m) ((v (.map m)).erase r)) .hand (r :: v .hand)) C :=
      ⟨(hask w).located, (hask w).marked⟩
    obtain ⟨v', hwf', hput⟩ := hnum.start hhand hpend hz
    exact ⟨v', C, hwf', hput.slack hdet⟩

theorem AtRest.moveWaiting (h : s.AtRest strict) (hm : m = .refresh ∨ m = .inactive)
    (hz : (s.moveWaiting env m).Spared strict) : (s.moveWaiting env m).AtRest strict :=
  OrderedMap.whileFirst_rule (g := fun t : Loop ω => (t.maps m).head?)
    (f := Loop.waitingRound env m)
    (P := fun t : Loop ω => t.Spared strict → t.AtRest strict)
    (fun r t t' hP hr hb hz' => (hP ((evolves_waitingRound (q := False) env m r t t'
      (.inl hb)).spared hz')).waitingRound hm hr (.inl hb) hz')
    (fun r t t' hP hr hb hz' => (hP ((evolves_waitingRound (q := False) env m r t t'
      (.inr hb)).spared hz')).waitingRound hm hr (.inr hb) hz') (fun _ => h) hz

theorem AtRest.moveInactiveRequestsToQueue (h : s.AtRest strict)
    (hz : (s.moveInactiveRequestsToQueue env).Spared strict) :
    (s.moveInactiveRequestsToQueue env).AtRest strict := by
  have hz₂ := (evolves_moveWaiting (q := False) env .inactive _).spared hz
  have hz₁ := (evolves_moveWaiting (q := False) env .refresh _).spared hz₂
  exact ((h.moveRateLimited hz₁).moveWaiting (.inl rfl) hz₂).moveWaiting (.inr rfl) hz

end Loop

end CurlLoop
