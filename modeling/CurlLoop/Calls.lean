import CurlLoop.WellFormed

/-!
# What the calls of a user preserve

A user calls the library between the passes, from a callback in the middle of a pass, and from
other threads. Each call keeps the invariant of the scheduler, and it leaves alone what is in
transit at that moment: the request the pass is working on and the lists it has detached.

A publication is a pass of its own: it detaches the waiting list of a resource and walks it, and the
failure callback may make further calls on the way. Those calls publish nothing, so publications
do not nest.

## Main definitions

* `Loop.Undisturbed` — a call came in between
* `Loop.Handled` — one round over a detached list

## Main results

* `WF.forEachPending` — the invariant rule for a walk over a detached list
* `WF.apiCall`, `WF.publish`, `WF.call`, `WF.calls`, `WF.applyOp`
-/

namespace CurlLoop

open Function (update)

/-- Accepting a request leaves the cancelled list alone. -/
theorem CancelledList.accept {req : ReqId → Request} {link : ReqId → Option ReqId}
    {head : Option ReqId} {accepted destroyed C : List ReqId} {r : ReqId}
    (h : CancelledList req link head accepted destroyed C) (hr : r ∉ accepted) (q : Request) :
    CancelledList (update req r q) link head (r :: accepted) destroyed C where
  chain := h.chain
  nodup := h.nodup
  live b hb := ⟨List.mem_cons_of_mem r (h.live b hb).1, (h.live b hb).2⟩
  cancelled b hb := by
    rw [Function.update_of_ne (fun hbr : b = r => hr (hbr ▸ (h.live b hb).1))]
    exact h.cancelled b hb
  off := h.off

/-- What is detached from the place stays there while calls come in. Only the abandoned requests,
which are at `.detached .hand`, may become more, unless the reading is strict. -/
def Place.Kept (strict : Prop) (p : Place) : Prop := strict ∨ p ≠ .hand

/-- No publication is under way. -/
def View.NoneWoken (v : View) : Prop := ∀ id, v (.detached (.blocked id)) = []

/-- A request is taken into hand from elsewhere. -/
theorem View.NoneWoken.hold {v : View} (h : v.NoneWoken) {p : Place}
    (hp : ∀ id, p ≠ .detached (.blocked id)) (l l' : List ReqId) :
    View.NoneWoken (update (update v p l) .hand l') := fun id => by
  rw [Function.update_of_ne (by simp), Function.update_of_ne (hp id).symm]
  exact h id

namespace Loop

variable {ω : Type} {s t u w : Loop ω} {v v' v₀ v₁ v₂ : View} {C : List ReqId} {r : ReqId}
  {l : List ReqId} {p : Place} {env : Env ω} {strict : Prop}

/-- What is in transit is where it was, with the same links, and fits where it did. -/
structure Undisturbed (strict : Prop) (v v' : View) (s t : Loop ω) : Prop where
  hand : v' .hand = v .hand
  detached : ∀ p : Place, p.Kept strict → v' (.detached p) = v (.detached p)
  links : ∀ p : Place, p.Kept strict → ∀ b ∈ v (.detached p), t.nextPending b = s.nextPending b
  reqs : ∀ b ∈ v .hand, (s.req b).SamePlace (t.req b)

theorem Undisturbed.refl (v : View) (s : Loop ω) : Undisturbed strict v v s s :=
  ⟨rfl, fun _ _ => rfl, fun _ _ _ _ => rfl, fun _ _ => .refl _⟩

theorem Undisturbed.trans (h : Undisturbed strict v v₁ s t) (h' : Undisturbed strict v₁ v₂ t u) :
    Undisturbed strict v v₂ s u := by
  refine ⟨h'.hand.trans h.hand, fun p hp => (h'.detached p hp).trans (h.detached p hp),
    fun p hp b hb => ?_, fun b hb => ?_⟩
  · exact (h'.links p hp b (h.detached p hp ▸ hb)).trans (h.links p hp b hb)
  · exact (h.reqs b hb).trans (h'.reqs b (h.hand ▸ hb))

/-- What only asks the outside world, or writes other fields, comes before a call unnoticed. -/
theorem Undisturbed.after (h : Undisturbed strict v v' t u)
    (hlink : t.nextPending = s.nextPending) (hreq : t.req = s.req) :
    Undisturbed strict v v' s u := by
  refine ⟨h.hand, h.detached, fun p hp b hb => ?_, fun b hb => ?_⟩
  · rw [← hlink]
    exact h.links p hp b hb
  · rw [← hreq]
    exact h.reqs b hb

/-- One round over the list detached from `p`: its first request was taken up, worked on while
calls came in, and put down. -/
structure Handled (strict : Prop) (p : Place) (r : ReqId) (l : List ReqId) (v v' : View)
    (s t : Loop ω) : Prop where
  hand : v' .hand = v .hand
  detached : ∀ p' : Place, p'.Kept strict →
    v' (.detached p') = update v (.detached p) l (.detached p')
  links : ∀ p' : Place, p'.Kept strict → ∀ b ∈ v (.detached p'), b ≠ r →
    t.nextPending b = s.nextPending b
  reqs : ∀ b ∈ v .hand, (s.req b).SamePlace (t.req b)

theorem Handled.rest (h : Handled strict p r l v v' s t) (hp : p.Kept strict) :
    v' (.detached p) = l := by
  rw [h.detached p hp, Function.update_self]

/-- Taking up, work on the request, calls, putting down. -/
theorem Handled.of_putDown (hwf : s.WF v C) (hp : v (.detached p) = r :: l) (ht : Touched r s t)
    (hu : Undisturbed strict (update (update v (.detached p) l) .hand (r :: v .hand)) v₁ t u)
    (hd : PutDown r (v .hand) v₁ v₂ u w) : Handled strict p r l v v₂ s w := by
  have hr : r ∈ v (.detached p) := hp ▸ List.mem_cons_self
  have hdet : ∀ p', update (update v (.detached p) l) .hand (r :: v .hand) (.detached p') =
      update v (.detached p) l (.detached p') := fun p' => Function.update_of_ne (by simp) _ _
  refine ⟨hd.hand, fun p' hk => (hd.detached p').trans ((hu.detached p' hk).trans (hdet p')),
    fun p' hk b hb hbr => ?_, fun b hb => ?_⟩
  · have hb' : b ∈ update (update v (.detached p) l) .hand (r :: v .hand) (.detached p') := by
      rw [hdet]
      rcases eq_or_ne (Place.detached p') (.detached p) with he | he
      · rw [he, Function.update_self]
        rw [he, hp] at hb
        exact (List.mem_cons.mp hb).resolve_left hbr
      · rwa [Function.update_of_ne he]
    exact (hd.links p' b (hu.detached p' hk ▸ hb')).trans
      ((hu.links p' hk b hb').trans (ht b hbr).1)
  · have hbr : b ≠ r := by
      rintro rfl
      exact absurd (hwf.located.placed.inj hb hr) (by simp)
    have hb' : b ∈ update (update v (.detached p) l) .hand (r :: v .hand) .hand := by
      rw [Function.update_self]
      exact List.mem_cons_of_mem r hb
    have hsame := hu.reqs b hb'
    rwa [(ht b hbr).2, ← hd.reqs b hbr] at hsame

/-- The rounds of a walk over a list detached from `p` add up to a call that disturbs nothing,
whatever the list was. -/
theorem Undisturbed.handled (h : Undisturbed strict (update v₀ (.detached p) (r :: l)) v s t)
    (hwf : t.WF v C) (hp : v (.detached p) = r :: l) (hh : Handled strict p r l v v' t u) :
    Undisturbed strict (update v₀ (.detached p) l) v' s u := by
  have hr : r ∈ v (.detached p) := hp ▸ List.mem_cons_self
  have hhand : ∀ l, update v₀ (.detached p) l .hand = v₀ .hand := fun l =>
    Function.update_of_ne (by simp) _ _
  have hvh : v .hand = v₀ .hand := h.hand.trans (hhand _)
  refine ⟨(hh.hand.trans hvh).trans (hhand l).symm, fun p' hk => ?_, fun p' hk b hb => ?_,
    fun b hb => ?_⟩
  · rw [hh.detached p' hk]
    rcases eq_or_ne (Place.detached p') (.detached p) with he | he
    · rw [he, Function.update_self, Function.update_self]
    · rw [Function.update_of_ne he, h.detached p' hk, Function.update_of_ne he,
        Function.update_of_ne he]
  · -- `b` was there before the round, and it is not the request the round was about
    have hb' : b ∈ update v₀ (.detached p) (r :: l) (.detached p') ∧ b ≠ r := by
      rcases eq_or_ne (Place.detached p') (.detached p) with he | he
      · rw [he, Function.update_self] at hb ⊢
        refine ⟨List.mem_cons_of_mem r hb, ?_⟩
        rintro rfl
        exact (List.nodup_cons.mp (hp ▸ hwf.located.placed.nodup (.detached p))).1 hb
      · rw [Function.update_of_ne he] at hb ⊢
        refine ⟨hb, ?_⟩
        rintro rfl
        have hbv : b ∈ v (.detached p') := by
          rw [h.detached p' hk, Function.update_of_ne he]
          exact hb
        exact he (hwf.located.placed.inj hbv hr)
    exact (hh.links p' hk b (h.detached p' hk ▸ hb'.1) hb'.2).trans (h.links p' hk b hb'.1)
  · rw [hhand] at hb
    have hb₀ : b ∈ update v₀ (.detached p) (r :: l) .hand := (hhand _).symm ▸ hb
    exact (h.reqs b hb₀).trans (hh.reqs b (hvh ▸ hb))

/-! ### Walking a detached list -/

theorem Located.length_le (h : s.Located v) (p : Place) : (v p).length ≤ s.accepted.length :=
  (List.subperm_of_subset (h.placed.nodup p) fun _ hr => h.accepted_of_mem hr).length_le

theorem hazards_follow (s : Loop ω) (r : ReqId) : (s.follow r).hazards = s.hazards := by
  rw [Loop.follow]
  split <;> rfl

theorem resources_follow (s : Loop ω) (r : ReqId) : (s.follow r).resources = s.resources := by
  rw [follow]
  split <;> rfl

/-- One round of a walk over a detached list, if it keeps the invariant. -/
theorem WF.pending_round {f : ReqId → Loop ω → Loop ω} {P : View → Loop ω → Prop}
    (hround : ∀ r l v C t, t.WF v C → v (.detached p) = r :: l → P v t →
      (f r t).Spared strict → ∃ v' C', (f r t).WF v' C' ∧ v' (.detached p) = l ∧
        (∀ b ∈ l, (f r t).nextPending b = t.nextPending b) ∧ P v' (f r t))
    (ht : ∃ v C, t.WF v C ∧ v (.detached p) = r :: l ∧ P v t)
    (hz : (f r (t.follow r)).Spared strict) :
    (∃ v C, (f r (t.follow r)).WF v C ∧ v (.detached p) = l ∧ P v (f r (t.follow r))) ∧
      ∀ b ∈ l, (f r (t.follow r)).nextPending b = t.nextPending b := by
  obtain ⟨v, C, hwf, hp, hP⟩ := ht
  have hfollow : t.follow r = t := hwf.located.follow (p := .detached p) (hp ▸ List.mem_cons_self)
  rw [hfollow] at hz ⊢
  obtain ⟨v', C', hwf', hrest, hlink, hP'⟩ := hround r l v C t hwf hp hP hz
  exact ⟨⟨v', C', hwf', hrest, hP'⟩, hlink⟩

/-- **Invariant rule for a walk over a detached list**, under the condition that it meets no
hazard. -/
theorem WF.forEachPending {f : ReqId → Loop ω → Loop ω} {P : View → Loop ω → Prop}
    (hmono : ∀ r t, (f r t).Spared strict → t.Spared strict)
    (hround : ∀ r l v C t, t.WF v C → v (.detached p) = r :: l → P v t →
      (f r t).Spared strict → ∃ v' C', (f r t).WF v' C' ∧ v' (.detached p) = l ∧
        (∀ b ∈ l, (f r t).nextPending b = t.nextPending b) ∧ P v' (f r t))
    (h : s.WF v C) {a : Option ReqId}
    (hc : Intrusive.IsChain s.nextPending a (v (.detached p))) (hP : P v s)
    (hz : (s.forEachPending a f).Spared strict) :
    ∃ v' C', (s.forEachPending a f).WF v' C' ∧ v' (.detached p) = [] ∧
      P v' (s.forEachPending a f) := by
  refine Intrusive.forEach_rule (G := fun t : Loop ω => t.Spared strict)
    (P := fun l t => ∃ v C, t.WF v C ∧ v (.detached p) = l ∧ P v t) (fun r t ht => ?_)
    (fun r l t ht hz => WF.pending_round hround ht hz) (h.located.length_le _) hc
    ⟨v, C, h, rfl, hP⟩ hz
  exact (hmono r _ ht).of_suffix (hazards_follow t r ▸ List.suffix_rfl)

/-- Nothing in a detached list is visited twice. -/
theorem Handled.link_rest (hh : Handled strict p r l v v' s t) (hwf : s.WF v C) (hk : p.Kept strict)
    (hp : v (.detached p) = r :: l) : ∀ b ∈ l, t.nextPending b = s.nextPending b := by
  intro b hb
  refine hh.links p hk b (hp ▸ List.mem_cons_of_mem r hb) ?_
  rintro rfl
  exact (List.nodup_cons.mp (hp ▸ hwf.located.placed.nodup (.detached p))).1 hb

/-- **Invariant rule for a walk whose rounds handle one request each**, and may make calls. -/
theorem WF.forEachHandled {f : ReqId → Loop ω → Loop ω} {P : View → Loop ω → Prop}
    (hk : p.Kept strict) (hmono : ∀ r t, (f r t).Spared strict → t.Spared strict)
    (hround : ∀ r l v C t, t.WF v C → v (.detached p) = r :: l → P v t →
      (f r t).Spared strict → ∃ v' C', (f r t).WF v' C' ∧
        Handled strict p r l v v' t (f r t) ∧ P v' (f r t))
    (h : s.WF v C) {a : Option ReqId}
    (hc : Intrusive.IsChain s.nextPending a (v (.detached p))) (hP : P v s)
    (hz : (s.forEachPending a f).Spared strict) :
    ∃ v' C', (s.forEachPending a f).WF v' C' ∧ v' (.detached p) = [] ∧
      P v' (s.forEachPending a f) := by
  refine WF.forEachPending hmono (fun r l v C t ht hp hP hz => ?_) h hc hP hz
  obtain ⟨v', C', hwf, hh, hP'⟩ := hround r l v C t ht hp hP hz
  exact ⟨v', C', hwf, hh.rest hk, hh.link_rest ht hk hp, hP'⟩

/-! ### Calls that are safe from any thread -/

/-- What a function that is wary of a situation was spared. -/
theorem Spared.beware {c : Prop} [Decidable c] {x : Hazard} (h : (s.beware c x).Spared strict) :
    (c → ¬ strict ∧ ∃ id, x = .abandoned id) ∧ s.Spared strict := by
  have hlist : (s.beware c x).hazards = if c then x :: s.hazards else s.hazards := rfl
  refine ⟨fun hc => h x ?_, h.of_suffix ?_⟩
  · rw [hlist, if_pos hc]
    exact List.mem_cons_self
  · rw [hlist]
    split
    · exact List.suffix_cons x _
    · exact List.suffix_rfl

/-- Being wary of a situation that spares nobody. -/
theorem Spared.not_of_beware {c : Prop} [Decidable c] {x : Hazard}
    (h : (s.beware c x).Spared strict) (hx : ∀ id, x ≠ .abandoned id) : ¬ c :=
  fun hc => (h.beware.1 hc).2.elim hx

/-- The public fields of a request that has not been accepted are free. -/
theorem WF.modifyReq_fresh (h : s.WF v C) (hr : r ∉ s.accepted) {f : Request → Request}
    (hf : (f (s.req r)).Unsubmitted) : (s.modifyReq r f).WF v C := by
  have hne : ∀ {b : ReqId}, b ∈ s.accepted → b ≠ r := by
    rintro b hb rfl
    exact hr hb
  have hreq : ∀ {b : ReqId}, b ∈ s.accepted → (s.modifyReq r f).req b = s.req b := fun hb =>
    Function.update_of_ne (hne hb) _ _
  refine ⟨⟨h.located.linked, h.located.maps, fun p b hb => ?_, fun t ht hrep => ?_,
    h.located.placed, fun b hb => ?_, h.located.accepted_nodup, h.located.destroyed_nodup,
    h.located.destroyed_subset, h.located.afterFree⟩, h.marked.chain, h.marked.nodup,
    h.marked.live, fun b hb => ?_, h.marked.off⟩
  · rw [hreq (h.located.accepted_of_mem hb)]
    exact h.located.fits p b hb
  · obtain ⟨hq, he⟩ := h.located.attached t ht hrep
    rw [hreq (h.located.accepted_of_mem hq)]
    exact ⟨hq, he⟩
  · rcases eq_or_ne b r with rfl | hbr
    · show (update s.req b (f (s.req b)) b).Unsubmitted
      rwa [Function.update_self]
    · show (update s.req r (f (s.req r)) b).Unsubmitted
      rw [Function.update_of_ne hbr]
      exact h.located.unsubmitted b hb
  · rw [hreq (h.marked.live b hb).1]
    exact h.marked.cancelled b hb

/-- Accepting a request disturbs nobody. -/
theorem WF.accept_undisturbed (h : s.WF v C) (hr : r ∉ s.accepted) (hp : p ≠ .hand)
    (hd : ∀ p', p ≠ .detached p') (hlink : ∀ b, b ≠ r → t.nextPending b = s.nextPending b)
    (hreq : ∀ b, b ≠ r → t.req b = s.req b) :
    Undisturbed strict v (update v p (r :: v p)) s t := by
  have hne : ∀ {p' : Place} {b : ReqId}, b ∈ v p' → b ≠ r := by
    rintro p' b hb rfl
    exact hr (h.located.accepted_of_mem hb)
  refine ⟨Function.update_of_ne hp.symm _ _, fun p' _ => Function.update_of_ne (hd p').symm _ _,
    fun p' _ b hb => hlink b (hne hb), fun b hb => ?_⟩
  rw [hreq b (hne hb)]
  exact .refl _

theorem WF.pushPending (h : s.WF v C) (hr : r ∉ s.accepted) :
    ∃ v', (s.pushPending r).WF v' C ∧ Undisturbed strict v v' s (s.pushPending r) := by
  have hnot : ∀ p, r ∉ v p := fun p hp => hr (h.located.accepted_of_mem hp)
  refine ⟨_, ⟨h.located.push (p := .pending) (q := (s.req r).setPending true) hr
    (h.located.unsubmitted r hr).multiHandle (by simp) (by simp)
    (h.located.linked.push_pending hnot), h.marked.accept hr _⟩, ?_⟩
  exact h.accept_undisturbed hr (by simp) (by simp) (fun b hb => Function.update_of_ne hb _ _)
    fun b hb => Function.update_of_ne hb _ _

/-- A hazard-free submission takes a request for the first time. -/
theorem notMem_of_pushPending (hz : (s.pushPending r).Spared strict) : r ∉ s.accepted := by
  have hbeware : (s.beware (s.HandedOver r) (.resubmitted r)).Spared strict := hz
  exact fun hr => hbeware.not_of_beware (by simp) (.inl hr)

/-- A request whose public fields were written is accepted. -/
theorem WF.pushFresh (h : s.WF v C) (hr : r ∉ s.accepted) {f : Request → Request}
    (hf : (f (s.req r)).Unsubmitted) :
    ∃ v', ((s.modifyReq r f).pushPending r).WF v' C ∧
      Undisturbed strict v v' s ((s.modifyReq r f).pushPending r) := by
  have hwrite : Undisturbed strict v v s (s.modifyReq r f) := by
    refine ⟨rfl, fun _ _ => rfl, fun _ _ _ _ => rfl, fun b hb => ?_⟩
    have hbr : b ≠ r := by
      rintro rfl
      exact hr (h.located.accepted_of_mem hb)
    show (s.req b).SamePlace (update s.req r (f (s.req r)) b)
    rw [Function.update_of_ne hbr]
    exact .refl _
  obtain ⟨v', hwf, hund⟩ := (h.modifyReq_fresh hr hf).pushPending hr
  exact ⟨v', hwf, hwrite.trans hund⟩

theorem WF.submit (h : s.WF v C) {priority : ℤ}
    (hz : (s.curlEventRequestSubmit env r priority).2.Spared strict) :
    ∃ v', (s.curlEventRequestSubmit env r priority).2.WF v' C ∧
      Undisturbed strict v v' s (s.curlEventRequestSubmit env r priority).2 := by
  rw [curlEventRequestSubmit] at hz ⊢
  dsimp only at hz ⊢
  split
  · exact ⟨v, h, .refl v s⟩
  · split
    · exact ⟨v, h, .refl v s⟩
    · rename_i hurl hbusy
      rw [if_neg hurl, if_neg hbusy] at hz
      have hr : r ∉ s.accepted := notMem_of_pushPending hz
      have hun := h.located.unsubmitted r hr
      have hask : (s.ask env.macroNow).2.WF v C := ⟨h.located, h.marked⟩
      obtain ⟨v', hwf, hund⟩ := hask.pushFresh (f := fun q => { q with
          method := some (q.method.getD (if q.postData.isSome then "POST" else "GET"))
          onRetry := if q.onRetry = none ∧ q.maxRetries ≠ 0 then some .defaultEnhanced
            else q.onRetry
          nextRetryAt := submitRetryAt (s.ask env.macroNow).1
            (if priority ≠ 0 then priority else (s.req r).priority)
          startTime := (s.ask env.macroNow).1
          requestStartTime := (s.ask env.macroNow).1 }) hr
        ⟨hun.multiHandle, hun.easyHandle, hun.isInjected, hun.isCancelled, hun.isPending,
          hun.depsRetained⟩
      exact ⟨v', hwf, hund.after rfl rfl⟩

theorem WF.loopSubmit (h : s.WF v C) {priority : ℤ}
    (hz : (s.curlEventLoopSubmit env r priority).Spared strict) :
    ∃ v', (s.curlEventLoopSubmit env r priority).WF v' C ∧
      Undisturbed strict v v' s (s.curlEventLoopSubmit env r priority) := by
  have hr : r ∉ s.accepted := notMem_of_pushPending hz
  have hun := h.located.unsubmitted r hr
  have hask : (s.ask env.macroNow).2.WF v C := ⟨h.located, h.marked⟩
  obtain ⟨v', hwf, hund⟩ := hask.pushFresh (f := fun q => { q with
      nextRetryAt := u64 ((s.ask env.macroNow).1 - priority * 1000000000)
      startTime := u64 ((s.ask env.macroNow).1 - priority * 1000000000)
      requestStartTime := u64 ((s.ask env.macroNow).1 - priority * 1000000000) }) hr
    ⟨hun.multiHandle, hun.easyHandle, hun.isInjected, hun.isCancelled, hun.isPending,
      hun.depsRetained⟩
  exact ⟨v', hwf, hund.after rfl rfl⟩

/-- The wrapper of a hazard-free injection is new. -/
theorem notMem_of_inject {b : ReqId} (hz : (s.curlEventLoopInject r b).Spared strict) :
    r ∉ s.accepted := by
  have hbeware : ((s.beware (s.HandedOver b) (.resubmitted b)).beware
    (s.HandedOver r ∨ r = b) (.resubmitted r)).Spared strict := hz
  exact fun hr => hbeware.not_of_beware (by simp) (.inl (.inl hr))

/-- The wrapper goes on the injected list. -/
theorem WF.inject (h : s.WF v C) {b : ReqId} (hz : (s.curlEventLoopInject r b).Spared strict) :
    ∃ v', (s.curlEventLoopInject r b).WF v' C ∧
      Undisturbed strict v v' s (s.curlEventLoopInject r b) := by
  have hr : r ∉ s.accepted := notMem_of_inject hz
  have hnot : ∀ p, r ∉ v p := fun p hp => hr (h.located.accepted_of_mem hp)
  refine ⟨_, ⟨h.located.push (p := .injected) (q := (s.req b).injected) hr rfl (by simp) (by simp)
    (h.located.linked.push_injected hnot), h.marked.accept hr _⟩, ?_⟩
  exact h.accept_undisturbed hr (by simp) (by simp) (fun b hb => Function.update_of_ne hb _ _)
    fun b hb => Function.update_of_ne hb _ _

/-- A request goes on the cancelled list. -/
theorem Marked.push (h : s.Marked C) (hr : r ∉ C) (hlive : s.Live r)
    (hc : (s.req r).isCancelled = true) :
    ({ s with
      nextCancelled := update s.nextCancelled r s.cancelledRequests
      cancelledRequests := some r } : Loop ω).Marked (r :: C) := by
  refine ⟨h.chain.push hr, List.nodup_cons.mpr ⟨hr, h.nodup⟩, fun b hb => ?_, fun b hb => ?_,
    fun b hb hd => ?_⟩
  · rcases List.mem_cons.mp hb with rfl | hb
    · exact hlive
    · exact h.live b hb
  · rcases List.mem_cons.mp hb with rfl | hb
    · exact hc
    · exact h.cancelled b hb
  · have hb' := not_or.mp (fun hb' => hb (List.mem_cons.mpr hb'))
    exact (Function.update_of_ne hb'.1 _ _).trans (h.off b hb'.2 hd)

theorem Request.samePlace_markCancelled (q : Request) : q.SamePlace q.markCancelled :=
  ⟨rfl, rfl, rfl, rfl⟩

theorem WF.cancel (h : s.WF v C) (hz : (s.curlEventLoopCancel r).2.Spared strict) :
    ∃ C', (s.curlEventLoopCancel r).2.WF v C' ∧
      Undisturbed strict v v s (s.curlEventLoopCancel r).2 := by
  -- whatever the branch, the mark is the only thing written to a request
  have hmark : ∀ t : Loop ω, t.nextPending = s.nextPending →
      t.req = update s.req r (s.req r).markCancelled → Undisturbed strict v v s t := by
    intro t hlink hreq
    refine ⟨rfl, fun _ _ => rfl, fun _ _ b _ => congrFun hlink b, fun b _ => ?_⟩
    rw [hreq]
    rcases eq_or_ne b r with rfl | hbr
    · rw [Function.update_self]
      exact Request.samePlace_markCancelled _
    · rw [Function.update_of_ne hbr]
      exact .refl _
  rw [curlEventLoopCancel] at hz ⊢
  dsimp only at hz ⊢
  split
  · exact ⟨C, ⟨h.located, h.marked⟩, rfl, fun _ _ => rfl, fun _ _ _ _ => rfl, fun _ _ => .refl _⟩
  · rename_i hlisted
    rw [if_neg hlisted] at hz
    have hlive : s.Live r := by
      by_contra hno
      split at hz
      · exact hz.not_of_beware (by simp) hno
      · exact hz.beware.2.not_of_beware (by simp) hno
    have hwf : (s.modifyReq r Request.markCancelled).WF v C :=
      ⟨h.located.modifyReq_same hlive.1 (Request.samePlace_markCancelled _),
        h.marked.modifyReq fun _ => rfl⟩
    split
    · exact ⟨C, ⟨hwf.located, hwf.marked⟩, hmark _ rfl rfl⟩
    · rename_i hpend
      rw [if_neg hpend] at hz
      have hr : r ∉ C := by
        rw [← hwf.marked.cancelledList_eq]
        exact hz.not_of_beware (by simp)
      exact ⟨r :: C, ⟨hwf.located, hwf.marked.push hr hlive (by
        show (update s.req r (s.req r).markCancelled r).isCancelled = true
        rw [Function.update_self]
        rfl)⟩, hmark _ rfl rfl⟩

/-- A call that is safe from any thread. -/
theorem WF.apiCall (h : s.WF v C) (c : ApiCall) (hz : (s.apiCall env c).Spared strict) :
    ∃ v' C', (s.apiCall env c).WF v' C' ∧ Undisturbed strict v v' s (s.apiCall env c) := by
  cases c with
  | submit r priority =>
    obtain ⟨v', hwf, hund⟩ := h.submit hz
    exact ⟨v', C, hwf, hund⟩
  | loopSubmit r priority =>
    obtain ⟨v', hwf, hund⟩ := h.loopSubmit hz
    exact ⟨v', C, hwf, hund⟩
  | cancel r =>
    obtain ⟨C', hwf, hund⟩ := h.cancel hz
    exact ⟨v, C', hwf, hund⟩
  | inject w r =>
    obtain ⟨v', hwf, hund⟩ := h.inject hz
    exact ⟨v', C, hwf, hund⟩
  | registerAsync thread payload cleanup =>
    have hsame : s.resources.SameWaiters
        { s.resources with gNextId := s.resources.gNextId + 1 } :=
      Resources.sameWaiters_of_find fun _ => rfl
    have hstore := h.setResources hsame
    exact ⟨v, C, ⟨hstore.located, hstore.marked⟩, (Undisturbed.refl v _).after rfl rfl⟩
  | publishAsync thread id payload cleanup =>
    exact ⟨v, C, ⟨h.located, h.marked⟩, (Undisturbed.refl v _).after rfl rfl⟩
  | releaseAsync thread id =>
    exact ⟨v, C, ⟨h.located, h.marked⟩, (Undisturbed.refl v _).after rfl rfl⟩

theorem WF.apiCalls (h : s.WF v C) (cs : List ApiCall) (hz : (s.apiCalls env cs).Spared strict) :
    ∃ v' C', (s.apiCalls env cs).WF v' C' ∧ Undisturbed strict v v' s (s.apiCalls env cs) := by
  induction cs generalizing s v C with
  | nil => exact ⟨v, C, h, .refl v s⟩
  | cons c cs ih =>
    have hmono := (evolves_foldl (fun s c => evolves_apiCall env s c) cs
      (s.apiCall env c)).spared hz
    obtain ⟨v₁, C₁, hwf, hund⟩ := h.apiCall c hmono
    obtain ⟨v₂, C₂, hwf', hund'⟩ := ih hwf hz
    exact ⟨v₂, C₂, hwf', hund.trans hund'⟩

/-! ### Publishing -/

/-- The failure callback, less the calls it makes, only asks the outside world. -/
theorem callOnAborted_eq (env : Env ω) (s : Loop ω) (r : ReqId) :
    ∃ w tr, (s.callOnAborted env r).2 = { s with world := w, trace := tr } := by
  rw [Loop.callOnAborted]
  split
  · exact ⟨_, _, rfl⟩
  · exact ⟨s.world, s.trace, rfl⟩

/-- One of the requests a publication finds waiting. -/
theorem WF.wakeOrFail {id : ResId} {failed : Bool} (h : s.WF v C)
    (hp : v (.detached (.blocked id)) = r :: l) (hz : (s.wakeOrFail env failed r).Spared strict) :
    ∃ v' C', (s.wakeOrFail env failed r).WF v' C' ∧
      Handled strict (.blocked id) r l v v' s (s.wakeOrFail env failed r) := by
  have hhand : update (update v (.detached (.blocked id)) l) .hand (r :: v .hand) .hand =
      r :: v .hand := Function.update_self ..
  have hr : r ∈ update (update v (.detached (.blocked id)) l) .hand (r :: v .hand) .hand :=
    hhand ▸ List.mem_cons_self
  have hwf := (h.takeUp hp).setNextPending_hand hr none
  have htouch := touched_setNextPending s r none
  rw [Loop.wakeOrFail] at hz ⊢
  dsimp only at hz ⊢
  split
  · rename_i hfailed
    rw [if_pos hfailed] at hz
    obtain ⟨w, tr, heq⟩ := callOnAborted_eq env (s.setNextPending r none) r
    have hcalled : ({ s.setNextPending r none with world := w, trace := tr } : Loop ω).WF _ C :=
      ⟨hwf.located, hwf.marked⟩
    rw [← heq] at hcalled
    obtain ⟨v₁, C₁, hwf', hund⟩ := hcalled.apiCalls
      ((s.setNextPending r none).callOnAborted env r).1
      ((evolves_destroy (q := False) _ r).spared hz)
    obtain ⟨v₂, hwf'', hput⟩ := hwf'.destroy (hund.hand.trans hhand) hz
    have htouch' : Touched r s ((s.setNextPending r none).callOnAborted env r).2 := by
      rw [heq]
      exact fun b hb => htouch b hb
    exact ⟨v₂, C₁, hwf'', .of_putDown h hp htouch' hund hput⟩
  · obtain ⟨v₁, hwf', hput⟩ := hwf.requeue hhand
      (h.located.fits (.detached (.blocked id)) r (hp ▸ List.mem_cons_self)).1
    exact ⟨v₁, C, hwf', .of_putDown h hp htouch (.refl _ _) hput⟩

theorem WF.publish (h : s.WF v C) {id : ResId} (hid : v (.detached (.blocked id)) = [])
    (payload : Option Payload) (cleanup : Bool)
    (hz : (s.curlEventResPublish env id payload cleanup).Spared strict) :
    ∃ v' C', (s.curlEventResPublish env id payload cleanup).WF v' C' ∧
      Undisturbed strict v v' s (s.curlEventResPublish env id payload cleanup) := by
  have hdet : (s.setResources (s.resources.publishPayload id payload cleanup).2).WF
      (update (update v (.blocked id) []) (.detached (.blocked id)) (v (.blocked id))) C :=
    ⟨h.located.detachBlocked hid (Resources.blockedHead_publishPayload s.resources id _ _)
      (Resources.blockedTail_publishPayload s.resources id _ _)
      fun _ hj => Resources.awaited_publishPayload _ _ hj, h.marked⟩
  have hlist : update (update v (.blocked id) []) (.detached (.blocked id)) (v (.blocked id))
      (.detached (.blocked id)) = v (.blocked id) := Function.update_self ..
  have hstart : Undisturbed strict (update v (.detached (.blocked id)) (v (.blocked id)))
      (update (update v (.blocked id) []) (.detached (.blocked id)) (v (.blocked id))) s
      (s.setResources (s.resources.publishPayload id payload cleanup).2) := by
    refine ⟨?_, fun p _ => ?_, fun _ _ _ _ => rfl, fun _ _ => .refl _⟩
    · rw [Function.update_of_ne (by simp), Function.update_of_ne (by simp),
        Function.update_of_ne (by simp)]
    · rw [Function.update_comm (by simp), Function.update_of_ne (by simp)]
  obtain ⟨v', C', hwf, hrest, hund⟩ := hdet.forEachHandled (p := .blocked id)
    (f := Loop.wakeOrFail env payload.isNone)
    (P := fun v' t => Undisturbed strict
      (update v (.detached (.blocked id)) (v' (.detached (.blocked id)))) v' s t) (.inr (by simp))
    (fun r t ht => (evolves_wakeOrFail env payload.isNone r t).spared ht)
    (fun r l v₁ C₁ t ht hp hund hz => by
      obtain ⟨v₂, C₂, hwf, hh⟩ := ht.wakeOrFail hp hz
      rw [hp] at hund
      refine ⟨v₂, C₂, hwf, hh, ?_⟩
      rw [hh.rest (.inr (by simp))]
      exact hund.handled ht hp hh)
    (a := (s.resources.publishPayload id payload cleanup).1) (by
      rw [hlist, Resources.publishPayload_fst]
      exact h.located.linked.blocked id) (by
      rw [hlist]
      exact hstart) hz
  rw [hrest, ← hid, Function.update_eq_self] at hund
  exact ⟨v', C', hwf, hund⟩

/-! ### Calls on the loop thread -/

theorem Undisturbed.noneWoken (h : Undisturbed strict v v' s t) (hv : v.NoneWoken) :
    v'.NoneWoken := fun id => (h.detached (.blocked id) (.inr (by simp))).trans (hv id)

theorem WF.declare (h : s.WF v C) : s.curlEventResDeclare.2.WF v C :=
  h.setResources (Resources.sameWaiters_declare s.resources)

/-- Releasing a resource nobody waits for. -/
theorem WF.release_of_not_abandons (h : s.WF v C) {id : ResId} (hb : ¬ s.Abandons id) :
    (s.curlEventResRelease id).WF v C := by
  have hwf : (s.beware (s.Abandons id) (.abandoned id)).WF v C := ⟨h.located, h.marked⟩
  refine hwf.setResources (Resources.sameWaiters_release h.located.linked.coherent
    fun n hn hcnt => ?_)
  by_contra hne
  exact hb ⟨n, hn, hcnt, hne⟩

/-- Releasing a resource that requests wait for abandons them. -/
theorem WF.release_of_abandons (h : s.WF v C) {id : ResId} (hb : s.Abandons id) :
    (s.curlEventResRelease id).WF
      (update (update v (.blocked id) []) (.detached .hand)
        (v (.blocked id) ++ v (.detached .hand))) C := by
  have hfind : ∀ j, (s.resources.curlEventResRelease id).resFind j =
      if j = id then none else s.resources.resFind j := by
    obtain ⟨n, hn, hcnt, -⟩ := hb
    intro j
    rw [Resources.curlEventResRelease, hn]
    dsimp only
    rw [if_pos (by omega), Resources.resFind_clean, Resources.resFind_free]
  have hwf : (s.beware (s.Abandons id) (.abandoned id)).WF v C := ⟨h.located, h.marked⟩
  refine ⟨hwf.located.unblock (p := .hand) (fun _ _ => trivial) (fun j => ?_) (fun j => ?_)
    fun j hj ha n hn => ?_, h.marked⟩
  · rw [Resources.blockedHead, hfind]
    split
    · rfl
    · rfl
  · rw [Resources.blockedTail, hfind]
    split
    · rfl
    · rfl
  · rw [hfind, if_neg hj] at hn
    exact ha n hn

theorem WF.release (h : s.WF v C) (id : ResId)
    (hz : (s.curlEventResRelease id).Spared strict) :
    ∃ v', (s.curlEventResRelease id).WF v' C ∧
      Undisturbed strict v v' s (s.curlEventResRelease id) := by
  by_cases hb : s.Abandons id
  · have hloose : ¬ strict := (hz.beware.1 hb).1
    refine ⟨_, h.release_of_abandons hb, ?_, fun p hp => ?_, fun _ _ _ _ => rfl,
      fun _ _ => .refl _⟩
    · rw [Function.update_of_ne (by simp), Function.update_of_ne (by simp)]
    · have hne : p ≠ .hand := hp.resolve_left hloose
      rw [Function.update_of_ne (by simpa using hne), Function.update_of_ne (by simp)]
  · exact ⟨v, h.release_of_not_abandons hb, (Undisturbed.refl v _).after rfl rfl⟩

theorem WF.call (h : s.WF v C) (hv : v.NoneWoken) (c : Call) (hz : (s.call env c).Spared strict) :
    ∃ v' C', (s.call env c).WF v' C' ∧ Undisturbed strict v v' s (s.call env c) := by
  have hkeep : ∀ t : Loop ω, t.WF v C → t.nextPending = s.nextPending → t.req = s.req →
      ∃ v' C', t.WF v' C' ∧ Undisturbed strict v v' s t := fun t ht hlink hreq =>
    ⟨v, C, ht, (Undisturbed.refl v t).after hlink hreq⟩
  cases c with
  | api c => exact h.apiCall c hz
  | declare => exact hkeep _ h.declare rfl rfl
  | register payload cleanup =>
    obtain ⟨v', C', hwf, hund⟩ := h.declare.publish (hv _) payload cleanup hz
    exact ⟨v', C', hwf, hund.after rfl rfl⟩
  | publish id payload cleanup => exact h.publish (hv id) payload cleanup hz
  | addref id => exact hkeep _ (h.setResources (Resources.sameWaiters_addref _ id)) rfl rfl
  | release id =>
    obtain ⟨v', hwf, hund⟩ := h.release id hz
    exact ⟨v', C, hwf, hund⟩
  | autoreleaseOwner id enable =>
    exact hkeep _ (h.setResources (Resources.sameWaiters_autoreleaseOwner _ id enable)) rfl rfl

/-- The calls of a callback. -/
theorem WF.calls (h : s.WF v C) (hv : v.NoneWoken) (cs : List Call)
    (hz : (s.calls env cs).Spared strict) :
    ∃ v' C', (s.calls env cs).WF v' C' ∧ Undisturbed strict v v' s (s.calls env cs) := by
  induction cs generalizing s v C with
  | nil => exact ⟨v, C, h, .refl v s⟩
  | cons c cs ih =>
    have hmono := (evolves_foldl (fun s c => evolves_call env s c) cs
      (s.call env c)).spared hz
    obtain ⟨v₁, C₁, hwf, hund⟩ := h.call hv c hmono
    obtain ⟨v₂, C₂, hwf', hund'⟩ := ih hwf (hund.noneWoken hv) hz
    exact ⟨v₂, C₂, hwf', hund.trans hund'⟩

/-- An operation of the inbox. -/
theorem WF.applyOp (h : s.WF v C) (hv : v.NoneWoken) (op : ResOp)
    (hz : (s.applyOp env op).Spared strict) :
    ∃ v' C', (s.applyOp env op).WF v' C' ∧ Undisturbed strict v v' s (s.applyOp env op) := by
  have hop : ({ s with applied := op :: s.applied } : Loop ω).WF v C := ⟨h.located, h.marked⟩
  unfold Loop.applyOp at hz ⊢
  dsimp only at hz ⊢
  cases hk : op.kind with
  | release =>
    rw [hk] at hz
    obtain ⟨v', hwf, hund⟩ := hop.release op.id hz
    exact ⟨v', C, hwf, hund.after rfl rfl⟩
  | _ =>
    rw [hk] at hz
    obtain ⟨v', C', hwf, hund⟩ := hop.publish (hv op.id) op.payload op.cleanup hz
    exact ⟨v', C', hwf, hund.after rfl rfl⟩

end Loop

end CurlLoop
