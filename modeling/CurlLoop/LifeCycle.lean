import CurlLoop.InjectedList
import CurlLoop.SinkReports

/-!
# The life of a request

What a user sees of a request is a sequence of callbacks, and the sequence follows a protocol. A
request that was submitted is `fresh`. When it is started it is `active`, and while it is active the
next thing that happens to it is that it is told how the attempt ended; then it is `resting` until it
is started again. A request that waits for a resource may be told that the resource failed, but only
if it was never started, and that is the last that is heard of it. A request that was injected is told
that it is complete, once, and is never started.

`Manner.Life` is this protocol, as an automaton that reads the events about one request. The loop
follows it: in every run the story of every request is read by the automaton, and the phase it ends in
says where the loop keeps the request, if it still owns it. A request that is resting or active is in
one of the maps, so whoever is pending or waits for a resource was never started and never told
anything.

The steps that matter are the rounds of the passes and the publication of a failure. A round about
another request leaves the story, the manner and the maps of a request alone (`Keeps`), and the round
about the request itself moves it along one edge of the automaton. To see that a publication reaches
only fresh requests it is enough to know that whoever waits for a resource is in no map; to see that
only injected requests are told that they are complete without having been started, that only they
are on the injected list.

This file is about the protocol and the calls of a user. The passes are treated in
`CurlLoop.LifePasses`.

## Main definitions

* `Phase`, `Manner.Life` — the protocol
* `Phase.Stands` — where the loop keeps a request of a phase
* `Loop.Lives` — the story of a request follows the protocol
* `Loop.Conforms`, `Loop.Lawful` — the invariant, of a request and of the loop

## Main results

* `Life.balanced` — how often a request is told of an attempt
* `Lawful.publish`, `Lawful.calls` — the calls of a user
-/

namespace CurlLoop

open Function (update)

/-! ### The protocol -/

/-- What the protocol depends on: the callbacks that are set, and whether the request was injected. -/
structure Manner where
  onComplete : Bool
  onFailure : Bool
  onRetry : Option RetryPolicy
  isInjected : Bool
deriving DecidableEq, Repr

/-- The manner of a request with these terms. -/
def Terms.manner (q : Terms) : Manner := ⟨q.onComplete, q.onFailure, q.onRetry, q.isInjected⟩

/-- How far a request has come. -/
inductive Phase
  /-- Nothing has happened to it. -/
  | fresh
  /-- It has a transfer. -/
  | active
  /-- Its last attempt has ended, and it may be started again. -/
  | resting
  /-- It was told without having been started. -/
  | dismissed
deriving DecidableEq, Repr

/-- **The protocol.** The events about a request, last to first, and the phase they lead to. -/
inductive Manner.Life (q : Manner) (r : ReqId) : List Event → Phase → Prop
  | fresh : Life q r [] .fresh
  | started {es : List Event} {ph : Phase} : Life q r es ph → ph = .fresh ∨ ph = .resting →
    q.isInjected = false → Life q r (.started r :: es) .active
  | completed {es : List Event} : q.onComplete = true → Life q r es .active →
    Life q r (.onComplete r :: es) .resting
  /-- The attempt succeeds, and `on_complete` is `NULL`. -/
  | uncalled {es : List Event} : q.onComplete = false → Life q r es .active →
    Life q r (.nullCall r :: es) .resting
  | failed {es : List Event} {code : CurlCode} {httpCode : ℤ} : q.onFailure = true →
    ¬ (code = .ok ∧ httpCode = 200) → Life q r es .active →
    Life q r (.onFailure r code httpCode :: es) .resting
  /-- The attempt fails, and there is no `on_failure`. -/
  | unheard {es : List Event} : q.onFailure = false → Life q r es .active → Life q r es .resting
  /-- It is to be tried again, and `on_retry` is `NULL`. -/
  | unretried {es : List Event} : q.onRetry = none → Life q r es .resting →
    Life q r (.nullCall r :: es) .resting
  /-- A resource it waits for has failed. -/
  | aborted : q.onFailure = true → q.isInjected = false →
    Life q r [.onFailure r .abortedByCallback 0] .dismissed
  /-- It was injected. -/
  | told : q.onComplete = true → q.isInjected = true → Life q r [.onComplete r] .dismissed

namespace Manner.Life

variable {q : Manner} {r : ReqId} {es : List Event} {ph : Phase}

theorem eq_nil (h : q.Life r es .fresh) : es = [] := by
  cases h
  rfl

/-- An injected request is told that it is complete, and that is all. -/
theorem injected (h : q.Life r es ph) (hq : q.isInjected = true) :
    es = [] ∧ ph = .fresh ∨ es = [.onComplete r] ∧ ph = .dismissed := by
  induction h with
  | fresh => exact .inl ⟨rfl, rfl⟩
  | started _ _ hno => exact absurd (hq.symm.trans hno) (by decide)
  | completed _ _ ih | uncalled _ _ ih | unheard _ _ ih | unretried _ _ ih =>
    exact ih.elim (fun h => nomatch h.2) fun h => nomatch h.2
  | failed _ _ _ ih => exact ih.elim (fun h => nomatch h.2) fun h => nomatch h.2
  | aborted _ hno => exact absurd (hq.symm.trans hno) (by decide)
  | told => exact .inr ⟨rfl, rfl⟩

/-- **Every attempt is reported once**, if both callbacks are set: there is a report for each time the
request was started, less the attempt that is under way. Only a request that was told without
having been started has a report more. -/
theorem balanced (h : q.Life r es ph) (hc : q.onComplete = true) (hf : q.onFailure = true) :
    es.countP Event.isReport + (if ph = .active then 1 else 0) =
      es.count (.started r) + (if ph = .dismissed then 1 else 0) := by
  induction h with
  | fresh => rfl
  | @started es ph _ hph _ ih =>
    rw [List.countP_cons_of_neg (by simp [Event.isReport]), List.count_cons_self]
    rcases hph with rfl | rfl <;> simpa using ih
  | completed _ _ ih =>
    rw [List.countP_cons_of_pos (by simp [Event.isReport]), List.count_cons_of_ne (by simp)]
    simpa using ih
  | uncalled hno => exact absurd (hc.symm.trans hno) (by decide)
  | failed _ _ _ ih =>
    rw [List.countP_cons_of_pos (by simp [Event.isReport]), List.count_cons_of_ne (by simp)]
    simpa using ih
  | unheard hno => exact absurd (hf.symm.trans hno) (by decide)
  | unretried _ _ ih =>
    rw [List.countP_cons_of_neg (by simp [Event.isReport]), List.count_cons_of_ne (by simp)]
    exact ih
  | aborted => rfl
  | told => rfl

end Manner.Life

variable {ω : Type}

/-- Where the loop keeps a request of a phase, if it owns it. -/
def Phase.Stands : Phase → Loop ω → ReqId → Prop
  | .fresh, s, r => r ∉ s.maps .queued
  | .active, s, r => r ∈ s.maps .queued
  | .resting, s, r => ∃ m, m ≠ .queued ∧ r ∈ s.maps m
  | .dismissed, _, _ => False

/-- Who is on the injected list, or on the list that was detached from it. -/
def View.injectees (v : View) : List ReqId := v .injected ++ v (.detached .injected)

namespace Loop

variable {s t u : Loop ω} {v v' : View} {C C' l root A A' D : List ReqId} {b r : ReqId} {m : MapId}
  {env : Env ω} {strict : Prop} {busy busy' : ReqId → Prop} {p p' : List ReqId × Loop ω}

/-! ### Where a request stands -/

/-- The story of a request follows the protocol, and the request stands where its phase says. -/
def Lives (s : Loop ω) (r : ReqId) : Prop :=
  ∃ ph, (s.req r).terms.manner.Life r (s.story r) ph ∧ (s.Live r → ph.Stands s r)

/-- The invariant of a request, where those on the injected list, or detached from it, are `A`, and
nothing is said of where the busy ones are. -/
structure Conforms (busy : ReqId → Prop) (A : List ReqId) (s : Loop ω) (b : ReqId) : Prop where
  fresh : b ∉ s.accepted → s.story b = []
  lives : ¬ busy b → s.Lives b
  injectees : s.Live b → ¬ busy b → ((s.req b).isInjected = true ↔ b ∈ A)

/-- Nothing happens to a request that its life depends on. -/
structure Keeps (b : ReqId) (s t : Loop ω) : Prop where
  accepted : b ∈ t.accepted ↔ b ∈ s.accepted
  destroyed : b ∈ s.destroyed → b ∈ t.destroyed
  manner : (t.req b).terms.manner = (s.req b).terms.manner
  story : t.story b = s.story b
  maps : ∀ m, b ∈ t.maps m ↔ b ∈ s.maps m

theorem Keeps.refl (b : ReqId) (s : Loop ω) : Keeps b s s := ⟨.rfl, id, rfl, rfl, fun _ => .rfl⟩

theorem Keeps.trans (h : Keeps b s t) (h' : Keeps b t u) : Keeps b s u :=
  ⟨h'.accepted.trans h.accepted, fun hb => h'.destroyed (h.destroyed hb), h'.manner.trans h.manner,
    h'.story.trans h.story, fun m => (h'.maps m).trans (h.maps m)⟩

/-- The row of the request stays but for the mark, and so do its maps. -/
theorem Keeps.of_row (hrow : (t.row b).unmarked = (s.row b).unmarked)
    (hmaps : ∀ m, b ∈ t.maps m ↔ b ∈ s.maps m) : Keeps b s t := by
  obtain ⟨haccepted, hdestroyed, -, -, hstory⟩ := Row.mk.inj hrow
  have hdestroyed' : (b ∈ t.destroyed) = (b ∈ s.destroyed) := hdestroyed
  refine ⟨iff_of_eq haccepted, hdestroyed'.mpr, ?_, hstory, hmaps⟩
  exact congrArg (fun w : Row => w.terms.manner) hrow

/-- A step about another request. -/
theorem Keeps.of_beside (hrow : Beside r s t) (hpass : PassesBy b s t) (hb : b ≠ r) : Keeps b s t :=
  .of_row (congrArg Row.unmarked (hrow b hb)) hpass.maps

theorem Keeps.live (h : Keeps b s t) (hb : t.Live b) : s.Live b :=
  ⟨h.accepted.mp hb.1, fun hd => hb.2 (h.destroyed hd)⟩

theorem Keeps.stands {ph : Phase} (hk : Keeps b s t) (h : ph.Stands s b) : ph.Stands t b := by
  cases ph with
  | fresh => exact fun hb => h ((hk.maps .queued).mp hb)
  | active => exact (hk.maps .queued).mpr h
  | resting =>
    obtain ⟨m, hm, hb⟩ := h
    exact ⟨m, hm, (hk.maps m).mpr hb⟩
  | dismissed => exact h

theorem Lives.keeps (h : s.Lives b) (hk : Keeps b s t) : t.Lives b := by
  obtain ⟨ph, hlife, hstands⟩ := h
  refine ⟨ph, ?_, fun hb => hk.stands (hstands (hk.live hb))⟩
  rw [hk.manner, hk.story]
  exact hlife

/-- **Frame.** -/
theorem Conforms.keeps (h : Conforms busy A s b) (hk : Keeps b s t) (hA : b ∈ A' ↔ b ∈ A) :
    Conforms busy A' t b := by
  refine ⟨fun hb => ?_, fun hb => (h.lives hb).keeps hk, fun hlive hb => ?_⟩
  · rw [hk.story]
    exact h.fresh fun hs => hb (hk.accepted.mpr hs)
  · have hinj : (t.req b).isInjected = (s.req b).isInjected := congrArg Manner.isInjected hk.manner
    rw [hinj, hA]
    exact h.injectees (hk.live hlive) hb

/-- Nothing is said of who becomes busy. -/
theorem Conforms.mono (h : Conforms busy A s b) (hbusy : busy b → busy' b) :
    Conforms busy' A s b :=
  ⟨h.fresh, fun hb => h.lives fun hb' => hb (hbusy hb'),
    fun hlive hb => h.injectees hlive fun hb' => hb (hbusy hb')⟩

/-- Of a busy request nothing is said. -/
theorem Conforms.of_busy (hr : r ∈ s.accepted) (hb : busy r) : Conforms busy A s r :=
  ⟨fun h => absurd hr h, fun h => absurd hb h, fun _ h => absurd hb h⟩

/-- A request that is gone has lived. -/
theorem Conforms.of_destroyed (hr : r ∈ s.accepted) (hd : r ∈ s.destroyed) (hlives : s.Lives r) :
    Conforms busy A s r :=
  ⟨fun h => absurd hr h, fun _ => hlives, fun h => absurd hd h.2⟩

/-- A request that is in no map has not been started. -/
theorem Lives.fresh (h : s.Lives r) (hr : s.Live r) (hmaps : ∀ m, r ∉ s.maps m) : s.story r = [] := by
  obtain ⟨ph, hlife, hstands⟩ := h
  have hwhere := hstands hr
  cases ph with
  | fresh => exact hlife.eq_nil
  | active => exact absurd hwhere (hmaps _)
  | resting =>
    obtain ⟨m, -, hm⟩ := hwhere
    exact absurd hm (hmaps m)
  | dismissed => exact hwhere.elim

/-- Nothing has happened to the request, and it is not active. -/
theorem Lives.of_nil (hstory : s.story r = []) (hr : r ∉ s.maps .queued) : s.Lives r := by
  refine ⟨.fresh, ?_, fun _ => hr⟩
  rw [hstory]
  exact .fresh

/-- The request is gone, and its story was a life. -/
theorem Lives.of_destroyed (ph : Phase) (hlife : (s.req r).terms.manner.Life r (s.story r) ph)
    (hr : r ∈ s.destroyed) : s.Lives r := ⟨ph, hlife, fun hlive => absurd hr hlive.2⟩

/-- A request that is destroyed has lived. -/
theorem Lives.destroy (h : s.Lives r) : (s.curlEventRequestDestroy r).Lives r := by
  obtain ⟨ph, hlife, -⟩ := h
  refine .of_destroyed ph ?_ List.mem_cons_self
  rw [terms_destroy]
  exact hlife

/-- The loop is well formed, those who are busy are in hand, and every request conforms. -/
structure Lawful (busy : ReqId → Prop) (s : Loop ω) (v : View) (C : List ReqId) : Prop where
  wf : s.WF v C
  holds : v.Holds busy
  conforms : ∀ b, Conforms busy v.injectees s b

/-- A step about a request that is busy, or conforms afterwards. -/
theorem Lawful.round (h : s.Lawful busy v C) (hwf : t.WF v' C') (hhand : v' .hand = v .hand)
    (hinjectees : v'.injectees = v.injectees) (hkeep : ∀ b, b ≠ r → Keeps b s t)
    (hr : Conforms busy v.injectees t r) : t.Lawful busy v' C' := by
  refine ⟨hwf, fun b hb => hhand ▸ h.holds b hb, fun b => ?_⟩
  rw [hinjectees]
  rcases eq_or_ne b r with rfl | hb
  · exact hr
  · exact (h.conforms b).keeps (hkeep b hb) .rfl

/-- A step that nobody notices. -/
theorem Lawful.keep (h : s.Lawful busy v C) (hwf : t.WF v' C') (hhand : v' .hand = v .hand)
    (hinjectees : v'.injectees = v.injectees) (hkeep : ∀ b, Keeps b s t) : t.Lawful busy v' C' := by
  refine ⟨hwf, fun b hb => hhand ▸ h.holds b hb, fun b => ?_⟩
  rw [hinjectees]
  exact (h.conforms b).keeps (hkeep b) .rfl

/-- The first request of a detached list is taken up. -/
theorem Lawful.takeUp (h : s.Lawful busy v C) {q : Place} (hp : v (.detached q) = r :: l) :
    s.Lawful (fun b => busy b ∨ b = r)
      (update (update v (.detached q) l) .hand (r :: v .hand)) C := by
  refine ⟨h.wf.takeUp hp, h.holds.takeUp q l r, fun b => ?_⟩
  by_cases hb : b = r
  · subst hb
    exact .of_busy (h.wf.located.accepted_of_mem (p := .detached q) (hp ▸ List.mem_cons_self)) (.inr rfl)
  · have hsame : b ∈ View.injectees (update (update v (.detached q) l) .hand (r :: v .hand)) ↔
        b ∈ v.injectees := by
      rw [View.injectees, View.injectees, Function.update_of_ne (by simp),
        Function.update_of_ne (by simp),
        Function.update_of_ne (by simp), List.mem_append, List.mem_append]
      rcases eq_or_ne q .injected with rfl | hq
      · rw [Function.update_self, hp, List.mem_cons, or_iff_right hb]
      · rw [Function.update_of_ne (by simpa using hq.symm)]
    exact ((h.conforms b).keeps (.refl b s) hsame).mono .inl

/-- The request that was taken up is put down. -/
theorem Lawful.putDown (h : s.Lawful (fun b => busy b ∨ b = r) v C) (hwf : t.WF v' C')
    (hholds : v'.Holds busy) (hinjectees : v'.injectees = v.injectees)
    (hkeep : ∀ b, b ≠ r → Keeps b s t)
    (hr : Conforms busy v'.injectees t r) : t.Lawful busy v' C' := by
  refine ⟨hwf, hholds, fun b => ?_⟩
  rcases eq_or_ne b r with rfl | hb
  · exact hr
  · exact ((h.conforms b).keeps (hkeep b hb) (by rw [hinjectees])).mono fun h => h.resolve_right hb

/-! ### Calls -/

theorem keeps_destroy (s : Loop ω) (hb : b ≠ r) : Keeps b s (s.curlEventRequestDestroy r) :=
  .of_beside (beside_destroy s r) (passesBy_destroy s hb) hb

/-- A call that is safe from any thread, and a request that was there before. -/
theorem keeps_apiCall (env : Env ω) (s : Loop ω) (c : ApiCall) (hb : b ∈ s.accepted)
    (hz : .resubmitted b ∉ (s.apiCall env c).hazards) : Keeps b s (s.apiCall env c) := by
  have hev := evolves_apiCall env s c
  refine ⟨iff_of_true (hev.accepted.subset hb) hb, fun hd => hev.destroyed.subset hd, ?_, ?_, fun m => ?_⟩
  · exact proj_apiCall (g := fun q => q.terms.manner) (fun _ => rfl) env s c hb hz
  · rw [story, trace_apiCall, ← story]
  · rw [(sameMaps_apiCall env s c).maps]

/-- A request that is handed to the loop is injected if it comes in so. -/
theorem isInjected_apiCall (c : ApiCall) (hb : b ∉ s.accepted) (hq : (s.req b).isInjected = false)
    (hin : b ∈ (s.apiCall env c).accepted) :
    ((s.apiCall env c).req b).isInjected = true ↔ b ∈ injects c := by
  have hpush : ∀ (r : ReqId) (f : Request → Request) (w : ω), (f (s.req r)).isInjected =
      (s.req r).isInjected → b ∈ r :: s.accepted →
      ((((({ s with world := w } : Loop ω).modifyReq r f).pushPending r).req b).isInjected = true ↔
        b ∈ ([] : List ReqId)) := by
    intro r f w hf hmem
    obtain rfl := (List.mem_cons.mp hmem).resolve_right hb
    refine iff_of_false (fun htrue => ?_) List.not_mem_nil
    have hsame := congrArg Terms.isInjected (terms_pushPending s b w f)
    exact Bool.false_ne_true (hq.symm.trans (hf.symm.trans (hsame.symm.trans htrue)))
  cases c with
  | submit r priority =>
    rw [Loop.apiCall, curlEventRequestSubmit] at hin ⊢
    dsimp only at hin ⊢
    split at hin
    · exact absurd hin hb
    · split at hin
      · exact absurd hin hb
      · rename_i hurl hbusy
        rw [if_neg hurl, if_neg hbusy]
        exact hpush r _ _ rfl hin
  | loopSubmit r priority => exact hpush r _ _ rfl hin
  | inject w r =>
    obtain rfl := (List.mem_cons.mp hin).resolve_right hb
    refine iff_of_true ?_ List.mem_cons_self
    change (update s.req b (s.req r).injected b).isInjected = true
    rw [Function.update_self]
    rfl
  | cancel r =>
    have hsame : (s.curlEventLoopCancel r).2.accepted = s.accepted := by
      rw [curlEventLoopCancel]
      dsimp only
      split
      · rfl
      · split <;> rfl
    exact absurd (hsame ▸ hin) hb
  | registerAsync | publishAsync | releaseAsync => exact absurd hin hb

/-- Whether the injected list was detached or not. -/
theorem Undisturbed.injectees (h : Undisturbed strict v v' s t)
    (hl : v' .injected = l ++ v .injected) :
    v'.injectees = l ++ v.injectees := by
  rw [View.injectees, View.injectees, hl, h.detached .injected (.inr (by simp)), List.append_assoc]

/-- **A call** that is safe from any thread. -/
theorem Lawful.apiCall (h : s.Lawful busy v C) (c : ApiCall) (hz : (s.apiCall env c).Spared strict) :
    ∃ v' C', (s.apiCall env c).Lawful busy v' C' ∧
      Undisturbed strict v v' s (s.apiCall env c) := by
  obtain ⟨v', C', hwf, hund⟩ := h.wf.apiCall c hz
  refine ⟨v', C', ⟨hwf, h.holds.undisturbed hund, fun b => ?_⟩, hund⟩
  rw [hund.injectees (h.wf.injected_apiCall c hz hwf)]
  by_cases hb : b ∈ s.accepted
  · have hk := keeps_apiCall env s c hb (hz.notMem (by simp))
    refine (h.conforms b).keeps hk ?_
    have hold : b ∉ injects c := by
      intro hmem
      cases c with
      | inject w r =>
        obtain rfl := List.mem_singleton.mp hmem
        exact notMem_of_inject hz hb
      | _ => exact absurd hmem List.not_mem_nil
    rw [List.mem_append, or_iff_right hold]
  · have hstory : (s.apiCall env c).story b = [] := by
      rw [story, trace_apiCall, ← story]
      exact (h.conforms b).fresh hb
    have hmap : b ∉ (s.apiCall env c).maps .queued := by
      rw [(sameMaps_apiCall env s c).maps]
      exact h.wf.notMem_map_of_fresh hb _
    refine ⟨fun _ => hstory, fun _ => .of_nil hstory hmap, fun hlive _ => ?_⟩
    rw [isInjected_apiCall c hb (h.wf.located.unsubmitted b hb).isInjected hlive.1, List.mem_append]
    refine (or_iff_left fun hmem => hb ?_).symm
    obtain hmem | hmem := List.mem_append.mp hmem <;> exact h.wf.located.accepted_of_mem hmem

theorem Lawful.apiCalls (h : s.Lawful busy v C) (cs : List ApiCall)
    (hz : (s.apiCalls env cs).Spared strict) : ∃ v' C', (s.apiCalls env cs).Lawful busy v' C' ∧
      Undisturbed strict v v' s (s.apiCalls env cs) := by
  induction cs generalizing s v C with
  | nil => exact ⟨v, C, h, .refl v s⟩
  | cons c cs ih =>
    have hmono := (evolves_foldl (fun s c => evolves_apiCall env s c) cs (s.apiCall env c)).spared hz
    obtain ⟨v₁, C₁, hlaw, hund⟩ := h.apiCall c hmono
    obtain ⟨v₂, C₂, hlaw', hund'⟩ := ih hlaw hz
    exact ⟨v₂, C₂, hlaw', hund.trans hund'⟩

/-! ### Publications -/

theorem Handled.injectees {q : Place} (h : Handled strict q r l v v' s t) (hq : q ≠ .injected)
    (hl : v' .injected = v .injected) : v'.injectees = v.injectees := by
  rw [View.injectees, View.injectees, hl, h.detached .injected (.inr (by simp)),
    Function.update_of_ne (by simpa using hq.symm)]

/-- Who is in no map and on no injected list has not been started, and was not injected. -/
theorem Lawful.idle (h : s.Lawful busy v C) {q : Place} (hr : r ∈ v q) (hmap : ∀ m, q ≠ .map m)
    (hhand : q ≠ .hand) (hinjectees : q ≠ .injected ∧ q ≠ .detached .injected) :
    s.story r = [] ∧ (s.req r).isInjected = false := by
  have hlive := h.wf.located.live_of_mem hr
  have hidle : ¬ busy r := fun hb => hhand (h.wf.located.placed.inj hr (h.holds r hb))
  refine ⟨((h.conforms r).lives hidle).fresh hlive fun m => h.wf.notMem_map hr (hmap m), ?_⟩
  refine Bool.eq_false_iff.mpr fun htrue => ?_
  rcases List.mem_append.mp (((h.conforms r).injectees hlive hidle).mp htrue) with hmem | hmem
  · exact hinjectees.1 (h.wf.located.placed.inj hr hmem)
  · exact hinjectees.2 (h.wf.located.placed.inj hr hmem)

theorem PutDown.injectees (h : PutDown r l v v' s t) (hl : v' .injected = v .injected) :
    v'.injectees = v.injectees := by
  rw [View.injectees, View.injectees, hl, h.detached]

/-- The callback of a request whose resource has failed. -/
theorem life_callOnAborted (env : Env ω) (hstory : s.story r = [])
    (hinj : (s.req r).isInjected = false) : ∃ ph,
    (s.req r).terms.manner.Life r ((s.callOnAborted env r).2.story r) ph := by
  rw [callOnAborted]
  split
  · rename_i hset
    have htold : (s.emit (.onFailure r .abortedByCallback 0)).story r =
        .onFailure r .abortedByCallback 0 :: s.story r := (story_emit ..).trans (if_pos rfl)
    rw [hstory] at htold
    refine ⟨.dismissed, ?_⟩
    change Manner.Life _ r ((s.emit (.onFailure r .abortedByCallback 0)).story r) _
    rw [htold]
    exact .aborted hset hinj
  · refine ⟨.fresh, ?_⟩
    rw [hstory]
    exact .fresh

theorem keeps_callOnAborted (env : Env ω) (s : Loop ω) (hb : b ≠ r) :
    Keeps b s (s.callOnAborted env r).2 := by
  refine .of_row (congrArg Row.unmarked (beside_callOnAborted env s r b hb)) fun m => ?_
  obtain ⟨w, tr, heq⟩ := callOnAborted_eq env s r
  rw [heq]

/-- **One of the requests a publication finds waiting.** If the publication is of a failure, it is told
of it and is gone. -/
theorem Lawful.wakeOrFail {id : ResId} {failed : Bool} (h : s.Lawful busy v C)
    (hp : v (.detached (.blocked id)) = r :: l) (hz : (s.wakeOrFail env failed r).Spared strict) :
    ∃ v' C', (s.wakeOrFail env failed r).Lawful busy v' C' ∧
      Handled strict (.blocked id) r l v v' s (s.wakeOrFail env failed r) := by
  have hr : r ∈ v (.detached (.blocked id)) := hp ▸ List.mem_cons_self
  obtain ⟨hstory, hinj⟩ := h.idle hr (by simp) (by simp) (by simp)
  have hhand : update (update v (.detached (.blocked id)) l) .hand (r :: v .hand) .hand =
      r :: v .hand := Function.update_self ..
  have hunlink : ∀ b, Keeps b s (s.setNextPending r none) := fun b => .of_row rfl fun _ => .rfl
  have htaken := (h.takeUp hp).keep
    ((h.takeUp hp).wf.setNextPending_hand (hhand ▸ List.mem_cons_self) none) rfl rfl hunlink
  have htouch := touched_setNextPending s r none
  rw [Loop.wakeOrFail] at hz ⊢
  dsimp only at hz ⊢
  split
  · rename_i hfailed
    rw [if_pos hfailed] at hz
    obtain ⟨w, tr, heq⟩ := callOnAborted_eq env (s.setNextPending r none) r
    have hcalled : ({ s.setNextPending r none with world := w, trace := tr } : Loop ω).WF _ C :=
      ⟨htaken.wf.located, htaken.wf.marked⟩
    have hlife := life_callOnAborted env (s := s.setNextPending r none) hstory hinj
    have htold : ∀ b, b ≠ r → Keeps b (s.setNextPending r none)
        ((s.setNextPending r none).callOnAborted env r).2 := fun b hb => keeps_callOnAborted env _ hb
    have hreq : ((s.setNextPending r none).callOnAborted env r).2.req = s.req := by
      rw [heq]
      rfl
    have haccepted : r ∈ ((s.setNextPending r none).callOnAborted env r).2.accepted := by
      rw [heq]
      exact h.wf.located.accepted_of_mem hr
    have htouch' : Touched r s ((s.setNextPending r none).callOnAborted env r).2 := by
      rw [heq]
      exact fun b hb => htouch b hb
    rw [← heq] at hcalled
    generalize ((s.setNextPending r none).callOnAborted env r).1 = calls at hz ⊢
    generalize ((s.setNextPending r none).callOnAborted env r).2 = t
      at hz hcalled hlife htold hreq haccepted htouch' ⊢
    -- while its callback runs, the request is in the hand of the publication
    have hmid := htaken.round hcalled rfl rfl htold (.of_busy haccepted (.inr rfl))
    have hz' := (evolves_destroy (q := False) _ r).spared hz
    obtain ⟨v₁, C₁, hlaw, hund⟩ := hmid.apiCalls calls hz'
    have hrow := (hcalled.errands_apiCalls hmid.holds calls
      (fun _ _ => trivial) hz').unmarked (r := r) (.inr rfl)
    obtain ⟨v₂, hwf, hput⟩ := hlaw.wf.destroy (hund.hand.trans hhand) hz
    refine ⟨v₂, C₁, ?_, .of_putDown h.wf hp htouch' hund hput⟩
    have hin : r ∈ (t.apiCalls env calls).accepted := hlaw.wf.located.accepted_of_mem (p := .hand)
      ((hund.hand.trans hhand) ▸ List.mem_cons_self)
    refine hlaw.putDown hwf (fun b hb => hput.hand ▸ h.holds b hb)
      (hput.injectees (hlaw.wf.injected_eq hwf rfl fun _ _ => rfl)) (fun b hb => keeps_destroy _ hb)
      (.of_destroyed hin List.mem_cons_self ?_)
    obtain ⟨ph, hlife⟩ := hlife
    refine .of_destroyed ph ?_ List.mem_cons_self
    have hmanner : ((t.apiCalls env calls).req r).terms.manner = (t.req r).terms.manner :=
      congrArg (fun w : Row => w.terms.manner) hrow
    have hold : (t.apiCalls env calls).story r = t.story r := congrArg Row.story hrow
    rw [terms_destroy, hmanner, hreq]
    change Manner.Life _ r ((t.apiCalls env calls).story r) ph
    rw [hold]
    exact hlife
  · obtain ⟨v₁, hwf, hput⟩ := htaken.wf.requeue hhand
      (h.wf.located.fits (.detached (.blocked id)) r hr).1
    have hlist : v₁ .injected = v .injected := by
      refine h.wf.injected_eq hwf rfl fun b hb => ?_
      have hbr : b ≠ r := by
        rintro rfl
        exact absurd (h.wf.located.placed.inj hb hr) (by simp)
      exact (Function.update_of_ne hbr ..).trans (Function.update_of_ne hbr ..)
    have hh : Handled strict _ _ _ _ _ _ _ := .of_putDown h.wf hp htouch (.refl _ _) hput
    exact ⟨v₁, C, h.keep hwf hput.hand (hh.injectees (by simp) hlist) fun b =>
      (hunlink b).trans (.of_row rfl fun _ => .rfl), hh⟩

/-- The waiting list of the resource is detached. -/
theorem Lawful.detachBlocked (h : s.Lawful busy v C) {id : ResId}
    (hid : v (.detached (.blocked id)) = []) (payload : Option Payload) (cleanup : Bool) :
    (s.setResources (s.resources.publishPayload id payload cleanup).2).Lawful busy
      (update (update v (.blocked id) []) (.detached (.blocked id)) (v (.blocked id))) C := by
  have hdet : (s.setResources (s.resources.publishPayload id payload cleanup).2).WF
      (update (update v (.blocked id) []) (.detached (.blocked id)) (v (.blocked id))) C :=
    ⟨h.wf.located.detachBlocked hid (Resources.blockedHead_publishPayload s.resources id _ _)
      (Resources.blockedTail_publishPayload s.resources id _ _)
      fun _ hj => Resources.awaited_publishPayload _ _ hj, h.wf.marked⟩
  exact h.keep hdet rfl rfl fun b => .of_row rfl fun _ => .rfl

/-- **Publication.** -/
theorem Lawful.publish (h : s.Lawful busy v C) {id : ResId} (hid : v (.detached (.blocked id)) = [])
    (payload : Option Payload) (cleanup : Bool)
    (hz : (s.curlEventResPublish env id payload cleanup).Spared strict) :
    ∃ v' C', (s.curlEventResPublish env id payload cleanup).Lawful busy v' C' ∧
      Undisturbed strict v v' s (s.curlEventResPublish env id payload cleanup) := by
  have hdet := h.detachBlocked hid payload cleanup
  have hlist : update (update v (.blocked id) []) (.detached (.blocked id)) (v (.blocked id))
      (.detached (.blocked id)) = v (.blocked id) := Function.update_self ..
  have hstart : Undisturbed strict (update v (.detached (.blocked id)) (v (.blocked id)))
      (update (update v (.blocked id) []) (.detached (.blocked id)) (v (.blocked id))) s
      (s.setResources (s.resources.publishPayload id payload cleanup).2) := by
    refine ⟨rfl, fun p _ => ?_, fun _ _ _ _ => rfl, fun _ _ => .refl _⟩
    rw [Function.update_comm (by simp), Function.update_of_ne (by simp)]
  obtain ⟨v', C', hwf, hrest, hund, hholds, hconf⟩ := hdet.wf.forEachHandled (p := .blocked id)
    (f := Loop.wakeOrFail env payload.isNone)
    (P := fun v' t => Undisturbed strict
      (update v (.detached (.blocked id)) (v' (.detached (.blocked id)))) v' s t ∧
      v'.Holds busy ∧ ∀ b, Conforms busy v'.injectees t b) (.inr (by simp))
    (fun r t ht => (evolves_wakeOrFail env payload.isNone r t).spared ht)
    (fun r l v₁ C₁ t ht hp hinv hz => by
      obtain ⟨hund, hholds, hconf⟩ := hinv
      obtain ⟨v₂, C₂, hlaw, hh⟩ := Lawful.wakeOrFail ⟨ht, hholds, hconf⟩ hp hz
      rw [hp] at hund
      refine ⟨v₂, C₂, hlaw.wf, hh, ?_, hlaw.holds, hlaw.conforms⟩
      rw [hh.rest (.inr (by simp))]
      exact hund.handled ht hp hh)
    (a := (s.resources.publishPayload id payload cleanup).1) (by
      rw [hlist, Resources.publishPayload_fst]
      exact h.wf.located.linked.blocked id) (by
      rw [hlist]
      exact ⟨hstart, hdet.holds, hdet.conforms⟩) hz
  rw [hrest, ← hid, Function.update_eq_self] at hund
  exact ⟨v', C', ⟨hwf, hholds, hconf⟩, hund⟩

/-! ### Calls on the loop thread -/

theorem Lawful.release (h : s.Lawful busy v C) (id : ResId)
    (hz : (s.curlEventResRelease id).Spared strict) :
    ∃ v', (s.curlEventResRelease id).Lawful busy v' C ∧
      Undisturbed strict v v' s (s.curlEventResRelease id) := by
  obtain ⟨v', hwf, hund⟩ := h.wf.release id hz
  have hlist := h.wf.injected_eq hwf rfl fun _ _ => rfl
  have hinjectees := hund.injectees (l := []) hlist
  exact ⟨v', h.keep hwf hund.hand hinjectees fun b => .of_row rfl fun _ => .rfl,
    hund⟩

theorem Lawful.call (h : s.Lawful busy v C) (hv : v.NoneWoken) (c : Call)
    (hz : (s.call env c).Spared strict) : ∃ v' C', (s.call env c).Lawful busy v' C' ∧
      Undisturbed strict v v' s (s.call env c) := by
  have hkeep : ∀ store, s.resources.SameWaiters store → ∃ v' C',
      (s.setResources store).Lawful busy v' C' ∧ Undisturbed strict v v' s (s.setResources store) :=
    fun store hstore => ⟨v, C, h.keep (h.wf.setResources hstore) rfl rfl fun b =>
      .of_row rfl fun _ => .rfl, (Undisturbed.refl v _).after rfl rfl⟩
  cases c with
  | api c => exact h.apiCall c hz
  | declare => exact hkeep _ (Resources.sameWaiters_declare s.resources)
  | register payload cleanup =>
    have hdeclare : s.curlEventResDeclare.2.Lawful busy v C :=
      h.keep h.wf.declare rfl rfl fun b => .of_row rfl fun _ => .rfl
    obtain ⟨v', C', hlaw, hund⟩ := hdeclare.publish (hv _) payload cleanup hz
    exact ⟨v', C', hlaw, hund.after rfl rfl⟩
  | publish id payload cleanup => exact h.publish (hv id) payload cleanup hz
  | addref id => exact hkeep _ (Resources.sameWaiters_addref _ id)
  | release id =>
    obtain ⟨v', hlaw, hund⟩ := h.release id hz
    exact ⟨v', C, hlaw, hund⟩
  | autoreleaseOwner id enable => exact hkeep _ (Resources.sameWaiters_autoreleaseOwner _ id enable)

/-- **The calls of a callback.** -/
theorem Lawful.calls (h : s.Lawful busy v C) (hv : v.NoneWoken) (cs : List Call)
    (hz : (s.calls env cs).Spared strict) : ∃ v' C', (s.calls env cs).Lawful busy v' C' ∧
      Undisturbed strict v v' s (s.calls env cs) := by
  induction cs generalizing s v C with
  | nil => exact ⟨v, C, h, .refl v s⟩
  | cons c cs ih =>
    have hmono := (evolves_foldl (fun s c => evolves_call env s c) cs (s.call env c)).spared hz
    obtain ⟨v₁, C₁, hlaw, hund⟩ := h.call hv c hmono
    obtain ⟨v₂, C₂, hlaw', hund'⟩ := ih hlaw (hund.noneWoken hv) hz
    exact ⟨v₂, C₂, hlaw', hund.trans hund'⟩

/-- An operation of the inbox. -/
theorem Lawful.applyOp (h : s.Lawful busy v C) (hv : v.NoneWoken) (op : ResOp)
    (hz : (s.applyOp env op).Spared strict) : ∃ v' C', (s.applyOp env op).Lawful busy v' C' ∧
      Undisturbed strict v v' s (s.applyOp env op) := by
  have hop : ({ s with applied := op :: s.applied } : Loop ω).Lawful busy v C :=
    h.keep ⟨h.wf.located, h.wf.marked⟩ rfl rfl fun b => .of_row rfl fun _ => .rfl
  unfold Loop.applyOp at hz ⊢
  dsimp only at hz ⊢
  cases hk : op.kind with
  | release =>
    rw [hk] at hz
    obtain ⟨v', hlaw, hund⟩ := hop.release op.id hz
    exact ⟨v', C, hlaw, hund.after rfl rfl⟩
  | _ =>
    rw [hk] at hz
    obtain ⟨v', C', hlaw, hund⟩ := hop.publish (hv op.id) op.payload op.cleanup hz
    exact ⟨v', C', hlaw, hund.after rfl rfl⟩

end Loop

end CurlLoop
