import CurlLoop.Teardown

/-!
# What the metrics account for

`total_requests` is raised when a request is submitted, and `completed_requests` when it is finished
with success. A request that is cancelled is destroyed and not counted. `failed_requests` is never
written, so a request that ends in any other way is in no column: its last attempt failed, a
resource it waits for was published with `NULL`, or its handle could not be set up.

The columns are the requests that were submitted: those not destroyed, those finished, and those
cancelled. A request that is injected is in none. What is shown is that every step but those three
keeps the sum right.

## Main definitions

* `Loop.AddsUp` — what is claimed of a state
* `Loop.Spotless` — no step of the action destroys a request that failed
* `Loop.Books` — what the counters are in every state

## Main results

* `addsUp_of_spotless`
* `not_addsUp_after_failure`
-/

namespace CurlLoop

open Function (update)

/-- What never changes about a request: whether it is injected, and whether it is refreshed. -/
def Terms.fixed (q : Terms) : Bool × Bool := (q.isInjected, q.shouldRefresh)

namespace Loop

variable {ω : Type} {s t u : Loop ω} {r b : ReqId} {env : Env ω} {c : ℕ} {held : Option ReqId}

/-! ### What is claimed of a run -/

/-- The request was submitted, and not injected. -/
def submitted (s : Loop ω) (r : ReqId) : Bool := !(s.req r).isInjected

/-- It was not cancelled either. -/
def own (s : Loop ω) (r : ReqId) : Bool := s.submitted r && !(s.req r).isCancelled

/-- How many submitted requests are not destroyed. -/
def outstanding (s : Loop ω) : ℕ :=
  s.accepted.countP fun r => s.submitted r && decide (r ∉ s.destroyed)

/-- How many submitted requests were cancelled and are destroyed. -/
def cancelledGone (s : Loop ω) : ℕ :=
  s.destroyed.countP fun r => s.submitted r && (s.req r).isCancelled

/-- The metrics account for every request. -/
def AddsUp (s : Loop ω) : Prop :=
  s.metrics.totalRequests = s.outstanding + s.metrics.completedRequests +
    s.metrics.failedRequests + s.cancelledGone

/-- Whoever is destroyed on the way was cancelled or injected. -/
def Unspoilt (s t : Loop ω) : Prop := ∀ r ∈ t.destroyed, r ∉ s.destroyed → t.own r = false

/-- The message is of a success of the request. -/
def Succeeds (r : ReqId) (s : Loop ω) (m : Message) : Prop :=
  (∃ a ∈ s.transferOf m, a.priv = r) ∧ Message.success m = true

/-- Whoever is destroyed when a message is read was cancelled or injected, or it is the request of
the message, which succeeded. -/
def UnspoiltBy (env : Env ω) (m : Message) (s : Loop ω) : Prop :=
  ∀ r ∈ (s.completedRound env m).destroyed, r ∉ s.destroyed →
    ((s.completedRound env m).own r = true ↔ s.Succeeds r m)

/-- The action destroys no request that failed. -/
def Spotless (env : Env ω) : Action → Loop ω → Prop
  | .processCompletedRequests msgs, s =>
    Guarded.Allowed (fun m s => s.completedRound env m) (UnspoiltBy env) s msgs ∧
      Unspoilt (msgs.foldl (fun s m => s.completedRound env m) s)
        (s.processCompletedRequests env msgs)
  | a, s => Unspoilt s (act env a s)

/-- The guard of a run: the loop is not destroyed, and resources may be freed while requests wait
for them. -/
def Orderly (env : Env ω) (a : Action) (s : Loop ω) : Prop :=
  a ≠ .destroy ∧ ∀ x ∈ (act env a s).hazards, x.IsAbandoned

instance (s t : Loop ω) : Decidable (Unspoilt s t) :=
  inferInstanceAs (Decidable (∀ r ∈ t.destroyed, r ∉ s.destroyed → t.own r = false))

instance (r : ReqId) (s : Loop ω) (m : Message) : Decidable (Succeeds r s m) :=
  inferInstanceAs (Decidable ((∃ a ∈ s.transferOf m, a.priv = r) ∧ Message.success m = true))

instance (env : Env ω) (m : Message) (s : Loop ω) : Decidable (UnspoiltBy env m s) :=
  inferInstanceAs (Decidable (∀ r ∈ (s.completedRound env m).destroyed, r ∉ s.destroyed →
    ((s.completedRound env m).own r = true ↔ s.Succeeds r m)))

instance (env : Env ω) : ∀ (a : Action) (s : Loop ω), Decidable (Spotless env a s)
  | .processCompletedRequests msgs, s => inferInstanceAs (Decidable
      (Guarded.Allowed (fun m s => Loop.completedRound env s m) (UnspoiltBy env) s msgs ∧
        Unspoilt (msgs.foldl (fun s m => s.completedRound env m) s)
          (s.processCompletedRequests env msgs)))
  | .call c, s => inferInstanceAs (Decidable (Unspoilt s (act env (.call c) s)))
  | .setOwnerThread, s => inferInstanceAs (Decidable (Unspoilt s (act env .setOwnerThread s)))
  | .takeInbox, s => inferInstanceAs (Decidable (Unspoilt s (act env .takeInbox s)))
  | .applyOp op, s => inferInstanceAs (Decidable (Unspoilt s (act env (.applyOp op) s)))
  | .processCancelledAndPendingRequests, s => inferInstanceAs (Decidable
      (Unspoilt s (act env .processCancelledAndPendingRequests s)))
  | .moveInactiveRequestsToQueue, s => inferInstanceAs (Decidable
      (Unspoilt s (act env .moveInactiveRequestsToQueue s)))
  | .calculateNextTimerExpiry, s => inferInstanceAs (Decidable
      (Unspoilt s (act env .calculateNextTimerExpiry s)))
  | .start, s => inferInstanceAs (Decidable (Unspoilt s (act env .start s)))
  | .stop, s => inferInstanceAs (Decidable (Unspoilt s (act env .stop s)))
  | .destroy, s => inferInstanceAs (Decidable (Unspoilt s (act env .destroy s)))

instance (env : Env ω) (a : Action) (s : Loop ω) : Decidable (Orderly env a s) :=
  inferInstanceAs (Decidable (a ≠ .destroy ∧ ∀ x ∈ (act env a s).hazards, x.IsAbandoned))

instance (s : Loop ω) : Decidable s.AddsUp := inferInstanceAs (Decidable (_ = _))

/-! ### The guard -/

theorem Orderly.spared {a : Action} (h : Orderly env a s) : (Loop.act env a s).Spared False :=
  .of_abandoned h.2

theorem Orderly.atRest {a : Action} (h : Orderly env a s) (hs : s.AtRest False) :
    (Loop.act env a s).AtRest False := hs.act h.1 h.spared

/-- The invariant of a run under the guard. -/
theorem atRest_of_orderly (mem : Memory) (world : ω) {as : List Action}
    (has : Guarded.Allowed (act env) (Orderly env) (curlEventLoopInit mem world) as) :
    (Guarded.run (act env) (curlEventLoopInit mem world) as).AtRest False :=
  has.invariant (P := AtRest False) (fun _ _ hs ha => ha.atRest hs)
    (runInvariant_init mem world).atRest

/-! ### Requests that are gone -/

/-- The request was destroyed. -/
structure Gone (r : ReqId) (s : Loop ω) : Prop where
  accepted : r ∈ s.accepted
  destroyed : r ∈ s.destroyed

theorem Gone.of_row (h : Gone r s) (ht : t.row r = s.row r) : Gone r t := by
  obtain ⟨haccepted, hdestroyed, -, -, -⟩ := Row.mk.inj ht
  exact ⟨haccepted ▸ h.accepted, hdestroyed ▸ h.destroyed⟩

theorem Gone.ne_live (h : Gone r s) (hb : s.Live b) : r ≠ b := fun heq => hb.2 (heq ▸ h.destroyed)

theorem Errands.row_gone {calls : ApiCall → Prop} {busy : ReqId → Prop}
    (he : Errands env calls busy s t) (h : Gone r s) : t.row r = s.row r := by
  induction he with
  | refl => rfl
  | calm _ ha ih => exact (ha.row r).trans ih
  | @cancel t b _ hb _ ih => exact (beside_cancel t b r ((h.of_row ih).ne_live hb)).trans ih
  | arrives b _ _ ha _ _ _ _ ih =>
    have hne : r ≠ b := fun heq => ha.fresh (heq ▸ (h.of_row ih).accepted)
    exact (ha.row hne).trans ih

theorem Interlude.row_gone {calls : ApiCall → Prop} (hi : Interlude env calls held s t)
    (h : Gone r s) : t.row r = s.row r := by
  induction hi with
  | refl => rfl
  | errands _ he ih => exact (he.row_gone (h.of_row ih)).trans ih
  | @abort t u b _ ht _ he hu ih =>
    have htold := (beside_callOnAborted env t b r ((h.of_row ih).ne_live ht.live)).trans ih
    have hcalled := (he.row_gone (h.of_row htold)).trans htold
    exact (beside_destroy u b r ((h.of_row hcalled).ne_live hu.live)).trans hcalled

/-- **Nothing happens to a request that is gone.** -/
theorem Path.row_gone {W : Regime ω} (hp : Path env W s t) (h : Gone r s) : t.row r = s.row r := by
  induction hp with
  | refl => rfl
  | interlude _ hi ih => exact (hi.row_gone (h.of_row ih)).trans ih
  | @drop t b _ hb _ _ _ _ ih =>
    exact (beside_cancelledRound t b r ((h.of_row ih).ne_live hb)).trans ih
  | @discard t b _ hb _ ih =>
    exact (beside_destroy t b r ((h.of_row ih).ne_live hb.live)).trans ih
  | @start t b _ hb _ _ ih =>
    exact (beside_start env t b r ((h.of_row ih).ne_live hb.live)).trans ih
  | @complete t u m a _ _ _ hb _ hi _ ih =>
    have hne := (h.of_row ih).ne_live hb
    have hheard := (beside_hear env t m a.priv r hne).trans ih
    exact (beside_settle env u a.priv _ _ _ r hne).trans
      ((hi.row_gone (h.of_row hheard)).trans hheard)
  | @injected t u b _ hb hi _ ih =>
    have hne := (h.of_row ih).ne_live hb.live
    have htold : (if (t.req b).onComplete then (t.tellComplete env b).2.2 else t).row r =
        s.row r := by
      split
      · exact (beside_tellComplete env t b r hne).trans ih
      · exact ih
    exact (beside_destroy u b r hne).trans ((hi.row_gone (h.of_row htold)).trans htold)

/-! ### The books -/

/-- The counters, where a number of requests was finished with success, and no request is
refreshed. -/
structure Books (c : ℕ) (s : Loop ω) : Prop where
  total : s.metrics.totalRequests = s.accepted.countP s.submitted
  completed : s.metrics.completedRequests = c
  failed : s.metrics.failedRequests = 0
  single : ∀ r, (s.req r).shouldRefresh = false
  fresh : ∀ r, r ∉ s.accepted → (s.req r).isInjected = false

/-- Most steps submit and finish no request. -/
theorem Books.of_fixed (h : Books c s)
    (hfixed : ∀ r, (t.req r).terms.fixed = (s.req r).terms.fixed)
    (haccepted : t.accepted = s.accepted)
    (hmetrics : { t.metrics with retriedRequests := 0 } =
      { s.metrics with retriedRequests := 0 }) : Books c t := by
  have hinjected : ∀ r, (t.req r).isInjected = (s.req r).isInjected := fun r =>
    congrArg Prod.fst (hfixed r)
  have hsubmitted : t.submitted = s.submitted := funext fun r => congrArg _ (hinjected r)
  refine ⟨?_, ?_, ?_, fun r => ?_, fun r hr => ?_⟩
  · rw [haccepted, hsubmitted]
    exact (congrArg Metrics.totalRequests hmetrics).trans h.total
  · exact (congrArg Metrics.completedRequests hmetrics).trans h.completed
  · exact (congrArg Metrics.failedRequests hmetrics).trans h.failed
  · exact (congrArg Prod.snd (hfixed r)).trans (h.single r)
  · exact (hinjected r).trans (h.fresh r (haccepted ▸ hr))

/-- A request is written, but for what is fixed. -/
theorem fixed_modifyReq (s : Loop ω) (b : ReqId) {f : Request → Request}
    (hf : (f (s.req b)).terms.fixed = (s.req b).terms.fixed) (r : ReqId) :
    ((s.modifyReq b f).req r).terms.fixed = (s.req r).terms.fixed := by
  rcases eq_or_ne r b with rfl | hr
  · have hreq : (s.modifyReq r f).req r = f (s.req r) := Function.update_self ..
    rw [hreq, hf]
  · have hreq : (s.modifyReq b f).req r = s.req r := Function.update_of_ne hr ..
    rw [hreq]

theorem Books.modifyReq (h : Books c s) (b : ReqId) {f : Request → Request}
    (hf : (f (s.req b)).terms.fixed = (s.req b).terms.fixed) : Books c (s.modifyReq b f) :=
  h.of_fixed (fixed_modifyReq s b hf) rfl rfl

theorem Books.world (h : Books c s) (w : ω) : Books c ({ s with world := w } : Loop ω) :=
  ⟨h.total, h.completed, h.failed, h.single, h.fresh⟩

theorem Books.parkRateLimited (h : Books c s) (b : ReqId) (due : ℕ) :
    Books c (s.parkRateLimited b due) := by
  have hdue : Books c (s.modifyReq b fun q => q.dueAt due) := h.modifyReq b rfl
  exact ⟨hdue.total, hdue.completed, hdue.failed, hdue.single, hdue.fresh⟩

theorem Books.cleanup (h : Books c s) (b : ReqId) : Books c (s.curlEventLoopRequestCleanup b) :=
  h.of_fixed (fixed_modifyReq s b (f := Request.cleaned) rfl) rfl rfl

theorem Books.destroy (h : Books c s) (b : ReqId) : Books c (s.curlEventRequestDestroy b) :=
  h.of_fixed (fun r => congrArg Terms.fixed (terms_destroy s b r)) rfl rfl

theorem Books.cancelledRound (h : Books c s) (b : ReqId) : Books c (s.cancelledRound b) :=
  h.of_fixed (fun r => congrArg Terms.fixed
    (terms_destroy (s.dropFromMap (cancelledMap (s.req b)) b) b r)) rfl rfl

theorem Books.cancel (h : Books c s) (b : ReqId) : Books c (s.curlEventLoopCancel b).2 := by
  refine h.of_fixed (fun r => ?_) ?_ ?_
  · exact congrArg (fun w : Row => w.terms.fixed) (unmarked_cancel s b r)
  all_goals
    rw [curlEventLoopCancel]
    dsimp only
    split
    · rfl
    · split <;> rfl

/-- A request that arrives is counted, unless it is injected. -/
theorem Books.arrives (h : Books c s) (ha : Arrives env b s t) {call : ApiCall}
    (he : Entry b s t call) : Books c t := by
  have haccepted : t.accepted = b :: s.accepted := congrArg Traffic.accepted ha.traffic
  have hsubmitted : ∀ r ∈ s.accepted, t.submitted r = s.submitted r := fun r hr => by
    have hne : r ≠ b := fun heq => ha.fresh (heq ▸ hr)
    rw [submitted, ha.others r hne, submitted]
  have hcount : s.accepted.countP t.submitted = s.accepted.countP s.submitted :=
    List.countP_congr fun r hr => by rw [hsubmitted r hr]
  have hothers : ∀ r, r ∉ t.accepted → (t.req r).isInjected = false := fun r hr => by
    rw [haccepted] at hr
    rw [ha.others r (List.ne_of_not_mem_cons hr)]
    exact h.fresh r (List.not_mem_of_not_mem_cons hr)
  have hsingle : (t.req b).shouldRefresh = false → ∀ r, (t.req r).shouldRefresh = false :=
    fun hb r => by
      rcases eq_or_ne r b with rfl | hne
      · exact hb
      · rw [ha.others r hne]
        exact h.single r
  have hentered : (t.req b).isInjected = false → (t.req b).shouldRefresh = false →
      t.metrics = { s.metrics with totalRequests := s.metrics.totalRequests + 1 } → Books c t := by
    intro hin href hm
    refine ⟨?_, ?_, ?_, hsingle href, hothers⟩
    · rw [haccepted, List.countP_cons_of_pos (by rw [submitted, hin]; rfl), hcount, hm, h.total]
    · rw [hm]
      exact h.completed
    · rw [hm]
      exact h.failed
  cases he with
  | submit priority hm hterms =>
    exact hentered ((congrArg Terms.isInjected hterms).trans (h.fresh b ha.fresh))
      ((congrArg Terms.shouldRefresh hterms).trans (h.single b)) hm
  | loopSubmit priority hm hterms =>
    exact hentered ((congrArg Terms.isInjected hterms).trans (h.fresh b ha.fresh))
      ((congrArg Terms.shouldRefresh hterms).trans (h.single b)) hm
  | inject q hm hterms =>
    have hin : (t.req b).isInjected = true := congrArg Terms.isInjected hterms
    refine ⟨?_, ?_, ?_, hsingle ((congrArg Terms.shouldRefresh hterms).trans (h.single q)),
      hothers⟩
    · rw [haccepted, List.countP_cons_of_neg (by rw [submitted, hin]; decide), hcount, hm, h.total]
    · rw [hm]
      exact h.completed
    · rw [hm]
      exact h.failed

theorem Books.errands {calls : ApiCall → Prop} {busy : ReqId → Prop} (h : Books c s)
    (he : Errands env calls busy s t) : Books c t := by
  induction he with
  | refl => exact h
  | calm _ ha ih =>
    refine ih.of_fixed (fun r => congrArg Terms.fixed (ha.terms r))
      (congrArg Traffic.accepted ha.traffic) ?_
    exact congrArg (fun x : Chronicle => { x.metrics with retriedRequests := 0 }) ha.chronicle
  | cancel b _ _ _ ih => exact ih.cancel b
  | arrives b _ _ ha he _ _ _ ih => exact ih.arrives ha he

theorem Books.interlude {calls : ApiCall → Prop} (h : Books c s)
    (hi : Interlude env calls held s t) : Books c t := by
  induction hi with
  | refl => exact h
  | errands _ he ih => exact ih.errands he
  | @abort t u b _ _ _ he _ ih =>
    obtain ⟨w, tr, heq⟩ := callOnAborted_eq env t b
    rw [heq] at he
    have htold : Books c ({ t with world := w, trace := tr } : Loop ω) :=
      ih.of_fixed (fun _ => rfl) rfl rfl
    exact (htold.errands he).destroy b

theorem Books.newHandle (h : Books c s) (b : ReqId) : Books c (s.newHandle b) := by
  let p : Loop ω := { s with multi := { s.multi with nextEasy := s.multi.nextEasy + 1 } }
  have hp : Books c p := ⟨h.total, h.completed, h.failed, h.single, h.fresh⟩
  have hhandle : Books c (p.modifyReq b fun q => q.withHandle s.multi.nextEasy) :=
    hp.modifyReq b rfl
  exact hhandle

theorem Books.activate (h : Books c s) (b : ReqId) : Books c (s.activate env b) := by
  refine h.of_fixed (fun r => ?_) rfl rfl
  rcases eq_or_ne r b with rfl | hr
  · rw [terms_activate]
  · have hreq : (s.activate env b).req r = s.req r := Function.update_of_ne hr ..
    rw [hreq]

theorem Books.start (h : Books c s) (b : ReqId) : Books c (s.curlEventLoopRequestStart env b) := by
  have hout := start_outcome env s b
  generalize s.curlEventLoopRequestStart env b = t at hout ⊢
  have hreset : ∀ w : ω, Books c (({ s with world := w } : Loop ω).modifyReq b Request.reset) :=
    fun w => (h.world w).modifyReq b rfl
  cases hout with
  | parked w due => exact (h.world w).parkRateLimited b due
  | refused w => exact (hreset w).destroy b
  | active w => exact ((hreset w).newHandle b).activate b

/-- **A completion** is counted if the request is destroyed after a success. -/
theorem Books.complete {calls : ApiCall → Prop} (h : Books c s) {m : Message}
    (hi : Interlude env calls (some r) (s.hear env m r).2.2 u) (hu : u.Aloof r)
    (ht : t = u.settle env r m.httpCode (Message.success m) (s.hear env m r).1) :
    Books (if Message.success m ∧ r ∈ t.destroyed then c + 1 else c) t := by
  obtain ⟨w, tr, heq⟩ := hear_eq env s m r
  rw [heq] at hi
  have hheard : Books c ({ s.pickUp m.easy r with world := w, trace := tr } : Loop ω) :=
    h.of_fixed (fun _ => rfl) rfl rfl
  have hcalled := hheard.interlude hi
  have hlive := hu.live.2
  have hout := settle_outcome env u r m.httpCode (Message.success m) (s.hear env m r).1
  rw [← ht] at hout
  clear ht
  cases hout with
  | parked w due =>
    rw [if_neg fun hx => hlive hx.2]
    exact (hcalled.world w).parkRateLimited r due
  | again w tr n f hf _ hn =>
    rw [if_neg fun hx => hlive hx.2]
    have hn' := hn.resolve_right fun hx => by
      rw [hcalled.single r] at hx
      exact absurd hx.1 (by decide)
    have hnoted : Books c ({ u with world := w, trace := tr, metrics := n } : Loop ω) :=
      hcalled.of_fixed (fun _ => rfl) rfl hn'
    have hfix : (f (u.req r)).terms.fixed = (u.req r).terms.fixed := by
      rw [hf]
      rfl
    have hwritten := (hnoted.modifyReq r (f := f) hfix).cleanup r
    exact ⟨hwritten.total, hwritten.completed, hwritten.failed, hwritten.single, hwritten.fresh⟩
  | ended w tr n f hf _ hn =>
    have hgone : r ∈ ((({ u with world := w, trace := tr, metrics := n } : Loop ω).modifyReq r
      f).curlEventRequestDestroy r).destroyed := List.mem_cons_self
    rw [show (if Message.success m = true ∧ _ then c + 1 else c) =
      if Message.success m then c + 1 else c from if_congr (and_iff_left hgone) rfl rfl]
    have hnoted : Books (if Message.success m then c + 1 else c)
        ({ u with world := w, trace := tr, metrics := n } : Loop ω) := by
      rw [hn, Metrics.finished]
      split
      · exact ⟨hcalled.total, congrArg (· + 1) hcalled.completed, hcalled.failed, hcalled.single,
          hcalled.fresh⟩
      · exact ⟨hcalled.total, hcalled.completed, hcalled.failed, hcalled.single, hcalled.fresh⟩
    exact (hnoted.modifyReq r (f := f) (congrArg Terms.fixed hf)).destroy r

/-- The regime under which no message is read. -/
def unread : Regime ω := ⟨fun _ => True, fun _ => True, fun _ _ => False⟩

theorem Books.path (h : Books c s) (hp : Path env unread s t) : Books c t := by
  induction hp with
  | refl => exact h
  | interlude _ hi ih => exact ih.interlude hi
  | drop b _ _ _ _ _ _ ih => exact ih.cancelledRound b
  | discard b _ _ _ ih => exact ih.destroy b
  | start b _ _ _ _ ih => exact ih.start b
  | complete _ _ _ _ _ _ hw => exact hw.elim
  | @injected t u b _ _ hi _ ih =>
    refine (Books.interlude ?_ hi).destroy b
    split
    · obtain ⟨w, tr, heq⟩ := tellComplete_eq env t b
      rw [heq]
      exact ih.of_fixed (fun _ => rfl) rfl rfl
    · exact ih

/-! ### The sum -/

/-- How many requests are destroyed that were submitted and not cancelled. -/
def spent (s : Loop ω) : ℕ := s.destroyed.countP s.own

/-- The books are settled if whoever is spent was finished with success. -/
structure Reconciled (s : Loop ω) : Prop where
  atRest : s.AtRest False
  books : Books s.spent s

/-- A list is counted in two parts. -/
theorem countP_and_not {l : List ReqId} (p q : ReqId → Bool) :
    l.countP p = (l.countP fun r => p r && q r) + l.countP fun r => p r && !q r := by
  induction l with
  | nil => rfl
  | cons r l ih =>
    rw [List.countP_cons, List.countP_cons, List.countP_cons, ih]
    cases p r <;> cases q r <;> simp <;> omega

theorem Reconciled.addsUp (h : s.Reconciled) : s.AddsUp := by
  obtain ⟨v, C, hwf, -⟩ := h.atRest
  have hloc := hwf.located
  have hgone : (s.accepted.filter fun r => decide (r ∈ s.destroyed)).Perm s.destroyed := by
    refine (List.perm_ext_iff_of_nodup (hloc.accepted_nodup.filter _) hloc.destroyed_nodup).mpr
      fun r => ?_
    rw [List.mem_filter, decide_eq_true_iff]
    exact and_iff_right_of_imp fun hr => hloc.destroyed_subset hr
  have hsplit := countP_and_not (l := s.accepted) s.submitted fun r => decide (r ∈ s.destroyed)
  have hdestroyed : (s.accepted.countP fun r => s.submitted r && decide (r ∈ s.destroyed)) =
      s.destroyed.countP s.submitted := by
    rw [← hgone.countP_eq, List.countP_filter]
  have hout : (s.accepted.countP fun r => s.submitted r && !decide (r ∈ s.destroyed)) =
      s.outstanding := by
    rw [outstanding]
    exact List.countP_congr fun r _ => by simp
  have hcancelled := countP_and_not (l := s.destroyed) s.submitted fun r => (s.req r).isCancelled
  have hspent : s.spent = s.destroyed.countP fun r => s.submitted r && !(s.req r).isCancelled := rfl
  rw [AddsUp, h.books.total, h.books.completed, h.books.failed, hsplit, hdestroyed, hout,
    cancelledGone, hcancelled, hspent]
  omega

/-- What was spent before a step stays spent. -/
theorem spent_of_gone (hs : s.destroyed.Nodup) (ht : t.destroyed.Nodup)
    (hgone : ∀ r ∈ s.destroyed, t.row r = s.row r) :
    ∃ l : List ReqId, l.Nodup ∧ (∀ r, r ∈ l ↔ r ∈ t.destroyed ∧ r ∉ s.destroyed) ∧
      t.spent = l.countP t.own + s.spent := by
  have hstays : ∀ r ∈ s.destroyed, r ∈ t.destroyed := fun r hr => by
    obtain ⟨-, hdestroyed, -, -, -⟩ := Row.mk.inj (hgone r hr)
    exact hdestroyed ▸ hr
  have hperm : (t.destroyed.filter fun r => decide (r ∈ s.destroyed)).Perm s.destroyed := by
    refine (List.perm_ext_iff_of_nodup (ht.filter _) hs).mpr fun r => ?_
    rw [List.mem_filter, decide_eq_true_iff]
    exact and_iff_right_of_imp (hstays r)
  have hold : (t.destroyed.countP fun r => t.own r && decide (r ∈ s.destroyed)) = s.spent := by
    rw [← List.countP_filter, hperm.countP_eq, spent]
    refine List.countP_congr fun r hr => ?_
    have hterms := congrArg Row.terms (hgone r hr)
    have hinjected : (t.req r).isInjected = (s.req r).isInjected :=
      congrArg Terms.isInjected hterms
    have hcancelled : (t.req r).isCancelled = (s.req r).isCancelled :=
      congrArg Terms.isCancelled hterms
    rw [own, own, submitted, submitted, hinjected, hcancelled]
  refine ⟨t.destroyed.filter fun r => !decide (r ∈ s.destroyed), ht.filter _, fun r => ?_, ?_⟩
  · simp [List.mem_filter]
  · rw [List.countP_filter, ← hold, Nat.add_comm]
    exact countP_and_not (l := t.destroyed) t.own fun r => decide (r ∈ s.destroyed)

/-- A step that reads no message and destroys no request that failed. -/
theorem Reconciled.path (h : s.Reconciled) (ht : t.AtRest False) (hp : Path env unread s t)
    (hclean : Unspoilt s t) : t.Reconciled := by
  obtain ⟨v, C, hwf, -⟩ := h.atRest
  have ht' := ht
  obtain ⟨v', C', hwf', -⟩ := ht'
  obtain ⟨l, -, hl, hspent⟩ := spent_of_gone hwf.located.destroyed_nodup
    hwf'.located.destroyed_nodup fun r hr =>
      hp.row_gone ⟨hwf.located.destroyed_subset hr, hr⟩
  have hzero : l.countP t.own = 0 := List.countP_eq_zero.mpr fun r hr hown => by
    obtain ⟨hnew, hold⟩ := (hl r).mp hr
    rw [hclean r hnew hold] at hown
    exact absurd hown (by decide)
  refine ⟨ht, ?_⟩
  rw [hspent, hzero, Nat.zero_add]
  exact h.books.path hp

/-- **A message** that is of a success, or whose request is not destroyed. -/
theorem Reconciled.completedRound (h : s.Reconciled) {m : Message}
    (hz : (s.completedRound env m).Spared False) (hclean : UnspoiltBy env m s) :
    (s.completedRound env m).Reconciled := by
  have ht := h.atRest.completedRound m hz
  have hpath : Path env ⟨fun _ => True, fun _ => True, fun _ _ => True⟩ s (s.completedRound env m) :=
    h.atRest.path_completedRound env.makes_anything trivial hz
  cases ha : s.transferOf m with
  | none =>
    rw [Loop.completedRound, ha]
    exact h
  | some a =>
    obtain ⟨-, hlive, u, hi, hu, heq⟩ :=
      h.atRest.completedRound_eq env.makes_anything ha hz
    have hbooks := h.books.complete hi hu heq
    obtain ⟨v, C, hwf, -⟩ := h.atRest
    obtain ⟨v', C', hwf', hv'⟩ := ht
    obtain ⟨l, hnodup, hl, hspent⟩ := spent_of_gone hwf.located.destroyed_nodup
      hwf'.located.destroyed_nodup fun r hr =>
        hpath.row_gone ⟨hwf.located.destroyed_subset hr, hr⟩
    -- among the new ones, the request of the message alone is in the sum
    have hown : ∀ r ∈ l, (s.completedRound env m).own r = true ↔
        r = a.priv ∧ Message.success m = true := fun r hr => by
      obtain ⟨hnew, hold⟩ := (hl r).mp hr
      refine (hclean r hnew hold).trans (and_congr_left fun _ => ?_)
      rw [ha]
      simp [eq_comm]
    have hmem : a.priv ∈ (s.completedRound env m).destroyed ↔ a.priv ∈ l :=
      ((hl a.priv).trans (and_iff_left hlive.2)).symm
    have hcount : l.countP (s.completedRound env m).own =
        if Message.success m = true ∧ a.priv ∈ (s.completedRound env m).destroyed then 1 else 0 := by
      split
      · rename_i hyes
        have hsame : l.countP (s.completedRound env m).own = l.count a.priv :=
          List.countP_congr fun r hr => by simp [hown r hr, hyes.1]
        rw [hsame, List.count_eq_one_of_mem hnodup (hmem.mp hyes.2)]
      · rename_i hno
        refine List.countP_eq_zero.mpr fun r hr hr' => hno ?_
        obtain ⟨rfl, hsuccess⟩ := (hown r hr).mp hr'
        exact ⟨hsuccess, hmem.mpr hr⟩
    refine ⟨⟨v', C', hwf', hv'⟩, ?_⟩
    rw [hspent, hcount]
    split at hbooks
    · rename_i hyes
      rw [if_pos hyes, Nat.add_comm]
      exact hbooks
    · rename_i hno
      rw [if_neg hno, Nat.zero_add]
      exact hbooks

theorem Reconciled.processCompletedRequests (h : s.Reconciled) {msgs : List Message}
    (hz : (s.processCompletedRequests env msgs).Spared False)
    (hclean : Spotless env (.processCompletedRequests msgs) s) :
    (s.processCompletedRequests env msgs).Reconciled := by
  have hz' := (evolves_processInjected env _).spared hz
  have hmsgs : (msgs.foldl (fun s m => s.completedRound env m) s).Reconciled := by
    have hrounds := hclean.1
    clear hz hclean
    induction msgs generalizing s with
    | nil => exact h
    | cons m msgs ih =>
      have hround := (evolves_foldl (fun s m => evolves_completedRound env s m) msgs
        (s.completedRound env m)).spared hz'
      exact ih (h.completedRound hround hrounds.1) hz' hrounds.2
  exact hmsgs.path (h.atRest.processCompletedRequests hz)
    (hmsgs.atRest.path_processInjected env.makes_anything hz) hclean.2

theorem Reconciled.act (h : s.Reconciled) {a : Action} (ha : Orderly env a s)
    (hclean : Spotless env a s) : (Loop.act env a s).Reconciled := by
  have hz := ha.spared
  have hother : s.Admits env unread a → Unspoilt s (Loop.act env a s) →
      (Loop.act env a s).Reconciled := fun hadmits hunspoilt =>
    h.path (ha.atRest h.atRest) (h.atRest.path_admits env.makes_anything hadmits hz) hunspoilt
  cases a with
  | processCompletedRequests msgs => exact h.processCompletedRequests hz hclean
  | call c => exact hother (by cases c <;> trivial) hclean
  | processCancelledAndPendingRequests => exact hother (fun _ _ => trivial) hclean
  | destroy => exact absurd rfl ha.1
  | _ => exact hother trivial hclean

/-- **The metrics account for every request** in every state of a run in which no request is
destroyed that failed. -/
theorem addsUp_of_spotless (env : Env ω) (mem : Memory) (world : ω)
    (hsingle : ∀ r, (mem.req r).shouldRefresh = false) (as : List Action)
    (has : Guarded.Allowed (Loop.act env) (Orderly env) (curlEventLoopInit mem world) as)
    (hclean : Guarded.Allowed (Loop.act env) (Spotless env) (curlEventLoopInit mem world) as) :
    ∀ pre, pre <+: as →
      AddsUp (Guarded.run (Loop.act env) (curlEventLoopInit mem world) pre) := by
  have hstart : (curlEventLoopInit mem world).Reconciled :=
    ⟨(runInvariant_init mem world).atRest, rfl, rfl, rfl, hsingle,
      fun r _ => (mem.unsubmitted r).isInjected⟩
  rintro pre ⟨post, rfl⟩
  have hrun := (Guarded.allowed_append.mp (has.and hclean)).1.invariant
    (fun a s (hs : s.Reconciled) ha => hs.act ha.1 ha.2) hstart
  exact hrun.addsUp

/-- A success and a cancellation. -/
theorem addsUp_of_spotless_two :
    AddsUp (Guarded.run (Loop.act Env.uneventful) (curlEventLoopInit (Memory.plain fun _ => []) ())
      [.call (.api (.submit 1 0)), .call (.api (.submit 2 0)), .processCancelledAndPendingRequests,
        .call (.api (.cancel 2)), .processCompletedRequests [⟨1, .ok, 200⟩],
        .processCancelledAndPendingRequests]) :=
  addsUp_of_spotless Env.uneventful (Memory.plain fun _ => []) () (fun _ => rfl) _
    (by decide) (by decide) _ (List.prefix_refl _)

/-- **A failure** is in no column. -/
theorem not_addsUp_after_failure :
    let s := Guarded.run (Loop.act Env.uneventful)
      (curlEventLoopInit (Memory.plain fun _ => []) ())
      [.call (.api (.submit 1 0)), .processCancelledAndPendingRequests,
        .processCompletedRequests [⟨0, .other 7, 0⟩]]
    s.hazards = [] ∧ s.metrics = ⟨1, 0, 0, 0⟩ ∧ s.destroyed = [1] ∧ ¬ AddsUp s := by
  decide

end Loop

end CurlLoop
