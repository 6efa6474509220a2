import CurlLoop.TurnTaking

/-!
# Requests the rate manager sends away

Both places where the rate manager can refuse a request put it into `rate_limited_requests`, and the
pass over the maps takes nobody out of there before his time. What the time is depends on the place.
`request_is_rate_limited` adds the wait to a reading of the clock. `curl_event_loop_request_start`
writes the wait itself into `next_retry_at`, and a wait is less than any reading of the clock by then,
so the request is due at once.

A request that is parked with a time keeps both until a pass comes to it: nothing else takes a request
out of the rate-limited map, and what writes `next_retry_at` besides is the submission of the request
and the end of an attempt of it.

## Main definitions

* `Action.refusals` — the requests an action takes up that are refused
* `Loop.WaitsOut` — the law
* `Refusal.Exact` — the time is the clock's reading and the wait

## Main results

* `AtRest.parked_act` — a parked request between passes
* `Loop.waitsOut_iff` — when the law holds, for every refusal in every run
-/

namespace CurlLoop

open Function (update)

variable {ω : Type}

/-- The request is parked until the wait is over. -/
def Refusal.Exact (x : Refusal) : Prop :=
  match x.gate with
  | .check => x.now + x.wait < 2 ^ 64
  | .start => x.now = 0

theorem Refusal.due_eq_iff (x : Refusal) : x.due = x.now + x.wait ↔ x.Exact := by
  obtain ⟨gate, wait, now⟩ := x
  cases gate with
  | check => exact u64_eq_iff
  | start =>
    change wait = now + wait ↔ now = 0
    omega

/-- The refusals among the turns that begin at some places. -/
def refusalsAt (refusal : ReqId → Loop ω → Option Refusal) (sites : List (ReqId × Loop ω)) :
    List (ReqId × Refusal) :=
  sites.filterMap fun p => (refusal p.1 p.2).map (p.1, ·)

/-- The requests the action takes up and the rate manager refuses. -/
def Action.refusals (env : Env ω) : Action → Loop ω → List (ReqId × Refusal)
  | .processCancelledAndPendingRequests, s =>
    refusalsAt (fun r t => t.pendingThrottledBy env r) (s.pendingAsked env)
  | .moveInactiveRequestsToQueue, s => refusalsAt (fun r t => t.throttledBy env r) (s.asked env)
  | _, _ => []

/-- The requests `move_inactive_requests_to_queue` asks about. -/
def Action.polls (env : Env ω) : Action → Loop ω → List ReqId
  | .moveInactiveRequestsToQueue, s => (s.asked env).map Prod.fst
  | _, _ => []

namespace Loop

variable {s t u : Loop ω} {b r : ReqId} {env : Env ω} {a : Action} {x : Refusal} {due : ℕ}
  {strict : Prop}

/-- If the action is the pass over the maps, it is before a time. -/
def Early (env : Env ω) (time : ℕ) (a : Action) (s : Loop ω) : Prop :=
  a = .moveInactiveRequestsToQueue → s.now env < time

/-- The pass over the maps does not ask about the request, and it is not started. -/
structure LeftAlone (env : Env ω) (a : Action) (s : Loop ω) (r : ReqId) : Prop where
  unpolled : r ∉ a.polls env s
  unstarted : (act env a s).trace.count (.started r) = s.trace.count (.started r)

/-- **The law** of a refusal: when the action ends the request is parked until its wait is over, and
it is left alone in every run until then. -/
structure WaitsOut (env : Env ω) (a : Action) (s : Loop ω) (r : ReqId) (x : Refusal) : Prop where
  parked : Parked r (x.now + x.wait) (act env a s)
  alone : ∀ bs b, Guarded.Allowed (act env)
    (fun a t => Orderly env a t ∧ Early env (x.now + x.wait) a t) (act env a s) (bs ++ [b]) →
    LeftAlone env b (Guarded.run (act env) (act env a s) bs) r

instance (env : Env ω) (time : ℕ) (a : Action) (s : Loop ω) : Decidable (Early env time a s) :=
  inferInstanceAs (Decidable (_ → _))

/-! ### Between passes -/

/-- What becomes of a request that is parked: it stays so, and keeps its time if it is not handed to
the loop again. -/
structure KeepsTime (b : ReqId) (s t : Loop ω) : Prop where
  accepted : s.accepted ⊆ t.accepted
  hazards : s.hazards ⊆ t.hazards
  stays : b ∈ s.maps .rateLimited → b ∈ t.maps .rateLimited
  due : b ∈ s.accepted → .resubmitted b ∉ t.hazards →
    (t.req b).nextRetryAt = (s.req b).nextRetryAt

theorem Evolves.keepsTime {q : Prop} (h : Evolves q s t)
    (hstays : b ∈ s.maps .rateLimited → b ∈ t.maps .rateLimited)
    (hdue : b ∈ s.accepted → .resubmitted b ∉ t.hazards →
      (t.req b).nextRetryAt = (s.req b).nextRetryAt) : KeepsTime b s t :=
  ⟨h.accepted.subset, h.hazards.subset, hstays, hdue⟩

theorem KeepsTime.of_eq (hl : t.ledger = s.ledger) (hm : t.maps = s.maps)
    (hreq : (t.req b).nextRetryAt = (s.req b).nextRetryAt) : KeepsTime b s t :=
  (Evolves.of_ledger (q := False) hl).keepsTime (fun h => hm ▸ h) fun _ _ => hreq

theorem KeepsTime.refl (b : ReqId) (s : Loop ω) : KeepsTime b s s := .of_eq rfl rfl rfl

theorem KeepsTime.trans (h : KeepsTime b s t) (h' : KeepsTime b t u) : KeepsTime b s u where
  accepted := List.Subset.trans h.accepted h'.accepted
  hazards := List.Subset.trans h.hazards h'.hazards
  stays hb := h'.stays (h.stays hb)
  due hb hz := by
    have hfirst := h.due hb fun hmem => hz (h'.hazards hmem)
    exact (h'.due (h.accepted hb) hz).trans hfirst

theorem keepsTime_follow (s : Loop ω) (r : ReqId) : KeepsTime b s (s.follow r) :=
  .of_eq (ledger_follow s r) (maps_follow s r) (by rw [(passesBy_follow s r).req])

theorem keepsTime_destroy (s : Loop ω) (r : ReqId) : KeepsTime b s (s.curlEventRequestDestroy r) := by
  refine (evolves_destroy (q := False) s r).keepsTime id fun _ _ => ?_
  rw [req_destroy]
  rcases eq_or_ne b r with rfl | hbr
  · rw [Function.update_self]
    rfl
  · rw [Function.update_of_ne hbr]

theorem keepsTime_apiCalls (env : Env ω) (s : Loop ω) (cs : List ApiCall) :
    KeepsTime b s (s.apiCalls env cs) :=
  (evolves_foldl (fun s c => evolves_apiCall env s c) cs s).keepsTime
    (fun h => (sameMaps_apiCalls env cs s).maps ▸ h)
    (proj_apiCalls (g := Request.nextRetryAt) (fun _ => rfl) env cs s)

theorem keepsTime_wakeOrFail (env : Env ω) (failed : Bool) (r : ReqId) (s : Loop ω) :
    KeepsTime b s (s.wakeOrFail env failed r) := by
  rw [wakeOrFail]
  dsimp only
  split
  · have htold : KeepsTime b s ((s.setNextPending r none).callOnAborted env r).2 := by
      obtain ⟨w, tr, heq⟩ := callOnAborted_eq env (s.setNextPending r none) r
      rw [heq]
      exact .of_eq rfl rfl rfl
    exact (htold.trans (keepsTime_apiCalls env _ _)).trans (keepsTime_destroy _ r)
  · exact .of_eq rfl rfl rfl

theorem keepsTime_publish (env : Env ω) (s : Loop ω) (id : ResId) (payload : Option Payload)
    (cleanup : Bool) : KeepsTime b s (s.curlEventResPublish env id payload cleanup) :=
  Intrusive.forEach_invariant (P := KeepsTime b s)
    (fun r t ht => (ht.trans (keepsTime_follow t r)).trans (keepsTime_wakeOrFail env _ r _))
    (.of_eq rfl rfl rfl)

theorem keepsTime_call (env : Env ω) (s : Loop ω) (c : Call) : KeepsTime b s (s.call env c) := by
  cases c with
  | api c => exact keepsTime_apiCalls env s [c]
  | register payload cleanup =>
    have hdeclare : KeepsTime b s s.curlEventResDeclare.2 := .of_eq rfl rfl rfl
    exact hdeclare.trans (keepsTime_publish env _ _ payload cleanup)
  | publish id payload cleanup => exact keepsTime_publish env s id payload cleanup
  | release id => exact (evolves_release s id).keepsTime (fun h => h) fun _ _ => rfl
  | _ => exact .of_eq rfl rfl rfl

theorem keepsTime_calls (env : Env ω) (cs : List Call) (s : Loop ω) :
    KeepsTime b s (s.calls env cs) := by
  induction cs generalizing s with
  | nil => exact .refl b s
  | cons c cs ih => exact (keepsTime_call env s c).trans (ih _)

/-- A callback is told and makes its calls. -/
theorem keepsTime_callback (env : Env ω)
    (ht : ∃ w tr cs, t = ({ s with world := w, trace := tr } : Loop ω).calls env cs) :
    KeepsTime b s t := by
  obtain ⟨w, tr, cs, rfl⟩ := ht
  have htold : KeepsTime b s { s with world := w, trace := tr } := .of_eq rfl rfl rfl
  exact htold.trans (keepsTime_calls env cs _)

/-- A request of which an attempt has ended is put somewhere. -/
theorem keepsTime_settle (env : Env ω) (s : Loop ω) (hb : b ≠ r) (httpCode : ℤ) (success : Bool)
    (retryIn : ℤ) : KeepsTime b s (s.settle env r httpCode success retryIn) := by
  have hpass := passesBy_settle env s hb httpCode success retryIn
  exact (evolves_settle (q := False) env s r httpCode success retryIn).keepsTime
    (hpass.maps .rateLimited).mpr fun _ _ => by rw [hpass.req]

/-- The request of a message is active, so it is not parked. -/
theorem AtRest.keepsTime_completedRound (h : s.AtRest strict) (env : Env ω) (m : Message)
    (hb : b ∈ s.maps .rateLimited) : KeepsTime b s (s.completedRound env m) := by
  rw [Loop.completedRound]
  cases ha : s.transferOf m with
  | none => exact .refl b s
  | some a =>
    have hqueued : a.priv ∈ s.maps .queued := by
      obtain ⟨v, C, hwf, -⟩ := h
      rw [hwf.located.maps]
      exact hwf.mem_queued_of_transferOf ha
    have hba : b ≠ a.priv := by
      rintro rfl
      obtain ⟨-, -, hother, -⟩ := h.mapped hb
      exact hother .queued (by decide) hqueued
    have htaken : KeepsTime b s ((((s.reportMessage m.easy).follow a.priv).eraseMap .queued
        a.priv).addNum .queued (-1)) := by
      have hreport : KeepsTime b s (s.reportMessage m.easy) := .of_eq rfl rfl rfl
      refine (hreport.trans (keepsTime_follow _ a.priv)).trans ?_
      refine ⟨List.Subset.refl _, List.Subset.refl _, fun hmem => ?_, fun _ _ => rfl⟩
      change b ∈ (Loop.eraseMap _ .queued a.priv).maps .rateLimited
      rwa [maps_eraseMap, Function.update_of_ne (by decide)]
    have hreceive : KeepsTime b s (s.receive env m a.priv).2 := by
      rw [Loop.receive]
      split
      · exact htaken.trans (keepsTime_callback env (callOnComplete_eq env _ _))
      · exact htaken.trans (keepsTime_callback env (callOnFailure_eq env _ _ _ _ _))
    exact hreceive.trans (keepsTime_settle env _ hba _ _ _)

theorem AtRest.keepsTime_messages (h : s.AtRest strict) {msgs : List Message}
    (hz : (msgs.foldl (fun s m => s.completedRound env m) s).Spared strict)
    (hb : b ∈ s.maps .rateLimited) :
    KeepsTime b s (msgs.foldl (fun s m => s.completedRound env m) s) := by
  induction msgs generalizing s with
  | nil => exact .refl b s
  | cons m msgs ih =>
    have hmono := (evolves_foldl (fun s m => evolves_completedRound env s m) msgs
      (s.completedRound env m)).spared hz
    have hround := h.keepsTime_completedRound env m hb
    exact hround.trans (ih (h.completedRound m hmono) hz (hround.stays hb))

theorem keepsTime_processInjected (env : Env ω) (s : Loop ω) :
    KeepsTime b s (s.processInjected env) := by
  have hround : ∀ r (t : Loop ω), KeepsTime b t (t.injectedRound env r) := by
    intro r t
    rw [injectedRound]
    split
    · exact (keepsTime_callback env (callOnComplete_eq env t r)).trans (keepsTime_destroy _ r)
    · exact keepsTime_destroy t r
  have hdetach : KeepsTime b s s.detachInjected :=
    ⟨List.Subset.refl _, List.Subset.refl _, id, fun _ _ => rfl⟩
  exact Intrusive.forEach_invariant (P := KeepsTime b s)
    (fun r t ht => (ht.trans (keepsTime_follow t r)).trans (hround r _)) hdetach

/-- **A parked request between passes** stays parked, and keeps its time. -/
theorem AtRest.parked_act (h : s.AtRest strict) (hz : (Loop.act env a s).Spared strict)
    (hd : a ≠ .destroy) (hp : a ≠ .processCancelledAndPendingRequests)
    (hm : a ≠ .moveInactiveRequestsToQueue) (hr : Parked r due s) :
    Parked r due (Loop.act env a s) := by
  have hkeeps : KeepsTime r s (Loop.act env a s) := by
    cases a with
    | call c => exact keepsTime_call env s c
    | applyOp op =>
      have happlied : KeepsTime r s { s with applied := op :: s.applied } :=
        ⟨List.Subset.refl _, List.Subset.refl _, id, fun _ _ => rfl⟩
      rw [Loop.act, applyOp_eq_call]
      exact happlied.trans (keepsTime_call env _ op.call)
    | processCompletedRequests msgs =>
      have hz' := (evolves_processInjected env _).spared hz
      exact (h.keepsTime_messages hz' hr.mem).trans (keepsTime_processInjected env _)
    | calculateNextTimerExpiry =>
      obtain ⟨w, hw⟩ := calculateNextTimerExpiry_eq env s 200
      rw [Loop.act, hw]
      exact .of_eq rfl rfl rfl
    | processCancelledAndPendingRequests => exact absurd rfl hp
    | moveInactiveRequestsToQueue => exact absurd rfl hm
    | destroy => exact absurd rfl hd
    | _ => exact ⟨List.Subset.refl _, List.Subset.refl _, id, fun _ _ => rfl⟩
  obtain ⟨⟨haccepted, -⟩, -⟩ := h.mapped hr.mem
  exact ⟨hkeeps.stays hr.mem, (hkeeps.due haccepted (hz.notMem (by simp))).trans hr.due⟩

/-! ### Until the wait is over -/

/-- **One step** before the time of a parked request. -/
theorem AtRest.leftAlone (h : s.AtRest False) (ha : Orderly env a s) (hearly : Early env due a s)
    (hr : Parked r due s) : LeftAlone env a s r ∧ Parked r due (Loop.act env a s) := by
  have hz := ha.spared
  by_cases hmove : a = .moveInactiveRequestsToQueue
  · subst hmove
    obtain ⟨hnone, hpass⟩ := h.passesBy_move env hr (hearly rfl)
    refine ⟨⟨fun hpoll => ?_, count_eq_of_story hpass.story⟩, hr.passesBy hpass⟩
    obtain ⟨⟨b, u⟩, hu, rfl⟩ := List.mem_map.mp hpoll
    exact hnone u hu
  · have hunpolled : r ∉ a.polls env s := by
      cases a with
      | moveInactiveRequestsToQueue => exact absurd rfl hmove
      | _ => exact nofun
    by_cases hpending : a = .processCancelledAndPendingRequests
    · subst hpending
      have hpass : PassesBy r s (s.processCancelledAndPendingRequests env) := by
        obtain ⟨-, -, -, hpass⟩ | ⟨hmem, -⟩ := h.serves_pending env r hz
        · exact hpass (h.notMem_cancelledList hz hr.mem)
        · obtain ⟨v, C, hwf, -⟩ := h
          rw [hwf.contents_eq] at hmem
          exact absurd hr.mem (hwf.notMem_map hmem nofun)
      exact ⟨⟨hunpolled, count_eq_of_story hpass.story⟩, hr.passesBy hpass⟩
    · refine ⟨⟨hunpolled, ?_⟩, h.parked_act hz ha.1 hpending hmove hr⟩
      exact (startless_act env s ha.1 hpending hmove).count_eq (e := .started r) fun he => he

/-- **Every run** before the time of a parked request leaves it alone. -/
theorem AtRest.leftAlone_run (h : s.AtRest False) (hr : Parked r due s) {bs : List Action}
    {b : Action} (hbs : Guarded.Allowed (Loop.act env)
      (fun a t => Orderly env a t ∧ Early env due a t) s (bs ++ [b])) :
    LeftAlone env b (Guarded.run (Loop.act env) s bs) r := by
  obtain ⟨hrun, ⟨hb, hearly⟩, -⟩ := Guarded.allowed_append.mp hbs
  obtain ⟨hatRest, hparked⟩ := hrun.invariant (P := fun t => t.AtRest False ∧ Parked r due t)
    (fun _ _ ht ha => ⟨ha.1.atRest ht.1, (ht.1.leftAlone ha.1 ha.2 ht.2).2⟩)
    ⟨h, hr⟩
  exact (hatRest.leftAlone hb hearly hparked).1

/-- A request is refused in one turn at most, and then parked. -/
theorem Serves.parked {f : ReqId → Loop ω → Option Refusal} {sites : List (ReqId × Loop ω)}
    (h : Serves env r (f r) sites s t) (hx : (r, x) ∈ refusalsAt f sites) :
    Parked r x.due t := by
  obtain ⟨⟨b, u⟩, hu, heq⟩ := List.mem_filterMap.mp hx
  obtain ⟨y, hy, hpair⟩ := Option.map_eq_some_iff.mp heq
  obtain ⟨rfl, rfl⟩ := Prod.mk.inj hpair
  cases h with
  | passed hnone _ => exact absurd hu (hnone u)
  | served u' _ honce _ _ hturned =>
    obtain rfl := honce u hu
    exact hturned.parked y hy

/-- Whoever is refused is parked when the action ends. -/
theorem AtRest.parked_of_refused (h : s.AtRest strict) (hz : (Loop.act env a s).Spared strict)
    (hx : (r, x) ∈ a.refusals env s) : Parked r x.due (Loop.act env a s) := by
  cases a with
  | processCancelledAndPendingRequests =>
    obtain ⟨-, hnone, -, -⟩ | ⟨-, hserves⟩ := h.serves_pending env r hz
    · obtain ⟨⟨b, u⟩, hu, heq⟩ := List.mem_filterMap.mp hx
      obtain ⟨y, -, hpair⟩ := Option.map_eq_some_iff.mp heq
      obtain ⟨rfl, rfl⟩ := Prod.mk.inj hpair
      exact absurd hu (hnone u)
    · exact Serves.parked (f := fun r t => t.pendingThrottledBy env r) hserves hx
  | moveInactiveRequestsToQueue =>
    exact Serves.parked (f := fun r t => t.throttledBy env r) (h.serves_move env r) hx
  | _ => exact nomatch hx

/-- **The law holds of a refusal** exactly if what is written into `next_retry_at` is the clock's
reading and the wait: where the request was only to be checked, if their sum is a `uint64_t`, and where
it was to be started, if the clock reads zero. -/
theorem waitsOut_iff (env : Env ω) (mem : Memory) (world : ω) (as : List Action)
    (has : Guarded.Allowed (Loop.act env) (Orderly env) (curlEventLoopInit mem world) as) (a : Action)
    (ha : Orderly env a (Guarded.run (Loop.act env) (curlEventLoopInit mem world) as)) (r : ReqId)
    (x : Refusal)
    (hx : (r, x) ∈ a.refusals env (Guarded.run (Loop.act env) (curlEventLoopInit mem world) as)) :
    WaitsOut env a (Guarded.run (Loop.act env) (curlEventLoopInit mem world) as) r x ↔ x.Exact := by
  have hatRest := atRest_of_orderly mem world has
  have hparked := hatRest.parked_of_refused ha.spared hx
  rw [← x.due_eq_iff]
  constructor
  · intro h
    exact hparked.due.symm.trans h.parked.due
  · intro hdue
    rw [hdue] at hparked
    exact ⟨hparked, fun bs b hbs => (ha.atRest hatRest).leftAlone_run hparked hbs⟩

end Loop

/-- The clock stands at a time, and at one of the two places the rate manager sends away whoever
asks. -/
def Env.refusing (g : Gate) (wait now : ℕ) : Env Unit :=
  { Env.uneventful with
    macroNow := fun _ => (now, ())
    rateManagerCanProceed := fun _ _ _ => (if g = .check then wait else 0, ())
    rateManagerStartRequest := fun _ _ _ => (if g = .start then wait else 0, ()) }

namespace Loop

/-- At time 7 a request is to wait for 5, and it does. -/
theorem waitsOut_iff_checked : WaitsOut (Env.refusing .check 5 7) .moveInactiveRequestsToQueue
    (Guarded.run (Loop.act (Env.refusing .check 5 7))
      (curlEventLoopInit (Memory.keyed fun _ => some "k") ())
      [.call (.api (.submit 1 0)), .processCancelledAndPendingRequests]) 1 ⟨.check, 5, 7⟩ :=
  (waitsOut_iff _ _ () _ (by decide +kernel) _ (by decide +kernel) 1 _ (by decide +kernel)).mpr
    (by decide : 7 + 5 < 2 ^ 64)

/-- It is to wait when it is started, and the next pass asks about it again at the same time. -/
theorem not_waitsOut_started :
    let env := Env.refusing .start 5 7
    let s := Guarded.run (Loop.act env) (curlEventLoopInit (Memory.keyed fun _ => some "k") ())
      [.call (.api (.submit 1 0))]
    (1, ⟨.start, 5, 7⟩) ∈ Action.refusals env .processCancelledAndPendingRequests s ∧
      ¬ WaitsOut env .processCancelledAndPendingRequests s 1 ⟨.start, 5, 7⟩ ∧
      1 ∈ Action.polls env .moveInactiveRequestsToQueue
        (Loop.act env .processCancelledAndPendingRequests s) := by
  intro env s
  refine ⟨by decide +kernel, fun h => ?_, by decide +kernel⟩
  have hunpolled := (h.alone [] .moveInactiveRequestsToQueue (by decide +kernel)).unpolled
  exact hunpolled (by decide +kernel)

end Loop

end CurlLoop
