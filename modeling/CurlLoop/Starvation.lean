import CurlLoop.NodeLifetime
import CurlLoop.RateAnswers
import CurlLoop.RateSlots
import CurlLoop.ServiceOrder
import CurlLoop.Stranded
import CurlLoop.Teardown
import Mathlib.Data.List.Flatten

/-!
# Whether a request is starved by the one ahead of it

`move_inactive_requests_to_queue` takes the requests of a map from the front and stops at the first
that is not ready. If that one is not due, nobody behind it is, for the maps are in the order of
time. If the slots are gone nobody can be started. And the rate manager does not stop it: a request
that is refused is put aside, and one that is let go is let go when the question is asked again.

There is one more reason to stop, a dependency that is not ready. It says nothing about the requests
behind. A request that waits in a map had all its dependencies when it came in and keeps them by its
references, but a count can be too low, and then a node is freed under a request. So the pass
starves nobody if no due request without its dependencies stands in front of one that has them. A
dependency may also be lost during the pass, when another request that cannot be set up lets go of
it: whether it would be is asked of the store as it is before the pass.

## Main definitions

* `Loop.NoneStarved` — the slots are gone, or nobody who waits in a map could be started
* `Loop.Unobstructed` — the condition, on the loop before the pass
* `Loop.Serving` — what a pass has done when some requests have had their turn

## Main results

* `Path.arranged` — the maps stay in the order of time
* `moveWaiting_ends` — why the loop over a map stopped
* `noneStarved_of_unobstructed` — a pass in any state of a run
-/

namespace CurlLoop

open Function (update)

variable {ω : Type}

/-! ### One moment -/

/-- An environment whose clock stands at a time. -/
def Env.stoppedAt (env : Env ω) (time : ℕ) : Env ω := { env with macroNow := fun w => (time, w) }

/-- The clock stands at a time, and the rate manager does not change its mind when it is asked
again. -/
structure Env.Stands (env : Env ω) (time : ℕ) : Prop where
  macroNow : ∀ w, (env.macroNow w).1 = time
  canProceed : ∀ key high w,
    (env.rateManagerCanProceed key high (env.rateManagerCanProceed key high w).2).1 =
      (env.rateManagerCanProceed key high w).1

/-- So it is with `rate_manager.c` when the clock stands. -/
theorem Env.stands_rated (p : Platform) (env : Env ω) (time : ℕ) :
    ((env.stoppedAt time).rated p).Stands time := by
  refine ⟨fun _ => rfl, fun key high w => ?_⟩
  change (RatedWorld.consult (env.stoppedAt time) key _
    (RatedWorld.consult (env.stoppedAt time) key _ w).2).1 =
      (RatedWorld.consult (env.stoppedAt time) key _ w).1
  cases hfind : w.manager.find key with
  | none =>
    have hask : ∀ f : ℕ → RateManager → ℕ × RateManager,
        RatedWorld.consult (env.stoppedAt time) key f w = ((f 0 w.manager).1, w) := fun f => by
      rw [RatedWorld.consult, hfind]
    rw [hask, hask]
  | some l =>
    have hanswer : w.manager.canProceed p key high time =
        ((l.canProceed p high time).1, w.manager.put key (l.canProceed p high time).2) := by
      rw [RateManager.canProceed, RateManager.onLimit, hfind]
    have hagain : (w.manager.put key (l.canProceed p high time).2).find key =
        some (l.canProceed p high time).2 := by
      rw [RateManager.find_put, if_pos rfl]
    have hask : RatedWorld.consult (env.stoppedAt time) key
        (fun now g => g.canProceed p key high now) w =
          ((l.canProceed p high time).1,
            { w with manager := w.manager.put key (l.canProceed p high time).2 }) := by
      rw [RatedWorld.consult, hfind]
      change ((w.manager.canProceed p key high time).1,
        { w with manager := (w.manager.canProceed p key high time).2 }) = _
      rw [hanswer]
    rw [hask, RatedWorld.consult]
    dsimp only
    rw [hagain]
    change ((w.manager.put key (l.canProceed p high time).2).canProceed p key high time).1 = _
    rw [RateManager.canProceed, RateManager.onLimit, hagain]
    exact l.canProceed_canProceed high time

namespace Loop

variable {s t u : Loop ω} {r a b : ReqId} {m : MapId} {env : Env ω} {time : ℕ}

/-- `num_queued_requests` has reached `max_concurrent_requests`. -/
def Full (s : Loop ω) : Prop := s.maxConcurrentRequests ≤ sizeT (s.num .queued)

instance (s : Loop ω) : Decidable s.Full := inferInstanceAs (Decidable (_ ≤ _))

/-- All dependencies of the request are ready. -/
def supplied (s : Loop ω) (r : ReqId) : Bool :=
  s.resources.curlResourceAllReadyList (s.req r).depHead

/-- The rate manager would let the request go. -/
def Allowed (env : Env ω) (s : Loop ω) (r : ReqId) : Prop :=
  ∀ key ∈ (s.req r).rateLimit,
    (env.rateManagerCanProceed key (s.req r).rateLimitHighPriority s.world).1 = 0

/-- The request is due, its dependencies are ready, and its rate limit allows it. -/
structure Eligible (env : Env ω) (time : ℕ) (s : Loop ω) (r : ReqId) : Prop where
  due : s.due time r = true
  supplied : s.supplied r = true
  allowed : s.Allowed env r

/-- The slots are gone, or no request of the two maps could be started. -/
def NoneStarved (env : Env ω) (time : ℕ) (s : Loop ω) : Prop :=
  s.Full ∨ ∀ m, m = .refresh ∨ m = .inactive → ∀ r ∈ s.maps m, ¬ s.Eligible env time r

/-- The requests that wait for a time, in the order in which a pass takes them. -/
def waiting (s : Loop ω) : List ReqId :=
  s.maps .rateLimited ++ (s.maps .refresh ++ s.maps .inactive)

/-- The dependencies of the request are ready, and stay so if the other due requests that wait let
go of theirs. -/
def Secure (time : ℕ) (s : Loop ω) (r : ReqId) : Prop :=
  (s.resources.curlResourceReleaseRequestDeps
    ((s.waiting.filter fun b => b ≠ r && s.due time b).flatMap s.held)).curlResourceAllReadyList
      (s.req r).depHead = true

instance (time : ℕ) (s : Loop ω) (r : ReqId) : Decidable (s.Secure time r) :=
  inferInstanceAs (Decidable (_ = true))

/-- The slots are gone, or whenever a due request stands in front of a due one whose dependencies
are ready, its own are ready and stay so. -/
def Unobstructed (time : ℕ) (s : Loop ω) : Prop :=
  s.Full ∨ ∀ m, m = .refresh ∨ m = .inactive → (s.maps m).Pairwise fun a b =>
    s.due time a = true → s.due time b = true → s.supplied b = true → s.Secure time a

end Loop

/-! ### References that are dropped -/

/-- A node that is let go more often is in no better state. -/
theorem Res.ready_of_aged {n m : Res} {c : ℕ} (h : n.aged c = some m) : m.ready = n.ready := by
  rw [aged] at h
  split at h
  · exact absurd h (by simp)
  · rw [← Option.some.inj h]
    rfl

/-- Whatever is ready after more references were dropped is ready after fewer. -/
theorem Resources.allReady_of_count_le {s : Resources} {ds ds' : List ResId}
    (hle : ∀ id, ds.count id ≤ ds'.count id) {deps : List ResId}
    (h : (s.curlResourceReleaseRequestDeps ds').curlResourceAllReadyList deps = true) :
    (s.curlResourceReleaseRequestDeps ds).curlResourceAllReadyList deps = true := by
  rw [curlResourceAllReadyList, List.all_eq_true] at h ⊢
  intro id hid
  have hready := h id hid
  rw [resFind_releaseDeps_aged] at hready ⊢
  cases hn : s.resFind id with
  | none => simp [hn] at hready
  | some n =>
    rw [hn, Option.bind_some] at hready
    rw [Option.bind_some]
    obtain ⟨k, hk⟩ := Nat.exists_eq_add_of_le (hle id)
    rw [hk, ← n.aged_bind] at hready
    cases hage : n.aged (ds.count id) with
    | none => simp [hage] at hready
    | some n' =>
      rw [hage, Option.bind_some] at hready
      dsimp only
      cases hmore : n'.aged k with
      | none => simp [hmore] at hready
      | some m =>
        rw [hmore] at hready
        rwa [← Res.ready_of_aged hmore]

/-- Nothing becomes ready when references are dropped. -/
theorem Resources.allReady_of_release {s : Resources} {ds deps : List ResId}
    (h : (s.curlResourceReleaseRequestDeps ds).curlResourceAllReadyList deps = true) :
    s.curlResourceAllReadyList deps = true := by
  have hnone : ∀ id, ([] : List ResId).count id ≤ ds.count id := fun _ => Nat.zero_le _
  exact allReady_of_count_le hnone h

namespace Loop

variable {s t u : Loop ω} {r a b : ReqId} {m : MapId} {env : Env ω} {time : ℕ}

/-! ### What a request at the head is asked -/

/-- It is put aside, or the rate manager would let it go when it is asked again. -/
theorem requestIsRateLimited_stands (hst : env.Stands time) (s : Loop ω) (root : List ReqId)
    (r : ReqId) :
    (∃ w due, s.requestIsRateLimited env root r =
      (true, root.erase r, ({ s with world := w } : Loop ω).parkRateLimited r due)) ∨
    ∃ w, s.requestIsRateLimited env root r = (false, root, { s with world := w }) ∧
      ({ s with world := w } : Loop ω).Allowed env r := by
  rw [requestIsRateLimited]
  dsimp only
  cases hkey : (s.req r).rateLimit with
  | none =>
    refine .inr ⟨s.world, rfl, fun key h => ?_⟩
    change key ∈ (s.req r).rateLimit at h
    rw [hkey] at h
    exact absurd h (Option.not_mem_none key)
  | some key =>
    have hagain := hst.canProceed key (s.req r).rateLimitHighPriority s.world
    dsimp only
    split
    · rename_i hgo
      refine .inr ⟨_, rfl, fun key' h => ?_⟩
      change key' ∈ (s.req r).rateLimit at h
      rw [hkey] at h
      obtain rfl := Option.some.inj h
      exact hagain.trans hgo
    · exact .inl ⟨_, _, rfl⟩

/-- Whoever is let go is ready if a slot is free, its dependencies are ready and it is due. -/
theorem requestReady_stands (hst : env.Stands time) (hgo : s.Allowed env r) :
    ∃ w, s.requestReady env r =
      (decide (¬ s.Full) && s.supplied r && s.due time r, { s with world := w }) := by
  rw [requestReady]
  dsimp only
  by_cases hfull : s.Full
  · rw [if_pos (show sizeT (s.num .queued) ≥ s.maxConcurrentRequests from hfull)]
    exact ⟨s.world, by simp [hfull]⟩
  · rw [if_neg (show ¬ sizeT (s.num .queued) ≥ s.maxConcurrentRequests from hfull)]
    have hrest : ∀ w, ∃ w', (if s.supplied r = false then (false, ({ s with world := w } : Loop ω))
        else (decide ((env.macroNow w).1 ≥ (s.req r).nextRetryAt),
          { s with world := (env.macroNow w).2 })) =
        (decide (¬ s.Full) && s.supplied r && s.due time r, { s with world := w' }) := by
      intro w
      cases hsup : s.supplied r with
      | false => exact ⟨w, by simp⟩
      | true =>
        refine ⟨(env.macroNow w).2, ?_⟩
        rw [hst.macroNow, due]
        simp [hfull]
    cases hkey : (s.req r).rateLimit with
    | none =>
      dsimp only
      rw [if_neg (lt_irrefl 0)]
      exact hrest s.world
    | some key =>
      have hzero : (s.ask (env.rateManagerCanProceed key (s.req r).rateLimitHighPriority)).1 = 0 :=
        hgo key (by rw [hkey]; rfl)
      dsimp only
      rw [hzero, if_neg (lt_irrefl 0)]
      exact hrest (env.rateManagerCanProceed key (s.req r).rateLimitHighPriority s.world).2

/-! ### Keeping track of a pass -/

/-- No dependency becomes ready. -/
def NoneSupplied (t u : Loop ω) : Prop := ∀ deps, u.resources.curlResourceAllReadyList deps = true →
  t.resources.curlResourceAllReadyList deps = true

theorem NoneSupplied.of_eq (h : u.resources = t.resources) : t.NoneSupplied u := fun _ hdeps =>
  h ▸ hdeps

/-- What a pass has done to a loop when the requests in `left` have not had their turn. Those are as
they were, and those in `gone` have been destroyed and let go of their dependencies. -/
structure Serving (time : ℕ) (s : Loop ω) (gone left : List ReqId) (t : Loop ω) : Prop where
  untouched : ∀ b ∈ left, t.req b = s.req b
  resources : t.resources = s.resources.curlResourceReleaseRequestDeps (gone.flatMap s.held)
  room : t.maxConcurrentRequests = s.maxConcurrentRequests
  nodup : (gone ++ left).Nodup
  subset : gone ++ left ⊆ s.waiting
  due : ∀ b ∈ gone, s.due time b = true

variable {gone left left' rest l root : List ReqId}

/-- Requests are passed over. -/
theorem Serving.sublist (h : Serving time s gone left t) (hl : left'.Sublist left) :
    Serving time s gone left' t where
  untouched _ hb := h.untouched _ (hl.subset hb)
  resources := h.resources
  room := h.room
  nodup := h.nodup.sublist (hl.append_left gone)
  subset _ hb := h.subset ((hl.append_left gone).subset hb)
  due := h.due

/-- A step that leaves the requests and the resources alone. -/
theorem Serving.congr (h : Serving time s gone left t) (hreq : u.req = t.req)
    (hres : u.resources = t.resources) (hroom : u.maxConcurrentRequests = t.maxConcurrentRequests) :
    Serving time s gone left u where
  untouched b hb := (congrFun hreq b).trans (h.untouched b hb)
  resources := hres.trans h.resources
  room := hroom.trans h.room
  nodup := h.nodup
  subset := h.subset
  due := h.due

/-- A step about the request that has its turn. -/
theorem Serving.turn (h : Serving time s gone (r :: left) t) (hreq : ∀ b, b ≠ r → u.req b = t.req b)
    (hres : u.resources = t.resources) (hroom : u.maxConcurrentRequests = t.maxConcurrentRequests) :
    Serving time s gone left u where
  untouched b hb := by
    have hne : b ≠ r := by
      rintro rfl
      exact (List.nodup_cons.mp (List.nodup_append.mp h.nodup).2.1).1 hb
    exact (hreq b hne).trans (h.untouched b (List.mem_cons_of_mem r hb))
  resources := hres.trans h.resources
  room := hroom.trans h.room
  nodup := h.nodup.sublist ((List.sublist_cons_self r left).append_left gone)
  subset _ hb := h.subset (((List.sublist_cons_self r left).append_left gone).subset hb)
  due := h.due

/-- The request that has its turn is written and destroyed. -/
theorem Serving.destroy (h : Serving time s gone (r :: left) t) (hdue : s.due time r = true)
    (hreq : ∀ b, b ≠ r → u.req b = t.req b) (hres : u.resources = t.resources)
    (hroom : u.maxConcurrentRequests = t.maxConcurrentRequests) (hheld : u.held r = t.held r) :
    Serving time s (gone ++ [r]) left (u.curlEventRequestDestroy r) where
  untouched b hb := by
    have hne : b ≠ r := by
      rintro rfl
      exact (List.nodup_cons.mp (List.nodup_append.mp h.nodup).2.1).1 hb
    rw [req_destroy, Function.update_of_ne hne]
    exact (hreq b hne).trans (h.untouched b (List.mem_cons_of_mem r hb))
  resources := by
    have hsame : u.held r = s.held r := by
      rw [hheld, held, held, h.untouched r List.mem_cons_self]
    rw [resources_destroy, hsame, hres, h.resources, Resources.curlResourceReleaseRequestDeps,
      Resources.curlResourceReleaseRequestDeps, ← List.foldl_append, List.flatMap_append,
      List.flatMap_singleton]
    rfl
  room := hroom.trans h.room
  nodup := by
    rw [List.append_assoc]
    exact h.nodup
  subset := by
    rw [List.append_assoc]
    exact h.subset
  due b hb := by
    rcases List.mem_append.mp hb with hb | hb
    · exact h.due b hb
    · rw [List.mem_singleton.mp hb]
      exact hdue

/-- A due request that is started has had its turn. -/
theorem Serving.start (h : Serving time s gone (r :: left) t) (hdue : s.due time r = true)
    (env : Env ω) : ∃ gone', Serving time s gone' left (t.curlEventLoopRequestStart env r) ∧
      (∀ m, m ≠ .queued → m ≠ .rateLimited →
        (t.curlEventLoopRequestStart env r).maps m = t.maps m) ∧
      t.NoneSupplied (t.curlEventLoopRequestStart env r) := by
  have hout := start_outcome env t r
  generalize t.curlEventLoopRequestStart env r = u at hout ⊢
  cases hout with
  | parked w due =>
    refine ⟨gone, h.turn (fun b hb => Function.update_of_ne hb _ _) rfl rfl, fun m _ hm => ?_,
      .of_eq rfl⟩
    exact Function.update_of_ne hm _ _
  | refused w =>
    have hreq : ∀ b, (({ t with world := w } : Loop ω).modifyReq r Request.reset).req b =
        update t.req r (t.req r).reset b := fun _ => rfl
    refine ⟨gone ++ [r], h.destroy hdue (fun b hb => ?_) rfl rfl ?_, fun m _ _ => rfl,
      fun deps hdeps => ?_⟩
    · rw [hreq, Function.update_of_ne hb]
    · rw [held, held, hreq, Function.update_self]
      rfl
    · rw [resources_destroy] at hdeps
      exact Resources.allReady_of_release hdeps
  | active w =>
    refine ⟨gone, h.turn (fun b hb => ?_) rfl rfl, fun m hq _ => Function.update_of_ne hq _ _,
      .of_eq rfl⟩
    exact (Function.update_of_ne hb _ _).trans ((Function.update_of_ne hb _ _).trans
      (Function.update_of_ne hb _ _))

/-! ### The loops -/

/-- Slots that are gone stay gone, no dependency becomes ready, and of the maps of waiting requests
only one is touched, besides the map of those put aside. -/
structure Apart (m : MapId) (t u : Loop ω) : Prop where
  maps : ∀ m', m' ≠ m → m' ≠ .queued → m' ≠ .rateLimited → u.maps m' = t.maps m'
  full : t.Full → u.Full
  supplied : t.NoneSupplied u

theorem Apart.refl (m : MapId) (t : Loop ω) : Apart m t t :=
  ⟨fun _ _ _ _ => rfl, fun h => h, .of_eq rfl⟩

theorem Apart.trans {v : Loop ω} (h : Apart m t u) (h' : Apart m u v) : Apart m t v :=
  ⟨fun m' hm hq hl => (h'.maps m' hm hq hl).trans (h.maps m' hm hq hl),
    fun ht => h'.full (h.full ht), fun deps hdeps => h.supplied deps (h'.supplied deps hdeps)⟩

/-- Why a loop stopped at the head of a map. -/
def Halted (time : ℕ) (s t : Loop ω) (r : ReqId) : Prop :=
  t.Full ∨ s.due time r = false ∨ t.supplied r = false

/-- One round of the loop over `refresh_requests` or `inactive_requests`. -/
theorem Serving.waitingRound (hst : env.Stands time) (hm : m = .refresh ∨ m = .inactive)
    (h : Serving time s gone (t.maps m ++ rest) t) (ht : t.maps m = r :: l) :
    (∃ u, Loop.waitingRound env m r t = .done u ∧ Serving time s gone (u.maps m ++ rest) u ∧
      u.maps m = r :: l ∧ Apart m t u ∧ Halted time s u r) ∨
    ∃ u gone', Loop.waitingRound env m r t = .yield u ∧ Serving time s gone' (u.maps m ++ rest) u ∧
      u.maps m = l ∧ Apart m t u := by
  have hq : m ≠ .queued := by rcases hm with rfl | rfl <;> decide
  have hl : m ≠ .rateLimited := by rcases hm with rfl | rfl <;> decide
  obtain ⟨f, hf⟩ := follow_eq t r
  rw [Loop.waitingRound, hf]
  dsimp only
  have hserve : Serving time s gone (r :: (l ++ rest)) t := by
    rw [ht, List.cons_append] at h
    exact h
  have hsame : t.req r = s.req r := hserve.untouched r List.mem_cons_self
  rcases requestIsRateLimited_stands hst ({ t with afterFree := f } : Loop ω) (t.maps m) r with
    ⟨w, due, hask⟩ | ⟨w, hask, hgo⟩
  · rw [hask]
    dsimp only
    rw [if_pos rfl]
    have hmap : ∀ v : Loop ω, ((v.setMap m ((t.maps m).erase r)).addNum m (-1)).maps m = l := by
      intro v
      have hset : ((v.setMap m ((t.maps m).erase r)).addNum m (-1)).maps =
          update v.maps m ((t.maps m).erase r) := rfl
      rw [hset, Function.update_self, ht, List.erase_cons_head]
    refine .inr ⟨_, gone, rfl, ?_, hmap _, fun m' hm' _ hl' => ?_, fun hfull => ?_,
      .of_eq rfl⟩
    · rw [hmap]
      exact hserve.turn (fun b hb => Function.update_of_ne hb _ _) rfl rfl
    · exact (Function.update_of_ne hm' _ _).trans (Function.update_of_ne hl' _ _)
    · have hnum : ∀ v : Loop ω, ((v.setMap m ((t.maps m).erase r)).addNum m (-1)).num .queued =
          v.num .queued := fun v => Function.update_of_ne hq.symm _ _
      rw [Full, hnum]
      exact hfull
  · obtain ⟨w', hready⟩ := requestReady_stands hst hgo
    rw [hask]
    dsimp only
    rw [show ({ t with afterFree := f, world := w } : Loop ω).setMap m (t.maps m) =
      { t with afterFree := f, world := w } from setMap_self _ _, if_neg (by simp), hready]
    have hdue : ({ t with afterFree := f, world := w } : Loop ω).due time r = s.due time r := by
      change decide ((t.req r).nextRetryAt ≤ time) = _
      rw [hsame]
      rfl
    rw [hdue]
    cases hgoes : decide (¬ ({ t with afterFree := f, world := w } : Loop ω).Full) &&
      ({ t with afterFree := f, world := w } : Loop ω).supplied r && s.due time r with
    | false =>
      have hhalt : Halted time s t r := by
        rw [Bool.and_eq_false_iff, Bool.and_eq_false_iff, decide_eq_false_iff_not, not_not] at hgoes
        rcases hgoes with (hfull | hsup) | hlate
        · exact .inl hfull
        · exact .inr (.inr hsup)
        · exact .inr (.inl hlate)
      exact .inl ⟨_, rfl, h.congr rfl rfl rfl, ht,
        ⟨fun _ _ _ _ => rfl, fun hfull => hfull, .of_eq rfl⟩, hhalt⟩
    | true =>
      rw [Bool.and_eq_true, Bool.and_eq_true, decide_eq_true_eq] at hgoes
      obtain ⟨⟨hroom, -⟩, hdue⟩ := hgoes
      let v : Loop ω :=
        (({ t with afterFree := f, world := w' } : Loop ω).eraseMap m r).addNum m (-1)
      have hserve' : Serving time s gone (r :: (l ++ rest)) v := hserve.congr rfl rfl rfl
      obtain ⟨gone', hstart, hmaps, hsup⟩ := hserve'.start hdue env
      have hmap : (v.curlEventLoopRequestStart env r).maps m = l := by
        rw [hmaps m hq hl, show v.maps = update t.maps m ((t.maps m).erase r) from rfl,
          Function.update_self, ht, List.erase_cons_head]
      refine .inr ⟨_, gone', rfl, ?_, hmap, fun m' hm' hq' hl' => ?_,
        fun hfull => absurd hfull hroom, hsup⟩
      · change Serving time s gone' ((v.curlEventLoopRequestStart env r).maps m ++ rest) _
        rw [hmap]
        exact hstart
      · exact (hmaps m' hq' hl').trans (Function.update_of_ne hm' _ _)

/-- **Why the loop over a map stopped**: the slots are gone, or the request at the head is not due
or lacks a dependency. -/
theorem Serving.moveWaiting_ends (hst : env.Stands time) (hm : m = .refresh ∨ m = .inactive)
    (h : Serving time s gone (t.maps m ++ rest) t) :
    ((∃ gone', Serving time s gone' ((t.moveWaiting env m).maps m ++ rest) (t.moveWaiting env m)) ∧
      (t.moveWaiting env m).maps m <:+ t.maps m ∧ Apart m t (t.moveWaiting env m)) ∧
    ∀ r ∈ ((t.moveWaiting env m).maps m).head?, Halted time s (t.moveWaiting env m) r := by
  let P : Loop ω → Prop := fun u => (∃ gone', Serving time s gone' (u.maps m ++ rest) u) ∧
    u.maps m <:+ t.maps m ∧ Apart m t u
  refine OrderedMap.whileFirst_ends (g := fun u : Loop ω => (u.maps m).head?)
    (f := Loop.waitingRound env m) (P := P)
    (Q := fun u => P u ∧ ∀ r ∈ (u.maps m).head?, Halted time s u r) (fun u => (u.maps m).length)
    (fun u _ hlen => by rw [List.eq_nil_of_length_eq_zero hlen]; rfl)
    (fun u hu hnone => ⟨hu, fun r hr => ?_⟩) (fun r u hu hhead => ?_) (le_refl _)
    ⟨⟨gone, h⟩, List.suffix_refl _, .refl m t⟩
  · rw [hnone] at hr
    exact nomatch hr
  · obtain ⟨⟨gone', hserve⟩, hsuffix, hapart⟩ := hu
    obtain ⟨l, hl⟩ := List.head?_eq_some_iff.mp hhead
    obtain ⟨v, hv, hserve', hmap, hapart', hhalt⟩ | ⟨v, gone'', hv, hserve', hmap, hapart'⟩ :=
      hserve.waitingRound hst hm hl
    · refine .inl ⟨v, hv, ⟨⟨gone', hserve'⟩, ?_, hapart.trans hapart'⟩, fun b hb => ?_⟩
      · rw [hmap, ← hl]
        exact hsuffix
      · rw [hmap] at hb
        obtain rfl := Option.some.inj hb
        exact hhalt
    · refine .inr ⟨v, hv, ⟨⟨gone'', hserve'⟩, ?_, hapart.trans hapart'⟩, ?_⟩
      · rw [hmap]
        rw [hl] at hsuffix
        exact (List.suffix_cons r l).trans hsuffix
      · rw [hmap, hl]
        exact Nat.lt_succ_self _

/-- One round over the detached rate-limited map. -/
theorem Serving.rateLimitedRound (hst : env.Stands time)
    (h : Serving time s gone (r :: (l ++ rest)) t) :
    (∃ u, Loop.rateLimitedRound env time r (r :: l, t) = .done (r :: l, u) ∧
      Serving time s gone (r :: (l ++ rest)) u ∧ Apart .rateLimited t u) ∨
    ∃ u gone', Loop.rateLimitedRound env time r (r :: l, t) = .yield (l, u) ∧
      Serving time s gone' (l ++ rest) u ∧ Apart .rateLimited t u := by
  obtain ⟨f, hf⟩ := follow_eq t r
  rw [Loop.rateLimitedRound]
  dsimp only
  rw [hf]
  dsimp only
  have hsame : t.req r = s.req r := h.untouched r List.mem_cons_self
  by_cases hlate : time < (t.req r).nextRetryAt
  · rw [if_pos hlate]
    exact .inl ⟨_, rfl, h.congr rfl rfl rfl, fun _ _ _ _ => rfl, fun hfull => hfull, .of_eq rfl⟩
  · rw [if_neg hlate]
    rcases requestIsRateLimited_stands hst ({ t with afterFree := f } : Loop ω) (r :: l) r with
      ⟨w, due, hask⟩ | ⟨w, hask, hgo⟩
    · rw [hask]
      dsimp only
      rw [if_pos rfl, List.erase_cons_head]
      exact .inr ⟨_, gone, rfl, h.turn (fun b hb => Function.update_of_ne hb _ _) rfl rfl,
        fun m' hm' _ _ => Function.update_of_ne hm' _ _, fun hfull => hfull,
        .of_eq rfl⟩
    · obtain ⟨w', hready⟩ := requestReady_stands hst hgo
      rw [hask]
      dsimp only
      rw [if_neg (by simp), hready]
      cases hgoes : decide (¬ ({ t with afterFree := f, world := w } : Loop ω).Full) &&
        ({ t with afterFree := f, world := w } : Loop ω).supplied r &&
        ({ t with afterFree := f, world := w } : Loop ω).due time r with
      | false =>
        exact .inl ⟨_, rfl, h.congr rfl rfl rfl, fun _ _ _ _ => rfl, fun hfull => hfull, .of_eq rfl⟩
      | true =>
        rw [Bool.and_eq_true, Bool.and_eq_true, decide_eq_true_eq] at hgoes
        have hdue : s.due time r = true := decide_eq_true (hsame ▸ not_lt.mp hlate)
        have h' : Serving time s gone (r :: (l ++ rest))
            ({ t with afterFree := f, world := w' } : Loop ω) := h.congr rfl rfl rfl
        obtain ⟨gone', hstart, hmaps, hsup⟩ := h'.start hdue env
        dsimp only
        rw [if_pos rfl, List.erase_cons_head]
        exact .inr ⟨_, gone', rfl, hstart, fun m' _ hq hl => hmaps m' hq hl,
          fun hfull => absurd hfull hgoes.1.1, hsup⟩

/-- The loop over the detached rate-limited map, and the merge. -/
theorem Serving.moveRateLimited (hst : env.Stands time)
    (h : Serving time s gone (t.maps .rateLimited ++ rest) t) :
    (∃ gone', Serving time s gone' rest (t.moveRateLimited env)) ∧
      Apart .rateLimited t (t.moveRateLimited env) := by
  let P : List ReqId × Loop ω → Prop := fun p =>
    (∃ gone', Serving time s gone' (p.1 ++ rest) p.2) ∧ Apart .rateLimited t p.2
  let Q : List ReqId × Loop ω → Prop := fun p =>
    (∃ gone', Serving time s gone' rest p.2) ∧ Apart .rateLimited t p.2
  have hround : ∀ (r : ReqId) (p : List ReqId × Loop ω), P p → p.1.head? = some r →
      (∃ p', Loop.rateLimitedRound env time r p = .done p' ∧ P p') ∨
        ∃ p', Loop.rateLimitedRound env time r p = .yield p' ∧ P p' := by
    rintro r ⟨root, u⟩ ⟨⟨gone', hserve⟩, hapart⟩ hhead
    obtain ⟨l, rfl⟩ := List.head?_eq_some_iff.mp hhead
    obtain ⟨v, hv, hserve', hapart'⟩ | ⟨v, gone'', hv, hserve', hapart'⟩ :=
      Serving.rateLimitedRound hst hserve
    · exact .inl ⟨_, hv, ⟨gone', hserve'⟩, hapart.trans hapart'⟩
    · exact .inr ⟨_, hv, ⟨gone'', hserve'⟩, hapart.trans hapart'⟩
  have hmerge : ∀ (r : ReqId) (p : List ReqId × Loop ω), Q p →
      ∃ p', mergeRound r p = .yield p' ∧ Q p' := by
    rintro r ⟨root, u⟩ ⟨⟨gone', hserve⟩, hapart⟩
    obtain ⟨f, hf⟩ := follow_eq u r
    refine ⟨_, rfl, ?_⟩
    dsimp only
    rw [hf]
    have hserve' : Serving time s gone' rest
        (({ u with afterFree := f } : Loop ω).eraseMap .rateLimited r) := hserve.congr rfl rfl rfl
    refine ⟨⟨gone', hserve'⟩, hapart.trans ⟨fun m' hm' _ _ => Function.update_of_ne hm' _ _, ?_,
      .of_eq rfl⟩⟩
    exact fun hfull => hfull
  have hstart : P (t.maps .rateLimited, ((t.setMap .rateLimited []).ask env.macroNow).2) := by
    have hserve : Serving time s gone (t.maps .rateLimited ++ rest)
        ((t.setMap .rateLimited []).ask env.macroNow).2 := h.congr rfl rfl rfl
    exact ⟨⟨gone, hserve⟩, fun m' hm' _ _ => Function.update_of_ne hm' _ _, fun hfull => hfull,
        .of_eq rfl⟩
  rw [Loop.moveRateLimited]
  dsimp only
  rw [show ((t.setMap .rateLimited []).ask env.macroNow).1 = time from hst.macroNow _]
  have hdrained : P (OrderedMap.whileFirst (fun p => p.1.head?) (Loop.rateLimitedRound env time)
      (t.maps .rateLimited).length
      (t.maps .rateLimited, ((t.setMap .rateLimited []).ask env.macroNow).2)) := by
    refine OrderedMap.whileFirst_rule (fun r p p' hp hhead hb => ?_) (fun r p p' hp hhead hb => ?_)
      hstart
    · obtain ⟨q, hq, hP⟩ | ⟨q, hq, -⟩ := hround r p hp hhead
      · obtain rfl := ForInStep.done.inj (hq.symm.trans hb)
        exact hP
      · cases hq.symm.trans hb
    · obtain ⟨q, hq, -⟩ | ⟨q, hq, hP⟩ := hround r p hp hhead
      · cases hq.symm.trans hb
      · obtain rfl := ForInStep.yield.inj (hq.symm.trans hb)
        exact hP
  generalize OrderedMap.whileFirst (fun p : List ReqId × Loop ω => p.1.head?) _ _ _ = p
    at hdrained ⊢
  obtain ⟨⟨gone', hserve⟩, hapart⟩ := hdrained
  have hmerged : Q (OrderedMap.whileFirst (fun p => (p.2.maps .rateLimited).head?) mergeRound
      (p.2.maps .rateLimited).length p) := by
    refine OrderedMap.whileFirst_rule (fun r p p' hp _ hb => ?_) (fun r p p' hp _ hb => ?_)
      ⟨⟨gone', hserve.sublist (List.sublist_append_right _ _)⟩, hapart⟩
    · obtain ⟨q, hq, -⟩ := hmerge r p hp
      cases hq.symm.trans hb
    · obtain ⟨q, hq, hQ⟩ := hmerge r p hp
      obtain rfl := ForInStep.yield.inj (hq.symm.trans hb)
      exact hQ
  generalize OrderedMap.whileFirst (fun p : List ReqId × Loop ω => (p.2.maps .rateLimited).head?)
    _ _ _ = q at hmerged ⊢
  obtain ⟨⟨gone'', hserve'⟩, hapart'⟩ := hmerged
  exact ⟨⟨gone'', hserve'.congr rfl rfl rfl⟩,
    hapart'.trans ⟨fun m' hm' _ _ => Function.update_of_ne hm' _ _, fun hfull => hfull,
        .of_eq rfl⟩⟩

/-! ### The pass -/

/-- The requests that have not had their turn may be listed in another order. -/
theorem Serving.perm (h : Serving time s gone left t) (hl : left.Perm left') :
    Serving time s gone left' t where
  untouched _ hb := h.untouched _ (hl.mem_iff.mpr hb)
  resources := h.resources
  room := h.room
  nodup := ((hl.append_left gone).nodup_iff).mp h.nodup
  subset _ hb := h.subset ((hl.append_left gone).mem_iff.mpr hb)
  due := h.due

/-- A request that is secure still has its dependencies. -/
theorem Serving.supplied_of_secure (h : Serving time s gone left t) (ha : a ∈ left)
    (hsecure : s.Secure time a) : t.supplied a = true := by
  rw [supplied, h.untouched a ha, h.resources]
  refine Resources.allReady_of_count_le (fun id => ?_) hsecure
  have hgone : gone ⊆ s.waiting.filter fun b => b ≠ a && s.due time b := by
    intro b hb
    have hne : b ≠ a := fun heq => (List.nodup_append.mp h.nodup).2.2 b hb a ha heq
    rw [List.mem_filter, Bool.and_eq_true, decide_eq_true_eq]
    exact ⟨h.subset (List.mem_append_left _ hb), hne, h.due b hb⟩
  obtain ⟨l, hperm, hsub⟩ := List.subperm_of_subset (List.nodup_append.mp h.nodup).1 hgone
  rw [← (hperm.flatMap_right s.held).count_eq id]
  exact (hsub.flatMap s.held).count_le id

/-- Whoever still waits in a map cannot be started, if the loop over the map stopped while a slot
was free. -/
theorem Serving.noneEligible {v : Loop ω} {gone' : List ReqId} (hu : Serving time s gone left u)
    (hv : Serving time s gone' left' v) (huv : u.NoneSupplied v) (hmap : v.maps m = u.maps m)
    (hsuffix : u.maps m <:+ s.maps m) (hin : u.maps m ⊆ left) (hin' : u.maps m ⊆ left')
    (horder : s.InOrder m) (hclear : (s.maps m).Pairwise fun a b =>
      s.due time a = true → s.due time b = true → s.supplied b = true → s.Secure time a)
    (hhalt : ∀ r ∈ (u.maps m).head?, Halted time s u r) (hroom : ¬ u.Full) :
    ∀ r ∈ v.maps m, ¬ v.Eligible env time r := by
  intro r hr hel
  rw [hmap] at hr
  cases hl : u.maps m with
  | nil =>
    rw [hl] at hr
    exact absurd hr List.not_mem_nil
  | cons a l =>
    have hrr : v.req r = s.req r := hv.untouched r (hin' hr)
    have hdue : s.due time r = true := by
      have hd := hel.due
      rwa [Loop.due, hrr] at hd
    have hbefore := horder.sublist hsuffix.sublist
    have hsecure := hclear.sublist hsuffix.sublist
    rw [hl] at hr hbefore hsecure hhalt
    have ha : a ∈ u.maps m := by
      rw [hl]
      exact List.mem_cons_self
    -- Whoever is behind a request that is not due is not due either.
    have hdueHead : s.due time a = true := by
      rcases List.mem_cons.mp hr with rfl | hrl
      · exact hdue
      · have hle := (List.pairwise_cons.mp hbefore).1 r hrl
        exact decide_eq_true (hle.trans (of_decide_eq_true hdue))
    have hlack : u.supplied a = false := by
      rcases hhalt a rfl with hfull | hlate | hlack
      · exact absurd hfull hroom
      · exact absurd (hlate.symm.trans hdueHead) (by simp)
      · exact hlack
    rcases List.mem_cons.mp hr with rfl | hrl
    · have hready := huv _ hel.supplied
      rw [hrr, ← hu.untouched r (hin ha)] at hready
      exact absurd (hlack.symm.trans hready) (by simp)
    · have hready : s.supplied r = true := by
        have hd := hel.supplied
        rw [Loop.supplied, hrr, hv.resources] at hd
        exact Resources.allReady_of_release hd
      have hsup := hu.supplied_of_secure (hin ha)
        ((List.pairwise_cons.mp hsecure).1 r hrl hdueHead hdue hready)
      exact absurd (hlack.symm.trans hsup) (by simp)

/-- **A pass starves nobody**, if the maps are in order and nobody obstructs them. -/
theorem noneStarved_of_arranged (hst : env.Stands time) (harranged : s.Arranged)
    (honce : s.waiting.Nodup) (h : s.Unobstructed time) :
    (s.moveInactiveRequestsToQueue env).NoneStarved env time := by
  have hbegin : Serving time s [] (s.maps .rateLimited ++ (s.maps .refresh ++ s.maps .inactive))
      s :=
    ⟨fun _ _ => rfl, rfl, rfl, honce, fun _ hb => hb, fun _ hb => absurd hb List.not_mem_nil⟩
  rw [Loop.moveInactiveRequestsToQueue]
  obtain ⟨⟨gone₀, h₀⟩, hapart₀⟩ := hbegin.moveRateLimited hst
  generalize s.moveRateLimited env = u₀ at h₀ hapart₀ ⊢
  have hrefresh : u₀.maps .refresh = s.maps .refresh :=
    hapart₀.maps .refresh (by decide) (by decide) (by decide)
  have hinactive : u₀.maps .inactive = s.maps .inactive :=
    hapart₀.maps .inactive (by decide) (by decide) (by decide)
  rw [← hrefresh, ← hinactive] at h₀
  obtain ⟨⟨⟨gone₁, h₁⟩, hsuffix₁, hapart₁⟩, hhalt₁⟩ := h₀.moveWaiting_ends hst (.inl rfl)
  generalize u₀.moveWaiting env .refresh = u₁ at h₁ hsuffix₁ hapart₁ hhalt₁ ⊢
  have hinactive₁ : u₁.maps .inactive = u₀.maps .inactive :=
    hapart₁.maps .inactive (by decide) (by decide) (by decide)
  rw [← hinactive₁] at h₁
  obtain ⟨⟨⟨gone₂, h₂⟩, hsuffix₂, hapart₂⟩, hhalt₂⟩ :=
    (h₁.perm List.perm_append_comm).moveWaiting_ends hst (.inr rfl)
  generalize u₁.moveWaiting env .inactive = u₂ at h₂ hsuffix₂ hapart₂ hhalt₂ ⊢
  have hrefresh₂ : u₂.maps .refresh = u₁.maps .refresh :=
    hapart₂.maps .refresh (by decide) (by decide) (by decide)
  by_cases hfull : u₂.Full
  · exact .inl hfull
  · have hroom₁ : ¬ u₁.Full := fun h => hfull (hapart₂.full h)
    have hroom : ¬ s.Full := fun h => hroom₁ (hapart₁.full (hapart₀.full h))
    have hclear := h.resolve_left hroom
    refine .inr fun m hm => ?_
    rcases hm with rfl | rfl
    · rw [hrefresh] at hsuffix₁
      exact h₁.noneEligible h₂ hapart₂.supplied hrefresh₂ hsuffix₁ (List.subset_append_left _ _)
        (List.subset_append_right _ _) harranged.refresh (hclear _ (.inl rfl)) hhalt₁ hroom₁
    · rw [hinactive₁, hinactive] at hsuffix₂
      exact h₂.noneEligible h₂ (.of_eq rfl) rfl hsuffix₂ (List.subset_append_left _ _)
        (List.subset_append_left _ _) harranged.inactive (hclear _ (.inr rfl)) hhalt₂ hfull

/-! ### The order of time along a path -/

theorem arranged_destroy (h : s.Arranged) (r : ReqId) : (s.curlEventRequestDestroy r).Arranged :=
  h.congr rfl fun b => (sameTerms_destroy s r b).nextRetryAt

theorem arranged_cancelledRound (h : s.Arranged) (r : ReqId) : (s.cancelledRound r).Arranged := by
  have hdrop : (s.dropFromMap (cancelledMap (s.req r)) r).Arranged := by
    refine h.of_sublist (fun m _ => ?_) fun _ _ _ _ => rfl
    change (update s.maps _ _ m).Sublist _
    rcases eq_or_ne m (cancelledMap (s.req r)) with rfl | hm
    · rw [Function.update_self]
      exact List.erase_sublist ..
    · rw [Function.update_of_ne hm]
  exact arranged_destroy hdrop r

theorem arranged_modifyReq (h : s.Arranged) (hr : s.NotWaiting r) (f : Request → Request) :
    (s.modifyReq r f).Arranged :=
  h.of_notWaiting hr rfl fun _ hb => congrArg Request.nextRetryAt (Function.update_of_ne hb _ _)

theorem arranged_parkRateLimited (h : s.Arranged) (hr : s.NotWaiting r) (due : ℕ) :
    (s.parkRateLimited r due).Arranged :=
  (arranged_modifyReq h hr fun q => q.dueAt due).insertMap .rateLimited r

theorem arranged_cancel (h : s.Arranged) (r : ReqId) : (s.curlEventLoopCancel r).2.Arranged := by
  have hmark : (s.modifyReq r Request.markCancelled).Arranged := by
    refine h.congr rfl fun b => ?_
    change (update s.req r (s.req r).markCancelled b).nextRetryAt = _
    rcases eq_or_ne b r with rfl | hb
    · rw [Function.update_self]
      rfl
    · rw [Function.update_of_ne hb]
  rw [curlEventLoopCancel]
  dsimp only
  split
  · exact h.congr rfl fun _ => rfl
  · split
    · exact hmark.congr rfl fun _ => rfl
    · exact hmark.congr rfl fun _ => rfl

theorem arranged_start (h : s.Arranged) (hr : s.NotWaiting r) (env : Env ω) :
    (s.curlEventLoopRequestStart env r).Arranged := by
  have hout := start_outcome env s r
  have hreset : ∀ w : ω, (({ s with world := w } : Loop ω).modifyReq r Request.reset).Arranged :=
    fun w => arranged_modifyReq (s := { s with world := w }) (h.congr rfl fun _ => rfl) hr _
  generalize s.curlEventLoopRequestStart env r = t at hout ⊢
  cases hout with
  | parked w due =>
    exact arranged_parkRateLimited (s := { s with world := w }) (h.congr rfl fun _ => rfl) hr due
  | refused w => exact arranged_destroy (hreset w) r
  | active w =>
    have hmaps : ∀ m, m = .inactive ∨ m = .refresh → (((({ s with world := w } : Loop ω).modifyReq r
        Request.reset).newHandle r).activate env r).maps m = s.maps m := by
      intro m hm
      have hne : m ≠ .queued := by rcases hm with rfl | rfl <;> decide
      exact Function.update_of_ne hne _ _
    refine (hreset w).of_sublist (fun m hm => ?_) fun m hm b hb => ?_
    · rw [hmaps m hm]
      exact .refl _
    · rw [hmaps m hm] at hb
      have hne : b ≠ r := by
        rintro rfl
        rcases hm with rfl | rfl
        · exact hr.1 hb
        · exact hr.2 hb
      exact congrArg Request.nextRetryAt
        ((Function.update_of_ne hne _ _).trans (Function.update_of_ne hne _ _))

theorem arranged_settle (h : s.Arranged) (hr : s.NotWaiting r) (env : Env ω) (httpCode : ℤ)
    (success : Bool) (retryIn : ℤ) : (s.settle env r httpCode success retryIn).Arranged := by
  have hout := settle_outcome env s r httpCode success retryIn
  have hwrite : ∀ (w : ω) tr n (f : Request → Request),
      (({ s with world := w, trace := tr, metrics := n } : Loop ω).modifyReq r f).Arranged :=
    fun w tr n f =>
    arranged_modifyReq (s := { s with world := w, trace := tr, metrics := n })
      (h.congr rfl fun _ => rfl) hr f
  generalize s.settle env r httpCode success retryIn = t at hout ⊢
  cases hout with
  | parked w due =>
    exact arranged_parkRateLimited (s := { s with world := w }) (h.congr rfl fun _ => rfl) hr due
  | again w tr n f =>
    have hclean : ((({ s with world := w, trace := tr, metrics := n } : Loop ω).modifyReq r
        f).curlEventLoopRequestCleanup r).Arranged :=
      (hwrite w tr n f).of_notWaiting hr rfl fun b hb =>
        congrArg Request.nextRetryAt (Function.update_of_ne hb _ _)
    exact (hclean.insertMap _ r).congr rfl fun _ => rfl
  | ended w tr n f => exact arranged_destroy (hwrite w tr n f) r

variable {W : Regime ω} {calls : ApiCall → Prop} {busy : ReqId → Prop} {held : Option ReqId}

theorem Errands.arranged (he : Errands env calls busy s t) (h : s.Arranged) : t.Arranged := by
  induction he with
  | refl => exact h
  | calm _ hc ih => exact hc.arranged ih
  | cancel r _ _ _ ih => exact arranged_cancel ih r
  | @arrives t u r c _ ha _ _ hm _ ih =>
    exact ih.of_notWaiting ⟨hm .inactive, hm .refresh⟩ ha.maps fun b hb =>
      congrArg Request.nextRetryAt (ha.others b hb)

theorem Interlude.arranged (hi : Interlude env calls held s t) (h : s.Arranged) : t.Arranged := by
  induction hi with
  | refl => exact h
  | errands _ he ih => exact he.arranged ih
  | @abort t u r _ _ _ he _ ih =>
    have htold : (t.callOnAborted env r).2.Arranged := by
      obtain ⟨w, tr, hw⟩ := callOnAborted_eq env t r
      rw [hw]
      exact ih.congr rfl fun _ => rfl
    exact arranged_destroy (he.arranged htold) r

/-- **The maps stay in the order of time.** -/
theorem Path.arranged (hp : Path env W s t) (h : s.Arranged) : t.Arranged := by
  induction hp with
  | refl => exact h
  | interlude _ hi ih => exact hi.arranged ih
  | drop r _ _ _ _ _ _ ih => exact arranged_cancelledRound ih r
  | discard r _ _ _ ih => exact arranged_destroy ih r
  | start r _ hr _ _ ih => exact arranged_start ih hr.notWaiting env
  | @complete t u m a _ _ _ _ _ hi hu ih =>
    have hheard : (t.hear env m a.priv).2.2.Arranged := by
      obtain ⟨w, tr, hw⟩ := hear_eq env t m a.priv
      rw [hw]
      refine ih.of_sublist (fun m' hm => ?_) fun _ _ _ _ => rfl
      have hne : m' ≠ .queued := by rcases hm with rfl | rfl <;> decide
      change (update t.maps .queued _ m').Sublist (t.maps m')
      rw [Function.update_of_ne hne]
    exact arranged_settle (hi.arranged hheard) hu.notWaiting env _ _ _
  | @injected t u r _ _ hi _ ih =>
    have htold : (if (t.req r).onComplete then (t.tellComplete env r).2.2 else t).Arranged := by
      split
      · obtain ⟨w, tr, hw⟩ := tellComplete_eq env t r
        rw [hw]
        exact ih.congr rfl fun _ => rfl
      · exact ih
    exact arranged_destroy (hi.arranged htold) r

/-! ### Runs -/

theorem AtRest.nodup_waiting {strict : Prop} (h : s.AtRest strict) : s.waiting.Nodup := by
  have hnodup : ∀ m, (s.maps m).Nodup := fun m =>
    List.nodup_iff_count_le_one.mpr fun r => by
      by_cases hr : r ∈ s.maps m
      · exact List.nodup_iff_count_le_one.mp (h.mapped hr).2.1 r
      · rw [List.count_eq_zero.mpr hr]
        exact Nat.zero_le 1
  have hother : ∀ {m m' : MapId}, m' ≠ m → ∀ a ∈ s.maps m, ∀ b ∈ s.maps m', a ≠ b := by
    rintro m m' hm a ha b hb rfl
    exact (h.mapped ha).2.2.1 m' hm hb
  refine List.nodup_append.mpr ⟨hnodup _, List.nodup_append.mpr ⟨hnodup _, hnodup _,
    hother (by decide)⟩, fun a ha b hb => ?_⟩
  rcases List.mem_append.mp hb with hb | hb
  · exact hother (by decide) a ha b hb
  · exact hother (by decide) a ha b hb

/-- The loop is not destroyed, and the step meets no hazard but a resource freed while requests wait
for it. -/
def StaysAtRest (p : Platform) (env : Env ω) : RatedAction → Loop (RatedWorld ω) → Prop
  | .act a, s => a ≠ .destroy ∧ ∀ x ∈ (act (env.rated p) a s).hazards, x.IsAbandoned
  | .limits _, _ => True

instance (p : Platform) (env : Env ω) (a : RatedAction) (s : Loop (RatedWorld ω)) :
    Decidable (StaysAtRest p env a s) :=
  match a with
  | .act _ => inferInstanceAs (Decidable (_ ∧ _))
  | .limits _ => inferInstanceAs (Decidable True)

/-- What a run keeps. -/
structure Ranked (s : Loop ω) : Prop where
  atRest : s.AtRest False
  arranged : s.Arranged

theorem ranked_init (mem : Memory) (world : ω) : (curlEventLoopInit mem world).Ranked :=
  ⟨(runInvariant_init mem world).atRest, List.Pairwise.nil, List.Pairwise.nil⟩

theorem Ranked.ratedAct {s : Loop (RatedWorld ω)} {p : Platform} {env : Env ω} {a : RatedAction}
    (h : s.Ranked) (ha : StaysAtRest p env a s) : (Loop.ratedAct p env a s).Ranked := by
  cases a with
  | act a =>
    have hspared : (Loop.act (env.rated p) a s).Spared False := .of_abandoned ha.2
    exact ⟨h.atRest.act ha.1 hspared,
      (h.atRest.path_act (watched_anything ha.1) hspared).arranged h.arranged⟩
  | limits c =>
    obtain ⟨v, C, hwf, hv⟩ := h.atRest
    exact ⟨⟨v, C, ⟨hwf.located, hwf.marked⟩, hv⟩, h.arranged.congr rfl fun _ => rfl⟩

/-- **Nobody is starved** by a pass, in any state of a run and at any time, unless a due request
that lacks a dependency, or may lose it, stands in front of one that could be started. -/
theorem noneStarved_of_unobstructed (p : Platform) (env : Env ω) (mem : Memory) (world : ω)
    (as : List RatedAction) (has : Guarded.Allowed (ratedAct p env) (StaysAtRest p env)
      (curlEventLoopInit mem ⟨none, world, none, []⟩) as) (time : ℕ)
    (h : (Guarded.run (ratedAct p env) (curlEventLoopInit mem ⟨none, world, none, []⟩)
      as).Unobstructed time) :
    ((Guarded.run (ratedAct p env) (curlEventLoopInit mem ⟨none, world, none, []⟩)
      as).moveInactiveRequestsToQueue ((env.stoppedAt time).rated p)).NoneStarved
        ((env.stoppedAt time).rated p) time := by
  have hranked := has.invariant (P := Ranked) (fun _ _ hs ha => hs.ratedAct ha) (ranked_init mem _)
  exact noneStarved_of_arranged (Env.stands_rated p env time) hranked.arranged
    hranked.atRest.nodup_waiting h

/-- A resource is registered from another thread, and request 1 depends on it. The transfers of
requests 1 and 2 fail and are to be tried again after a second. -/
theorem noneStarved_of_unobstructed_retried :
    let env : Env Unit := { Env.uneventful with onFailure := fun _ _ _ _ _ => (⟨1, []⟩, ()) }
    ((Guarded.run (ratedAct .saturating env) (curlEventLoopInit
      (Memory.plain fun r => if r = 1 then [1] else []) ⟨none, (), none, []⟩)
      [.act (.call (.api (.registerAsync 0 (some 9) true))), .act (.call (.api (.submit 1 0))),
        .act .processCancelledAndPendingRequests, .act .takeInbox,
        .act (.applyOp ⟨.register, 1, some 9, true, 0⟩), .act (.call (.api (.submit 2 0))),
        .act .processCancelledAndPendingRequests,
        .act (.processCompletedRequests [⟨1, .other 7, 0⟩, ⟨0, .other 7, 0⟩])]
      ).moveInactiveRequestsToQueue ((env.stoppedAt 2000000000).rated .saturating)).NoneStarved
        ((env.stoppedAt 2000000000).rated .saturating) 2000000000 := by
  intro env
  refine noneStarved_of_unobstructed .saturating env _ () _ (by decide +kernel) 2000000000
    (.inr fun m hm => ?_)
  rcases hm with rfl | rfl
  · decide +kernel
  · decide +kernel

/-- The owner lets the resource go while the transfers run. The reference of request 1 was the only
one, so the node is freed, and request 1 stands in front of request 2, which needs nothing. -/
theorem not_noneStarved_released :
    let env : Env Unit := { Env.uneventful with onFailure := fun _ _ _ _ _ => (⟨1, []⟩, ()) }
    ¬ ((Guarded.run (ratedAct .saturating env) (curlEventLoopInit
      (Memory.plain fun r => if r = 1 then [1] else []) ⟨none, (), none, []⟩)
      [.act (.call (.api (.registerAsync 0 (some 9) true))), .act (.call (.api (.submit 1 0))),
        .act .processCancelledAndPendingRequests, .act .takeInbox,
        .act (.applyOp ⟨.register, 1, some 9, true, 0⟩), .act (.call (.api (.submit 2 0))),
        .act .processCancelledAndPendingRequests, .act (.call (.release 1)),
        .act (.processCompletedRequests [⟨1, .other 7, 0⟩, ⟨0, .other 7, 0⟩])]
      ).moveInactiveRequestsToQueue ((env.stoppedAt 2000000000).rated .saturating)).NoneStarved
        ((env.stoppedAt 2000000000).rated .saturating) 2000000000 := by
  rintro env (hfull | hnone)
  · exact absurd hfull (by decide +kernel)
  · refine hnone .inactive (.inr rfl) 2 (by decide +kernel)
      ⟨by decide +kernel, by decide +kernel, ?_⟩
    rw [Allowed]
    decide +kernel

end Loop

end CurlLoop
