import CurlLoop.Completion

/-!
# The counters of the maps

`num_queued_requests`, `num_inactive_requests` and `num_refresh_requests` are kept by hand, next to
every insertion and erasure. The *offset* of a map is what its counter says too much. Most
functions touch no map (`Loop.SameMaps`), and those that move a request between maps keep every
offset. Two steps can change one: taking a finished request out of the active map, which is in
order when the request is in it, and taking a cancelled request out of the map its fields name.
If it is not there the offset falls by one, and nothing ever raises it again.

## Main definitions

* `Loop.offset`, `Loop.Counted` — the counters, and that they are right
* `Loop.SameMaps` — maps and counters are the same

## Main results

* `offset_pendingRound`, `offset_cancelledRound` — the rounds of the first pass
* `offset_moveInactiveRequestsToQueue`, `Resting.offset_processCompletedRequests` — the other passes
-/

namespace CurlLoop

open Function (update)

namespace Loop

variable {ω : Type} {s t u : Loop ω} {v v' : View} {C : List ReqId} {r : ReqId} {m : MapId}
  {env : Env ω}

/-- What the counter of a map says too much. The rate-limited map has no counter. -/
def offset (s : Loop ω) (m : MapId) : ℤ :=
  if m = .rateLimited then 0 else s.num m - (s.maps m).length

/-- The counters are right. -/
def Counted (s : Loop ω) : Prop := ∀ m, m ≠ .rateLimited → s.num m = (s.maps m).length

instance (s : Loop ω) : Decidable s.Counted :=
  decidable_of_iff (s.num .queued = (s.maps .queued).length ∧
    s.num .inactive = (s.maps .inactive).length ∧ s.num .refresh = (s.maps .refresh).length)
    ⟨fun h m hm => by cases m <;> simp_all, fun h => ⟨h _ (by simp), h _ (by simp), h _ (by simp)⟩⟩

theorem counted_iff_offset : s.Counted ↔ ∀ m, s.offset m = 0 := by
  constructor
  · intro h m
    rw [offset]
    split
    · rfl
    · rename_i hm
      rw [h m hm, sub_self]
  · intro h m hm
    have h0 := h m
    rw [offset, if_neg hm] at h0
    exact sub_eq_zero.mp h0

theorem Counted.of_offset (h : s.Counted) (ht : t.offset = s.offset) : t.Counted := by
  rw [counted_iff_offset] at h ⊢
  rw [ht]
  exact h

/-! ### Functions that touch no map -/

/-- The maps and the counters are the same. -/
structure SameMaps (s t : Loop ω) : Prop where
  maps : t.maps = s.maps
  num : t.num = s.num

theorem SameMaps.refl (s : Loop ω) : SameMaps s s := ⟨rfl, rfl⟩

theorem SameMaps.trans (h : SameMaps s t) (h' : SameMaps t u) : SameMaps s u :=
  ⟨h'.maps.trans h.maps, h'.num.trans h.num⟩

theorem SameMaps.offset (h : SameMaps s t) : t.offset = s.offset := by
  funext m
  unfold Loop.offset
  rw [h.maps, h.num]

theorem sameMaps_follow (s : Loop ω) (r : ReqId) : SameMaps s (s.follow r) := by
  rw [follow]
  split <;> exact ⟨rfl, rfl⟩

theorem sameMaps_destroy (s : Loop ω) (r : ReqId) : SameMaps s (s.curlEventRequestDestroy r) :=
  ⟨rfl, rfl⟩

theorem sameMaps_blockRequestOnRes (s : Loop ω) (n : Res) (r : ReqId) :
    SameMaps s (s.blockRequestOnRes n r) := by
  rw [blockRequestOnRes]
  cases n.blockedTail <;> exact ⟨rfl, rfl⟩

theorem sameMaps_checkAndBlockList (r : ReqId) (deps : List ResId) (s : Loop ω) :
    SameMaps s (s.curlResourceCheckAndBlockList r deps).2 := by
  have hblock : ∀ (s : Loop ω) id, SameMaps s (s.curlResourceBlockOnId r id).2 := by
    intro s id
    rw [curlResourceBlockOnId]
    dsimp only
    split
    · exact ⟨(sameMaps_blockRequestOnRes _ _ r).maps, (sameMaps_blockRequestOnRes _ _ r).num⟩
    · exact ⟨rfl, rfl⟩
  induction deps generalizing s with
  | nil => exact .refl s
  | cons id deps ih =>
    rw [curlResourceCheckAndBlockList]
    dsimp only
    split
    · exact hblock s id
    · exact (hblock s id).trans (ih _)

theorem sameMaps_setupCurlHandle (env : Env ω) (s : Loop ω) (r : ReqId) :
    SameMaps s (s.setupCurlHandle env r).2 := by
  rw [setupCurlHandle]
  dsimp only
  split <;> split <;> try exact ⟨rfl, rfl⟩
  all_goals (split <;> exact ⟨rfl, rfl⟩)

theorem sameMaps_retainDepsOnce (s : Loop ω) (r : ReqId) : SameMaps s (s.retainDepsOnce r) := by
  unfold retainDepsOnce
  dsimp only
  split <;> exact ⟨rfl, rfl⟩

theorem sameMaps_apiCall (env : Env ω) (s : Loop ω) (c : ApiCall) :
    SameMaps s (s.apiCall env c) := by
  cases c with
  | submit r priority =>
    show SameMaps s (s.curlEventRequestSubmit env r priority).2
    rw [curlEventRequestSubmit]
    dsimp only
    split
    · exact .refl s
    · split
      · exact .refl s
      · exact ⟨rfl, rfl⟩
  | cancel r =>
    show SameMaps s (s.curlEventLoopCancel r).2
    rw [curlEventLoopCancel]
    dsimp only
    split
    · exact ⟨rfl, rfl⟩
    · split <;> exact ⟨rfl, rfl⟩
  | _ => exact ⟨rfl, rfl⟩

theorem sameMaps_apiCalls (env : Env ω) (cs : List ApiCall) (s : Loop ω) :
    SameMaps s (s.apiCalls env cs) := by
  induction cs generalizing s with
  | nil => exact .refl s
  | cons c cs ih => exact (sameMaps_apiCall env s c).trans (ih _)

theorem sameMaps_wakeOrFail (env : Env ω) (failed : Bool) (r : ReqId) (s : Loop ω) :
    SameMaps s (s.wakeOrFail env failed r) := by
  rw [wakeOrFail]
  dsimp only
  split
  · obtain ⟨w, tr, heq⟩ := callOnAborted_eq env (s.setNextPending r none) r
    have h := sameMaps_apiCalls env ((s.setNextPending r none).callOnAborted env r).1
      ((s.setNextPending r none).callOnAborted env r).2
    rw [heq] at h ⊢
    exact ⟨h.maps, h.num⟩
  · exact ⟨rfl, rfl⟩

theorem sameMaps_publish (env : Env ω) (s : Loop ω) (id : ResId) (p : Option Payload) (c : Bool) :
    SameMaps s (s.curlEventResPublish env id p c) :=
  Intrusive.forEach_invariant (P := SameMaps s)
    (fun r t ht => ht.trans ((sameMaps_follow t r).trans (sameMaps_wakeOrFail env _ r _)))
    ⟨rfl, rfl⟩

theorem sameMaps_call (env : Env ω) (s : Loop ω) (c : Call) : SameMaps s (s.call env c) := by
  cases c with
  | api c => exact sameMaps_apiCall env s c
  | register p c =>
    have h := sameMaps_publish env s.curlEventResDeclare.2 s.curlEventResDeclare.1 p c
    exact ⟨h.maps, h.num⟩
  | publish id p c => exact sameMaps_publish env s id p c
  | _ => exact ⟨rfl, rfl⟩

theorem sameMaps_calls (env : Env ω) (cs : List Call) (s : Loop ω) :
    SameMaps s (s.calls env cs) := by
  induction cs generalizing s with
  | nil => exact .refl s
  | cons c cs ih => exact (sameMaps_call env s c).trans (ih _)

theorem sameMaps_applyOp (env : Env ω) (s : Loop ω) (op : ResOp) :
    SameMaps s (s.applyOp env op) := by
  have h := fun id p c => sameMaps_publish env { s with applied := op :: s.applied } id p c
  unfold applyOp
  dsimp only
  cases op.kind with
  | release => exact ⟨rfl, rfl⟩
  | _ => exact ⟨(h _ _ _).maps, (h _ _ _).num⟩

theorem sameMaps_callOnComplete (env : Env ω) (s : Loop ω) (r : ReqId) :
    SameMaps s (s.callOnComplete env r).2 := by
  obtain ⟨w, tr, cs, heq⟩ := callOnComplete_eq env s r
  rw [heq]
  exact ⟨(sameMaps_calls env cs _).maps, (sameMaps_calls env cs _).num⟩

theorem sameMaps_callOnFailure (env : Env ω) (s : Loop ω) (r : ReqId) (easy : EasyId)
    (code : CurlCode) (httpCode : ℤ) :
    SameMaps s (s.callOnFailure env r easy code httpCode).2 := by
  obtain ⟨w, tr, cs, heq⟩ := callOnFailure_eq env s r easy code httpCode
  rw [heq]
  exact ⟨(sameMaps_calls env cs _).maps, (sameMaps_calls env cs _).num⟩

theorem sameMaps_callOnRetry (env : Env ω) (s : Loop ω) (r : ReqId) :
    SameMaps s (s.callOnRetry env r).2 := by
  rw [callOnRetry]
  split
  · exact ⟨rfl, rfl⟩
  · rw [defaultCalculateRetryEnhanced]
    dsimp only
    split <;> exact ⟨rfl, rfl⟩
  · exact ⟨rfl, rfl⟩

/-! ### Insertions and erasures -/

theorem offset_setMap_rateLimited (s : Loop ω) (map : List ReqId) :
    (s.setMap .rateLimited map).offset = s.offset := by
  funext m
  unfold offset
  split
  · rfl
  · rename_i hm
    show s.num m - (update s.maps .rateLimited map m).length = _
    rw [Function.update_of_ne hm]

/-- A counted insertion. -/
theorem offset_insertMap (s : Loop ω) (m : MapId) (r : ReqId) :
    ((s.insertMap m r).addNum m 1).offset = s.offset := by
  funext m'
  unfold offset
  split
  · rfl
  · show update s.num m (s.num m + 1) m' - (update s.maps m (s.requestInsert r (s.maps m)) m').length
      = _
    rcases eq_or_ne m' m with rfl | hm
    · rw [Function.update_self, Function.update_self, requestInsert,
        OrderedMap.length_insertMulti]
      push_cast
      omega
    · rw [Function.update_of_ne hm, Function.update_of_ne hm]

/-- A counted erasure. -/
theorem offset_eraseMap (hr : r ∈ s.maps m) :
    ((s.eraseMap m r).addNum m (-1)).offset = s.offset := by
  funext m'
  unfold offset
  split
  · rfl
  · show update s.num m (s.num m + -1) m' - (update s.maps m ((s.maps m).erase r) m').length = _
    rcases eq_or_ne m' m with rfl | hm
    · rw [Function.update_self, Function.update_self, List.length_erase_of_mem hr]
      have := List.length_pos_of_mem hr
      omega
    · rw [Function.update_of_ne hm, Function.update_of_ne hm]

/-- An erasure that was counted and took nothing out. -/
theorem offset_eraseMap_of_notMem (hr : r ∉ s.maps m) (hm : m ≠ .rateLimited) :
    ((s.eraseMap m r).addNum m (-1)).offset = update s.offset m (s.offset m - 1) := by
  funext m'
  rcases eq_or_ne m' m with rfl | hne
  · rw [Function.update_self, offset, if_neg hm, offset, if_neg hm]
    show update s.num m' (s.num m' + -1) m' - (update s.maps m' ((s.maps m').erase r) m').length = _
    rw [Function.update_self, Function.update_self, List.erase_of_not_mem hr]
    omega
  · rw [Function.update_of_ne hne]
    unfold offset
    split
    · rfl
    · show update s.num m (s.num m + -1) m' - (update s.maps m ((s.maps m).erase r) m').length = _
      rw [Function.update_of_ne hne, Function.update_of_ne hne]

theorem offset_parkRateLimited (s : Loop ω) (r : ReqId) (due : ℕ) :
    (s.parkRateLimited r due).offset = s.offset :=
  (offset_setMap_rateLimited _ _).trans (SameMaps.offset ⟨rfl, rfl⟩)

theorem offset_enqueueRequest (s : Loop ω) (r : ReqId) :
    (s.enqueueRequest r).offset = s.offset := offset_insertMap s _ r

theorem offset_activate (env : Env ω) (s : Loop ω) (r : ReqId) :
    (s.activate env r).offset = s.offset :=
  (offset_insertMap _ .queued r).trans (SameMaps.offset ⟨rfl, rfl⟩)

theorem offset_start (env : Env ω) (s : Loop ω) (r : ReqId) :
    (s.curlEventLoopRequestStart env r).offset = s.offset := by
  have main : ∀ t : Loop ω, (if (t.setupCurlHandle env r).1 then
      (t.setupCurlHandle env r).2.activate env r
      else (t.setupCurlHandle env r).2.curlEventRequestDestroy r).offset = t.offset := by
    intro t
    have hset := (sameMaps_setupCurlHandle env t r).offset
    split
    · exact (offset_activate env _ r).trans hset
    · exact (sameMaps_destroy _ r).offset.trans hset
  rw [curlEventLoopRequestStart]
  dsimp only
  cases (s.req r).rateLimit with
  | none => exact main s
  | some key =>
    dsimp only
    split
    · exact (offset_parkRateLimited _ r _).trans (SameMaps.offset ⟨rfl, rfl⟩)
    · exact (main _).trans (SameMaps.offset ⟨rfl, rfl⟩)

/-! ### The rounds of the first pass -/

theorem offset_schedulePending (env : Env ω) (s : Loop ω) (r : ReqId) :
    (s.schedulePending env r).offset = s.offset := by
  have hwait := ((sameMaps_retainDepsOnce s r).trans (sameMaps_checkAndBlockList r
    ((s.retainDepsOnce r).req r).depHead (s.retainDepsOnce r))).offset
  rw [schedulePending, requestWaitingOnDependencies]
  dsimp only
  split
  · exact hwait
  · rw [← hwait]
    generalize ((s.retainDepsOnce r).curlResourceCheckAndBlockList r
      ((s.retainDepsOnce r).req r).depHead).2 = t
    obtain ⟨w, hw⟩ := requestReady_eq env t r
    have hask : ({ t with world := w } : Loop ω).offset = t.offset := SameMaps.offset ⟨rfl, rfl⟩
    rw [hw]
    split
    · exact (offset_start env _ r).trans hask
    · exact (offset_enqueueRequest _ r).trans hask

/-- A round over the pending list. -/
theorem offset_pendingRound (env : Env ω) (r : ReqId) (s : Loop ω) :
    (s.pendingRound env r).offset = s.offset := by
  have hpre : ((s.modifyReq r fun q => q.setPending false).setNextPending r none).offset =
      s.offset := SameMaps.offset ⟨rfl, rfl⟩
  unfold pendingRound
  dsimp only
  split
  · exact (sameMaps_destroy _ r).offset.trans hpre
  · exact (offset_schedulePending env _ r).trans hpre

theorem offset_walkPending (env : Env ω) (head : Option ReqId) (s : Loop ω) :
    (s.forEachPending head (pendingRound env)).offset = s.offset :=
  Intrusive.forEach_invariant (P := fun t : Loop ω => t.offset = s.offset)
    (fun r t ht => (offset_pendingRound env r _).trans ((sameMaps_follow t r).offset.trans ht)) rfl

theorem cancelledMap_ne (q : Request) : cancelledMap q ≠ .rateLimited := by
  rw [cancelledMap, waitingMap]
  split
  · simp
  · split <;> simp

/-- A round over the cancelled list, when the request is in the map its fields name. -/
theorem offset_cancelledRound (hr : s.Mapped r) : (s.cancelledRound r).offset = s.offset := by
  have hsame : SameMaps ((s.eraseMap (cancelledMap (s.req r)) r).addNum (cancelledMap (s.req r))
      (-1)) (s.cancelledRound r) := 
    SameMaps.trans (t := s.dropFromMap (cancelledMap (s.req r)) r) ⟨rfl, rfl⟩ (sameMaps_destroy _ r)
  exact hsame.offset.trans (offset_eraseMap hr)

/-- A round over the cancelled list, when it is not. -/
theorem offset_cancelledRound_of_not (hr : ¬ s.Mapped r) : (s.cancelledRound r).offset =
    update s.offset (cancelledMap (s.req r)) (s.offset (cancelledMap (s.req r)) - 1) := by
  have hsame : SameMaps ((s.eraseMap (cancelledMap (s.req r)) r).addNum (cancelledMap (s.req r))
      (-1)) (s.cancelledRound r) := 
    SameMaps.trans (t := s.dropFromMap (cancelledMap (s.req r)) r) ⟨rfl, rfl⟩ (sameMaps_destroy _ r)
  exact hsame.offset.trans (offset_eraseMap_of_notMem hr (cancelledMap_ne _))

/-! ### The other passes -/

theorem offset_rateLimitedRound {now : ℕ} {p q : List ReqId × Loop ω}
    (hq : rateLimitedRound env now r p = .done q ∨ rateLimitedRound env now r p = .yield q) :
    q.2.offset = p.2.offset := by
  have hask : ∀ w, ({ p.2.follow r with world := w } : Loop ω).offset = p.2.offset := fun w =>
    (SameMaps.offset (s := p.2.follow r) ⟨rfl, rfl⟩).trans (sameMaps_follow p.2 r).offset
  obtain ⟨w, hw⟩ | ⟨w, due, hw⟩ | ⟨w, hw⟩ := rateLimitedRound_cases env now r p.1 p.2
  · obtain rfl : q = (p.1, { p.2.follow r with world := w }) := by simpa [hw, eq_comm] using hq
    exact hask w
  · obtain rfl : q = (p.1.erase r,
        ({ p.2.follow r with world := w } : Loop ω).parkRateLimited r due) := by
      simpa only [hw, reduceCtorEq, false_or, ForInStep.yield.injEq, eq_comm] using hq
    exact (offset_parkRateLimited _ r due).trans (hask w)
  · obtain rfl : q = (p.1.erase r,
        ({ p.2.follow r with world := w } : Loop ω).curlEventLoopRequestStart env r) := by
      simpa only [hw, reduceCtorEq, false_or, ForInStep.yield.injEq, eq_comm] using hq
    exact (offset_start env _ r).trans (hask w)

theorem offset_moveRateLimited (env : Env ω) (s : Loop ω) :
    (s.moveRateLimited env).offset = s.offset := by
  have h1 := fun n => OrderedMap.whileFirst_rule
    (g := fun p : List ReqId × Loop ω => p.1.head?)
    (f := rateLimitedRound env (env.macroNow s.world).1) (P := fun p => p.2.offset = s.offset)
    (fun r p p' hp _ hb => (offset_rateLimitedRound (.inl hb)).trans hp)
    (fun r p p' hp _ hb => (offset_rateLimitedRound (.inr hb)).trans hp) (n := n)
    (s := (s.maps .rateLimited, ((s.setMap .rateLimited []).ask env.macroNow).2))
    ((SameMaps.offset ⟨rfl, rfl⟩).trans (offset_setMap_rateLimited s []))
  have h2 := fun n n' => OrderedMap.whileFirst_rule
    (g := fun p : List ReqId × Loop ω => (p.2.maps .rateLimited).head?)
    (f := mergeRound) (P := fun p => p.2.offset = s.offset)
    (fun r p p' _ _ hb => by simp [mergeRound] at hb)
    (fun r p p' hp _ hb => by
      obtain rfl := ForInStep.yield.inj hb
      exact (offset_setMap_rateLimited _ _).trans ((sameMaps_follow p.2 r).offset.trans hp))
    (n := n') (h1 n)
  rw [moveRateLimited]
  exact (offset_setMap_rateLimited _ _).trans (h2 _ _)

theorem offset_waitingRound (hm : m ≠ .rateLimited) (hr : (s.maps m).head? = some r)
    (ht : waitingRound env m r s = .done t ∨ waitingRound env m r s = .yield t) :
    t.offset = s.offset := by
  have hask : ∀ w, ({ s.follow r with world := w } : Loop ω).offset = s.offset := fun w =>
    (SameMaps.offset (s := s.follow r) ⟨rfl, rfl⟩).trans (sameMaps_follow s r).offset
  have hmem : ∀ w, r ∈ ({ s.follow r with world := w } : Loop ω).maps m := by
    intro w
    show r ∈ (s.follow r).maps m
    rw [maps_follow]
    exact List.mem_of_head? hr
  obtain ⟨w, hw⟩ | ⟨w, due, hw⟩ | ⟨w, hw⟩ := waitingRound_cases env hm r s
  · obtain rfl : t = { s.follow r with world := w } := by simpa [hw, eq_comm] using ht
    exact hask w
  · obtain rfl : t = ((({ s.follow r with world := w } : Loop ω).eraseMap m r).parkRateLimited r
        due).addNum m (-1) := by
      simpa only [hw, reduceCtorEq, false_or, ForInStep.yield.injEq, eq_comm] using ht
    -- the counter may as well be lowered before the request is parked
    exact (offset_parkRateLimited ((({ s.follow r with world := w } : Loop ω).eraseMap m r).addNum m
      (-1)) r due).trans ((offset_eraseMap (hmem w)).trans (hask w))
  · obtain rfl : t = ((({ s.follow r with world := w } : Loop ω).eraseMap m r).addNum m
        (-1)).curlEventLoopRequestStart env r := by
      simpa only [hw, reduceCtorEq, false_or, ForInStep.yield.injEq, eq_comm] using ht
    exact (offset_start env _ r).trans ((offset_eraseMap (hmem w)).trans (hask w))

theorem offset_moveWaiting (env : Env ω) (hm : m ≠ .rateLimited) (s : Loop ω) :
    (s.moveWaiting env m).offset = s.offset :=
  OrderedMap.whileFirst_rule (P := fun t : Loop ω => t.offset = s.offset)
    (fun _ _ _ ht hr hb => (offset_waitingRound hm hr (.inl hb)).trans ht)
    (fun _ _ _ ht hr hb => (offset_waitingRound hm hr (.inr hb)).trans ht) rfl

theorem offset_moveInactiveRequestsToQueue (env : Env ω) (s : Loop ω) :
    (s.moveInactiveRequestsToQueue env).offset = s.offset :=
  (offset_moveWaiting env (by simp) _).trans
    ((offset_moveWaiting env (by simp) _).trans (offset_moveRateLimited env s))

theorem offset_finish (s : Loop ω) (r : ReqId) (success : Bool) :
    (s.finish r success).offset = s.offset := by
  have main : ∀ t : Loop ω, SameMaps s t → (if (t.req r).shouldRefresh then
      ((t.modifyReq r fun q => { q with currentRetries := 0 }).curlEventLoopRequestCleanup
        r).enqueueRequest r
      else t.curlEventRequestDestroy r).offset = s.offset := by
    intro t ht
    split
    · exact (offset_enqueueRequest _ r).trans (SameMaps.offset (ht.trans ⟨rfl, rfl⟩))
    · exact (sameMaps_destroy t r).offset.trans ht.offset
  unfold finish
  dsimp only
  cases success with
  | true => exact main s.countCompleted ⟨rfl, rfl⟩
  | false => exact main s (.refl s)

theorem offset_reschedule (env : Env ω) (s : Loop ω) (r : ReqId) (success : Bool) (retryIn : ℤ) :
    (s.reschedule env r success retryIn).offset = s.offset := by
  have main : ∀ p : Bool × Loop ω, SameMaps s p.2 → (if p.1 then
      (p.2.curlEventLoopRequestCleanup r).countRetried.enqueueRequest r
      else p.2.finish r success).offset = s.offset := by
    intro p hp
    split
    · exact (offset_enqueueRequest _ r).trans (SameMaps.offset (hp.trans ⟨rfl, rfl⟩))
    · exact (offset_finish p.2 r success).trans hp.offset
  rw [reschedule]
  split
  · exact (offset_enqueueRequest _ r).trans (SameMaps.offset ⟨rfl, rfl⟩)
  · refine main (if retryIn < 0 then s.callOnRetry env r else (false, s)) ?_
    split
    · exact sameMaps_callOnRetry env s r
    · exact .refl s

theorem offset_settle (env : Env ω) (s : Loop ω) (r : ReqId) (httpCode : ℤ) (success : Bool)
    (retryIn : ℤ) : (s.settle env r httpCode success retryIn).offset = s.offset := by
  rw [settle]
  cases (s.req r).rateLimit with
  | none => exact offset_reschedule env s r success retryIn
  | some key =>
    dsimp only
    split
    · exact (offset_parkRateLimited _ r _).trans (SameMaps.offset ⟨rfl, rfl⟩)
    · exact (offset_reschedule env _ r success retryIn).trans (SameMaps.offset ⟨rfl, rfl⟩)

/-- A finished request is taken out of the active map, in which it is. -/
theorem offset_receive {msg : Message} (hr : r ∈ s.maps .queued) :
    (s.receive env msg r).2.offset = s.offset := by
  have hfollow : SameMaps s ((s.reportMessage msg.easy).follow r) :=
    SameMaps.trans (t := s.reportMessage msg.easy) ⟨rfl, rfl⟩ (sameMaps_follow _ r)
  have herase := offset_eraseMap (s := (s.reportMessage msg.easy).follow r) (r := r)
    (m := .queued) (by
      rw [hfollow.maps]
      exact hr)
  unfold receive
  dsimp only
  split
  · exact (sameMaps_callOnComplete env _ r).offset.trans (herase.trans hfollow.offset)
  · exact (sameMaps_callOnFailure env _ r _ _ _).offset.trans (herase.trans hfollow.offset)

theorem Resting.offset_completedRound (h : s.Resting) (msg : Message) :
    (s.completedRound env msg).offset = s.offset := by
  obtain ⟨v, C, hwf, hv⟩ := h
  rw [Loop.completedRound]
  cases ha : s.transferOf msg with
  | none => rfl
  | some a =>
    refine (offset_settle env _ a.priv _ _ _).trans (offset_receive ?_)
    rw [hwf.located.maps]
    exact hwf.mem_queued_of_transferOf ha

theorem offset_processInjected (env : Env ω) (s : Loop ω) :
    (s.processInjected env).offset = s.offset := by
  refine Intrusive.forEach_invariant (P := fun t : Loop ω => t.offset = s.offset)
    (fun r t ht => ?_) (SameMaps.offset ⟨rfl, rfl⟩)
  have hfollow := (sameMaps_follow t r).offset.trans ht
  show (Loop.injectedRound env r (t.follow r)).offset = _
  unfold injectedRound
  dsimp only
  split
  · exact (sameMaps_destroy _ r).offset.trans
      ((sameMaps_callOnComplete env _ r).offset.trans hfollow)
  · exact (sameMaps_destroy _ r).offset.trans hfollow

theorem Resting.offset_processCompletedRequests (h : s.Resting) {msgs : List Message}
    (hz : (s.processCompletedRequests env msgs).hazards = []) :
    (s.processCompletedRequests env msgs).offset = s.offset := by
  have hz' : (msgs.foldl (fun s m => s.completedRound env m) s).hazards = [] :=
    (evolves_processInjected env _).hazards_eq_nil hz
  refine (offset_processInjected env _).trans ?_
  clear hz
  induction msgs generalizing s with
  | nil => rfl
  | cons msg msgs ih =>
    have hmono := (evolves_foldl (fun s m => evolves_completedRound env s m) msgs
      (s.completedRound env msg)).hazards_eq_nil hz'
    exact (ih (h.completedRound msg hmono) hz').trans (h.offset_completedRound msg)

/-- The first pass, when it meets no hazard. -/
theorem offset_processCancelledAndPendingRequests
    (hz : (s.processCancelledAndPendingRequests env).hazards = []) :
    (s.processCancelledAndPendingRequests env).offset = s.offset := by
  have hz' := (evolves_forEachPending (q := False) (evolves_pendingRound env) _ _).hazards_eq_nil hz
  refine (offset_walkPending env _ _).trans ?_
  refine Intrusive.forEach_invariant (P := fun t : Loop ω => t.hazards = [] → t.offset = s.offset)
    (fun r t ht hz => ?_) (fun _ => SameMaps.offset ⟨rfl, rfl⟩) hz'
  have hround := (evolves_cancelledRound r (t.follow r)).hazards_eq_nil hz
  have hmapped : (t.follow r).Mapped r := by
    have hbeware := (evolves_destroy (q := False) _ r).hazards_eq_nil hz
    exact not_not.mp ((Spared.of_nil hbeware).not_of_beware (by simp))
  exact (offset_cancelledRound hmapped).trans ((sameMaps_follow t r).offset.trans
    (ht ((hazards_follow t r).symm.trans hround)))

end Loop

end CurlLoop
