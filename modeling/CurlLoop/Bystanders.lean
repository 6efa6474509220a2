import CurlLoop.FailedDependency
import CurlLoop.ServiceOrder

/-!
# Requests whose turn does not come

A scheduling pass works in rounds, and a round is about one request. It *passes by* all others:
their fields, what is told of them, and the maps they are in are left alone. So what a pass does to a
request is decided in the rounds about it.

The rate-limited map is in a local variable while its first part is worked through, and what is
throttled again is collected in the field. The two together are the map as it is seen from outside,
`attached`, and that is what a round passes a request by in.

## Main definitions

* `Loop.PassesBy` — nothing happens to a request
* `Loop.attached` — the loop with the map put back

## Main results

* `passesBy_pendingRound`, `passesBy_rateLimitedRound`, `passesBy_waitingRound` — rounds
* `passesBy_detach`, `passesBy_putBack` — before the first round and after the last
-/

namespace CurlLoop

open Function (update)

variable {ω : Type}

namespace Loop

variable {s t u : Loop ω} {v v' : View} {C l root : List ReqId} {b r : ReqId} {m : MapId}
  {env : Env ω} {strict : Prop} {p p' : List ReqId × Loop ω} {time : ℕ}

/-- Neither the request nor what is told of it is changed, and it stays in the maps it is in. -/
structure PassesBy (r : ReqId) (s t : Loop ω) : Prop where
  req : t.req r = s.req r
  story : t.story r = s.story r
  maps : ∀ m, r ∈ t.maps m ↔ r ∈ s.maps m

theorem PassesBy.refl (r : ReqId) (s : Loop ω) : PassesBy r s s := ⟨rfl, rfl, fun _ => .rfl⟩

theorem PassesBy.trans (h : PassesBy r s t) (h' : PassesBy r t u) : PassesBy r s u :=
  ⟨h'.req.trans h.req, h'.story.trans h.story, fun m => (h'.maps m).trans (h.maps m)⟩

theorem PassesBy.of_eq (hreq : t.req = s.req) (htrace : t.trace = s.trace) (hmaps : t.maps = s.maps) :
    PassesBy r s t :=
  ⟨congrFun hreq r, congrArg _ htrace, fun m => by rw [hmaps]⟩

/-- A step after one that leaves all of this alone. -/
theorem PassesBy.after (h : PassesBy r t u) (hreq : t.req = s.req) (htrace : t.trace = s.trace)
    (hmaps : t.maps = s.maps) : PassesBy r s u :=
  (PassesBy.of_eq hreq htrace hmaps).trans h

/-! ### Steps about another request -/

theorem passesBy_follow (s : Loop ω) (b : ReqId) : PassesBy r s (s.follow b) := by
  rw [follow]
  split
  · exact .of_eq rfl rfl rfl
  · exact .refl r s

theorem passesBy_modifyReq (s : Loop ω) (hb : r ≠ b) (f : Request → Request) :
    PassesBy r s (s.modifyReq b f) :=
  ⟨Function.update_of_ne hb .., rfl, fun _ => .rfl⟩

/-- A map is written, and the request stays in it or out of it. -/
theorem passesBy_setMap (s : Loop ω) (hl : r ∈ l ↔ r ∈ s.maps m) : PassesBy r s (s.setMap m l) := by
  refine ⟨rfl, rfl, fun m' => ?_⟩
  change r ∈ update s.maps m l m' ↔ _
  rcases eq_or_ne m' m with rfl | hm
  · rwa [Function.update_self]
  · rw [Function.update_of_ne hm]

theorem passesBy_insertMap (s : Loop ω) (m : MapId) (hb : r ≠ b) : PassesBy r s (s.insertMap m b) :=
  passesBy_setMap s <| by rw [requestInsert, OrderedMap.mem_insertMulti, or_iff_right hb]

theorem passesBy_eraseMap (s : Loop ω) (m : MapId) (hb : r ≠ b) : PassesBy r s (s.eraseMap m b) :=
  passesBy_setMap s (List.mem_erase_of_ne hb)

theorem passesBy_destroy (s : Loop ω) (hb : r ≠ b) : PassesBy r s (s.curlEventRequestDestroy b) := by
  refine ⟨?_, rfl, fun _ => .rfl⟩
  rw [req_destroy, Function.update_of_ne hb]

theorem passesBy_parkRateLimited (s : Loop ω) (hb : r ≠ b) (due : ℕ) :
    PassesBy r s (s.parkRateLimited b due) :=
  (passesBy_modifyReq s hb fun q => q.dueAt due).trans (passesBy_insertMap _ .rateLimited hb)

theorem passesBy_enqueueRequest (s : Loop ω) (hb : r ≠ b) : PassesBy r s (s.enqueueRequest b) :=
  (passesBy_insertMap s (waitingMap (s.req b)) hb).trans (.of_eq rfl rfl rfl)

theorem passesBy_activate (env : Env ω) (s : Loop ω) (hb : r ≠ b) :
    PassesBy r s (s.activate env b) := by
  refine ⟨Function.update_of_ne hb .., (story_emit s (.started b) r).trans (if_neg hb.symm),
    fun m => ?_⟩
  have hput := passesBy_insertMap
    (s.modifyReq b fun q => q.activated (env.macroNow s.world).1) .queued hb
  exact hput.maps m

theorem passesBy_start (env : Env ω) (s : Loop ω) (hb : r ≠ b) :
    PassesBy r s (s.curlEventLoopRequestStart env b) := by
  have hreset : ∀ w : ω, PassesBy r s (({ s with world := w } : Loop ω).modifyReq b Request.reset) :=
    fun w => (passesBy_modifyReq _ hb _).after rfl rfl rfl
  have hout := start_outcome env s b
  generalize s.curlEventLoopRequestStart env b = t at hout ⊢
  cases hout with
  | parked w due => exact (passesBy_parkRateLimited _ hb due).after rfl rfl rfl
  | refused w => exact (hreset w).trans (passesBy_destroy _ hb)
  | active w =>
    have hhandle := passesBy_modifyReq (({ s with world := w } : Loop ω).modifyReq b Request.reset) hb
      fun q => q.withHandle s.multi.nextEasy
    have hnew : PassesBy r s
        ((({ s with world := w } : Loop ω).modifyReq b Request.reset).newHandle b) :=
      ((hreset w).trans hhandle).trans (.of_eq rfl rfl rfl)
    exact hnew.trans (passesBy_activate env _ hb)

/-- A request of which an attempt has ended is put somewhere. -/
theorem passesBy_settle (env : Env ω) (s : Loop ω) (hb : r ≠ b) (httpCode : ℤ) (success : Bool)
    (retryIn : ℤ) : PassesBy r s (s.settle env b httpCode success retryIn) := by
  have hcleanup : ∀ t : Loop ω, PassesBy r t (t.curlEventLoopRequestCleanup b) := fun t =>
    ⟨Function.update_of_ne hb .., rfl, fun _ => .rfl⟩
  have htold : ∀ {w tr n}, TraceNull b s tr →
      PassesBy r s ({ s with world := w, trace := tr, metrics := n } : Loop ω) := by
    rintro w tr n (rfl | rfl)
    · exact .of_eq rfl rfl rfl
    · exact ⟨rfl, (story_emit s (.nullCall b) r).trans (if_neg hb.symm), fun _ => .rfl⟩
  have hout := settle_outcome env s b httpCode success retryIn
  generalize s.settle env b httpCode success retryIn = t at hout ⊢
  cases hout with
  | parked w due => exact (passesBy_parkRateLimited _ hb due).after rfl rfl rfl
  | again w tr n f _ htr =>
    exact (((htold htr).trans (passesBy_modifyReq _ hb f)).trans (hcleanup _)).trans
      (passesBy_enqueueRequest _ hb)
  | ended w tr n f _ htr =>
    exact ((htold htr).trans (passesBy_modifyReq _ hb f)).trans (passesBy_destroy _ hb)

/-! ### A round about another request -/

/-- Blocking a request writes links and resources. -/
theorem passesBy_checkAndBlockList (b : ReqId) (deps : List ResId) (s : Loop ω) :
    PassesBy r s (s.curlResourceCheckAndBlockList b deps).2 := by
  have hblock : ∀ (s : Loop ω) id, PassesBy r s (s.curlResourceBlockOnId b id).2 := by
    intro s id
    rw [curlResourceBlockOnId]
    dsimp only
    split
    · refine .of_eq (req_blockRequestOnRes _) ?_ (sameMaps_blockRequestOnRes _ _ b).maps
      rw [blockRequestOnRes]
      split <;> rfl
    · exact .of_eq rfl rfl rfl
  induction deps generalizing s with
  | nil => exact .refl r s
  | cons id deps ih =>
    rw [curlResourceCheckAndBlockList]
    dsimp only
    split
    · exact hblock s id
    · exact (hblock s id).trans (ih _)

theorem passesBy_requestReady (env : Env ω) (s : Loop ω) (b : ReqId) :
    PassesBy r s (s.requestReady env b).2 := by
  obtain ⟨w, hw⟩ := requestReady_eq env s b
  rw [hw]
  exact .of_eq rfl rfl rfl

theorem passesBy_retainDepsOnce (s : Loop ω) (hb : r ≠ b) : PassesBy r s (s.retainDepsOnce b) := by
  rw [retainDepsOnce]
  split
  · exact (passesBy_modifyReq _ hb _).after rfl rfl rfl
  · exact .refl r s

theorem passesBy_pendingRound (env : Env ω) (s : Loop ω) (hb : r ≠ b) :
    PassesBy r s (s.pendingRound env b) := by
  have hunmark : PassesBy r s ((s.modifyReq b fun q => q.setPending false).setNextPending b none) :=
    (passesBy_modifyReq s hb fun q => q.setPending false).trans (.of_eq rfl rfl rfl)
  rw [pendingRound]
  split
  · exact hunmark.trans (passesBy_destroy _ hb)
  · have hretain := hunmark.trans (passesBy_retainDepsOnce _ hb)
    generalize (s.modifyReq b fun q => q.setPending false).setNextPending b none = t at hretain ⊢
    have hwait := hretain.trans (passesBy_checkAndBlockList b ((t.retainDepsOnce b).req b).depHead _)
    rw [schedulePending, requestWaitingOnDependencies]
    dsimp only
    split
    · exact hwait
    · have hready := hwait.trans (passesBy_requestReady env _ b)
      split
      · exact hready.trans (passesBy_start env _ hb)
      · exact hready.trans (passesBy_enqueueRequest _ hb)

theorem passesBy_rateLimitedRound (hb : r ≠ b) (hp : rateLimitedRound env time b p = .done p' ∨
    rateLimitedRound env time b p = .yield p') : PassesBy r p.2 p'.2 ∧ (r ∈ p'.1 ↔ r ∈ p.1) := by
  obtain ⟨root, s⟩ := p
  have hask : ∀ w, PassesBy r s { s.follow b with world := w } := fun w =>
    (passesBy_follow s b).trans (.of_eq rfl rfl rfl)
  obtain ⟨w, hw⟩ | ⟨w, due, hw⟩ | ⟨w, hw⟩ := rateLimitedRound_cases env time b root s
  · obtain rfl : p' = _ := by simpa [hw, eq_comm] using hp
    exact ⟨hask w, .rfl⟩
  · obtain rfl : p' = _ := by
      simpa only [hw, reduceCtorEq, false_or, ForInStep.yield.injEq, eq_comm] using hp
    exact ⟨(hask w).trans (passesBy_parkRateLimited _ hb due), List.mem_erase_of_ne hb⟩
  · obtain rfl : p' = _ := by
      simpa only [hw, reduceCtorEq, false_or, ForInStep.yield.injEq, eq_comm] using hp
    exact ⟨(hask w).trans (passesBy_start env _ hb), List.mem_erase_of_ne hb⟩

theorem passesBy_waitingRound (hm : m ≠ .rateLimited) (hb : r ≠ b)
    (ht : waitingRound env m b s = .done t ∨ waitingRound env m b s = .yield t) :
    PassesBy r s t := by
  have hask : ∀ w, PassesBy r s { s.follow b with world := w } := fun w =>
    (passesBy_follow s b).trans (.of_eq rfl rfl rfl)
  have herase : ∀ w, PassesBy r s (({ s.follow b with world := w } : Loop ω).eraseMap m b) := fun w =>
    (hask w).trans (passesBy_eraseMap _ m hb)
  obtain ⟨w, hw⟩ | ⟨w, due, hw⟩ | ⟨w, hw⟩ := waitingRound_cases env hm b s
  · obtain rfl : t = _ := by simpa [hw, eq_comm] using ht
    exact hask w
  · obtain rfl : t = _ := by
      simpa only [hw, reduceCtorEq, false_or, ForInStep.yield.injEq, eq_comm] using ht
    exact ((herase w).trans (passesBy_parkRateLimited _ hb due)).trans (.of_eq rfl rfl rfl)
  · obtain rfl : t = _ := by
      simpa only [hw, reduceCtorEq, false_or, ForInStep.yield.injEq, eq_comm] using ht
    have hnum : PassesBy r s
        ((({ s.follow b with world := w } : Loop ω).eraseMap m b).addNum m (-1)) :=
      (herase w).trans (.of_eq rfl rfl rfl)
    exact hnum.trans (passesBy_start env _ hb)

/-! ### The loops of the pass over the maps -/

/-- The loop as it were if the detached rate-limited map were put back. -/
def attached (p : List ReqId × Loop ω) : Loop ω :=
  p.2.setMap .rateLimited (p.1 ++ p.2.maps .rateLimited)

/-- The second half of the first part of `move_inactive_requests_to_queue`. -/
def putBack (p : List ReqId × Loop ω) : Loop ω :=
  let p := OrderedMap.whileFirst (fun p => (p.2.maps .rateLimited).head?) mergeRound
    (p.2.maps .rateLimited).length p
  p.2.setMap .rateLimited p.1

theorem mem_attached : r ∈ (attached p).maps m ↔
    r ∈ p.2.maps m ∨ m = .rateLimited ∧ r ∈ p.1 := by
  change r ∈ update p.2.maps .rateLimited _ m ↔ _
  rcases eq_or_ne m .rateLimited with rfl | hm
  · rw [Function.update_self, List.mem_append, or_comm, and_iff_right rfl]
  · rw [Function.update_of_ne hm]
    simp [hm]

theorem PassesBy.attached (h : PassesBy r p.2 p'.2) (hroot : r ∈ p'.1 ↔ r ∈ p.1) :
    PassesBy r (attached p) (attached p') := by
  refine ⟨h.req, h.story, fun m => ?_⟩
  rw [mem_attached, mem_attached, h.maps, hroot]

/-- Nobody is taken out of the maps when the requests throttled again are merged. -/
theorem passesBy_putBack (p : List ReqId × Loop ω) : PassesBy r (attached p) (putBack p) := by
  have hmerge := OrderedMap.whileFirst_rule
    (g := fun p : List ReqId × Loop ω => (p.2.maps .rateLimited).head?) (f := mergeRound)
    (P := fun q => PassesBy r (attached p) (attached q)) (n := (p.2.maps .rateLimited).length)
    (fun b q q' _ _ hb => by simp [mergeRound] at hb)
    (fun b q q' hq hb hq' => by
      obtain rfl := ForInStep.yield.inj hq'
      have hfollow := passesBy_follow (r := r) q.2 b
      refine hq.trans ⟨hfollow.req, hfollow.story, fun m => ?_⟩
      have hb' : b ∈ q.2.maps .rateLimited := List.mem_of_head? hb
      rw [mem_attached, mem_attached]
      dsimp only
      rw [requestInsert, OrderedMap.mem_insertMulti, maps_eraseMap]
      rcases eq_or_ne m .rateLimited with rfl | hm
      · rw [Function.update_self, maps_follow]
        rcases eq_or_ne r b with rfl | hrb
        · simp [hb']
        · rw [List.mem_erase_of_ne hrb, or_iff_right hrb]
      · rw [Function.update_of_ne hm, maps_follow]
        simp [hm])
    (.refl r _)
  have hempty := maps_merged p
  rw [putBack]
  generalize OrderedMap.whileFirst _ mergeRound _ p = q at hmerge hempty ⊢
  refine hmerge.trans ⟨rfl, rfl, fun m => ?_⟩
  rw [mem_attached]
  change r ∈ update q.2.maps .rateLimited q.1 m ↔ _
  rcases eq_or_ne m .rateLimited with rfl | hm
  · rw [Function.update_self, hempty]
    simp
  · rw [Function.update_of_ne hm]
    simp [hm]

theorem moveRateLimited_eq (env : Env ω) (s : Loop ω) : s.moveRateLimited env =
    putBack (OrderedMap.whileFirst (fun p => p.1.head?) (rateLimitedRound env (s.now env))
      (s.maps .rateLimited).length
      (s.maps .rateLimited, ((s.setMap .rateLimited []).ask env.macroNow).2)) := rfl

/-- The map is detached. -/
theorem passesBy_detach (env : Env ω) (s : Loop ω) : PassesBy r s
    (attached (s.maps .rateLimited, ((s.setMap .rateLimited []).ask env.macroNow).2)) := by
  refine ⟨rfl, rfl, fun m => ?_⟩
  rw [mem_attached]
  change r ∈ update s.maps .rateLimited [] m ∨ _ ↔ _
  rcases eq_or_ne m .rateLimited with rfl | hm
  · rw [Function.update_self]
    simp
  · rw [Function.update_of_ne hm]
    simp [hm]

end Loop

end CurlLoop
