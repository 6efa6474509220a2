import CurlLoop.Lib.GuardedRun
import CurlLoop.ResourceCount
import CurlLoop.State
import Mathlib.Algebra.BigOperators.Group.List.Basic

/-!
# Who holds a resource, and when it goes

A resource has two kinds of users. Owners acquire a reference by declaring or registering the
resource, by publishing under an id nobody refers to, or by `curl_event_res_addref`, and drop it by
`curl_event_res_release`. Requests that depend on it are retained by the loop when it first
handles them, and let go when they are destroyed.

`RefState` puts the store next to a ledger of those users, and `RefCall` lists the operations. The
store changes by the functions of `CurlLoop.Resource` and knows nothing of the ledger.

## The count and the ledger

The law is that `refcnt` is the number of users, `RefState.users`. Every operation keeps it but
one kind: a registration that gives an owner to a node that already has users. Posting a
registration draws the id at once, so a request may depend on it, be handled by the loop and
retain a placeholder before the registration is drained. Draining it then leaves the count as it
is, since `curl_event_res_publish` adds the owner's reference only to a count of zero.
`RefCall.Unshared` excludes exactly this.

## Main definitions

* `RefState`, `RefCall`, `RefState.step` — the store with its users, and the operations
* `RefCall.Legal` — references are dropped at most once each
* `RefCall.Unshared` — a registration finds no users
* `RefCall.Declared` — resources are declared before they are referred to
* `RefCall.LeavesAnother` — a request's last reference is not the last one
* `RefState.Counted` — the count is the number of users
* `RefState.Reclaimed` — the node is gone and its payloads were disposed of

## Main results

* `counted_run` — in runs whose registrations find no users, the count is the number of users
* `erased_only_when_unused` — in such runs a node goes only when nobody uses it
* `reclaimed_iff_leavesAnother` — a node always goes with its last user exactly when that user is
  never a request
-/

namespace CurlLoop

/-! ### The store and its users -/

/-- The store, the registrations posted and not yet drained (oldest first), and the ledger of its
users. `published` lists the publications of a payload with a cleanup function, newest first. -/
structure RefState where
  store : Resources
  posted : List ResOp
  /-- The owner references acquired and not released. -/
  owners : ResId → ℕ
  /-- The requests that retained their dependencies and still live. -/
  retained : List ReqId
  published : List (ResId × Payload)

/-- The operations. A request is named by its address; its dependency list is fixed. -/
inductive RefCall
  | declare
  | register (payload : Option Payload) (cleanup : Bool)
  | registerAsync (payload : Option Payload) (cleanup : Bool)
  /-- Apply the registration posted first. -/
  | drain
  | publish (id : ResId) (payload : Option Payload) (cleanup : Bool)
  | addref (id : ResId)
  | release (id : ResId)
  | retain (r : ReqId)
  | releaseDeps (r : ReqId)
deriving DecidableEq, Repr

namespace RefState

/-- Before any operation. -/
def init : RefState := ⟨.init, [], fun _ => 0, [], []⟩

/-- One more owner reference of `id`. -/
def addOwner (s : RefState) (id : ResId) : RefState :=
  { s with owners := Function.update s.owners id (s.owners id + 1) }

/-- `curl_event_res_publish` on the store. -/
def publishAt (s : RefState) (id : ResId) (payload : Option Payload) (cleanup : Bool) : RefState :=
  { s with
    store := (s.store.publishPayload id payload cleanup).2
    published := match payload with
      | some p => if cleanup then (id, p) :: s.published else s.published
      | none => s.published }

/-- `curl_event_res_declare`, whose caller is the first owner. -/
def declare (s : RefState) : RefState :=
  { s with store := s.store.curlEventResDeclare.2 }.addOwner s.store.gNextId

/-- One operation. Registering makes the registrant an owner; publishing makes the publisher one
when nobody refers to the id. -/
def step (deps : ReqId → List ResId) : RefCall → RefState → RefState
  | .declare, s => s.declare
  | .register payload cleanup, s => s.declare.publishAt s.store.gNextId payload cleanup
  | .registerAsync payload cleanup, s =>
    { s with
      store := { s.store with gNextId := s.store.gNextId + 1 }
      posted := s.posted ++ [⟨.register, s.store.gNextId, payload, cleanup, 0⟩] }
  | .drain, s =>
    match s.posted with
    | [] => s
    | op :: ops => ({ s with posted := ops }.addOwner op.id).publishAt op.id op.payload op.cleanup
  | .publish id payload cleanup, s =>
    (if s.store.refcnt id = 0 then s.addOwner id else s).publishAt id payload cleanup
  | .addref id, s => { s with store := s.store.curlEventResAddref id }.addOwner id
  | .release id, s =>
    { s with
      store := s.store.curlEventResRelease id
      owners := Function.update s.owners id (s.owners id - 1) }
  | .retain r, s =>
    { s with
      store := s.store.curlResourceRetainRequestDeps (deps r)
      retained := r :: s.retained }
  | .releaseDeps r, s =>
    { s with
      store := s.store.curlResourceReleaseRequestDeps (deps r)
      retained := s.retained.erase r }

/-- The references the retained requests have to `id`: one for each occurrence in a dependency
list. -/
def held (deps : ReqId → List ResId) (s : RefState) (id : ResId) : ℕ :=
  (s.retained.map fun r => (deps r).count id).sum

/-- The users of `id`. -/
def users (deps : ReqId → List ResId) (s : RefState) (id : ResId) : ℕ :=
  s.owners id + s.held deps id

end RefState

/-! ### What callers keep to -/

namespace RefCall

/-- Each reference is dropped at most once: a release drops an owner reference that was acquired,
a request retains its dependencies once and lets them go once. -/
def Legal : RefCall → RefState → Prop
  | .release id, s => 0 < s.owners id
  | .retain r, s => r ∉ s.retained
  | .releaseDeps r, s => r ∈ s.retained
  | _, _ => True

instance : ∀ (c : RefCall) (s : RefState), Decidable (c.Legal s)
  | .declare, _ | .register .., _ | .registerAsync .., _ | .drain, _ | .publish .., _
  | .addref _, _ => inferInstanceAs (Decidable True)
  | .release id, s => inferInstanceAs (Decidable (0 < s.owners id))
  | .retain r, s => inferInstanceAs (Decidable (r ∉ s.retained))
  | .releaseDeps r, s => inferInstanceAs (Decidable (r ∈ s.retained))

/-- A registration finds nobody referring to its resource. A posted one is looked at when it is
drained; a direct one draws an id that must not have a node yet. -/
def Unshared : RefCall → RefState → Prop
  | .declare, s | .register .., s => s.store.resFind s.store.gNextId = none
  | .drain, s => ∀ op ∈ s.posted.head?, s.store.refcnt op.id = 0
  | _, _ => True

instance : ∀ (c : RefCall) (s : RefState), Decidable (c.Unshared s)
  | .declare, s | .register .., s =>
    inferInstanceAs (Decidable (s.store.resFind s.store.gNextId = none))
  | .drain, s => inferInstanceAs (Decidable (∀ op ∈ s.posted.head?, s.store.refcnt op.id = 0))
  | .registerAsync .., _ | .publish .., _ | .addref _, _ | .release _, _ | .retain _, _
  | .releaseDeps _, _ => inferInstanceAs (Decidable True)

/-- Everything happens on the loop thread, and an id is drawn before it is used. -/
def Declared (deps : ReqId → List ResId) : RefCall → RefState → Prop
  | .registerAsync .., _ | .drain, _ => False
  | .publish id _ _, s | .addref id, s => id < s.store.gNextId
  | .retain r, s => ∀ id ∈ deps r, id < s.store.gNextId
  | _, _ => True

instance (deps : ReqId → List ResId) : ∀ (c : RefCall) (s : RefState), Decidable (c.Declared deps s)
  | .declare, _ | .register .., _ | .release _, _ | .releaseDeps _, _ =>
    inferInstanceAs (Decidable True)
  | .registerAsync .., _ | .drain, _ => inferInstanceAs (Decidable False)
  | .publish id _ _, s | .addref id, s => inferInstanceAs (Decidable (id < s.store.gNextId))
  | .retain r, s => inferInstanceAs (Decidable (∀ id ∈ deps r, id < s.store.gNextId))

/-- A request that lets its dependencies go leaves somebody else referring to each of them. -/
def LeavesAnother (deps : ReqId → List ResId) : RefCall → RefState → Prop
  | .releaseDeps r, s => ∀ id ∈ deps r, (deps r).count id < s.users deps id
  | _, _ => True

end RefCall

/-! ### The count is the number of users -/

namespace RefState

variable {deps : ReqId → List ResId}

/-- The reference count of every id is the number of its users. -/
structure Counted (deps : ReqId → List ResId) (s : RefState) : Prop where
  noAutoRelease : s.store.NoAutoRelease
  refcnt_eq : ∀ id, s.store.refcnt id = s.users deps id

theorem counted_init : Counted deps init := by
  refine ⟨fun id n h => ?_, fun id => rfl⟩
  simp [init, Resources.init, Resources.resFind] at h

theorem users_addOwner (s : RefState) (id j : ResId) :
    (s.addOwner id).users deps j = s.users deps j + if j = id then 1 else 0 := by
  rcases eq_or_ne j id with rfl | hj
  · simp [users, addOwner, held, Nat.add_right_comm]
  · simp [users, addOwner, held, hj]

theorem users_publishAt (s : RefState) (id : ResId) (p : Option Payload) (c : Bool) (j : ResId) :
    (s.publishAt id p c).users deps j = s.users deps j := rfl

variable (deps) in
theorem held_erase {s : RefState} {r : ReqId} (hr : r ∈ s.retained) (id : ResId) :
    s.held deps id =
      (deps r).count id + ({ s with retained := s.retained.erase r } : RefState).held deps id := by
  have hperm := List.perm_cons_erase hr
  rw [held, (hperm.map fun r => (deps r).count id).sum_eq]
  simp [held]

variable (deps) in
theorem count_le_users {s : RefState} {r : ReqId} (hr : r ∈ s.retained) (id : ResId) :
    (deps r).count id ≤ s.users deps id := by
  rw [users, held_erase deps hr]
  omega

theorem Counted.declare {s : RefState} (h : Counted deps s)
    (hnew : s.store.resFind s.store.gNextId = none) : Counted deps s.declare := by
  refine ⟨h.noAutoRelease.declare, fun j => ?_⟩
  rw [RefState.declare, users_addOwner]
  show s.store.curlEventResDeclare.2.refcnt j = _
  rw [Resources.refcnt_declare hnew, h.refcnt_eq]
  rcases eq_or_ne j s.store.gNextId with rfl | hj
  · simp [users, held]
  · simp [hj, users, held]

/-- Publishing at an id with a user keeps the count, and so does making the publisher an owner of
an id without one. -/
theorem Counted.publishAt {s : RefState} {o : ResId → ℕ}
    (h : Counted deps { s with owners := o }) {id : ResId} {p : Option Payload} {c : Bool}
    (hown : s.owners = if s.store.refcnt id = 0 then Function.update o id (o id + 1)
      else o) : Counted deps (s.publishAt id p c) := by
  refine ⟨h.noAutoRelease.publishPayload id p c, fun j => ?_⟩
  have hj : s.store.refcnt j = o j + s.held deps j := by
    have := h.refcnt_eq j
    simpa [users, held] using this
  rw [users_publishAt, users, hown]
  show (s.store.publishPayload id p c).2.refcnt j = _
  rw [Resources.refcnt_publishPayload, hj]
  by_cases h0 : s.store.refcnt id = 0
  · rcases eq_or_ne j id with rfl | hne
    · simp [h0]
      omega
    · simp [h0, hne]
  · simp [h0]

/-- **One operation.** Kept by every operation a caller may perform, if its registration finds no
users. -/
theorem counted_step {c : RefCall} {s : RefState} (h : Counted deps s)
    (hc : c.Legal s ∧ c.Unshared s) : Counted deps (step deps c s) := by
  obtain ⟨hlegal, hun⟩ := hc
  cases c with
  | declare => exact h.declare hun
  | register p c =>
    refine Counted.publishAt (s := s.declare) (o := s.declare.owners) (h.declare hun) ?_
    have h1 : s.declare.store.refcnt s.store.gNextId ≠ 0 := by
      rw [(h.declare hun).refcnt_eq, RefState.declare, users_addOwner]
      simp
      omega
    rw [if_neg h1]
  | registerAsync p c => exact ⟨h.noAutoRelease, h.refcnt_eq⟩
  | drain =>
    cases hp : s.posted with
    | nil =>
      rw [step, hp]
      exact h
    | cons op ops =>
      have h0 : s.store.refcnt op.id = 0 := hun op (by simp [hp])
      rw [step, hp]
      refine Counted.publishAt (s := { s with posted := ops }.addOwner op.id) (o := s.owners)
        ⟨h.noAutoRelease, h.refcnt_eq⟩ ?_
      show Function.update s.owners op.id _ = if s.store.refcnt op.id = 0 then _ else _
      rw [if_pos h0]
  | publish id p c =>
    refine Counted.publishAt (o := s.owners) ?_ ?_
    · rw [show ({ (if s.store.refcnt id = 0 then s.addOwner id else s) with
        owners := s.owners } : RefState) = s by split <;> rfl]
      exact h
    · by_cases h0 : s.store.refcnt id = 0
      · rw [if_pos h0, show (s.addOwner id).store.refcnt id = s.store.refcnt id from rfl, if_pos h0]
        rfl
      · rw [if_neg h0, if_neg h0]
  | addref id =>
    refine ⟨h.noAutoRelease.addref id, fun j => ?_⟩
    rw [step, users_addOwner]
    show (s.store.curlEventResAddref id).refcnt j = _
    rw [Resources.refcnt_addref, h.refcnt_eq]
    simp [users, held]
  | release id =>
    have hpos : 0 < s.owners id := hlegal
    have hne : s.store.refcnt id ≠ 0 := by
      rw [h.refcnt_eq, users]
      omega
    refine ⟨h.noAutoRelease.release id, fun j => ?_⟩
    show (s.store.curlEventResRelease id).refcnt j = _
    rw [Resources.refcnt_release hne, h.refcnt_eq]
    rcases eq_or_ne j id with rfl | hj
    · simp only [users, step, held, Function.update_self, if_true]
      push_cast
      omega
    · simp [users, step, held, hj]
  | retain r =>
    refine ⟨h.noAutoRelease.retain (deps r), fun j => ?_⟩
    show (s.store.curlResourceRetainRequestDeps (deps r)).refcnt j = _
    rw [Resources.refcnt_retain, h.refcnt_eq]
    simp only [users, step, held, List.map_cons, List.sum_cons]
    push_cast
    omega
  | releaseDeps r =>
    have hr : r ∈ s.retained := hlegal
    have hle : ∀ id, ((deps r).count id : ℤ) ≤ s.store.refcnt id := by
      intro id
      rw [h.refcnt_eq]
      exact_mod_cast count_le_users deps hr id
    refine ⟨Resources.noAutoRelease_releaseDeps (deps r) h.noAutoRelease, fun j => ?_⟩
    show (s.store.curlResourceReleaseRequestDeps (deps r)).refcnt j = _
    rw [Resources.refcnt_releaseDeps h.noAutoRelease hle, h.refcnt_eq]
    have hheld := held_erase deps hr j
    simp only [users, step]
    rw [hheld]
    simp only [held]
    push_cast
    omega

/-- **A run.** -/
theorem counted_run {calls : List RefCall}
    (h : Guarded.Allowed (step deps) (fun c s => c.Legal s ∧ c.Unshared s) init calls) :
    Counted deps (Guarded.run (step deps) init calls) :=
  h.invariant (fun _ _ hs hc => counted_step hs hc) counted_init

/-- **Not freed under its users.** When registrations find no users, an operation that takes a
node out of the map leaves no owner and no living request that retained it. -/
theorem erased_only_when_unused {calls : List RefCall}
    (h : Guarded.Allowed (step deps) (fun c s => c.Legal s ∧ c.Unshared s) init calls)
    {c : RefCall} (hc : c.Legal (Guarded.run (step deps) init calls) ∧
      c.Unshared (Guarded.run (step deps) init calls))
    {id : ResId} {n : Res}
    (_hbefore : (Guarded.run (step deps) init calls).store.resFind id = some n)
    (hafter : (step deps c (Guarded.run (step deps) init calls)).store.resFind id = none) :
    (step deps c (Guarded.run (step deps) init calls)).owners id = 0 ∧
      ∀ r ∈ (step deps c (Guarded.run (step deps) init calls)).retained, id ∉ deps r := by
  have hcount := (counted_step (counted_run h) hc).refcnt_eq id
  rw [Resources.refcnt, hafter, Option.elim_none] at hcount
  have hzero : (step deps c (Guarded.run (step deps) init calls)).users deps id = 0 := by
    exact_mod_cast hcount.symm
  refine ⟨Nat.eq_zero_of_add_eq_zero_right hzero, fun r hr hid => ?_⟩
  have hle := count_le_users deps hr id
  have hpos := List.count_pos_iff.mpr hid
  omega

/-- Two resources are declared and two requests retain one each. The first request lets go of its
resource, and so does the owner: the node goes, while the other request is alive. -/
theorem erased_only_when_unused_declared :
    let deps : ReqId → List ResId := fun r => if r = 0 then [1] else [2]
    let s := Guarded.run (step deps) init [.declare, .declare, .retain 0, .retain 1, .releaseDeps 0]
    (step deps (.release 1) s).retained = [1] ∧ (step deps (.release 1) s).owners 1 = 0 ∧
      ∀ r ∈ (step deps (.release 1) s).retained, 1 ∉ deps r :=
  ⟨by decide, erased_only_when_unused (by decide) (c := .release 1) (by decide)
    (n := .fresh 1 1) (by decide) (by decide)⟩

/-- A request is handled before the registration it depends on is drained. The one release of the
one owner then frees the node while the request still holds it. -/
theorem erased_under_dependent :
    Guarded.Allowed (step fun _ => [1]) (fun c s => c.Legal s) init
        [.registerAsync (some 7) true, .retain 0, .drain, .release 1] ∧
      ((Guarded.run (step fun _ => [1]) init
        [.registerAsync (some 7) true, .retain 0, .drain]).store.resFind 1).isSome ∧
      (Guarded.run (step fun _ => [1]) init
        [.registerAsync (some 7) true, .retain 0, .drain, .release 1]).store.resFind 1 = none ∧
      (Guarded.run (step fun _ => [1]) init
        [.registerAsync (some 7) true, .retain 0, .drain, .release 1]).retained = [0] := by
  decide

/-! ### When the last user goes -/

/-- The node is out of the map, and each payload ever published under the id with a cleanup
function has been handed to it exactly once. -/
def Reclaimed (s : RefState) (id : ResId) : Prop :=
  s.store.resFind id = none ∧
    s.store.cleaned.filter (fun e => e.1 = id) = s.published.filter fun e => e.1 = id

instance (s : RefState) (id : ResId) : Decidable (s.Reclaimed id) :=
  inferInstanceAs (Decidable (_ ∧ _))

/-- Every node has an id that was drawn, and every publication is accounted for: its payload was
cleaned up, or is the one in the node. -/
structure Tracked (s : RefState) : Prop where
  lt_gNextId : ∀ id n, s.store.resFind id = some n → id < s.store.gNextId
  published_eq : ∀ id, s.published.filter (fun e => e.1 = id) =
    s.store.due id ++ s.store.cleaned.filter fun e => e.1 = id

theorem tracked_init : Tracked init := by
  refine ⟨fun id n h => ?_, fun id => rfl⟩
  simp [init, Resources.init, Resources.resFind] at h

/-- In a run on the loop thread a new id has no node yet. -/
theorem Tracked.unshared {s : RefState} (h : Tracked s) {c : RefCall} (hc : c.Declared deps s) :
    c.Unshared s := by
  have hnew : s.store.resFind s.store.gNextId = none := by
    by_contra hne
    obtain ⟨n, hn⟩ := Option.ne_none_iff_exists'.mp hne
    exact absurd (h.lt_gNextId _ n hn) (lt_irrefl _)
  cases c with
  | declare => exact hnew
  | register p c => exact hnew
  | drain => exact hc.elim
  | _ => trivial

/-- An operation that publishes nothing and cleans nothing keeps the account when every payload
stays where it is. -/
theorem Tracked.of_due {s t : RefState} (h : Tracked s)
    (hlt : ∀ id n, t.store.resFind id = some n → id < t.store.gNextId)
    (hpub : t.published = s.published) (hclean : t.store.cleaned = s.store.cleaned)
    (hdue : ∀ id, t.store.due id = s.store.due id) : Tracked t := by
  refine ⟨hlt, fun id => ?_⟩
  rw [hpub, hclean, hdue]
  exact h.published_eq id

theorem Tracked.declare {s : RefState} (h : Tracked s) : Tracked s.declare := by
  have hnew : s.store.resFind s.store.gNextId = none :=
    @unshared (fun _ => []) s h .declare trivial
  refine h.of_due (fun id n hn => ?_) rfl rfl fun id => ?_
  · rw [show s.declare.store.resFind id = s.store.curlEventResDeclare.2.resFind id from rfl,
      Resources.resFind_declare hnew] at hn
    split at hn
    · exact ‹id = _› ▸ Nat.lt_succ_self _
    · exact Nat.lt_succ_of_lt (h.lt_gNextId id n hn)
  · rw [Resources.due, show s.declare.store.resFind id = s.store.curlEventResDeclare.2.resFind id
      from rfl, Resources.resFind_declare hnew]
    rcases eq_or_ne id s.store.gNextId with rfl | hid
    · simp [Resources.due, hnew, Res.fresh, Res.due]
    · simp [hid, Resources.due]

theorem Tracked.publishAt {s : RefState} (h : Tracked s) {id : ResId} (hid : id < s.store.gNextId)
    (p : Option Payload) (c : Bool) : Tracked (s.publishAt id p c) := by
  have hfound : (s.store.resGetOrCreate id).1.id = id := Resources.id_resGetOrCreate s.store id
  refine ⟨fun j n hn => ?_, fun j => ?_⟩
  · rw [show (s.publishAt id p c).store = (s.store.publishPayload id p c).2 from rfl,
      Resources.resFind_publishPayload] at hn
    rw [show (s.publishAt id p c).store.gNextId = (s.store.resGetOrCreate id).2.gNextId from rfl,
      Resources.gNextId_getOrCreate]
    split at hn
    · exact ‹j = id› ▸ hid
    · exact h.lt_gNextId j n hn
  · have hpub : (s.publishAt id p c).published =
        ((s.store.resGetOrCreate id).1.publish p c).due ++ s.published := by
      rw [Res.due, show ((s.store.resGetOrCreate id).1.publish p c).id = id from hfound]
      cases p with
      | none => rfl
      | some p => cases c <;> rfl
    have hclean : (s.publishAt id p c).store.cleaned =
        (s.store.resGetOrCreate id).1.due ++ s.store.cleaned :=
      congrArg ((s.store.resGetOrCreate id).1.due ++ ·)
        (Resources.cleaned_getOrCreate s.store id)
    have hdue : (s.publishAt id p c).store.due j =
        if j = id then ((s.store.resGetOrCreate id).1.publish p c).due else s.store.due j := by
      rw [Resources.due, show (s.publishAt id p c).store.resFind j =
        (s.store.publishPayload id p c).2.resFind j from rfl, Resources.resFind_publishPayload,
        Resources.resGetOrCreate_fst]
      split <;> rfl
    have hold : (s.store.resGetOrCreate id).1.due = s.store.due id := by
      rw [Resources.resGetOrCreate_fst, Resources.due_getD]
    rw [hpub, hclean, hdue, List.filter_append, List.filter_append, Resources.filter_due,
      Resources.filter_due, show ((s.store.resGetOrCreate id).1.publish p c).id = id from hfound,
      hfound]
    rcases eq_or_ne j id with rfl | hj
    · rw [if_pos rfl, if_pos rfl, if_pos rfl, hold, h.published_eq]
    · rw [if_neg hj.symm, if_neg hj.symm, if_neg hj, List.nil_append, List.nil_append,
        h.published_eq]

/-- **One operation** of a run on the loop thread keeps the account. -/
theorem tracked_step {c : RefCall} {s : RefState} (hs : Counted deps s) (h : Tracked s)
    (hc : c.Legal s ∧ c.Declared deps s) : Tracked (step deps c s) := by
  obtain ⟨hlegal, hdecl⟩ := hc
  cases c with
  | declare => exact h.declare
  | register p c => exact (h.declare).publishAt (Nat.lt_succ_self _) p c
  | registerAsync p c => exact hdecl.elim
  | drain => exact hdecl.elim
  | publish id p c =>
    rw [step]
    split
    · exact Tracked.publishAt (s := s.addOwner id) ⟨h.lt_gNextId, h.published_eq⟩ hdecl p c
    · exact h.publishAt hdecl p c
  | addref id =>
    have hfind := fun j => Resources.resFind_put_getOrCreate s.store j
      (show (s.store.resGetOrCreate id).1.addOwner.id = id from
        Resources.id_resGetOrCreate s.store id)
    refine h.of_due (fun j n hn => ?_) rfl (Resources.cleaned_getOrCreate s.store id) fun j => ?_
    · rw [show (step deps (.addref id) s).store.resFind j =
        (s.store.curlEventResAddref id).resFind j from rfl, Resources.curlEventResAddref,
        hfind] at hn
      rw [show (step deps (.addref id) s).store.gNextId = (s.store.resGetOrCreate id).2.gNextId
        from rfl, Resources.gNextId_getOrCreate]
      split at hn
      · exact ‹j = id› ▸ hdecl
      · exact h.lt_gNextId j n hn
    · rw [Resources.due, show (step deps (.addref id) s).store.resFind j =
        (s.store.curlEventResAddref id).resFind j from rfl, Resources.curlEventResAddref, hfind]
      rcases eq_or_ne j id with rfl | hj
      · rw [if_pos rfl, Option.elim_some, Resources.resGetOrCreate_fst]
        exact Resources.due_getD s.store j 0
      · rw [if_neg hj]
        rfl
  | release id =>
    have hpos : 0 < s.owners id := hlegal
    have hne : s.store.refcnt id ≠ 0 := by
      rw [hs.refcnt_eq, users]
      omega
    obtain ⟨n, hn⟩ := Resources.resFind_isSome_of_refcnt hne
    have hid : n.id = id := Resources.id_of_resFind hn
    have hfind := Resources.resFind_release hn
    have hnext : (s.store.curlEventResRelease id).gNextId = s.store.gNextId := by
      rw [Resources.curlEventResRelease, hn]
      dsimp only
      split <;> rfl
    refine ⟨fun j m hm => ?_, fun j => ?_⟩
    · rw [show (step deps (.release id) s).store = s.store.curlEventResRelease id from rfl,
        hnext]
      rw [show (step deps (.release id) s).store = s.store.curlEventResRelease id from rfl,
        hfind] at hm
      split at hm
      · exact ‹j = id› ▸ h.lt_gNextId id n hn
      · exact h.lt_gNextId j m hm
    · show s.published.filter _ = (s.store.curlEventResRelease id).due j ++
        (s.store.curlEventResRelease id).cleaned.filter _
      rw [Resources.due, hfind, h.published_eq]
      have hcl : (s.store.curlEventResRelease id).cleaned =
          (if n.refcnt = 1 then n.due else []) ++ s.store.cleaned := by
        rw [Resources.curlEventResRelease, hn]
        dsimp only
        by_cases h1 : n.refcnt = 1
        · rw [if_pos (by omega), if_pos h1]
          rfl
        · rw [if_neg (by omega), if_neg h1]
          rfl
      rw [hcl, List.filter_append]
      by_cases h1 : n.refcnt = 1
      · rw [if_pos h1, if_pos h1, Resources.filter_due, hid]
        rcases eq_or_ne j id with rfl | hj
        · simp [Resources.due, hn]
        · simp [hj, hj.symm, Resources.due]
      · rw [if_neg h1, if_neg h1]
        rcases eq_or_ne j id with rfl | hj
        · simp [Resources.due, hn, Res.due, Res.addRefs]
        · simp [hj, Resources.due]
  | retain r =>
    refine h.of_due (fun j n hn => ?_) rfl (Resources.cleaned_retain (deps r) s.store) fun j => ?_
    · rw [show (step deps (.retain r) s).store.gNextId =
        (s.store.curlResourceRetainRequestDeps (deps r)).gNextId from rfl,
        Resources.gNextId_retain]
      rw [show (step deps (.retain r) s).store.resFind j =
        (s.store.curlResourceRetainRequestDeps (deps r)).resFind j from rfl,
        Resources.resFind_retain] at hn
      split at hn
      · exact hdecl j ‹_›
      · exact h.lt_gNextId j n hn
    · rw [Resources.due, show (step deps (.retain r) s).store.resFind j =
        (s.store.curlResourceRetainRequestDeps (deps r)).resFind j from rfl,
        Resources.resFind_retain]
      split
      · exact Resources.due_getD s.store j 0
      · rfl
  | releaseDeps r =>
    have hle : ∀ id n, s.store.resFind id = some n → ((deps r).count id : ℤ) ≤ n.refcnt := by
      intro id n hn
      rw [← Resources.refcnt_eq hn, hs.refcnt_eq]
      exact_mod_cast count_le_users deps hlegal id
    have hfind := Resources.resFind_releaseDeps (deps r) hs.noAutoRelease hle
    refine h.of_due (fun j n hn => ?_) rfl
      (Resources.cleaned_releaseDeps (deps r) hs.noAutoRelease) fun j => ?_
    · rw [show (step deps (.releaseDeps r) s).store.gNextId =
        (s.store.curlResourceReleaseRequestDeps (deps r)).gNextId from rfl,
        Resources.gNextId_releaseDeps (deps r) hs.noAutoRelease]
      rw [show (step deps (.releaseDeps r) s).store.resFind j =
        (s.store.curlResourceReleaseRequestDeps (deps r)).resFind j from rfl, hfind] at hn
      obtain ⟨m, hm, -⟩ := Option.map_eq_some_iff.mp hn
      exact h.lt_gNextId j m hm
    · rw [Resources.due, show (step deps (.releaseDeps r) s).store.resFind j =
        (s.store.curlResourceReleaseRequestDeps (deps r)).resFind j from rfl, hfind,
        Resources.due]
      cases s.store.resFind j <;> rfl

/-- Every node has a user. -/
def Occupied (s : RefState) : Prop := ∀ id n, s.store.resFind id = some n → 0 < n.refcnt

theorem occupied_init : Occupied init := by
  intro id n h
  simp [init, Resources.init, Resources.resFind] at h

theorem Occupied.declare {s : RefState} (h : Occupied s)
    (hnew : s.store.resFind s.store.gNextId = none) : Occupied s.declare := by
  intro id n hn
  rw [show s.declare.store.resFind id = s.store.curlEventResDeclare.2.resFind id from rfl,
    Resources.resFind_declare hnew] at hn
  split at hn
  · obtain rfl := Option.some.inj hn
    exact Int.one_pos
  · exact h id n hn

/-- A publication gives a reference to a node that has none. -/
theorem Occupied.publishAt {s : RefState} (h : Occupied s) (id : ResId) (p : Option Payload)
    (c : Bool) : Occupied (s.publishAt id p c) := by
  intro j n hn
  rw [show (s.publishAt id p c).store = (s.store.publishPayload id p c).2 from rfl,
    Resources.resFind_publishPayload] at hn
  split at hn
  · obtain rfl := Option.some.inj hn
    show 0 < (if ((s.store.resFind id).getD (.fresh id 0)).refcnt = 0 then 1
      else ((s.store.resFind id).getD (.fresh id 0)).refcnt : ℤ)
    cases hf : s.store.resFind id with
    | none => exact Int.one_pos
    | some m =>
      have hm := h id m hf
      rw [Option.getD_some, if_neg (by omega)]
      exact hm
  · exact h j n hn

/-- **One operation** leaves no node without a user, if a request that lets its dependencies go
leaves another user to each of them. -/
theorem occupied_step {c : RefCall} {s : RefState} (hs : Counted deps s) (ht : Tracked s)
    (h : Occupied s) (hc : c.Legal s ∧ c.Declared deps s) (hleave : c.LeavesAnother deps s) :
    Occupied (step deps c s) := by
  have hunshared := ht.unshared hc.2
  cases c with
  | declare => exact h.declare hunshared
  | register p c => exact (h.declare hunshared).publishAt _ p c
  | registerAsync p c => exact hc.2.elim
  | drain => exact hc.2.elim
  | publish id p c =>
    rw [step]
    split
    · exact Occupied.publishAt (s := s.addOwner id) h id p c
    · exact h.publishAt id p c
  | addref id =>
    intro j n hn
    rw [show (step deps (.addref id) s).store.resFind j =
      (s.store.curlEventResAddref id).resFind j from rfl, Resources.curlEventResAddref,
      Resources.resFind_put_getOrCreate s.store j
        (show (s.store.resGetOrCreate id).1.addOwner.id = id from
          Resources.id_resGetOrCreate s.store id)] at hn
    split at hn
    · obtain rfl := Option.some.inj hn
      show 0 < (if (s.store.resGetOrCreate id).1.refcnt = 0 then 1
        else (s.store.resGetOrCreate id).1.refcnt + 1 : ℤ)
      rw [Resources.refcnt_getOrCreate, hs.refcnt_eq]
      split <;> omega
    · exact h j n hn
  | release id =>
    have hpos : 0 < s.owners id := hc.1
    have hne : s.store.refcnt id ≠ 0 := by
      rw [hs.refcnt_eq, users]
      omega
    obtain ⟨m, hm⟩ := Resources.resFind_isSome_of_refcnt hne
    intro j n hn
    rw [show (step deps (.release id) s).store = s.store.curlEventResRelease id from rfl,
      Resources.resFind_release hm] at hn
    split at hn
    · split at hn
      · simp at hn
      · obtain rfl := Option.some.inj hn
        have hmpos := h id m hm
        rw [Res.refcnt_addRefs]
        omega
    · exact h j n hn
  | retain r =>
    intro j n hn
    rw [show (step deps (.retain r) s).store.resFind j =
      (s.store.curlResourceRetainRequestDeps (deps r)).resFind j from rfl,
      Resources.resFind_retain] at hn
    split at hn
    · obtain rfl := Option.some.inj hn
      have hcount : 0 < (deps r).count j := List.count_pos_iff.mpr ‹_›
      have hold : 0 ≤ ((s.store.resFind j).getD (.fresh j 0)).refcnt := by
        rw [← Resources.resGetOrCreate_fst, Resources.refcnt_getOrCreate, hs.refcnt_eq]
        exact Int.natCast_nonneg _
      rw [Res.refcnt_addRefs]
      omega
    · exact h j n hn
  | releaseDeps r =>
    have hle : ∀ id n, s.store.resFind id = some n → ((deps r).count id : ℤ) ≤ n.refcnt := by
      intro id n hn
      rw [← Resources.refcnt_eq hn, hs.refcnt_eq]
      exact_mod_cast count_le_users deps hc.1 id
    have hfind := Resources.resFind_releaseDeps (deps r) hs.noAutoRelease hle
    intro j n hn
    rw [show (step deps (.releaseDeps r) s).store.resFind j =
      (s.store.curlResourceReleaseRequestDeps (deps r)).resFind j from rfl, hfind] at hn
    obtain ⟨m, hm, rfl⟩ := Option.map_eq_some_iff.mp hn
    have hmpos := h j m hm
    rw [Res.refcnt_addRefs]
    by_cases hj : j ∈ deps r
    · have hlt : (deps r).count j < s.users deps j := hleave j hj
      rw [← Resources.refcnt_eq hm, hs.refcnt_eq]
      omega
    · rw [List.count_eq_zero_of_not_mem hj]
      omega

/-- A resource without users is reclaimed where every node has a user. -/
theorem reclaimed_of_occupied {s : RefState} (hs : Counted deps s) (ht : Tracked s)
    (h : Occupied s) {id : ResId} (hid : s.users deps id = 0) : s.Reclaimed id := by
  have hnone : s.store.resFind id = none := by
    by_contra hne
    obtain ⟨n, hn⟩ := Option.ne_none_iff_exists'.mp hne
    have hpos := h id n hn
    rw [← Resources.refcnt_eq hn, hs.refcnt_eq, hid] at hpos
    simp at hpos
  refine ⟨hnone, ?_⟩
  rw [ht.published_eq, Resources.due, hnone]
  rfl

/-- A request that drops the last reference of a dependency leaves its node in the map. -/
theorem not_reclaimed_of_releaseDeps {s : RefState} (hs : Counted deps s) {r : ReqId}
    (hr : r ∈ s.retained) {id : ResId} (hid : id ∈ deps r)
    (hlast : s.users deps id ≤ (deps r).count id) :
    (step deps (.releaseDeps r) s).users deps id = 0 ∧
      ¬ (step deps (.releaseDeps r) s).Reclaimed id := by
  have hle : ∀ id n, s.store.resFind id = some n → ((deps r).count id : ℤ) ≤ n.refcnt := by
    intro id n hn
    rw [← Resources.refcnt_eq hn, hs.refcnt_eq]
    exact_mod_cast count_le_users deps hr id
  have husers : (deps r).count id ≤ s.users deps id := count_le_users deps hr id
  have hheld := held_erase deps hr id
  refine ⟨?_, fun hrec => ?_⟩
  · simp only [users, step] at hlast husers ⊢
    simp only [held] at hlast husers hheld ⊢
    omega
  · have hne : s.store.refcnt id ≠ 0 := by
      have hpos : 0 < (deps r).count id := List.count_pos_iff.mpr hid
      rw [hs.refcnt_eq]
      omega
    obtain ⟨n, hn⟩ := Resources.resFind_isSome_of_refcnt hne
    have hfind := Resources.resFind_releaseDeps (deps r) hs.noAutoRelease hle
    have hgone := hrec.1
    rw [show (step deps (.releaseDeps r) s).store.resFind id =
      (s.store.curlResourceReleaseRequestDeps (deps r)).resFind id from rfl, hfind, hn] at hgone
    simp at hgone

/-- **A run** on the loop thread keeps the count and the account. -/
theorem counted_tracked_run {calls : List RefCall}
    (h : Guarded.Allowed (step deps) (fun c s => c.Legal s ∧ c.Declared deps s) init calls) :
    Counted deps (Guarded.run (step deps) init calls) ∧
      Tracked (Guarded.run (step deps) init calls) := by
  refine h.invariant (P := fun s => Counted deps s ∧ Tracked s) (fun c s hs hc => ?_)
    ⟨counted_init, tracked_init⟩
  exact ⟨counted_step hs.1 ⟨hc.1, hs.2.unshared hc.2⟩, tracked_step hs.1 hs.2 hc⟩

/-- **Reclaimed with the last reference.** In a run on the loop thread whose resources are declared
before they are referred to, every resource without users is reclaimed, at every moment, exactly
when no request that lets its dependencies go drops the last reference of one. -/
theorem reclaimed_iff_leavesAnother {calls : List RefCall}
    (h : Guarded.Allowed (step deps) (fun c s => c.Legal s ∧ c.Declared deps s) init calls) :
    (∀ pre, pre <+: calls → ∀ id, (Guarded.run (step deps) init pre).users deps id = 0 →
        (Guarded.run (step deps) init pre).Reclaimed id) ↔
      Guarded.Allowed (step deps) (RefCall.LeavesAnother deps) init calls := by
  constructor
  · intro hrec
    refine Guarded.allowed_iff_prefix.mpr fun pre c hpre => ?_
    obtain ⟨post, rfl⟩ := hpre
    have hpc := (Guarded.allowed_append.mp h).1
    obtain ⟨hpre, hc, -⟩ := Guarded.allowed_append.mp hpc
    have hcounted := (counted_tracked_run hpre).1
    cases c with
    | releaseDeps r =>
      intro id hid
      by_contra hlast
      obtain ⟨hzero, hnot⟩ := not_reclaimed_of_releaseDeps hcounted hc.1 hid (not_lt.mp hlast)
      have hafter := hrec (pre ++ [.releaseDeps r]) (List.prefix_append ..) id
      rw [Guarded.run_append] at hafter
      exact hnot (hafter hzero)
    | _ => trivial
  · intro hleave pre hpre id hid
    obtain ⟨post, rfl⟩ := hpre
    have hpre := (Guarded.allowed_append.mp h).1
    have hboth := hpre.and (Guarded.allowed_append.mp hleave).1
    have hocc := hboth.invariant (P := fun s => Counted deps s ∧ Tracked s ∧ Occupied s)
      (fun c s hs hc => ⟨counted_step hs.1 ⟨hc.1.1, hs.2.1.unshared hc.1.2⟩,
        tracked_step hs.1 hs.2.1 hc.1, occupied_step hs.1 hs.2.1 hs.2.2 hc.1 hc.2⟩)
      ⟨counted_init, tracked_init, occupied_init⟩
    exact reclaimed_of_occupied hocc.1 hocc.2.1 hocc.2.2 hid

/-- The owner outlives the request: everything is reclaimed. -/
theorem reclaimed_iff_leavesAnother_owner_last :
    (∀ pre, pre <+: [.declare, .publish 1 (some 7) true, .retain 0, .releaseDeps 0, .release 1] →
      ∀ id, (Guarded.run (step fun _ => [1]) init pre).users (fun _ => [1]) id = 0 →
        (Guarded.run (step fun _ => [1]) init pre).Reclaimed id) ↔
      Guarded.Allowed (step fun _ => [1]) (RefCall.LeavesAnother fun _ => [1]) init
        [.declare, .publish 1 (some 7) true, .retain 0, .releaseDeps 0, .release 1] :=
  reclaimed_iff_leavesAnother (by decide +kernel)

/-- The owner releases first. The request then drops the last reference, and the node stays with
its payload: nobody will ever dispose of it. -/
theorem not_reclaimed_owner_first :
    Guarded.Allowed (step fun _ => [1]) (fun c s => c.Legal s ∧ c.Declared (fun _ => [1]) s) init
        [.declare, .publish 1 (some 7) true, .retain 0, .release 1, .releaseDeps 0] ∧
      (Guarded.run (step fun _ => [1]) init
        [.declare, .publish 1 (some 7) true, .retain 0, .release 1, .releaseDeps 0]).users
          (fun _ => [1]) 1 = 0 ∧
      ¬ (Guarded.run (step fun _ => [1]) init
        [.declare, .publish 1 (some 7) true, .retain 0, .release 1, .releaseDeps 0]).Reclaimed
          1 := by
  decide +kernel

end RefState

end CurlLoop
