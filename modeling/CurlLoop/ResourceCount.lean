import CurlLoop.Resource

/-!
# Reference counts

What each operation of the store does to the reference count under an id. The count is read
through `Resources.refcnt`, which is `0` where there is no node, so a node that is freed because
its count reached zero and a placeholder that was never referred to look alike here. Whether the
node is there is a separate question, answered by the `resFind` lemmas.

## Main definitions

* `Resources.refcnt` — the count under an id
* `Resources.NoAutoRelease` — no node drops its owner by itself

## Main results

* `Resources.refcnt_declare`, `refcnt_publishPayload`, `refcnt_addref`, `refcnt_release`,
  `refcnt_retain`, `refcnt_releaseDeps` — one equation for each operation
-/

namespace CurlLoop

namespace Resources

/-! ### Retaining and releasing dependency lists -/

/-- No node drops its owner by itself. -/
def NoAutoRelease (s : Resources) : Prop :=
  ∀ id n, s.resFind id = some n → n.autoReleaseOwner = false

theorem resFind_retainDep (s : Resources) (id j : ResId) :
    (s.retainDep id).resFind j =
      if j = id then some (((s.resFind id).getD (.fresh id 0)).addRefs 1) else s.resFind j := by
  rw [retainDep, resFind_put_getOrCreate s j (by simp [id_resGetOrCreate]), resGetOrCreate_fst]

/-- A request that retains its dependencies adds one reference for each occurrence. -/
theorem resFind_retain (deps : List ResId) (s : Resources) (j : ResId) :
    (s.curlResourceRetainRequestDeps deps).resFind j =
      if j ∈ deps then some (((s.resFind j).getD (.fresh j 0)).addRefs (deps.count j))
      else s.resFind j := by
  induction deps generalizing s with
  | nil => rfl
  | cons id deps ih =>
    rw [curlResourceRetainRequestDeps, List.foldl_cons, ← curlResourceRetainRequestDeps, ih,
      resFind_retainDep]
    rcases eq_or_ne j id with rfl | hj
    · by_cases hmem : j ∈ deps
      · simp [hmem, Int.add_comm 1]
      · simp [hmem, List.count_eq_zero_of_not_mem hmem]
    · simp [hj, List.count_cons_of_ne hj.symm]

theorem resFind_releaseDep {s : Resources} (hauto : s.NoAutoRelease) (id j : ResId) :
    (s.releaseDep id).resFind j = if j = id then (s.resFind j).map Res.unref else s.resFind j := by
  rw [releaseDep]
  cases h : s.resFind id with
  | none =>
    rcases eq_or_ne j id with rfl | hj
    · simp [h]
    · simp [hj]
  | some n =>
    have hn : n.autoReleaseOwner = false := hauto id n h
    have hid : n.id = id := id_of_resFind h
    dsimp only
    rw [maybeAutoreleaseOwner, if_neg (by simp [hn]), resFind_put]
    rcases eq_or_ne j id with rfl | hj
    · simp [h, hid]
    · simp [hid, hj]

theorem NoAutoRelease.releaseDep {s : Resources} (hauto : s.NoAutoRelease) (id : ResId) :
    (s.releaseDep id).NoAutoRelease := by
  intro j n hn
  rw [resFind_releaseDep hauto] at hn
  split at hn
  · obtain ⟨m, hm, rfl⟩ := Option.map_eq_some_iff.mp hn
    simpa using hauto j m hm
  · exact hauto j n hn

/-- A request that lets its dependencies go drops one reference for each occurrence, provided the
count had that many. The node stays. -/
theorem resFind_releaseDeps (deps : List ResId) {s : Resources} (hauto : s.NoAutoRelease)
    (hcount : ∀ id n, s.resFind id = some n → (deps.count id : ℤ) ≤ n.refcnt) (j : ResId) :
    (s.curlResourceReleaseRequestDeps deps).resFind j =
      (s.resFind j).map fun n => n.addRefs (-deps.count j) := by
  induction deps generalizing s with
  | nil => simp [curlResourceReleaseRequestDeps]
  | cons id deps ih =>
    rw [curlResourceReleaseRequestDeps, List.foldl_cons, ← curlResourceReleaseRequestDeps,
      ih (hauto.releaseDep id) ?_, resFind_releaseDep hauto]
    · rcases eq_or_ne j id with rfl | hj
      · cases h : s.resFind j with
        | none => simp
        | some n =>
          have hn := hcount j n h
          rw [List.count_cons_self] at hn
          have hpos : 0 < n.refcnt := by
            have : 0 ≤ (deps.count j : ℤ) := Int.natCast_nonneg _
            push_cast at hn
            omega
          simp only [if_pos, Option.map_some, Res.unref_of_pos hpos, Res.addRefs_addRefs,
            List.count_cons_self]
          congr 2
          push_cast
          omega
      · simp [hj, List.count_cons_of_ne hj.symm]
    · intro k n hn
      rw [resFind_releaseDep hauto] at hn
      rcases eq_or_ne k id with rfl | hk
      · rw [if_pos rfl] at hn
        obtain ⟨m, hm, rfl⟩ := Option.map_eq_some_iff.mp hn
        have hmc := hcount k m hm
        rw [List.count_cons_self] at hmc
        have hpos : 0 < m.refcnt := by push_cast at hmc; omega
        rw [Res.unref_of_pos hpos, Res.refcnt_addRefs]
        push_cast at hmc
        omega
      · rw [if_neg hk] at hn
        have hnc := hcount k n hn
        rwa [List.count_cons_of_ne hk.symm] at hnc

theorem noAutoRelease_releaseDeps (deps : List ResId) {s : Resources} (hauto : s.NoAutoRelease) :
    (s.curlResourceReleaseRequestDeps deps).NoAutoRelease := by
  induction deps generalizing s with
  | nil => exact hauto
  | cons id deps ih => exact ih (hauto.releaseDep id)

/-! ### The count under an id -/

/-- The reference count under an id, `0` where there is no node. -/
def refcnt (s : Resources) (id : ResId) : ℤ := (s.resFind id).elim 0 Res.refcnt

theorem refcnt_eq {s : Resources} {id : ResId} {n : Res} (h : s.resFind id = some n) :
    s.refcnt id = n.refcnt := by
  rw [refcnt, h, Option.elim_some]

theorem resFind_isSome_of_refcnt {s : Resources} {id : ResId} (h : s.refcnt id ≠ 0) :
    ∃ n, s.resFind id = some n := by
  cases hf : s.resFind id with
  | none => simp [refcnt, hf] at h
  | some n => exact ⟨n, rfl⟩

theorem refcnt_getOrCreate (s : Resources) (id : ResId) :
    (s.resGetOrCreate id).1.refcnt = s.refcnt id := by
  rw [resGetOrCreate_fst, refcnt]
  cases s.resFind id <;> rfl

theorem resFind_declare {s : Resources} (h : s.resFind s.gNextId = none) (j : ResId) :
    s.curlEventResDeclare.2.resFind j =
      if j = s.gNextId then some (.fresh s.gNextId 1) else s.resFind j := by
  have hins := resFind_insert { s with gNextId := s.gNextId + 1 } (.fresh s.gNextId 1) j
  rw [show ({ s with gNextId := s.gNextId + 1 } : Resources).resFind j = s.resFind j from rfl,
    show (Res.fresh s.gNextId 1).id = s.gNextId from rfl] at hins
  rw [show s.curlEventResDeclare.2 =
    ({ s with gNextId := s.gNextId + 1 } : Resources).resInsert (.fresh s.gNextId 1) from rfl, hins]
  rcases eq_or_ne j s.gNextId with rfl | hj
  · simp [h]
  · simp [hj]

theorem refcnt_declare {s : Resources} (h : s.resFind s.gNextId = none) (j : ResId) :
    s.curlEventResDeclare.2.refcnt j = s.refcnt j + if j = s.gNextId then 1 else 0 := by
  rw [refcnt, resFind_declare h]
  rcases eq_or_ne j s.gNextId with rfl | hj
  · simp [refcnt, h, Res.fresh]
  · simp [hj, refcnt]

theorem resFind_publishPayload (s : Resources) (id : ResId) (payload : Option Payload)
    (cleanup : Bool) (j : ResId) :
    (s.publishPayload id payload cleanup).2.resFind j =
      if j = id then some (((s.resFind id).getD (.fresh id 0)).publish payload cleanup)
      else s.resFind j := by
  rw [publishPayload, resFind_put, resFind_clean, resFind_getOrCreate, resGetOrCreate_fst]
  have hid : ((s.resFind id).getD (.fresh id 0)).id = id := by
    rw [← resGetOrCreate_fst, id_resGetOrCreate]
  rcases eq_or_ne j id with rfl | hj
  · simp [Res.publish, hid]
  · simp [Res.publish, hid, hj]

theorem refcnt_publishPayload (s : Resources) (id : ResId) (payload : Option Payload)
    (cleanup : Bool) (j : ResId) :
    (s.publishPayload id payload cleanup).2.refcnt j =
      s.refcnt j + if j = id ∧ s.refcnt id = 0 then 1 else 0 := by
  rw [refcnt, resFind_publishPayload]
  rcases eq_or_ne j id with rfl | hj
  · have hr : ((s.resFind j).getD (.fresh j 0)).refcnt = s.refcnt j := by
      rw [← resGetOrCreate_fst, refcnt_getOrCreate]
    by_cases h0 : s.refcnt j = 0 <;> simp [Res.publish, hr, h0]
  · simp [hj, refcnt]

theorem refcnt_addref (s : Resources) (id j : ResId) :
    (s.curlEventResAddref id).refcnt j = s.refcnt j + if j = id then 1 else 0 := by
  rw [refcnt, curlEventResAddref,
    resFind_put_getOrCreate s j (show (s.resGetOrCreate id).1.addOwner.id = id from
      id_resGetOrCreate s id)]
  rcases eq_or_ne j id with rfl | hj
  · by_cases h0 : s.refcnt j = 0 <;> simp [Res.addOwner, refcnt_getOrCreate, h0]
  · simp [hj, refcnt]

theorem resFind_release {s : Resources} {id : ResId} {n : Res} (h : s.resFind id = some n)
    (j : ResId) :
    (s.curlEventResRelease id).resFind j =
      if j = id then (if n.refcnt = 1 then none else some (n.addRefs (-1))) else s.resFind j := by
  have hid : n.id = id := id_of_resFind h
  rw [curlEventResRelease, h]
  dsimp only
  by_cases h1 : n.refcnt = 1
  · rw [if_pos (by omega), resFind_clean, resFind_free, if_pos h1]
  · rw [if_neg (by omega), resFind_put, if_neg h1]
    rcases eq_or_ne j id with rfl | hj
    · simp [hid, h]
    · simp [hid, hj]

theorem refcnt_release {s : Resources} {id : ResId} (h : s.refcnt id ≠ 0) (j : ResId) :
    (s.curlEventResRelease id).refcnt j = s.refcnt j - if j = id then 1 else 0 := by
  obtain ⟨n, hn⟩ := resFind_isSome_of_refcnt h
  rw [refcnt, resFind_release hn]
  rcases eq_or_ne j id with rfl | hj
  · rw [refcnt_eq hn]
    by_cases h1 : n.refcnt = 1 <;> simp [h1]
    omega
  · simp [hj, refcnt]

theorem refcnt_retain (deps : List ResId) (s : Resources) (j : ResId) :
    (s.curlResourceRetainRequestDeps deps).refcnt j = s.refcnt j + deps.count j := by
  rw [refcnt, resFind_retain]
  by_cases hj : j ∈ deps
  · rw [if_pos hj, Option.elim_some, Res.refcnt_addRefs, refcnt]
    cases s.resFind j <;> rfl
  · simp [hj, refcnt, List.count_eq_zero_of_not_mem hj]

theorem refcnt_releaseDeps {deps : List ResId} {s : Resources} (hauto : s.NoAutoRelease)
    (hcount : ∀ id, (deps.count id : ℤ) ≤ s.refcnt id) (j : ResId) :
    (s.curlResourceReleaseRequestDeps deps).refcnt j = s.refcnt j - deps.count j := by
  have hle : ∀ id n, s.resFind id = some n → (deps.count id : ℤ) ≤ n.refcnt := by
    intro id n hn
    rw [← refcnt_eq hn]
    exact hcount id
  rw [refcnt, resFind_releaseDeps deps hauto hle]
  cases h : s.resFind j with
  | none =>
    have hj := hcount j
    simp only [refcnt, h, Option.elim_none] at hj
    simp only [Option.map_none, Option.elim_none, refcnt, h]
    omega
  | some n =>
    simp only [Option.map_some, Option.elim_some, Res.refcnt_addRefs, refcnt_eq h]
    omega

/-! ### Payloads and their cleanup -/

/-- The cleanup call due for the payload under an id. -/
def due (s : Resources) (id : ResId) : List (ResId × Payload) := (s.resFind id).elim [] Res.due

/-- Only the node under an id can be due for a call under that id. -/
theorem filter_due (n : Res) (id : ResId) :
    n.due.filter (fun e => e.1 = id) = if n.id = id then n.due else [] := by
  rw [Res.due]
  split
  · split
    · by_cases h : n.id = id <;> simp [h]
    · simp
  · simp

theorem due_getD (s : Resources) (id : ResId) (k : ℤ) :
    ((s.resFind id).getD (.fresh id k)).due = s.due id := by
  rw [due]
  cases s.resFind id <;> rfl

theorem cleaned_getOrCreate (s : Resources) (id : ResId) :
    (s.resGetOrCreate id).2.cleaned = s.cleaned := by
  rw [resGetOrCreate]
  cases s.resFind id <;> rfl

theorem gNextId_getOrCreate (s : Resources) (id : ResId) :
    (s.resGetOrCreate id).2.gNextId = s.gNextId := by
  rw [resGetOrCreate]
  cases s.resFind id <;> rfl

theorem cleaned_retain (deps : List ResId) (s : Resources) :
    (s.curlResourceRetainRequestDeps deps).cleaned = s.cleaned := by
  induction deps generalizing s with
  | nil => rfl
  | cons id deps ih => exact (ih (s.retainDep id)).trans (cleaned_getOrCreate s id)

theorem gNextId_retain (deps : List ResId) (s : Resources) :
    (s.curlResourceRetainRequestDeps deps).gNextId = s.gNextId := by
  induction deps generalizing s with
  | nil => rfl
  | cons id deps ih => exact (ih (s.retainDep id)).trans (gNextId_getOrCreate s id)

/-- Without automatic release, letting a dependency go only rewrites its node. -/
theorem releaseDep_eq {s : Resources} (hauto : s.NoAutoRelease) (id : ResId) :
    s.releaseDep id = (s.resFind id).elim s fun n => s.put n.unref := by
  rw [releaseDep]
  cases h : s.resFind id with
  | none => rfl
  | some n => simp [maybeAutoreleaseOwner, hauto id n h]

theorem cleaned_releaseDeps (deps : List ResId) {s : Resources} (hauto : s.NoAutoRelease) :
    (s.curlResourceReleaseRequestDeps deps).cleaned = s.cleaned := by
  induction deps generalizing s with
  | nil => rfl
  | cons id deps ih =>
    refine (ih (hauto.releaseDep id)).trans ?_
    rw [releaseDep_eq hauto]
    cases s.resFind id <;> rfl

theorem gNextId_releaseDeps (deps : List ResId) {s : Resources} (hauto : s.NoAutoRelease) :
    (s.curlResourceReleaseRequestDeps deps).gNextId = s.gNextId := by
  induction deps generalizing s with
  | nil => rfl
  | cons id deps ih =>
    refine (ih (hauto.releaseDep id)).trans ?_
    rw [releaseDep_eq hauto]
    cases s.resFind id <;> rfl

/-! ### Automatic release stays off -/

/-- An operation that writes no flag, or only onto new nodes, keeps automatic release off. -/
theorem NoAutoRelease.of_find {s t : Resources} (hauto : s.NoAutoRelease)
    (h : ∀ id n, t.resFind id = some n →
      n.autoReleaseOwner = false ∨ ∃ m, s.resFind id = some m ∧
        n.autoReleaseOwner = m.autoReleaseOwner) : t.NoAutoRelease := by
  intro id n hn
  rcases h id n hn with hf | ⟨m, hm, heq⟩
  · exact hf
  · exact heq.trans (hauto id m hm)

/-- The flag of a node found or made by `res_get_or_create`. -/
theorem NoAutoRelease.getD {s : Resources} (hauto : s.NoAutoRelease) (id : ResId) (k : ℤ) :
    ((s.resFind id).getD (.fresh id k)).autoReleaseOwner = false := by
  cases h : s.resFind id with
  | none => rfl
  | some n => exact hauto id n h

theorem NoAutoRelease.declare {s : Resources} (hauto : s.NoAutoRelease) :
    s.curlEventResDeclare.2.NoAutoRelease := by
  refine hauto.of_find fun id n hn => ?_
  rw [curlEventResDeclare, resFind_insert] at hn
  split at hn
  · obtain rfl := Option.some.inj hn
    exact .inl (hauto.getD s.gNextId 1 ▸ by rw [‹id = _›]; rfl)
  · exact .inr ⟨n, hn, rfl⟩

theorem NoAutoRelease.publishPayload {s : Resources} (hauto : s.NoAutoRelease) (id : ResId)
    (payload : Option Payload) (cleanup : Bool) :
    (s.publishPayload id payload cleanup).2.NoAutoRelease := by
  refine hauto.of_find fun j n hn => ?_
  rw [resFind_publishPayload] at hn
  split at hn
  · obtain rfl := Option.some.inj hn
    exact .inl (hauto.getD id 0)
  · exact .inr ⟨n, hn, rfl⟩

theorem NoAutoRelease.addref {s : Resources} (hauto : s.NoAutoRelease) (id : ResId) :
    (s.curlEventResAddref id).NoAutoRelease := by
  refine hauto.of_find fun j n hn => ?_
  rw [curlEventResAddref, resFind_put_getOrCreate s j
    (show (s.resGetOrCreate id).1.addOwner.id = id from id_resGetOrCreate s id)] at hn
  split at hn
  · obtain rfl := Option.some.inj hn
    rw [resGetOrCreate_fst]
    exact .inl (hauto.getD id 0)
  · exact .inr ⟨n, hn, rfl⟩

theorem NoAutoRelease.release {s : Resources} (hauto : s.NoAutoRelease) (id : ResId) :
    (s.curlEventResRelease id).NoAutoRelease := by
  cases hf : s.resFind id with
  | none =>
    rw [curlEventResRelease, hf]
    exact hauto
  | some m =>
    refine hauto.of_find fun j n hn => ?_
    rw [resFind_release hf] at hn
    split at hn
    · split at hn
      · simp at hn
      · obtain rfl := Option.some.inj hn
        exact .inl (hauto id m hf)
    · exact .inr ⟨n, hn, rfl⟩

theorem NoAutoRelease.retain {s : Resources} (hauto : s.NoAutoRelease) (deps : List ResId) :
    (s.curlResourceRetainRequestDeps deps).NoAutoRelease := by
  refine hauto.of_find fun j n hn => ?_
  rw [resFind_retain] at hn
  split at hn
  · obtain rfl := Option.some.inj hn
    exact .inl (hauto.getD j 0)
  · exact .inr ⟨n, hn, rfl⟩

end Resources

end CurlLoop
