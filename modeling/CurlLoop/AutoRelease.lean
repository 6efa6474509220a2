import CurlLoop.Destruction

/-!
# Letting references go under auto-release

`curl_resource_release_request_deps` lowers the count of each dependency of a request, and frees a
node whose owner wants it released as soon as one reference is left and nobody waits for it. The
count does not go below zero, and a count that is one already and falls to zero frees nothing. So
what becomes of a node depends only on how often it is let go, `Res.aged`.

When the store is taken down the waiting list of a node is detached before the waiting requests are
failed. They let go of their dependencies, this node among them, and nothing protects the node from
being auto-released while `curl_resource_destroy_all` is still working on it. `Outlast` says that no
node is: it is the condition under which every node is freed once and every payload disposed of
once.

## Main definitions

* `Res.Dies`, `Res.aged` — what becomes of a node that is let go
* `Resources.Disposes` — nodes were freed, each once, and their payloads disposed of
* `Resources.tearDownFirst` — a round of `curl_resource_destroy_all`, as far as the store goes
* `Resources.Outlast` — every node outlasts the requests that wait for it

## Main results

* `Resources.nodes_releaseDeps` — the map after a list of references was dropped
* `Resources.forall_rounds_iff` — when every node is still there when its turn ends
* `Resources.disposes_tearDown` — then everything is disposed of once
-/

namespace CurlLoop

/-! ### One node -/

/-- The node with `c` references less, as far as it has them. -/
def Res.unrefs (n : Res) (c : ℕ) : Res :=
  { n with refcnt := if 0 < n.refcnt then max (n.refcnt - c) 0 else n.refcnt }

/-- The node is auto-released when it is let go `c` times. -/
def Res.Dies (n : Res) (c : ℕ) : Prop :=
  n.autoReleaseOwner = true ∧ n.blockedHead = none ∧ 2 ≤ n.refcnt ∧ n.refcnt ≤ c + 1

instance (n : Res) (c : ℕ) : Decidable (n.Dies c) := inferInstanceAs (Decidable (_ ∧ _))

/-- What is left of the node when it is let go `c` times. -/
def Res.aged (n : Res) (c : ℕ) : Option Res := if n.Dies c then none else some (n.unrefs c)

/-- The id of the node and what is to be disposed of with it. -/
def Res.estate (n : Res) : ResId × List (ResId × Payload) := (n.id, n.due)

theorem Res.estate_noWaiters (n : Res) : n.noWaiters.estate = n.estate := rfl

theorem Res.estate_unref (n : Res) : n.unref.estate = n.estate := by
  rw [unref]
  split <;> rfl

theorem Res.blockedHead_unref (n : Res) : n.unref.blockedHead = n.blockedHead := by
  rw [unref]
  split <;> rfl

theorem Res.unrefs_zero (n : Res) : n.unrefs 0 = n := by
  have hcnt : (if 0 < n.refcnt then max (n.refcnt - ((0 : ℕ) : ℤ)) 0 else n.refcnt) = n.refcnt := by
    split <;> omega
  rw [unrefs, hcnt]

theorem Res.unrefs_one (n : Res) : n.unrefs 1 = n.unref := by
  rw [unrefs, unref]
  split
  · rename_i hpos
    have hcnt : max (n.refcnt - ((1 : ℕ) : ℤ)) 0 = n.refcnt + -1 := by omega
    rw [hcnt, addRefs]
  · rfl

theorem Res.unrefs_unrefs (n : Res) (c d : ℕ) : (n.unrefs c).unrefs d = n.unrefs (c + d) := by
  have hcnt : (if 0 < (n.unrefs c).refcnt then max ((n.unrefs c).refcnt - d) 0
      else (n.unrefs c).refcnt) =
      if 0 < n.refcnt then max (n.refcnt - ((c + d : ℕ) : ℤ)) 0 else n.refcnt := by
    rw [unrefs]
    dsimp only
    push_cast
    by_cases hpos : 0 < n.refcnt
    · rw [if_pos hpos, if_pos hpos]
      split <;> omega
    · rw [if_neg hpos, if_neg hpos, if_neg hpos]
  rw [unrefs, hcnt]
  rfl

theorem Res.not_dies_zero (n : Res) : ¬ n.Dies 0 := by
  rintro ⟨-, -, hlow, hhigh⟩
  omega

theorem Res.aged_zero (n : Res) : n.aged 0 = some n := by
  rw [aged, if_neg n.not_dies_zero, unrefs_zero]

theorem Res.dies_one_iff (n : Res) :
    n.Dies 1 ↔ n.unref.autoReleaseOwner = true ∧ n.unref.refcnt = 1 ∧ n.unref.blockedHead = none := by
  rw [autoReleaseOwner_unref, blockedHead_unref, Dies, unref]
  split
  · rw [refcnt_addRefs]
    constructor
    · rintro ⟨hauto, hhead, hlow, hhigh⟩
      exact ⟨hauto, by omega, hhead⟩
    · rintro ⟨hauto, hcnt, hhead⟩
      exact ⟨hauto, hhead, by omega, by omega⟩
  · constructor
    · rintro ⟨-, -, hlow, -⟩
      omega
    · rintro ⟨-, hcnt, -⟩
      omega

/-- A node that survives some releases may die of more. -/
theorem Res.dies_unrefs_iff {n : Res} {c : ℕ} (h : ¬ n.Dies c) (d : ℕ) :
    (n.unrefs c).Dies d ↔ n.Dies (c + d) := by
  rw [Dies, Dies] at *
  rw [unrefs]
  dsimp only
  push_cast
  constructor
  · rintro ⟨hauto, hhead, hlow, hhigh⟩
    refine ⟨hauto, hhead, ?_⟩
    split at hlow <;> split at hhigh <;> omega
  · rintro ⟨hauto, hhead, hlow, hhigh⟩
    have hc : ¬ n.refcnt ≤ c + 1 := fun hle => h ⟨hauto, hhead, hlow, hle⟩
    refine ⟨hauto, hhead, ?_⟩
    rw [if_pos (by omega)]
    omega

theorem Res.Dies.mono {n : Res} {c : ℕ} (h : n.Dies c) (d : ℕ) : n.Dies (c + d) := by
  obtain ⟨hauto, hhead, hlow, hhigh⟩ := h
  exact ⟨hauto, hhead, hlow, by omega⟩

theorem Res.aged_bind (n : Res) (c d : ℕ) : (n.aged c).bind (fun m => m.aged d) = n.aged (c + d) := by
  by_cases hc : n.Dies c
  · rw [aged, if_pos hc, aged, if_pos (hc.mono d)]
    rfl
  · rw [aged, if_neg hc, Option.bind_some, aged, aged, unrefs_unrefs]
    by_cases hd : n.Dies (c + d)
    · rw [if_pos hd, if_pos ((dies_unrefs_iff hc d).mpr hd)]
    · rw [if_neg hd, if_neg fun hd' => hd ((dies_unrefs_iff hc d).mp hd')]

/-- The count of the node falls to one while the requests that wait for the node are being failed: it
was let go `before` times before that, and is let go `own` times then. -/
def Res.Overtaken (n : Res) (before own : ℕ) : Prop :=
  n.autoReleaseOwner = true ∧ before + 2 ≤ n.refcnt ∧ n.refcnt ≤ before + own + 1

instance (n : Res) (before own : ℕ) : Decidable (n.Overtaken before own) :=
  inferInstanceAs (Decidable (_ ∧ _))

/-- With its waiting list detached, nothing protects a node. -/
theorem Res.dies_noWaiters_iff (n : Res) (c : ℕ) : n.noWaiters.Dies c ↔ n.Overtaken 0 c := by
  rw [Dies, Overtaken]
  constructor
  · rintro ⟨hauto, -, hlow, hhigh⟩
    have hcnt : n.noWaiters.refcnt = n.refcnt := rfl
    exact ⟨hauto, by omega, by omega⟩
  · rintro ⟨hauto, hlow, hhigh⟩
    have hcnt : n.noWaiters.refcnt = n.refcnt := rfl
    exact ⟨hauto, rfl, by omega, by omega⟩

theorem Res.overtaken_unrefs_iff (n : Res) (c before own : ℕ) :
    (n.unrefs c).Overtaken before own ↔ n.Overtaken (c + before) own := by
  rw [Overtaken, Overtaken, unrefs]
  dsimp only
  push_cast
  constructor
  · rintro ⟨hauto, hlow, hhigh⟩
    refine ⟨hauto, ?_⟩
    split at hlow <;> split at hhigh <;> omega
  · rintro ⟨hauto, hlow, hhigh⟩
    refine ⟨hauto, ?_⟩
    rw [if_pos (by omega)]
    omega

theorem Res.not_overtaken_zero (n : Res) (before : ℕ) : ¬ n.Overtaken before 0 := by
  rintro ⟨-, hlow, hhigh⟩
  omega

theorem Res.estate_of_aged {n m : Res} {c : ℕ} (h : n.aged c = some m) : m.estate = n.estate := by
  rw [aged] at h
  split at h
  · contradiction
  · rw [← Option.some.inj h]
    rfl

theorem Res.blockedHead_of_aged {n m : Res} {c : ℕ} (h : n.aged c = some m) :
    m.blockedHead = n.blockedHead := by
  rw [aged] at h
  split at h
  · contradiction
  · rw [← Option.some.inj h]
    rfl

namespace Resources

variable {s t u : Resources} {id : ResId} {n : Res} {load : ResId → List ResId}

/-! ### The map after references were dropped -/

/-- The map has one node for each id, as `res_insert` sees to. -/
def Keyed (s : Resources) : Prop := s.ids.Nodup

theorem Keyed.sublist (h : s.Keyed) (ht : t.ids.Sublist s.ids) : t.Keyed := List.Nodup.sublist ht h

theorem ids_put_free (hn : s.resFind id = some n) :
    ((s.put n.unref).maybeAutoreleaseOwner n.unref).nodes =
      if n.Dies 1 then (OrderedMap.put Res.id n.unref s.nodes).filter fun m => m.id ≠ id
      else OrderedMap.put Res.id n.unref s.nodes := by
  have hid : n.unref.id = id := (Res.id_unref n).trans (id_of_resFind hn)
  have hfind : (s.put n.unref).resFind n.unref.id = some n.unref := by
    rw [resFind_put, if_pos rfl, hid, hn]
    rfl
  rw [maybeAutoreleaseOwner]
  by_cases hdies : n.Dies 1
  · have hone : n.unref.refcnt = 1 := ((Res.dies_one_iff n).mp hdies).2.1
    rw [if_pos hdies, if_pos ((Res.dies_one_iff n).mp hdies), curlEventResRelease, hfind]
    dsimp only
    rw [if_pos (by rw [hone]; rfl), hid]
    rfl
  · rw [if_neg hdies, if_neg fun h => hdies ((Res.dies_one_iff n).mpr h)]
    rfl

/-- One reference to a node is dropped. -/
theorem nodes_releaseDep (hs : s.Keyed) (id : ResId) :
    (s.releaseDep id).nodes = s.nodes.filterMap fun m => m.aged ([id].count m.id) := by
  have hcount : ∀ m : Res, [id].count m.id = if m.id = id then 1 else 0 := by
    intro m
    rw [List.count_singleton]
    by_cases hm : m.id = id
    · rw [if_pos (by simp [hm]), if_pos hm]
    · rw [if_neg (by simp [Ne.symm hm]), if_neg hm]
  rw [releaseDep]
  cases hn : s.resFind id with
  | none =>
    dsimp only
    have hsome : ∀ m ∈ s.nodes, m.aged ([id].count m.id) = some m := by
      intro m hm
      have hne : m.id ≠ id := by simpa using List.find?_eq_none.mp hn m hm
      rw [hcount, if_neg hne, Res.aged_zero]
    rw [List.filterMap_congr hsome, List.filterMap_some]
  | some n =>
    dsimp only
    rw [ids_put_free hn]
    have hid : n.id = id := id_of_resFind hn
    have hput : OrderedMap.put Res.id n.unref s.nodes =
        s.nodes.map fun m => if m.id = id then n.unref else m := by
      rw [OrderedMap.put, Res.id_unref, hid]
    have honly : ∀ m ∈ s.nodes, m.id = id → m = n := by
      intro m hm hmid
      refine OrderedMap.eq_of_find hs ?_ hm
      rw [hmid]
      exact hn
    rw [hput]
    split
    · rename_i hdies
      rw [List.filter_map, ← List.filterMap_eq_map, List.filterMap_filter]
      refine List.filterMap_congr fun m hm => ?_
      rw [hcount]
      by_cases hmid : m.id = id
      · obtain rfl := honly m hm hmid
        rw [if_pos hmid, Res.aged, if_pos hdies, if_neg (by simp [hmid, Res.id_unref])]
      · rw [if_neg hmid, Res.aged_zero, if_pos (by simp [hmid])]
        simp [hmid]
    · rename_i hdies
      rw [← List.filterMap_eq_map]
      refine List.filterMap_congr fun m hm => ?_
      rw [hcount]
      by_cases hmid : m.id = id
      · obtain rfl := honly m hm hmid
        rw [if_pos hmid, Res.aged, if_neg hdies, Res.unrefs_one]
        simp [hmid]
      · rw [if_neg hmid, Res.aged_zero]
        simp [hmid]

/-- **What becomes of the nodes** depends only on how often each is let go. -/
theorem nodes_releaseDeps (hs : s.Keyed) (ds : List ResId) :
    (s.curlResourceReleaseRequestDeps ds).nodes =
      s.nodes.filterMap fun m => m.aged (ds.count m.id) := by
  induction ds generalizing s with
  | nil =>
    have hsome : ∀ m ∈ s.nodes, m.aged (List.count m.id []) = some m := fun m _ => m.aged_zero
    rw [List.filterMap_congr hsome, List.filterMap_some]
    rfl
  | cons d ds ih =>
    have hfirst : (s.curlResourceReleaseRequestDeps (d :: ds)) =
        (s.releaseDep d).curlResourceReleaseRequestDeps ds := rfl
    rw [hfirst, ih (hs.sublist (ids_releaseDep s d)), nodes_releaseDep hs, List.filterMap_filterMap]
    refine List.filterMap_congr fun m _ => ?_
    have hcount : (d :: ds).count m.id = [d].count m.id + ds.count m.id := by
      rw [← List.count_append]
      rfl
    rw [hcount, ← Res.aged_bind]
    cases ha : m.aged ([d].count m.id) with
    | none => rfl
    | some m' =>
      have hid : m'.id = m.id := congrArg Prod.fst (Res.estate_of_aged ha)
      rw [Option.bind_some, Option.bind_some, hid]

/-- One node, when a reference to some node is dropped. -/
theorem resFind_releaseDep_aged (s : Resources) (d id : ResId) :
    (s.releaseDep d).resFind id = (s.resFind id).bind fun m => m.aged ([d].count id) := by
  have hother : id ≠ d → (s.resFind id).bind (fun m => m.aged ([d].count id)) = s.resFind id := by
    intro hne
    have hzero : [d].count id = 0 := List.count_eq_zero.mpr (by simpa using hne)
    rw [hzero]
    cases s.resFind id with
    | none => rfl
    | some m => exact m.aged_zero
  rw [releaseDep]
  cases hn : s.resFind d with
  | none =>
    dsimp only
    rcases eq_or_ne id d with rfl | hne
    · rw [hn, Option.bind_none]
    · exact (hother hne).symm
  | some n =>
    dsimp only
    have hkey : n.unref.id = d := (Res.id_unref n).trans (id_of_resFind hn)
    rw [resFind, ids_put_free hn]
    rcases eq_or_ne id d with rfl | hne
    · have hone : [id].count id = 1 := by simp
      rw [hn, hone, Option.bind_some, Res.aged, Res.unrefs_one]
      split
      · exact (OrderedMap.find_remove ..).trans (if_pos rfl)
      · rw [OrderedMap.find_put, if_pos hkey.symm, ← resFind, hn, Option.map_some]
    · have hput : OrderedMap.find Res.id id (OrderedMap.put Res.id n.unref s.nodes) =
          s.resFind id := by
        rw [OrderedMap.find_put, hkey, if_neg hne, resFind]
      rw [hother hne, ← hput]
      split
      · exact (OrderedMap.find_remove ..).trans (if_neg hne)
      · rfl

/-- The same with a list of references, whether or not the map has one node for each id. -/
theorem resFind_releaseDeps_aged (s : Resources) (ds : List ResId) (id : ResId) :
    (s.curlResourceReleaseRequestDeps ds).resFind id =
      (s.resFind id).bind fun m => m.aged (ds.count id) := by
  induction ds generalizing s with
  | nil =>
    rw [List.count_nil]
    cases h : s.resFind id with
    | none => exact h
    | some m => exact h.trans m.aged_zero.symm
  | cons d ds ih =>
    have hfirst : s.curlResourceReleaseRequestDeps (d :: ds) =
        (s.releaseDep d).curlResourceReleaseRequestDeps ds := rfl
    have hcount : (d :: ds).count id = [d].count id + ds.count id := by
      rw [← List.count_append]
      rfl
    rw [hfirst, ih, resFind_releaseDep_aged, Option.bind_assoc]
    congr 1
    funext m
    rw [m.aged_bind, hcount]

/-- The store without its counter of ids, which has no part in this. -/
def uncounted (s : Resources) : Resources := { s with gNextId := 0 }

theorem uncounted_release (s : Resources) (id : ResId) :
    (s.curlEventResRelease id).uncounted = s.uncounted.curlEventResRelease id := by
  have hfind : s.uncounted.resFind id = s.resFind id := rfl
  rw [curlEventResRelease, curlEventResRelease, hfind]
  split
  · rfl
  · split <;> rfl

theorem uncounted_releaseDep (s : Resources) (id : ResId) :
    (s.releaseDep id).uncounted = s.uncounted.releaseDep id := by
  have hfind : s.uncounted.resFind id = s.resFind id := rfl
  rw [releaseDep, releaseDep, hfind]
  split
  · rfl
  · rw [maybeAutoreleaseOwner, maybeAutoreleaseOwner]
    split
    · exact uncounted_release _ _
    · rfl

theorem uncounted_releaseDeps (ds : List ResId) (s : Resources) :
    (s.curlResourceReleaseRequestDeps ds).uncounted =
      s.uncounted.curlResourceReleaseRequestDeps ds := by
  induction ds generalizing s with
  | nil => rfl
  | cons d ds ih =>
    have hfirst : ∀ s' : Resources, s'.curlResourceReleaseRequestDeps (d :: ds) =
        (s'.releaseDep d).curlResourceReleaseRequestDeps ds := fun _ => rfl
    rw [hfirst, hfirst, ih, uncounted_releaseDep]

/-! ### Disposal -/

/-- Nodes were freed, each once, and their payloads disposed of with them; nothing else was freed or
disposed of, and nothing else is missing. -/
def Disposes (s t : Resources) : Prop :=
  ∃ gone : List Res, t.freed = gone.map Res.id ++ s.freed ∧
    t.cleaned = gone.flatMap Res.due ++ s.cleaned ∧
    ((gone ++ t.nodes).map Res.estate).Perm (s.nodes.map Res.estate)

/-- What is gone was there, once. -/
theorem nodup_gone (hs : s.Keyed) {gone l : List Res}
    (h : ((gone ++ l).map Res.estate).Perm (s.nodes.map Res.estate)) :
    (gone.map Res.id).Nodup := by
  have hids := h.map Prod.fst
  rw [List.map_map, List.map_map] at hids
  have hnd : ((gone ++ l).map Res.id).Nodup := hids.nodup_iff.mpr hs
  rw [List.map_append] at hnd
  exact hnd.of_append_left

theorem Disposes.of_nodes (hfreed : t.freed = s.freed) (hcleaned : t.cleaned = s.cleaned)
    (hnodes : (t.nodes.map Res.estate).Perm (s.nodes.map Res.estate)) : s.Disposes t :=
  ⟨[], hfreed, hcleaned, hnodes⟩

/-- The nodes that went are different ones. -/
theorem Disposes.once (h : s.Disposes t) (hs : s.Keyed) :
    ∃ frees, t.freed = frees ++ s.freed ∧ frees.Nodup := by
  obtain ⟨gone, hfreed, -, hperm⟩ := h
  exact ⟨gone.map Res.id, hfreed, nodup_gone hs hperm⟩

/-- If no node is left, the payload of every node was disposed of. -/
theorem Disposes.all (h : s.Disposes t) (ht : t.nodes = []) :
    ∃ cleans, t.cleaned = cleans ++ s.cleaned ∧ cleans.Perm (s.nodes.flatMap Res.due) := by
  obtain ⟨gone, -, hcleaned, hperm⟩ := h
  have hdue : ∀ l : List Res, l.flatMap Res.due = (l.map Res.estate).flatMap Prod.snd := fun l =>
    (List.flatMap_map Res.estate Prod.snd l).symm
  rw [ht, List.append_nil] at hperm
  refine ⟨gone.flatMap Res.due, hcleaned, ?_⟩
  rw [hdue, hdue]
  exact hperm.flatMap_right _

theorem Disposes.refl (s : Resources) : s.Disposes s := .of_nodes rfl rfl (.refl _)

theorem Disposes.trans (h : s.Disposes t) (h' : t.Disposes u) : s.Disposes u := by
  obtain ⟨gone, hfreed, hcleaned, hperm⟩ := h
  obtain ⟨gone', hfreed', hcleaned', hperm'⟩ := h'
  refine ⟨gone' ++ gone, ?_, ?_, ?_⟩
  · rw [hfreed', hfreed, List.map_append, List.append_assoc]
  · rw [hcleaned', hcleaned, List.flatMap_append, List.append_assoc]
  · rw [List.map_append] at hperm hperm'
    rw [List.map_append, List.map_append]
    calc (gone'.map Res.estate ++ gone.map Res.estate ++ u.nodes.map Res.estate)
        |>.Perm (gone.map Res.estate ++ (gone'.map Res.estate ++ u.nodes.map Res.estate)) := by
          rw [← List.append_assoc]
          exact List.perm_append_comm.append_right _
      _ |>.Perm (gone.map Res.estate ++ t.nodes.map Res.estate) := hperm'.append_left _
      _ |>.Perm (s.nodes.map Res.estate) := hperm

/-- Writing a node without changing its id and its payload. -/
theorem disposes_put (hs : s.Keyed) {m : Res} (hn : s.resFind m.id = some n)
    (hm : m.estate = n.estate) : s.Disposes (s.put m) := by
  have hput : (s.put m).nodes.map Res.estate = s.nodes.map Res.estate := by
    rw [put, OrderedMap.put, List.map_map]
    refine List.map_congr_left fun b hb => ?_
    rw [Function.comp_apply]
    split
    · rename_i hbm
      obtain rfl := OrderedMap.eq_of_find (n := n) hs (hbm ▸ hn) hb
      exact hm
    · rfl
  exact .of_nodes rfl rfl (hput ▸ .refl _)

/-- Freeing a node of the map and disposing of its payload. -/
theorem disposes_free (hs : s.Keyed) (hn : s.resFind id = some n) {m : Res}
    (hm : m.estate = n.estate) : s.Disposes ((s.clean m).free id) := by
  have hid : n.id = id := id_of_resFind hn
  have hdue : m.due = n.due := congrArg Prod.snd hm
  refine ⟨[n], ?_, ?_, ?_⟩
  · rw [List.map_singleton, hid]
    rfl
  · rw [List.flatMap_singleton, ← hdue]
    rfl
  · exact (OrderedMap.perm_cons_remove hs hn).map Res.estate

theorem disposes_releaseDep (hs : s.Keyed) (id : ResId) : s.Disposes (s.releaseDep id) := by
  rw [releaseDep]
  cases hn : s.resFind id with
  | none => exact .refl s
  | some n =>
    dsimp only
    have hid : n.unref.id = id := (Res.id_unref n).trans (id_of_resFind hn)
    have hput : s.Disposes (s.put n.unref) := by
      refine disposes_put hs ?_ n.estate_unref
      rw [hid]
      exact hn
    have hkeyed : (s.put n.unref).Keyed := by
      rw [Keyed, ids_put]
      exact hs
    have hfind : (s.put n.unref).resFind n.unref.id = some n.unref := by
      rw [resFind_put, if_pos rfl, hid, hn]
      rfl
    refine hput.trans ?_
    rw [maybeAutoreleaseOwner]
    split
    · rw [curlEventResRelease, hfind]
      dsimp only
      split
      · exact disposes_free hkeyed hfind rfl
      · exact disposes_put hkeyed (n := n.unref) hfind rfl
    · exact .refl _

theorem disposes_releaseDeps (hs : s.Keyed) (ds : List ResId) :
    s.Disposes (s.curlResourceReleaseRequestDeps ds) := by
  induction ds generalizing s with
  | nil => exact .refl s
  | cons d ds ih =>
    exact (disposes_releaseDep hs d).trans (ih (hs.sublist (ids_releaseDep s d)))

/-! ### Taking the store down -/

/-- One round of `curl_resource_destroy_all` as far as the store goes: the requests that wait for
the first node let go of the dependencies `load` says. -/
def tearDownFirst (load : ResId → List ResId) (n : Res) (s : Resources) : Resources :=
  (((s.put n.noWaiters).curlResourceReleaseRequestDeps (load n.id)).clean n).free n.id

/-- Every node of the list outlasts the requests that wait for it. The references in `dropped` were
dropped before, and those of the requests that wait for a node are when its turn comes. -/
def Outlast (load : ResId → List ResId) : List ResId → List Res → Prop
  | _, [] => True
  | dropped, n :: l => ¬ n.Overtaken (dropped.count n.id) ((load n.id).count n.id) ∧
      Outlast load (dropped ++ load n.id) l

instance Outlast.decidable (load : ResId → List ResId) :
    ∀ (dropped : List ResId) (l : List Res), Decidable (Outlast load dropped l)
  | _, [] => inferInstanceAs (Decidable True)
  | dropped, n :: l =>
    haveI := Outlast.decidable load (dropped ++ load n.id) l
    inferInstanceAs (Decidable (_ ∧ _))

/-- References that were dropped may be taken off the counts. Nodes that went with them had nobody
waiting. -/
theorem outlast_filterMap {l : List Res} (hw : ∀ m ∈ l, m.blockedHead = none → load m.id = [])
    (gone dropped : List ResId) :
    Outlast load dropped (l.filterMap fun m => m.aged (gone.count m.id)) ↔
      Outlast load (gone ++ dropped) l := by
  induction l generalizing dropped with
  | nil => exact Iff.rfl
  | cons m l ih =>
    have hw' : ∀ b ∈ l, b.blockedHead = none → load b.id = [] :=
      fun b hb => hw b (List.mem_cons_of_mem m hb)
    rw [List.filterMap_cons, Outlast, List.count_append, List.append_assoc]
    by_cases hdies : m.Dies (gone.count m.id)
    · have hload : load m.id = [] := hw m List.mem_cons_self hdies.2.1
      rw [Res.aged, if_pos hdies, hload, List.append_nil, List.count_nil]
      dsimp only
      rw [ih hw' dropped]
      exact ⟨fun h => ⟨m.not_overtaken_zero _, h⟩, fun h => h.2⟩
    · rw [Res.aged, if_neg hdies]
      dsimp only
      rw [Outlast, Res.overtaken_unrefs_iff, ih hw']
      rfl

theorem keyed_detach (hs : s.Keyed) (n : Res) : (s.put n.noWaiters).Keyed := by
  rw [Keyed, ids_put]
  exact hs

section Round

variable {l : List Res} (hs : s.Keyed) (hl : s.nodes = n :: l)

include hs hl

theorem notMem_tail {m : Res} (hm : m ∈ l) : m.id ≠ n.id := by
  rw [Keyed, ids, hl] at hs
  exact fun h => (List.nodup_cons.mp hs).1 (h ▸ List.mem_map_of_mem hm)

theorem nodes_detach : (s.put n.noWaiters).nodes = n.noWaiters :: l := by
  have htail : l.map (fun m => if m.id = n.id then n.noWaiters else m) = l := by
    have hself : ∀ m ∈ l, (if m.id = n.id then n.noWaiters else m) = m :=
      fun m hm => if_neg (notMem_tail hs hl hm)
    rw [List.map_congr_left hself, List.map_id']
  have hput : (s.put n.noWaiters).nodes =
      s.nodes.map fun m => if m.id = n.id then n.noWaiters else m := rfl
  rw [hput, hl, List.map_cons, if_pos rfl, htail]

theorem resFind_detach : (s.put n.noWaiters).resFind n.id = some n.noWaiters := by
  rw [resFind, nodes_detach hs hl]
  exact OrderedMap.find_head

/-- The other nodes are what the dropped references leave of them. -/
theorem nodes_tearDownFirst (load : ResId → List ResId) : (tearDownFirst load n s).nodes =
    l.filterMap fun m => m.aged ((load n.id).count m.id) := by
  have hfree : (tearDownFirst load n s).nodes = ((s.put n.noWaiters).curlResourceReleaseRequestDeps
      (load n.id)).nodes.filter fun m => m.id ≠ n.id := rfl
  have htail : (l.filterMap fun m => m.aged ((load n.id).count m.id)).filter
      (fun m => m.id ≠ n.id) = l.filterMap fun m => m.aged ((load n.id).count m.id) := by
    refine List.filter_eq_self.mpr fun m hm => decide_eq_true ?_
    obtain ⟨b, hb, hbm⟩ := List.mem_filterMap.mp hm
    have hid : m.id = b.id := congrArg Prod.fst (Res.estate_of_aged hbm)
    rw [hid]
    exact notMem_tail hs hl hb
  rw [hfree, nodes_releaseDeps (keyed_detach hs n), nodes_detach hs hl, List.filterMap_cons]
  cases ha : n.noWaiters.aged ((load n.id).count n.noWaiters.id) with
  | none => exact htail
  | some m =>
    have hid : m.id = n.id := congrArg Prod.fst (Res.estate_of_aged ha)
    dsimp only
    rw [List.filter_cons_of_neg (by simp [hid])]
    exact htail

/-- The node is still in the map when its waiting requests have been failed, or not. -/
theorem resFind_tearDownFirst (load : ResId → List ResId) :
    ((s.put n.noWaiters).curlResourceReleaseRequestDeps (load n.id)).resFind n.id =
      if n.Overtaken 0 ((load n.id).count n.id) then none
      else some (n.noWaiters.unrefs ((load n.id).count n.id)) := by
  rw [resFind_releaseDeps_aged, resFind_detach hs hl, Option.bind_some, Res.aged]
  simp only [Res.dies_noWaiters_iff]

/-- A node that is still in the map when its waiting requests have been failed is freed once. -/
theorem disposes_tearDownFirst (h : ¬ n.Overtaken 0 ((load n.id).count n.id)) :
    s.Disposes (tearDownFirst load n s) := by
  have hput : s.Disposes (s.put n.noWaiters) := by
    refine disposes_put hs (n := n) ?_ n.estate_noWaiters
    rw [resFind, hl]
    exact OrderedMap.find_head
  have hfind := resFind_tearDownFirst hs hl load
  rw [if_neg h] at hfind
  have hkeyed := (keyed_detach hs n).sublist (ids_releaseDeps (load n.id) _)
  exact (hput.trans (disposes_releaseDeps (keyed_detach hs n) _)).trans
    (disposes_free hkeyed hfind rfl)

end Round

theorem keyed_tearDownFirst (hs : s.Keyed) (load : ResId → List ResId) (n : Res) :
    (tearDownFirst load n s).Keyed := by
  have hids : (tearDownFirst load n s).ids.Sublist
      ((s.put n.noWaiters).curlResourceReleaseRequestDeps (load n.id)).ids := by
    rw [tearDownFirst, ids_free]
    exact List.filter_sublist
  exact (keyed_detach hs n).sublist (hids.trans (ids_releaseDeps _ _))

/-- Nobody is failed on account of a node that nobody waits for, also when some were failed. -/
theorem idle_of_filterMap {l : List Res} (hw : ∀ m ∈ l, m.blockedHead = none → load m.id = [])
    (gone : List ResId) : ∀ m ∈ l.filterMap (fun m => m.aged (gone.count m.id)),
      m.blockedHead = none → load m.id = [] := by
  intro m hm hhead
  obtain ⟨b, hb, hbm⟩ := List.mem_filterMap.mp hm
  have hid : m.id = b.id := congrArg Prod.fst (Res.estate_of_aged hbm)
  rw [hid]
  exact hw b hb ((Res.blockedHead_of_aged hbm).symm.trans hhead)

/-- **When every node is still there** at the end of its turn. -/
theorem forall_rounds_iff {k : ℕ} (hs : s.Keyed)
    (hw : ∀ m ∈ s.nodes, m.blockedHead = none → load m.id = []) (hk : s.nodes.length ≤ k) :
    (∀ p ∈ OrderedMap.rounds (fun t : Resources => t.nodes.head?) (tearDownFirst load) k s,
      ¬ p.1.Overtaken 0 ((load p.1.id).count p.1.id)) ↔ Outlast load [] s.nodes := by
  induction k generalizing s with
  | zero =>
    rw [List.eq_nil_of_length_eq_zero (Nat.le_zero.mp hk)]
    exact ⟨fun _ => trivial, fun _ p hp => absurd hp List.not_mem_nil⟩
  | succ k ih =>
    cases hl : s.nodes with
    | nil =>
      rw [OrderedMap.rounds, hl]
      exact ⟨fun _ => trivial, fun _ p hp => absurd hp List.not_mem_nil⟩
    | cons n l =>
      have hnodes := nodes_tearDownFirst hs hl load
      rw [hl] at hw hk
      have hw' : ∀ m ∈ l, m.blockedHead = none → load m.id = [] :=
        fun m hm => hw m (List.mem_cons_of_mem n hm)
      have hlen : (tearDownFirst load n s).nodes.length ≤ k := by
        rw [hnodes]
        have hle := List.length_filterMap_le (fun m : Res => m.aged ((load n.id).count m.id)) l
        rw [List.length_cons] at hk
        omega
      have hrest := ih (keyed_tearDownFirst hs load n)
        (hnodes ▸ idle_of_filterMap hw' (load n.id)) hlen
      rw [hnodes, outlast_filterMap hw', List.append_nil] at hrest
      rw [OrderedMap.rounds, hl, Outlast, List.count_nil, List.nil_append, ← hrest]
      exact List.forall_mem_cons

/-- **Everything is disposed of once** when every node outlasts the requests that wait for it. -/
theorem disposes_tearDown {k : ℕ} (hs : s.Keyed)
    (hw : ∀ m ∈ s.nodes, m.blockedHead = none → load m.id = []) (hk : s.nodes.length ≤ k)
    (h : Outlast load [] s.nodes) :
    s.Disposes (OrderedMap.whileFirst (fun t : Resources => t.nodes.head?)
      (fun n t => .yield (tearDownFirst load n t)) k s) ∧
    (OrderedMap.whileFirst (fun t : Resources => t.nodes.head?)
      (fun n t => .yield (tearDownFirst load n t)) k s).nodes = [] := by
  induction k generalizing s with
  | zero => exact ⟨.refl s, List.eq_nil_of_length_eq_zero (Nat.le_zero.mp hk)⟩
  | succ k ih =>
    cases hl : s.nodes with
    | nil =>
      rw [OrderedMap.whileFirst, hl]
      exact ⟨.refl s, hl⟩
    | cons n l =>
      have hnodes := nodes_tearDownFirst hs hl load
      rw [hl] at hw hk h
      have hw' : ∀ m ∈ l, m.blockedHead = none → load m.id = [] :=
        fun m hm => hw m (List.mem_cons_of_mem n hm)
      have hlen : (tearDownFirst load n s).nodes.length ≤ k := by
        rw [hnodes]
        have hle := List.length_filterMap_le (fun m : Res => m.aged ((load n.id).count m.id)) l
        rw [List.length_cons] at hk
        omega
      have hout : Outlast load [] (tearDownFirst load n s).nodes := by
        rw [hnodes, outlast_filterMap hw', List.append_nil]
        exact h.2
      obtain ⟨hdisp, hempty⟩ := ih (keyed_tearDownFirst hs load n)
        (hnodes ▸ idle_of_filterMap hw' (load n.id)) hlen hout
      rw [OrderedMap.whileFirst, hl]
      exact ⟨(disposes_tearDownFirst hs hl h.1).trans hdisp, hempty⟩

end Resources

end CurlLoop
