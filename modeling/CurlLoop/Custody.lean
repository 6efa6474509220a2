import CurlLoop.StorePasses

/-!
# Payloads in custody

A payload that is published with a cleanup function is handed over: from then on the library has to
call the function, once, and not while the payload can still be looked at. A payload is cleaned up
when its node is published again, when the last reference to the node is released, when the node is
auto-released while a request lets go of it, and when the store is taken down.

The law is a balance. For each payload, the cleanups and the nodes that hold it are together as many
as the times it was handed over: by a call of the user, by a call of a callback, or by an operation
of the inbox. It holds in every state of every run, whatever the counts of the nodes are and whoever
waits. Destroying the loop ends the custody: nothing is held any more, and so every payload was
cleaned up as often as it was handed over, if every node outlasts the requests that wait for it. If
one does not, it is auto-released in the middle of its own turn, and its payload cleaned up twice.

## Main definitions

* `Resources.held`, `Resources.cleanups` — a payload in custody, and one that was cleaned up
* `Loop.handed` — how often a payload was handed over

## Main results

* `cleanups_add_held` — the balance, in every state of every run
* `cleanups_eq_of_destroy` — the end of the custody
-/

namespace CurlLoop

variable {ω : Type}

/-! ### The store -/

namespace Resources

variable {s t u : Resources} {id : ResId} {p : Payload}

/-- How many nodes hold the payload and are to clean it up. -/
def held (s : Resources) (p : Payload) : ℕ := (s.nodes.flatMap Res.due).countP fun x => x.2 = p

/-- How often the payload was cleaned up. -/
def cleanups (s : Resources) (p : Payload) : ℕ := s.cleaned.countP fun x => x.2 = p

/-- What is handed over with a payload and a cleanup function. -/
def gift (payload : Option Payload) (cleanup : Bool) (p : Payload) : ℕ :=
  if payload = some p ∧ cleanup = true then 1 else 0

/-- The balance of the store: a payload was handed over `g p` times. -/
structure Takes (g : Payload → ℕ) (s t : Resources) : Prop where
  keyed : s.Keyed → t.Keyed
  balance : s.Keyed → ∀ p, t.held p + t.cleanups p = s.held p + s.cleanups p + g p

theorem Takes.trans {g g' : Payload → ℕ} (h : Takes g s t) (h' : Takes g' t u) :
    Takes (fun p => g p + g' p) s u := by
  refine ⟨fun hs => h'.keyed (h.keyed hs), fun hs p => ?_⟩
  have hfirst := h.balance hs p
  have hthen := h'.balance (h.keyed hs) p
  omega

/-- Nothing is handed over. -/
def Keeps (s t : Resources) : Prop := Takes (fun _ => 0) s t

theorem Keeps.of_nodes (hnodes : t.nodes = s.nodes) (hcleaned : t.cleaned = s.cleaned) :
    Keeps s t := by
  refine ⟨fun hs => ?_, fun _ p => ?_⟩
  · rw [Keyed, ids, hnodes]
    exact hs
  · rw [held, cleanups, hnodes, hcleaned]
    rfl

theorem Keeps.refl (s : Resources) : Keeps s s := .of_nodes rfl rfl

theorem Keeps.trans (h : Keeps s t) (h' : Keeps t u) : Keeps s u := Takes.trans h h'

/-- What is disposed of is no longer held. -/
theorem Keeps.of_disposes (h : s.Keyed → s.Disposes t) (hkeyed : s.Keyed → t.Keyed) :
    Keeps s t := by
  refine ⟨hkeyed, fun hs p => ?_⟩
  obtain ⟨gone, -, hcleaned, hperm⟩ := h hs
  have hdue : ∀ l : List Res, l.flatMap Res.due = (l.map Res.estate).flatMap Prod.snd := fun l =>
    (List.flatMap_map Res.estate Prod.snd l).symm
  have hall : (gone.flatMap Res.due ++ t.nodes.flatMap Res.due).Perm (s.nodes.flatMap Res.due) := by
    rw [← List.flatMap_append, hdue, hdue]
    exact hperm.flatMap_right _
  have hcount := hall.countP_eq fun x => decide (x.2 = p)
  rw [List.countP_append] at hcount
  have hclean : t.cleanups p =
      (gone.flatMap Res.due).countP (fun x => decide (x.2 = p)) + s.cleanups p := by
    rw [cleanups, hcleaned, List.countP_append]
    rfl
  rw [held, hclean, held]
  omega

theorem keyed_put (hs : s.Keyed) (n : Res) : (s.put n).Keyed := by
  rw [Keyed, ids_put]
  exact hs

theorem keyed_getOrCreate (hs : s.Keyed) (id : ResId) : (s.resGetOrCreate id).2.Keyed := by
  rw [resGetOrCreate]
  split
  · exact hs
  · exact OrderedMap.nodup_insertUnique hs

/-- A new node holds nothing. -/
theorem keeps_insert {n : Res} (hn : n.due = []) : Keeps s (s.resInsert n) := by
  refine ⟨fun hs => OrderedMap.nodup_insertUnique hs, fun _ p => ?_⟩
  have hdue : ((s.resInsert n).nodes.flatMap Res.due).Perm (s.nodes.flatMap Res.due) := by
    rw [resInsert, OrderedMap.insertUnique]
    dsimp only
    split
    · exact .refl _
    · refine ((OrderedMap.insertMulti_perm Res.id n s.nodes).flatMap_right _).trans ?_
      rw [List.flatMap_cons, hn]
      exact .refl _
  have hheld : (s.resInsert n).held p = s.held p := hdue.countP_eq _
  rw [hheld]
  rfl

theorem keeps_getOrCreate (s : Resources) (id : ResId) : Keeps s (s.resGetOrCreate id).2 := by
  rw [resGetOrCreate]
  split
  · exact .refl s
  · exact keeps_insert rfl

/-- A node is written, but for what it holds. -/
theorem keeps_put_getOrCreate (s : Resources) (id : ResId) {n : Res}
    (hn : n.estate = (s.resGetOrCreate id).1.estate) :
    Keeps s ((s.resGetOrCreate id).2.put n) := by
  have hid : n.id = id := (congrArg Prod.fst hn).trans (id_resGetOrCreate s id)
  have hfind : (s.resGetOrCreate id).2.resFind n.id = some (s.resGetOrCreate id).1 := by
    rw [hid, resFind_getOrCreate, if_pos rfl]
  exact (keeps_getOrCreate s id).trans
    (.of_disposes (fun hs => disposes_put hs hfind hn) fun hs => keyed_put hs n)

theorem keeps_retain (deps : List ResId) (s : Resources) :
    Keeps s (s.curlResourceRetainRequestDeps deps) := by
  induction deps generalizing s with
  | nil => exact .refl s
  | cons id deps ih =>
    have hfirst : Keeps s (s.retainDep id) := keeps_put_getOrCreate s id rfl
    exact hfirst.trans (ih (s.retainDep id))

theorem keeps_releaseDeps (s : Resources) (ds : List ResId) :
    Keeps s (s.curlResourceReleaseRequestDeps ds) :=
  .of_disposes (fun hs => disposes_releaseDeps hs ds) fun hs => hs.sublist (ids_releaseDeps ds s)

/-- What the passes do to the store. -/
theorem Keeps.of_shift (h : s.Shift t) : Keeps s t := by
  cases h with
  | claim => exact .of_nodes rfl rfl
  | insert hpayload =>
    refine keeps_insert ?_
    rw [Res.due, hpayload]
  | retain deps => exact keeps_retain deps s
  | letGo deps => exact keeps_releaseDeps s deps
  | create id => exact keeps_getOrCreate s id
  | write id hlook => exact keeps_put_getOrCreate s id (Res.estate_of_look hlook)

/-- The last reference to a node is released, or one of several. -/
theorem keeps_release (s : Resources) (id : ResId) : Keeps s (s.curlEventResRelease id) := by
  rw [curlEventResRelease]
  cases hn : s.resFind id with
  | none => exact .refl s
  | some n =>
    dsimp only
    have hid : n.id = id := id_of_resFind hn
    split
    · refine .of_disposes (fun hs => disposes_free hs hn rfl) fun hs => ?_
      exact hs.sublist (List.filter_sublist.map Res.id)
    · refine .of_disposes (fun hs => disposes_put hs (n := n) ?_ rfl) fun hs => keyed_put hs _
      rw [Res.id_addRefs, hid]
      exact hn

/-- What a node is to clean up, by payload. -/
theorem countP_due (n : Res) (p : Payload) :
    n.due.countP (fun x => decide (x.2 = p)) = gift n.payload n.cleanup p := by
  rw [Res.due, gift]
  cases n.payload with
  | none => rw [if_neg (by simp)]; rfl
  | some q =>
    dsimp only
    split
    · rename_i hcleanup
      rw [List.countP_singleton, hcleanup]
      simp
    · rename_i hcleanup
      rw [if_neg fun h => hcleanup h.2]
      rfl

/-- **A publication** takes the payload, and cleans up the previous one. -/
theorem takes_publishPayload (s : Resources) (id : ResId) (payload : Option Payload)
    (cleanup : Bool) :
    Takes (gift payload cleanup) s (s.publishPayload id payload cleanup).2 := by
  refine ⟨fun hs => keyed_put (s := (s.resGetOrCreate id).2.clean (s.resGetOrCreate id).1)
    (keyed_getOrCreate hs id) _, fun hs p => ?_⟩
  have hbefore := (keeps_getOrCreate s id).balance hs p
  have hkeyed := keyed_getOrCreate hs id
  have hfind : (s.resGetOrCreate id).2.resFind id = some (s.resGetOrCreate id).1 := by
    rw [resFind_getOrCreate, if_pos rfl]
  rw [publishPayload]
  generalize (s.resGetOrCreate id).2 = t at *
  generalize (s.resGetOrCreate id).1 = n at *
  have hid : n.id = id := id_of_resFind hfind
  -- Apart from the node that is written, the map is what it was.
  have hput : ((t.clean n).put (n.publish payload cleanup)).resFind id =
      some (n.publish payload cleanup) := by
    rw [resFind_put, resFind_clean, hfind]
    exact if_pos hid.symm
  have hkeyed' : ((t.clean n).put (n.publish payload cleanup)).Keyed :=
    keyed_put (s := t.clean n) hkeyed _
  have hrest : OrderedMap.remove Res.id id ((t.clean n).put (n.publish payload cleanup)).nodes =
      OrderedMap.remove Res.id id t.nodes := by
    rw [← hid]
    exact OrderedMap.remove_put Res.id (n.publish payload cleanup) t.nodes
  have hsplit : ∀ {v : Resources} {m : Res}, v.Keyed → v.resFind id = some m → v.held p =
      gift m.payload m.cleanup p +
        ((OrderedMap.remove Res.id id v.nodes).flatMap Res.due).countP fun x => x.2 = p := by
    intro v m hv hm
    have hperm := (OrderedMap.perm_cons_remove hv hm).flatMap_right Res.due
    rw [held, ← hperm.countP_eq, List.flatMap_cons, List.countP_append, countP_due]
  have hold := hsplit hkeyed hfind
  have hnew := hsplit hkeyed' hput
  rw [hrest] at hnew
  have hclean : ((t.clean n).put (n.publish payload cleanup)).cleanups p =
      gift n.payload n.cleanup p + t.cleanups p := by
    show (n.due ++ t.cleaned).countP _ = _
    rw [List.countP_append, countP_due]
    rfl
  have hgift : gift (n.publish payload cleanup).payload (n.publish payload cleanup).cleanup p =
      gift payload cleanup p := rfl
  rw [hgift] at hnew
  dsimp only
  omega

end Resources

/-! ### What is handed over -/

/-- How often the call hands the payload over. -/
def Call.hands (p : Payload) : Call → ℕ
  | .register payload cleanup | .publish _ payload cleanup => Resources.gift payload cleanup p
  | _ => 0

/-- How often the operation hands the payload over. -/
def ResOp.hands (p : Payload) (op : ResOp) : ℕ :=
  match op.kind with
  | .register | .publish => Resources.gift op.payload op.cleanup p
  | .release => 0

/-- The calls that the user makes, and not a callback. -/
def Action.hands (p : Payload) : Action → ℕ
  | .call c => c.hands p
  | _ => 0

namespace Loop

variable {s t u : Loop (ω × List Call)} {r : ReqId} {env : Env ω} {g g' : Payload → ℕ}

/-- How often the payload was handed over, by callbacks and by the inbox. -/
def handed (s : Loop (ω × List Call)) (p : Payload) : ℕ :=
  (s.world.2.map (Call.hands p)).sum + (s.applied.map (ResOp.hands p)).sum

/-- **The balance**: what is held and what was cleaned up grows by what is handed over, and by `g`. -/
structure Balances (g : Payload → ℕ) (s t : Loop (ω × List Call)) : Prop where
  keyed : s.resources.Keyed → t.resources.Keyed
  balance : s.resources.Keyed → ∀ p, t.resources.held p + t.resources.cleanups p + s.handed p =
    s.resources.held p + s.resources.cleanups p + t.handed p + g p

theorem Balances.trans (h : Balances g s t) (h' : Balances g' t u) :
    Balances (fun p => g p + g' p) s u := by
  refine ⟨fun hs => h'.keyed (h.keyed hs), fun hs p => ?_⟩
  have hfirst := h.balance hs p
  have hthen := h'.balance (h.keyed hs) p
  omega

/-- The store changes, and nothing is recorded. -/
theorem balances_of_takes (h : s.resources.Takes g t.resources)
    (hrecord : t.world.2 = s.world.2) (happlied : t.applied = s.applied) : Balances g s t := by
  refine ⟨h.keyed, fun hs p => ?_⟩
  have hhanded : t.handed p = s.handed p := by
    rw [handed, handed, hrecord, happlied]
  have hstore := h.balance hs p
  omega

/-- Nothing is handed over but what is recorded. -/
def Tallies (s t : Loop (ω × List Call)) : Prop := Balances (fun _ => 0) s t

theorem tallies_of_keeps (h : s.resources.Keeps t.resources) (hrecord : t.world.2 = s.world.2)
    (happlied : t.applied = s.applied) : Tallies s t := balances_of_takes h hrecord happlied

theorem Tallies.then (h : Tallies s t) (h' : Balances g t u) : Balances g s u := by
  have hboth := Balances.trans h h'
  simpa only [Nat.zero_add] using hboth

theorem Balances.then (h : Balances g s t) (h' : Tallies t u) : Balances g s u := Balances.trans h h'

/-- What the passes write to the store hands nothing over. -/
theorem storeFrame_tallies : StoreFrame (Tallies (ω := ω)) where
  trans := Balances.trans
  quiet {s t} h := by
    simp only [account, Prod.mk.injEq] at h
    obtain ⟨hstore, hrecord, happlied⟩ := h
    exact tallies_of_keeps (hstore ▸ .refl s.resources) hrecord happlied
  shift hstore := tallies_of_keeps (.of_shift hstore) rfl rfl

/-! ### Calls -/

theorem balances_publish (env : Env ω) (s : Loop (ω × List Call)) (id : ResId)
    (payload : Option Payload) (cleanup : Bool) : Balances (Resources.gift payload cleanup) s
      (s.curlEventResPublish env.recording id payload cleanup) := by
  have hstore : Balances (Resources.gift payload cleanup) s
      (s.setResources (s.resources.publishPayload id payload cleanup).2) :=
    balances_of_takes (Resources.takes_publishPayload s.resources id payload cleanup) rfl rfl
  exact hstore.then (storeFrame_tallies.publish env s id payload cleanup)

/-- **A call.** -/
theorem balances_call (env : Env ω) (s : Loop (ω × List Call)) (c : Call) :
    Balances (fun p => c.hands p) s (s.call env.recording c) := by
  cases c with
  | api c => exact storeFrame_tallies.apiCall env s c
  | declare => exact storeFrame_tallies.declare s
  | register payload cleanup =>
    exact (storeFrame_tallies.declare s).then (balances_publish env _ _ payload cleanup)
  | publish id payload cleanup => exact balances_publish env s id payload cleanup
  | addref id => exact storeFrame_tallies.addref s id
  | release id => exact tallies_of_keeps (Resources.keeps_release s.resources id) rfl rfl
  | autoreleaseOwner id enable => exact storeFrame_tallies.autoreleaseOwner s id enable

theorem balances_calls (env : Env ω) (cs : List Call) (s : Loop (ω × List Call)) :
    Balances (fun p => (cs.map (Call.hands p)).sum) s (s.calls env.recording cs) := by
  induction cs generalizing s with
  | nil => exact storeFrame_tallies.refl s
  | cons c cs ih => exact (balances_call env s c).trans (ih (s.call env.recording c))

/-- The calls of a callback are recorded, and then made. -/
theorem tallies_reply (env : Env ω) {cs : List Call} (hstore : t.resources = s.resources)
    (hrecord : t.world.2 = cs ++ s.world.2) (happlied : t.applied = s.applied) :
    Tallies s (t.calls env.recording cs) := by
  have hcalls := balances_calls env cs t
  have hhanded : ∀ p, t.handed p = (cs.map (Call.hands p)).sum + s.handed p := by
    intro p
    rw [handed, handed, hrecord, happlied, List.map_append, List.sum_append, Nat.add_assoc]
  refine ⟨fun hs => hcalls.keyed (hstore ▸ hs), fun hs p => ?_⟩
  have hbalance := hcalls.balance (hstore ▸ hs) p
  rw [hhanded, hstore] at hbalance
  omega

/-- **The passes** hand nothing over but what is recorded. -/
theorem storeLaw_tallies (env : Env ω) : StoreLaw env (Tallies (ω := ω)) where
  toStoreFrame := storeFrame_tallies
  reply := tallies_reply env

/-! ### Runs -/

/-- An operation of the inbox is recorded, and applied. -/
theorem tallies_applyOp (env : Env ω) (s : Loop (ω × List Call)) (op : ResOp) :
    Tallies s (s.applyOp env.recording op) := by
  have happly : Balances (fun p => op.hands p) (s.recordApplied op) (s.applyOp env.recording op) := by
    by_cases hkind : op.kind = .release
    · have hrelease : Balances (fun _ => 0) (s.recordApplied op)
          ((s.recordApplied op).curlEventResRelease op.id) :=
        tallies_of_keeps (Resources.keeps_release s.resources op.id) rfl rfl
      rw [applyOp_of_release env.recording s hkind]
      simpa only [ResOp.hands, hkind] using hrelease
    · have hpublish := balances_publish env (s.recordApplied op) op.id op.payload op.cleanup
      have hgift : (fun p => op.hands p) = Resources.gift op.payload op.cleanup := by
        funext p
        rw [ResOp.hands]
        cases hop : op.kind with
        | register | publish => rfl
        | release => exact absurd hop hkind
      rw [applyOp_of_publish env.recording s hkind, hgift]
      exact hpublish
  have hhanded : ∀ p, (s.recordApplied op).handed p = s.handed p + op.hands p := by
    intro p
    show (s.world.2.map (Call.hands p)).sum + (op.hands p + (s.applied.map (ResOp.hands p)).sum) = _
    rw [handed]
    omega
  refine ⟨happly.keyed, fun hs p => ?_⟩
  have hbalance := happly.balance hs p
  rw [hhanded] at hbalance
  have hstore : (s.recordApplied op).resources = s.resources := rfl
  rw [hstore] at hbalance
  omega

/-- **One action.** -/
theorem balances_act (env : Env ω) {a : Action} (ha : a ≠ .destroy) (s : Loop (ω × List Call)) :
    Balances (fun p => a.hands p) s (s.act env.recording a) := by
  cases a with
  | call c => exact balances_call env s c
  | applyOp op => exact tallies_applyOp env s op
  | destroy => exact absurd rfl ha
  | _ => exact (storeLaw_tallies env).pass (by simp) (by simp) (by simp) s

theorem balances_run (env : Env ω) {as : List Action} (has : ∀ a ∈ as, a ≠ .destroy)
    (s : Loop (ω × List Call)) : Balances (fun p => (as.map (Action.hands p)).sum) s
      (Guarded.run (act env.recording) s as) := by
  induction as generalizing s with
  | nil => exact storeFrame_tallies.refl s
  | cons a as ih =>
    exact (balances_act env (has a List.mem_cons_self) s).trans
      (ih (fun b hb => has b (List.mem_cons_of_mem a hb)) _)

theorem keyed_run (env : Env ω) {as : List Action} (has : ∀ a ∈ as, a ≠ .destroy) (mem : Memory)
    (world : ω) : (Guarded.run (act env.recording)
      (curlEventLoopInit mem (world, [])) as).resources.Keyed :=
  (balances_run env has _).keyed List.nodup_nil

/-- **Payloads in custody.** In every state of every run, for each payload, the cleanups and the nodes
that hold it are together as many as the times it was handed over: by the user, by callbacks and by
the inbox. -/
theorem cleanups_add_held (env : Env ω) (mem : Memory) (world : ω) (as : List Action)
    (has : ∀ a ∈ as, a ≠ .destroy) (p : Payload) :
    let s := Guarded.run (act env.recording) (curlEventLoopInit mem (world, [])) as
    s.resources.cleanups p + s.resources.held p =
      (as.map (Action.hands p)).sum + s.handed p := by
  intro s
  have hbalance := (balances_run env has (curlEventLoopInit mem (world, []))).balance
    List.nodup_nil p
  -- The loop begins with nothing held, nothing cleaned up and nothing recorded.
  have hinit : s.resources.held p + s.resources.cleanups p + 0 =
      0 + 0 + s.handed p + (as.map (Action.hands p)).sum := hbalance
  omega

/-- The payload `5` is handed over by the user and by a callback and cleaned up once so far. -/
theorem cleanups_add_held_republished :
    let as : List Action := [.call (.publish 5 (some 5) true), .call (.api (.submit 5 0)),
      .processCancelledAndPendingRequests, .processCompletedRequests [⟨0, .ok, 200⟩]]
    let s := Guarded.run (act Env.publisher.recording)
      (curlEventLoopInit (Memory.plain fun _ => []) ((), [])) as
    s.resources.cleanups 5 + s.resources.held 5 = (as.map (Action.hands 5)).sum + s.handed 5 ∧
      s.resources.cleanups 5 = 1 ∧ s.handed 5 = 1 := by
  intro as s
  refine ⟨cleanups_add_held Env.publisher (Memory.plain fun _ => []) () as (by decide) 5, ?_⟩
  decide +kernel

/-! ### The end of the custody -/

/-- The maps and lists of requests are destroyed, and the store is still there. -/
def emptied (s : Loop ω) : Loop ω :=
  ((((s.destroyMap .queued).destroyMap .inactive).destroyMap .refresh).destroyMap
    .rateLimited).destroyLists

theorem destroy_emptied (env : Env ω) (s : Loop ω) :
    s.curlEventLoopDestroy env = s.emptied.curlResourceDestroyAll env := rfl

theorem tallies_emptied (s : Loop (ω × List Call)) : Tallies s s.emptied := by
  have h : StoreFrame (Tallies (ω := ω)) := storeFrame_tallies
  exact h.trans (h.trans (h.trans (h.trans (h.destroyMap .queued s) (h.destroyMap .inactive _))
    (h.destroyMap .refresh _)) (h.destroyMap .rateLimited _)) (h.destroyLists _)

theorem Resting.emptied {s : Loop ω} (h : s.Resting) (hz : s.emptied.hazards = []) :
    s.emptied.Resting := by
  have hz₄ := (evolves_destroyLists _).hazards_eq_nil hz
  have hz₃ := (evolves_destroyMap (q := False) .rateLimited _).hazards_eq_nil hz₄
  have hz₂ := (evolves_destroyMap (q := False) .refresh _).hazards_eq_nil hz₃
  have hz₁ := (evolves_destroyMap (q := False) .inactive _).hazards_eq_nil hz₂
  exact (((((h.destroyMap hz₁).1.destroyMap hz₂).1.destroyMap hz₃).1.destroyMap hz₄).1.destroyLists
    hz).1

/-- A request that is failed late is told so. What it calls is a hazard, and is not recorded. -/
theorem record_failLate (env : Env ω) (r : ReqId) (s : Loop (ω × List Call)) :
    (s.failLate env.recording r).world.2 = s.world.2 := by
  show ((s.setNextPending r none).callOnAborted env.recording r).2.world.2 = _
  rw [callOnAborted]
  split <;> rfl

theorem record_destroyFirstRes (env : Env ω) (n : Res) (s : Loop (ω × List Call)) :
    (s.destroyFirstRes env.recording n).world.2 = s.world.2 := by
  have hfollow : ∀ (t : Loop (ω × List Call)) r, (t.follow r).world = t.world := by
    intro t r
    rw [follow]
    split <;> rfl
  have hwaiters : (s.failWaiters env.recording n).world.2 = s.world.2 :=
    Intrusive.forEach_invariant (P := fun t : Loop (ω × List Call) => t.world.2 = s.world.2)
      (fun r t ht => by rw [record_failLate, hfollow, ht]) rfl
  exact hwaiters

/-- Nothing is handed over while the store is destroyed. -/
theorem handed_destroyAll (env : Env ω) (s : Loop (ω × List Call)) (p : Payload) :
    (s.curlResourceDestroyAll env.recording).handed p = s.handed p := by
  have hrecord : (s.curlResourceDestroyAll env.recording).world.2 = s.world.2 :=
    OrderedMap.whileFirst_rule (P := fun t : Loop (ω × List Call) => t.world.2 = s.world.2)
      (g := fun t : Loop (ω × List Call) => t.resources.nodes.head?)
      (f := fun n t => .yield (t.destroyFirstRes env.recording n)) (n := s.resources.nodes.length)
      (fun n t t' _ _ hb => by simp at hb)
      (fun n t t' ht _ hb => by
        obtain rfl := ForInStep.yield.inj hb
        exact (record_destroyFirstRes env n t).trans ht) rfl
  rw [handed, handed, hrecord, (evolves_destroyAll env.recording s).applied]

/-- Every node outlasts the requests that wait for it, if the store is destroyed now. -/
structure Outlasted (s : Loop ω) : Prop where
  spares : Failure.destroyAll.Spares s

/-- What was held when the store is destroyed is cleaned up. -/
theorem Outlasted.settles {s : Loop (ω × List Call)} (h : s.Outlasted) (env : Env ω)
    (hs : s.Resting) (hkeyed : s.resources.Keyed) (hz : s.hazards = []) (p : Payload) :
    (s.curlResourceDestroyAll env.recording).resources.held p = 0 ∧
      (s.curlResourceDestroyAll env.recording).resources.cleanups p =
        s.resources.held p + s.resources.cleanups p := by
  obtain ⟨v, C, hwf, -⟩ := hs
  have hquiet : s.Unresubmitted := fun r hr => List.not_mem_nil (hz ▸ hr)
  obtain ⟨hdisposes, hnodes⟩ :=
    disposes_destroyAll hwf.located hkeyed hquiet env.recording h.spares
  obtain ⟨cleans, hcleaned, hperm⟩ := hdisposes.all hnodes
  constructor
  · rw [Resources.held, hnodes]
    rfl
  · have heq : (s.curlResourceDestroyAll env.recording).resources.cleaned =
        cleans ++ s.resources.cleaned := hcleaned
    rw [Resources.cleanups, heq, List.countP_append, hperm.countP_eq]
    rfl

/-- The destruction of the loop, from any state. -/
theorem Resting.settles_destroy {env : Env ω} (h : s.Resting) (hkeyed : s.resources.Keyed)
    (hz : (s.curlEventLoopDestroy env.recording).hazards = []) (hout : s.emptied.Outlasted)
    (p : Payload) : (s.curlEventLoopDestroy env.recording).resources.held p = 0 ∧
      (s.curlEventLoopDestroy env.recording).resources.cleanups p + s.handed p =
        s.resources.held p + s.resources.cleanups p +
          (s.curlEventLoopDestroy env.recording).handed p := by
  rw [destroy_emptied] at hz ⊢
  have hz' : s.emptied.hazards = [] :=
    (evolves_destroyAll env.recording s.emptied).hazards_eq_nil hz
  have hempties := tallies_emptied s
  have hbalance := hempties.balance hkeyed p
  have hend := hout.settles env (h.emptied hz') (hempties.keyed hkeyed) hz' p
  have hhanded := handed_destroyAll env s.emptied p
  refine ⟨hend.1, ?_⟩
  rw [hend.2, hhanded]
  omega

/-- **The end of the custody.** After the loop is destroyed nothing is held. If every node outlasts the
requests that wait for it, every payload was cleaned up as often as it was handed over. -/
theorem cleanups_eq_of_destroy (env : Env ω) (mem : Memory) (world : ω) (as : List Action)
    (has : ∀ a ∈ as, a ≠ .destroy)
    (hz : ((Guarded.run (act env.recording) (curlEventLoopInit mem (world, []))
      as).curlEventLoopDestroy env.recording).hazards = [])
    (hout : (Guarded.run (act env.recording) (curlEventLoopInit mem (world, []))
      as).emptied.Outlasted) (p : Payload) :
    let t := (Guarded.run (act env.recording) (curlEventLoopInit mem (world, []))
      as).curlEventLoopDestroy env.recording
    t.resources.held p = 0 ∧
      t.resources.cleanups p = (as.map (Action.hands p)).sum + t.handed p := by
  have hrun := (evolves_curlEventLoopDestroy env.recording _).hazards_eq_nil hz
  have hend := (resting_run mem (world, []) hrun).settles_destroy
    (keyed_run env has mem world) hz hout p
  have hbalance := (balances_run env has (curlEventLoopInit mem (world, []))).balance
    List.nodup_nil p
  have hinit : (curlEventLoopInit mem (world, []) : Loop (ω × List Call)).resources.held p = 0 ∧
      (curlEventLoopInit mem (world, []) : Loop (ω × List Call)).resources.cleanups p = 0 ∧
      (curlEventLoopInit mem (world, []) : Loop (ω × List Call)).handed p = 0 := ⟨rfl, rfl, rfl⟩
  rw [hinit.1, hinit.2.1, hinit.2.2] at hbalance
  refine ⟨hend.1, ?_⟩
  omega

/-- The loop is destroyed while a request waits for the declared resource `1`. -/
theorem cleanups_eq_of_destroy_waiting :
    let as : List Action := [.call .declare, .call (.api (.submit 1 0)),
      .call (.register (some 6) true), .call (.publish 2 (some 7) true),
      .processCancelledAndPendingRequests]
    let s := Guarded.run (act Env.publisher.recording)
      (curlEventLoopInit (Memory.plain fun _ => [1]) ((), [])) as
    let t := s.curlEventLoopDestroy Env.publisher.recording
    s.waiters 1 = [1] ∧ t.resources.held 6 = 0 ∧
      t.resources.cleanups 6 = (as.map (Action.hands 6)).sum + t.handed 6 := by
  intro as s t
  refine ⟨by decide +kernel, cleanups_eq_of_destroy Env.publisher (Memory.plain fun _ => [1]) () as
    (by decide) (by decide +kernel) ⟨by decide +kernel⟩ 6⟩

end Loop

end CurlLoop
