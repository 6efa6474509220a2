import CurlLoop.StorePasses

/-!
# The latest value

`curl_event_res_peek` and `curl_event_res_get_str` look at a resource on the loop thread. What they
answer is what was published last, whoever did it: the user, a callback, or another thread through
the inbox. Whatever else happens to the loop, to the requests that depend on the resource and to the
counts of its node, the answer stays the same until something is published again or the node is
freed. A node that is freed and then asked for again is a placeholder, and answers nothing.

So between two states of a run the publications on an id are counted, and the times its node was
freed. If neither number has grown, the answer is the same. The numbers only grow, so this composes,
and it is a law of the passes as in `CurlLoop.StorePasses`.

The id must have been given out. Otherwise `curl_event_res_register` may still give it out, and
publish on it.

## Main definitions

* `Loop.curlEventResPeek`, `Loop.curlEventResGetStr`, `Loop.curlEventResPublishStr`
* `Resources.answer` — what was published on an id, if something was
* `Loop.said` — how often callbacks and the inbox published on an id

## Main results

* `reads_run` — the answer of a run
* `peek_of_publication` — the latest value
-/

namespace CurlLoop

variable {ω : Type}

/-! ### Looking at a resource -/

namespace Loop

/-- `curl_event_res_peek`. -/
def curlEventResPeek (s : Loop ω) (id : ResId) : Option Payload :=
  match s.resources.resFind id with
  | none => none
  | some n => if n.failed then none else n.payload

/-- `curl_event_res_get_str`. -/
def curlEventResGetStr (s : Loop ω) (id : ResId) : Option Payload :=
  match s.resources.resFind id with
  | none => none
  | some n => if n.failed ∨ n.payload = none then none else n.payload

/-- `curl_event_res_publish_str`. The copy of the string is the payload, and it is to be freed. -/
def curlEventResPublishStr (env : Env ω) (s : Loop ω) (id : ResId) (dup : Option Payload) : Loop ω :=
  s.curlEventResPublish env id dup dup.isSome

end Loop

/-- What was published last: nothing yet, a failure, or a payload. -/
def Res.answer (n : Res) : Option (Option Payload) :=
  if n.failed then some none else n.payload.map some

theorem Res.answer_of_look {n m : Res} (h : n.look = m.look) : n.answer = m.answer := by
  simp only [Res.look, Prod.mk.injEq] at h
  obtain ⟨-, hpayload, -, hfailed⟩ := h
  rw [Res.answer, Res.answer, hpayload, hfailed]

theorem Res.answer_publish (n : Res) (payload : Option Payload) (cleanup : Bool) :
    (n.publish payload cleanup).answer = some payload := by
  cases payload <;> rfl

/-! ### The store -/

namespace Resources

variable {s t u : Resources} {id : ResId} {n m : Res}

/-- What was published last on an id. A placeholder answers what no node answers. -/
def answer (s : Resources) (id : ResId) : Option (Option Payload) :=
  (s.resFind id).bind Res.answer

/-- The answer is the same, unless the node was freed. -/
structure Reads (id : ResId) (s t : Resources) : Prop where
  freed : s.freed.count id ≤ t.freed.count id
  nextId : s.gNextId ≤ t.gNextId
  answer : t.freed.count id = s.freed.count id → t.answer id = s.answer id

theorem Reads.of_answer (hfreed : t.freed = s.freed) (hnext : s.gNextId ≤ t.gNextId)
    (h : t.answer id = s.answer id) : Reads id s t := ⟨by rw [hfreed], hnext, fun _ => h⟩

theorem Reads.refl (id : ResId) (s : Resources) : Reads id s s := .of_answer rfl le_rfl rfl

theorem Reads.trans (h : Reads id s t) (h' : Reads id t u) : Reads id s u := by
  refine ⟨h.freed.trans h'.freed, h.nextId.trans h'.nextId, fun heq => ?_⟩
  have hfirst := h.freed
  have hthen := h'.freed
  rw [h'.answer (by omega), h.answer (by omega)]

theorem answer_getOrCreate (s : Resources) (id : ResId) :
    (s.resGetOrCreate id).1.answer = s.answer id := by
  rw [resGetOrCreate_fst, answer]
  cases s.resFind id <;> rfl

theorem reads_getOrCreate (id j : ResId) (s : Resources) : Reads id s (s.resGetOrCreate j).2 := by
  have hfind := resFind_getOrCreate s j id
  have hkeep : (s.resGetOrCreate j).2.freed = s.freed ∧
      (s.resGetOrCreate j).2.gNextId = s.gNextId := by
    rw [resGetOrCreate]
    split <;> exact ⟨rfl, rfl⟩
  refine .of_answer hkeep.1 hkeep.2.ge ?_
  rw [answer, hfind]
  split
  · next heq =>
    subst heq
    exact answer_getOrCreate s id
  · rfl

/-- A node is written that is there. -/
theorem reads_put (id : ResId) (hn : s.resFind m.id = some n) (hm : m.answer = n.answer) :
    Reads id s (s.put m) := by
  refine .of_answer rfl le_rfl ?_
  rw [answer, answer, resFind_put]
  by_cases heq : id = m.id
  · rw [if_pos heq, heq, hn]
    exact hm
  · rw [if_neg heq]

/-- Any node is freed. -/
theorem reads_free (id j : ResId) (s : Resources) : Reads id s (s.free j) := by
  have hcount : (s.free j).freed.count id = s.freed.count id + if j = id then 1 else 0 := by
    show (j :: s.freed).count id = _
    rw [List.count_cons]
    simp only [beq_iff_eq]
  refine ⟨by omega, le_rfl, fun heq => ?_⟩
  by_cases hj : id = j
  · rw [if_pos hj.symm] at hcount
    omega
  · rw [answer, resFind_free, if_neg hj, answer]

theorem reads_release (id j : ResId) (s : Resources) : Reads id s (s.curlEventResRelease j) := by
  rw [curlEventResRelease]
  cases hn : s.resFind j with
  | none => exact .refl id s
  | some n =>
    dsimp only
    split
    · exact (reads_free id j s).trans (.of_answer rfl le_rfl rfl)
    · refine reads_put id (n := n) ?_ rfl
      rw [Res.id_addRefs, id_of_resFind hn]
      exact hn

theorem reads_releaseDep (id j : ResId) (s : Resources) : Reads id s (s.releaseDep j) := by
  rw [releaseDep]
  cases hn : s.resFind j with
  | none => exact .refl id s
  | some n =>
    have hput : Reads id s (s.put n.unref) := by
      refine reads_put id (n := n) ?_ ?_
      · rw [Res.id_unref, id_of_resFind hn]
        exact hn
      · rw [Res.unref]
        split <;> rfl
    show Reads id s ((s.put n.unref).maybeAutoreleaseOwner n.unref)
    rw [maybeAutoreleaseOwner]
    split
    · exact hput.trans (reads_release id _ _)
    · exact hput

theorem reads_foldl {f : Resources → ResId → Resources} (hf : ∀ j s, Reads id s (f s j))
    (l : List ResId) (s : Resources) : Reads id s (l.foldl f s) := by
  induction l generalizing s with
  | nil => exact .refl id s
  | cons j l ih => exact (hf j s).trans (ih (f s j))

/-- A node is found or created, and written. -/
theorem reads_put_getOrCreate (id j : ResId) (s : Resources)
    (hid : m.id = j) (hm : m.answer = (s.resGetOrCreate j).1.answer) :
    Reads id s ((s.resGetOrCreate j).2.put m) := by
  refine (reads_getOrCreate id j s).trans (reads_put id (n := (s.resGetOrCreate j).1) ?_ hm)
  rw [hid, resFind_getOrCreate, if_pos rfl]

/-- A node is inserted that nothing was published on. -/
theorem answer_insert (id : ResId) (s : Resources) (hn : n.answer = none) :
    (s.resInsert n).answer id = s.answer id := by
  rw [answer, answer, resFind_insert]
  split
  · cases s.resFind id with
    | none => exact hn
    | some m => rfl
  · rfl

theorem reads_retainDep (id j : ResId) (s : Resources) : Reads id s (s.retainDep j) :=
  reads_put_getOrCreate id j s (id_resGetOrCreate s j) rfl

/-- What the passes do to the store. -/
theorem Reads.of_shift (id : ResId) (h : s.Shift t) : Reads id s t := by
  cases h with
  | claim => exact .of_answer rfl (Nat.le_succ _) rfl
  | insert hpayload hfailed =>
    refine .of_answer rfl le_rfl (answer_insert id s ?_)
    rw [Res.answer, hpayload, hfailed]
    rfl
  | retain deps => exact reads_foldl (reads_retainDep id) deps s
  | letGo deps => exact reads_foldl (reads_releaseDep id) deps s
  | create j => exact reads_getOrCreate id j s
  | write j hlook =>
    exact reads_put_getOrCreate id j s ((congrArg Prod.fst hlook).trans (id_resGetOrCreate s j))
      (Res.answer_of_look hlook)

/-- **A publication on another id.** -/
theorem reads_publishPayload {id j : ResId} (hj : j ≠ id) (s : Resources) (payload : Option Payload)
    (cleanup : Bool) : Reads id s (s.publishPayload j payload cleanup).2 := by
  refine (reads_getOrCreate id j s).trans (.of_answer rfl le_rfl ?_)
  rw [publishPayload]
  dsimp only
  rw [answer, resFind_put, resFind_clean, answer, if_neg]
  intro heq
  exact hj ((id_resGetOrCreate s j).symm.trans heq.symm)

/-- **A publication** is what its id answers from then on. -/
theorem answer_publishPayload (s : Resources) (id : ResId) (payload : Option Payload)
    (cleanup : Bool) : (s.publishPayload id payload cleanup).2.answer id = some payload := by
  have hfind : (s.publishPayload id payload cleanup).2.resFind id =
      some ((s.resGetOrCreate id).1.publish payload cleanup) := by
    show (((s.resGetOrCreate id).2.clean (s.resGetOrCreate id).1).put
      ((s.resGetOrCreate id).1.publish payload cleanup)).resFind id = _
    rw [resFind_put, resFind_clean, resFind_getOrCreate, if_pos rfl]
    exact if_pos (id_resGetOrCreate s id).symm
  rw [answer, hfind]
  exact Res.answer_publish _ payload cleanup

end Resources

/-! ### Publications -/

/-- The call publishes on the id. A resource that is registered has a new id. -/
def Call.publishesOn (id : ResId) : Call → Bool
  | .publish j _ _ => j = id
  | _ => false

/-- The operation publishes on the id. -/
def ResOp.publishesOn (id : ResId) (op : ResOp) : Bool := op.kind ≠ .release ∧ op.id = id

/-- The user publishes on the id, on the loop thread. -/
def Action.publishesOn (id : ResId) : Action → Bool
  | .call c => c.publishesOn id
  | _ => false

namespace Loop

variable {s t u : Loop (ω × List Call)} {id : ResId} {q q' : Prop}

/-- How often callbacks and the inbox published on the id. -/
def said (s : Loop (ω × List Call)) (id : ResId) : ℕ :=
  s.world.2.countP (Call.publishesOn id) + s.applied.countP (ResOp.publishesOn id)

/-- **What is read.** The answer of an id that was given out is the same, unless its node was freed, or a
callback or the inbox published on the id, or something else happened that is not `q`. -/
structure Reads (id : ResId) (q : Prop) (s t : Loop (ω × List Call)) : Prop where
  said : s.said id ≤ t.said id
  freed : s.resources.freed.count id ≤ t.resources.freed.count id
  nextId : s.resources.gNextId ≤ t.resources.gNextId
  answer : q → id < s.resources.gNextId → t.said id = s.said id →
    t.resources.freed.count id = s.resources.freed.count id →
    t.resources.answer id = s.resources.answer id

theorem Reads.trans (h : Reads id q s t) (h' : Reads id q' t u) : Reads id (q ∧ q') s u := by
  refine ⟨h.said.trans h'.said, h.freed.trans h'.freed, h.nextId.trans h'.nextId, ?_⟩
  rintro ⟨hq, hq'⟩ hid hsaid hfreed
  have hsaid₁ := h.said
  have hsaid₂ := h'.said
  have hfreed₁ := h.freed
  have hfreed₂ := h'.freed
  rw [h'.answer hq' (hid.trans_le h.nextId) (by omega) (by omega),
    h.answer hq hid (by omega) (by omega)]

theorem Reads.imp (h : Reads id q s t) (hq : q' → q) : Reads id q' s t :=
  ⟨h.said, h.freed, h.nextId, fun hq' => h.answer (hq hq')⟩

/-- The store changes, and nothing is recorded. -/
theorem Reads.of_store (h : s.resources.Reads id t.resources) (hrecord : t.world.2 = s.world.2)
    (happlied : t.applied = s.applied) : Reads id q s t := by
  have hsaid : t.said id = s.said id := by rw [Loop.said, Loop.said, hrecord, happlied]
  exact ⟨hsaid.ge, h.freed, h.nextId, fun _ _ _ => h.answer⟩

/-- What the passes write to the store changes no answer. -/
theorem storeFrame_reads (id : ResId) : StoreFrame (Reads (ω := ω) id True) where
  trans h h' := (h.trans h').imp fun _ => ⟨trivial, trivial⟩
  quiet {s t} h := by
    simp only [account, Prod.mk.injEq] at h
    obtain ⟨hstore, hrecord, happlied⟩ := h
    exact .of_store (hstore ▸ .refl id s.resources) hrecord happlied
  shift hstore := .of_store (.of_shift id hstore) rfl rfl

/-! ### Calls -/

theorem reads_publish (env : Env ω) (s : Loop (ω × List Call)) (id j : ResId)
    (payload : Option Payload) (cleanup : Bool) :
    Reads id (j ≠ id) s (s.curlEventResPublish env.recording j payload cleanup) := by
  have hgrow := Resources.reads_getOrCreate id j s.resources
  have hstore : Reads id (j ≠ id) s
      (s.setResources (s.resources.publishPayload j payload cleanup).2) :=
    ⟨le_rfl, hgrow.freed, hgrow.nextId, fun hj _ _ =>
      (Resources.reads_publishPayload hj s.resources payload cleanup).answer⟩
  exact (hstore.trans ((storeFrame_reads id).publish env s j payload cleanup)).imp
    fun hj => ⟨hj, trivial⟩

/-- **A call.** -/
theorem reads_call (env : Env ω) (s : Loop (ω × List Call)) (id : ResId) (c : Call) :
    Reads id (c.publishesOn id = false) s (s.call env.recording c) := by
  have hframe := storeFrame_reads (ω := ω) id
  cases c with
  | api c => exact (hframe.apiCall env s c).imp fun _ => trivial
  | declare => exact (hframe.declare s).imp fun _ => trivial
  | register payload cleanup =>
    have hboth := (hframe.declare s).trans
      (reads_publish env s.curlEventResDeclare.2 id s.curlEventResDeclare.1 payload cleanup)
    -- The id is the next one, and the ids that were given out come before it.
    exact ⟨hboth.said, hboth.freed, hboth.nextId, fun _ hid =>
      hboth.answer ⟨trivial, hid.ne'⟩ hid⟩
  | publish j payload cleanup =>
    exact (reads_publish env s id j payload cleanup).imp fun hj => of_decide_eq_false hj
  | addref j => exact (hframe.addref s j).imp fun _ => trivial
  | release j =>
    exact .of_store (Resources.reads_release id j s.resources) rfl rfl
  | autoreleaseOwner j enable => exact (hframe.autoreleaseOwner s j enable).imp fun _ => trivial

theorem reads_calls (env : Env ω) (id : ResId) (cs : List Call) (s : Loop (ω × List Call)) :
    Reads id (∀ c ∈ cs, c.publishesOn id = false) s (s.calls env.recording cs) := by
  induction cs generalizing s with
  | nil => exact ((storeFrame_reads id).refl s).imp fun _ => trivial
  | cons c cs ih =>
    exact ((reads_call env s id c).trans (ih _)).imp fun hcs => List.forall_mem_cons.mp hcs

/-- **The passes** change no answer but by a publication that is recorded. -/
theorem storeLaw_reads (env : Env ω) (id : ResId) : StoreLaw env (Reads (ω := ω) id True) where
  toStoreFrame := storeFrame_reads id
  reply {s t cs} hstore hrecord happlied := by
    have hcalls := reads_calls env id cs t
    have hsaid : t.said id = cs.countP (Call.publishesOn id) + s.said id := by
      rw [said, said, hrecord, happlied, List.countP_append, Nat.add_assoc]
    have hgrow := hcalls.said
    refine ⟨by omega, hstore ▸ hcalls.freed, hstore ▸ hcalls.nextId, fun _ hid heq hfreed => ?_⟩
    -- If the number is the same, none of the calls publishes on the id.
    have hnone : cs.countP (Call.publishesOn id) = 0 := by omega
    have hquiet : ∀ c ∈ cs, c.publishesOn id = false := fun c hc =>
      Bool.eq_false_iff.mpr (List.countP_eq_zero.mp hnone c hc)
    rw [hcalls.answer hquiet (hstore ▸ hid) (by omega) (hstore ▸ hfreed), hstore]

/-! ### Runs -/

/-- An operation of the inbox changes an answer only if it publishes on the id, and is recorded. -/
theorem reads_applyOp (env : Env ω) (s : Loop (ω × List Call)) (id : ResId) (op : ResOp) :
    Reads id True s (s.applyOp env.recording op) := by
  have happly : Reads id (op.publishesOn id = false) (s.recordApplied op)
      (s.applyOp env.recording op) := by
    by_cases hkind : op.kind = .release
    · rw [applyOp_of_release env.recording s hkind]
      exact .of_store (Resources.reads_release id op.id s.resources) rfl rfl
    · rw [applyOp_of_publish env.recording s hkind]
      refine (reads_publish env (s.recordApplied op) id op.id op.payload op.cleanup).imp fun hop => ?_
      exact fun hid => of_decide_eq_false hop ⟨hkind, hid⟩
  have hsaid : (s.recordApplied op).said id = s.said id + if op.publishesOn id then 1 else 0 := by
    show _ + (op :: s.applied).countP (ResOp.publishesOn id) = _
    rw [List.countP_cons, ← Nat.add_assoc]
    rfl
  have hgrow := happly.said
  refine ⟨by omega, happly.freed, happly.nextId, fun _ hid heq hfreed => ?_⟩
  have hquiet : op.publishesOn id = false := by
    by_contra hop
    rw [if_pos (eq_true_of_ne_false hop)] at hsaid
    omega
  rw [hquiet] at hsaid
  exact happly.answer hquiet hid (heq.trans hsaid.symm) hfreed

/-- **One action.** -/
theorem reads_act (env : Env ω) (id : ResId) {a : Action} (ha : a ≠ .destroy)
    (s : Loop (ω × List Call)) : Reads id (a.publishesOn id = false) s (s.act env.recording a) := by
  cases a with
  | call c => exact reads_call env s id c
  | applyOp op => exact (reads_applyOp env s id op).imp fun _ => trivial
  | destroy => exact absurd rfl ha
  | _ => exact ((storeLaw_reads env id).pass (by simp) (by simp) (by simp) s).imp fun _ => trivial

theorem reads_run (env : Env ω) (id : ResId) {as : List Action} (has : ∀ a ∈ as, a ≠ .destroy)
    (s : Loop (ω × List Call)) : Reads id (∀ a ∈ as, a.publishesOn id = false) s
      (Guarded.run (act env.recording) s as) := by
  induction as generalizing s with
  | nil => exact ((storeFrame_reads id).refl s).imp fun _ => trivial
  | cons a as ih =>
    obtain ⟨ha, has⟩ := List.forall_mem_cons.mp has
    exact ((reads_act env id ha s).trans (ih has _)).imp fun has => List.forall_mem_cons.mp has

/-! ### The latest value -/

/-- The answer of a publication, if the node outlives it. -/
theorem answer_publish (env : Env ω) (id : ResId) (payload : Option Payload) (cleanup : Bool)
    (hid : id < s.resources.gNextId)
    (hfreed : (s.curlEventResPublish env.recording id payload cleanup).resources.freed.count id =
      s.resources.freed.count id) :
    (s.curlEventResPublish env.recording id payload cleanup).resources.answer id = some payload := by
  have hrest := (storeFrame_reads id).publish env s id payload cleanup
  have hsilent := (StoreFrame.silent ω).publish env s id payload cleanup
  have hsaid : (s.curlEventResPublish env.recording id payload cleanup).said id =
      (s.setResources (s.resources.publishPayload id payload cleanup).2).said id := by
    rw [said, said, hsilent.1, hsilent.2]
  have hgrow := Resources.reads_getOrCreate id id s.resources
  have hcount := hrest.freed
  have hfirst : s.resources.freed.count id ≤ (s.setResources
      (s.resources.publishPayload id payload cleanup).2).resources.freed.count id := hgrow.freed
  rw [hrest.answer trivial (hid.trans_le hgrow.nextId) hsaid (by omega)]
  exact Resources.answer_publishPayload s.resources id payload cleanup

/-- The action publishes the payload on the id. -/
inductive Publishes (id : ResId) (payload : Option Payload) : Action → Prop
  | user (cleanup : Bool) : Publishes id payload (.call (.publish id payload cleanup))
  | inbox {op : ResOp} : op.kind ≠ .release → op.id = id → op.payload = payload →
    Publishes id payload (.applyOp op)

theorem Publishes.answer (env : Env ω) {payload : Option Payload} {a : Action}
    (h : Publishes id payload a) (hid : id < s.resources.gNextId)
    (hfreed : (s.act env.recording a).resources.freed.count id = s.resources.freed.count id) :
    (s.act env.recording a).resources.answer id = some payload := by
  cases h with
  | user cleanup => exact answer_publish env id payload cleanup hid hfreed
  | @inbox op hkind hop hpayload =>
    subst hop hpayload
    have happ := applyOp_of_publish env.recording s hkind
    change (s.applyOp env.recording op).resources.freed.count op.id = _ at hfreed
    show (s.applyOp env.recording op).resources.answer op.id = _
    rw [happ] at hfreed ⊢
    exact answer_publish (s := s.recordApplied op) env op.id op.payload op.cleanup hid hfreed

/-- What is looked at is the answer. -/
theorem peek_of_answer {s : Loop ω} {payload : Option Payload}
    (h : s.resources.answer id = some payload) :
    s.curlEventResPeek id = payload ∧ s.curlEventResGetStr id = payload ∧
      s.resources.curlResourceAllReadyList [id] = true := by
  rw [Resources.answer] at h
  rw [curlEventResPeek, curlEventResGetStr, Resources.curlResourceAllReadyList, List.all_cons,
    List.all_nil, Bool.and_true]
  cases hn : s.resources.resFind id with
  | none =>
    rw [hn] at h
    exact absurd h.symm (Option.some_ne_none payload)
  | some n =>
    rw [hn, Option.bind_some, Res.answer] at h
    dsimp only
    rw [Res.ready]
    cases hfailed : n.failed with
    | true =>
      rw [hfailed] at h
      obtain rfl : none = payload := Option.some.inj h
      simp
    | false =>
      rw [hfailed] at h
      cases hpayload : n.payload with
      | none =>
        rw [hpayload] at h
        exact absurd h.symm (Option.some_ne_none payload)
      | some p =>
        rw [hpayload] at h
        obtain rfl : some p = payload := Option.some.inj h
        simp

/-- **The latest value.** After a publication on an id that was given out, by the user or through the
inbox, whoever looks at the resource finds what was published and it counts as ready, until something
is published on the id again or its node is freed. -/
theorem peek_of_publication (env : Env ω) (mem : Memory) (world : ω) {id : ResId}
    {payload : Option Payload} (pre as : List Action) {a : Action} (ha : Publishes id payload a)
    (has : ∀ b ∈ as, b ≠ .destroy ∧ b.publishesOn id = false) :
    let s := Guarded.run (act env.recording) (curlEventLoopInit mem (world, [])) pre
    let t := Guarded.run (act env.recording) (curlEventLoopInit mem (world, [])) (pre ++ a :: as)
    id < s.resources.gNextId → t.said id = (s.act env.recording a).said id →
      t.resources.freed.count id = s.resources.freed.count id →
      t.curlEventResPeek id = payload ∧ t.curlEventResGetStr id = payload ∧
        t.resources.curlResourceAllReadyList [id] = true := by
  intro s t hid hsaid hfreed
  have hrun : t = Guarded.run (act env.recording) (s.act env.recording a) as := by
    show Guarded.run _ _ (pre ++ a :: as) = _
    rw [Guarded.run_append, Guarded.run_cons]
  have hdestroy : a ≠ .destroy := by cases ha <;> simp
  have hfirst := reads_act env id hdestroy s
  have hrest := reads_run env id (fun b hb => (has b hb).1) (s.act env.recording a)
  rw [← hrun] at hrest
  have hcount₁ := hfirst.freed
  have hcount₂ := hrest.freed
  refine peek_of_answer ?_
  rw [hrest.answer (fun b hb => (has b hb).2) (hid.trans_le hfirst.nextId) hsaid (by omega)]
  exact ha.answer env hid (by omega)

/-- Another thread publishes what a request waits for. The request is started and completed, and its
callback publishes another resource. -/
theorem peek_of_publication_awaited :
    let pre : List Action := [.call .declare, .call (.api (.submit 2 0)),
      .processCancelledAndPendingRequests]
    let a : Action := .applyOp ⟨.publish, 1, some 6, true, 0⟩
    let as : List Action := [.processCancelledAndPendingRequests,
      .processCompletedRequests [⟨0, .ok, 200⟩], .call (.release 2)]
    let t := Guarded.run (act Env.publisher.recording)
      (curlEventLoopInit (Memory.plain fun _ => [1]) ((), [])) (pre ++ a :: as)
    t.destroyed = [2] ∧ t.curlEventResPeek 1 = some 6 ∧ t.curlEventResGetStr 1 = some 6 ∧
      t.resources.curlResourceAllReadyList [1] = true := by
  intro pre a as t
  refine ⟨by decide +kernel, peek_of_publication Env.publisher (Memory.plain fun _ => [1]) () pre as
    (.inbox (by decide) rfl rfl) (by decide) (by decide +kernel) (by decide +kernel)
    (by decide +kernel)⟩

end Loop

end CurlLoop
