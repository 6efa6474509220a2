import CurlLoop.Paths

/-!
# Where calls are made

On the loop thread a call is made between the passes, by an operation of the inbox, or by a callback
in the middle of the third pass. What is to be said of every call that is made has to be said of the
last kind as well, and there the state is one that no action begins or ends in: a request is in the
hand of the pass, and others are on a list it has detached.

The definitions list the calls that are made while an action is carried out, each with the state it
is made in. The loop is well formed there, and no publication is under way.

## Main definitions

* `Loop.callSites` — the calls of a callback
* `Action.callSites` — the calls of an action
* `Loop.Sited` — what holds where a call is made

## Main results

* `Loop.AtRest.sited` — it holds of every call of an action
-/

namespace CurlLoop

open Function (update)

variable {ω : Type}

/-- The call an operation of the inbox comes to. -/
def ResOp.call (op : ResOp) : Call :=
  match op.kind with
  | .release => .release op.id
  | _ => .publish op.id op.payload op.cleanup

namespace Loop

/-- The calls of a callback, each with the state it is made in. -/
def callSites (env : Env ω) : List Call → Loop ω → List (Call × Loop ω)
  | [], _ => []
  | c :: cs, s => (c, s) :: callSites env cs (s.call env c)

/-- The calls that are made in a round of the loop over the messages. -/
def roundSites (env : Env ω) (s : Loop ω) (m : Message) : List (Call × Loop ω) :=
  match s.transferOf m with
  | none => []
  | some a => callSites env (s.hear env m a.priv).2.1 (s.hear env m a.priv).2.2

/-- The calls that are made in the loop over the messages. -/
def messageSites (env : Env ω) : List Message → Loop ω → List (Call × Loop ω)
  | [], _ => []
  | m :: msgs, s => s.roundSites env m ++ messageSites env msgs (s.completedRound env m)

/-- The calls that are made in the loop over the injected list. A request whose `on_complete` is not
set makes none. -/
def injectedSites (env : Env ω) (s : Loop ω) : List (Call × Loop ω) :=
  (Intrusive.visits (fun (t : Loop ω) r => t.nextPending r)
    (fun r t => injectedRound env r (t.follow r)) s.accepted.length s.injectedRequests
    s.detachInjected).flatMap fun v =>
      callSites env ((v.2.follow v.1).tellComplete env v.1).2.1
        ((v.2.follow v.1).tellComplete env v.1).2.2

/-- What holds where a call is made: the loop is well formed, no publication is under way, and the
call meets no hazard that its caller was not allowed. -/
structure Sited (strict : Prop) (env : Env ω) (p : Call × Loop ω) : Prop where
  wf : ∃ v C, p.2.WF v C ∧ v.NoneWoken
  spared : (p.2.call env p.1).Spared strict

end Loop

/-- The calls that are made while an action is carried out, each with the state it is made in. -/
def Action.callSites (env : Env ω) : Action → Loop ω → List (Call × Loop ω)
  | .call c, s => [(c, s)]
  | .applyOp op, s => [(op.call, { s with applied := op :: s.applied })]
  | .processCompletedRequests msgs, s =>
    s.messageSites env msgs ++ (msgs.foldl (fun s m => s.completedRound env m) s).injectedSites env
  | _, _ => []

namespace Loop

variable {s t : Loop ω} {v : View} {C : List ReqId} {r : ReqId} {env : Env ω}
  {strict : Prop} {p : Call × Loop ω}

theorem applyOp_eq_call (env : Env ω) (s : Loop ω) (op : ResOp) :
    s.applyOp env op = ({ s with applied := op :: s.applied } : Loop ω).call env op.call := by
  rw [applyOp, ResOp.call]
  cases op.kind <;> rfl

/-- The calls of a callback that is called in a well-formed loop. -/
theorem WF.sited_calls (h : s.WF v C) (hv : v.NoneWoken) {cs : List Call}
    (hz : (s.calls env cs).Spared strict) (hp : p ∈ callSites env cs s) : Sited strict env p := by
  induction cs generalizing s v C with
  | nil => exact nomatch hp
  | cons c cs ih =>
    have hmono := (evolves_foldl (fun s c => evolves_call env s c) cs (s.call env c)).spared hz
    rcases List.mem_cons.mp hp with rfl | hp
    · exact ⟨⟨v, C, h, hv⟩, hmono⟩
    · obtain ⟨v', C', hwf, hund⟩ := h.call hv c hmono
      exact ih hwf (hund.noneWoken hv) hz hp

theorem AtRest.sited_round (h : s.AtRest strict) {m : Message}
    (hz : (s.completedRound env m).Spared strict) (hp : p ∈ s.roundSites env m) :
    Sited strict env p := by
  obtain ⟨v, C, hwf, hv⟩ := h
  rw [Loop.completedRound] at hz
  rw [roundSites] at hp
  cases ha : s.transferOf m with
  | none =>
    rw [ha] at hp
    exact absurd hp List.not_mem_nil
  | some a =>
    rw [ha] at hz hp
    obtain ⟨htold, heq⟩ := hwf.heard env ha
    have hz' : (s.receive env m a.priv).2.Spared strict :=
      (evolves_settle (q := False) env _ _ _ _ _).spared hz
    rw [heq] at hz'
    exact htold.sited_calls (hv.noneWoken.hold (by simp) _ _) hz' hp

theorem AtRest.sited_messages (h : s.AtRest strict) {msgs : List Message}
    (hz : (msgs.foldl (fun s m => s.completedRound env m) s).Spared strict)
    (hp : p ∈ s.messageSites env msgs) : Sited strict env p := by
  induction msgs generalizing s with
  | nil => exact nomatch hp
  | cons m msgs ih =>
    have hmono := (evolves_foldl (fun s m => evolves_completedRound env s m) msgs
      (s.completedRound env m)).spared hz
    rcases List.mem_append.mp hp with hp | hp
    · exact h.sited_round hmono hp
    · exact ih (h.completedRound m hmono) hz hp

/-- The calls of a request on the detached injected list. -/
theorem WF.sited_injected (h : s.WF v C) (hv : v.SlackBut strict .injected)
    (hz : (s.injectedRound env r).Spared strict)
    (hp : p ∈ callSites env (s.tellComplete env r).2.1 (s.tellComplete env r).2.2) :
    Sited strict env p := by
  rw [Loop.injectedRound] at hz
  split at hz
  · have hz' := (evolves_destroy (q := False) _ r).spared hz
    rw [callOnComplete_eq_told] at hz'
    obtain ⟨w, tr, heq⟩ := tellComplete_eq env s r
    have htold : (s.tellComplete env r).2.2.WF v C := by
      rw [heq]
      exact ⟨h.located, h.marked⟩
    exact htold.sited_calls (hv.noneWoken (by simp)) hz' hp
  · rename_i hset
    rw [tellComplete, if_neg hset] at hp
    exact absurd hp List.not_mem_nil

theorem AtRest.sited_processInjected (h : s.AtRest strict)
    (hz : (s.processInjected env).Spared strict) (hp : p ∈ s.injectedSites env) :
    Sited strict env p := by
  obtain ⟨v, C, hwf, hv⟩ := h
  have hdet : s.detachInjected.WF
      (update (update v .injected []) (.detached .injected) (v .injected)) C :=
    ⟨hwf.located.detachInjected (hv.detached .injected (.inr (by simp))), hwf.marked⟩
  obtain ⟨b, hb, hp⟩ := List.mem_flatMap.mp hp
  obtain ⟨⟨l, v', C', hwf', hlist, hslack⟩, hz'⟩ := Intrusive.visits_rule
    (G := fun t : Loop ω => t.Spared strict) (s := s.detachInjected)
    (f := fun r t => Loop.injectedRound env r (t.follow r))
    (P := fun l t => ∃ v C, t.WF v C ∧ v (.detached .injected) = l ∧ v.SlackBut strict .injected)
    (fun r t ht => ((evolves_injectedRound env r _).spared ht).of_suffix
      (hazards_follow t r ▸ List.suffix_rfl))
    (fun r l t ht hz => WF.pending_round (P := fun v _ => v.SlackBut strict .injected)
      (fun r l v C t ht hp hv hz => by
        obtain ⟨v', C', hwf', hh⟩ := ht.injectedRound hv hp hz
        exact ⟨v', C', hwf', hh.rest (.inr (by simp)), hh.link_rest ht (.inr (by simp)) hp,
          hh.slackBut hv⟩) ht hz)
    (l := v .injected) hwf.located.linked.injected
    ⟨_, C, hdet, Function.update_self .., hv.detach (by simp) (by simp)⟩ hz hb
  have hfollow : b.2.follow b.1 = b.2 :=
    hwf'.located.follow (p := .detached .injected) (hlist ▸ List.mem_cons_self)
  rw [hfollow] at hp hz'
  exact hwf'.sited_injected hslack hz' hp

/-- **Where a call is made** the loop is well formed, and no publication is under way. -/
theorem AtRest.sited (h : s.AtRest strict) {a : Action} (hz : (Loop.act env a s).Spared strict)
    (hp : p ∈ a.callSites env s) : Sited strict env p := by
  cases a with
  | call c =>
    obtain ⟨v, C, hwf, hv⟩ := h
    obtain rfl := List.mem_singleton.mp hp
    exact ⟨⟨v, C, hwf, hv.noneWoken⟩, hz⟩
  | applyOp op =>
    obtain ⟨v, C, hwf, hv⟩ := h
    obtain rfl := List.mem_singleton.mp hp
    exact ⟨⟨v, C, ⟨hwf.located, hwf.marked⟩, hv.noneWoken⟩, applyOp_eq_call env s op ▸ hz⟩
  | processCompletedRequests msgs =>
    have hz' := (evolves_processInjected env _).spared hz
    rcases List.mem_append.mp hp with hp | hp
    · exact h.sited_messages hz' hp
    · exact (h.completedRounds hz').sited_processInjected hz hp
  | _ => exact nomatch hp

end Loop

end CurlLoop
