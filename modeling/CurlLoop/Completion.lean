import CurlLoop.Passes

/-!
# What the handling of finished transfers preserves

`process_completed_requests` takes a finished request out of the active map, calls its callback, and
puts it somewhere: into the rate-limited map, into a waiting map, or to its end. Then it completes
the injected requests. A callback may make calls while its request is in the hand of the pass, and
while the rest of the injected list is detached.

## Main definitions

* `Request.Finished` — what the fields of a request say at that time

## Main results

* `WF.settle` — the exits of a finished transfer
* `AtRest.processCompletedRequests` — the pass
-/

namespace CurlLoop

open Function (update)

/-- What the fields of a request say when its transfer has finished. -/
structure Request.Finished (q : Request) : Prop where
  isPending : q.isPending = false
  easyHandle : q.multiHandle = true → q.easyHandle.isSome

theorem Request.Finished.congr {q q' : Request} (h : q.Finished) (hq : q.SamePlace q') :
    q'.Finished :=
  ⟨hq.isPending.trans h.isPending, fun hm => by
    rw [hq.easyHandle]
    exact h.easyHandle (hq.multiHandle.symm.trans hm)⟩

theorem Request.Finished.cleaned {q : Request} (h : q.Finished) : q.cleaned.multiHandle = false := by
  show (if q.easyHandle.isSome then false else q.multiHandle) = false
  split
  · rfl
  · rename_i hnone
    exact Bool.eq_false_iff.mpr fun hm => hnone (h.easyHandle hm)

namespace Loop

variable {ω : Type} {s t u w : Loop ω} {v v' v₁ v₂ : View} {C : List ReqId} {r : ReqId}
  {l : List ReqId} {p : Place} {m : MapId} {env : Env ω} {strict : Prop}

/-! ### The exits of a finished transfer -/

theorem WF.cleanup (h : s.WF v C) (hr : r ∈ v .hand) :
    (s.curlEventLoopRequestCleanup r).WF v C ∧ Touched r s (s.curlEventLoopRequestCleanup r) ∧
      (s.curlEventLoopRequestCleanup r).req r = (s.req r).cleaned := by
  have hmulti : ({ s with multi := (s.curlEventLoopRequestCleanup r).multi } : Loop ω).WF v C :=
    ⟨h.located.setTransfers fun a ha _ => (transfers_cleanup ha).1, h.marked⟩
  have hclean := hmulti.modifyReq_hand hr (f := Request.cleaned) fun hc => hc
  exact ⟨⟨hclean.located, hclean.marked⟩, fun b hb => ⟨rfl, Function.update_of_ne hb _ _⟩,
    Function.update_self ..⟩

/-- A finished request is cleaned up and waits for another run. -/
theorem WF.cleanupEnqueue (h : s.WF v C) (hh : v .hand = r :: l) (hq : (s.req r).Finished) :
    ∃ v', ((s.curlEventLoopRequestCleanup r).enqueueRequest r).WF v' C ∧
      PutDown r l v v' s ((s.curlEventLoopRequestCleanup r).enqueueRequest r) := by
  have hr : r ∈ v .hand := hh ▸ List.mem_cons_self
  obtain ⟨hwf, htouch, hreq⟩ := h.cleanup hr
  obtain ⟨v', hwf', hput⟩ := hwf.enqueueRequest hh (by rw [hreq]; exact hq.cleaned)
    (by rw [hreq]; exact hq.isPending)
  exact ⟨v', hwf', hput.after htouch h hr⟩

theorem WF.finish (h : s.WF v C) (hh : v .hand = r :: l) (hq : (s.req r).Finished) {success : Bool}
    (hz : (s.finish r success).Spared strict) :
    ∃ v', (s.finish r success).WF v' C ∧ PutDown r l v v' s (s.finish r success) := by
  have hr : r ∈ v .hand := hh ▸ List.mem_cons_self
  have main : ∀ t : Loop ω, t.WF v C → t.req = s.req → t.nextPending = s.nextPending →
      (if (t.req r).shouldRefresh then ((t.modifyReq r fun q =>
        { q with currentRetries := 0 }).curlEventLoopRequestCleanup r).enqueueRequest r
        else t.curlEventRequestDestroy r).Spared strict →
      ∃ v', (if (t.req r).shouldRefresh then ((t.modifyReq r fun q =>
          { q with currentRetries := 0 }).curlEventLoopRequestCleanup r).enqueueRequest r
          else t.curlEventRequestDestroy r).WF v' C ∧
        PutDown r l v v' s (if (t.req r).shouldRefresh then ((t.modifyReq r fun q =>
          { q with currentRetries := 0 }).curlEventLoopRequestCleanup r).enqueueRequest r
          else t.curlEventRequestDestroy r) := by
    intro t ht hreq hlink hz
    have htouch : Touched r s t := fun b _ => ⟨congrFun hlink b, congrFun hreq b⟩
    split
    · have hmod := ht.modifyReq_hand hr (f := fun q => { q with currentRetries := 0 })
        fun hc => hc
      have hreq' : (t.modifyReq r fun q => { q with currentRetries := 0 }).req r =
          { t.req r with currentRetries := 0 } := Function.update_self ..
      obtain ⟨v', hwf, hput⟩ := hmod.cleanupEnqueue hh (by
        rw [hreq', hreq]
        exact hq.congr ⟨rfl, rfl, rfl, rfl⟩)
      exact ⟨v', hwf, hput.after (htouch.trans (touched_modifyReq t r _)) h hr⟩
    · rename_i hno
      rw [if_neg hno] at hz
      obtain ⟨v', hwf, hput⟩ := ht.destroy hh hz
      exact ⟨v', hwf, hput.after htouch h hr⟩
  unfold Loop.finish at hz ⊢
  dsimp only at hz ⊢
  cases success with
  | true => exact main s.countCompleted ⟨h.located, h.marked⟩ rfl rfl hz
  | false => exact main s h rfl rfl hz

theorem WF.callOnRetry (h : s.WF v C) (hr : r ∈ v .hand) :
    (s.callOnRetry env r).2.WF v C ∧ Touched r s (s.callOnRetry env r).2 ∧
      (s.req r).SamePlace ((s.callOnRetry env r).2.req r) := by
  -- a callback writes some fields of the request after asking the outside world
  have hwrite : ∀ (w : ω) (f : Request → Request), (s.req r).SamePlace (f (s.req r)) →
      ((s.req r).isCancelled = true → (f (s.req r)).isCancelled = true) →
      (({ s with world := w } : Loop ω).modifyReq r f).WF v C ∧
        Touched r s (({ s with world := w } : Loop ω).modifyReq r f) ∧
        (s.req r).SamePlace ((({ s with world := w } : Loop ω).modifyReq r f).req r) := by
    intro w f hf hc
    have hask : ({ s with world := w } : Loop ω).WF v C := ⟨h.located, h.marked⟩
    refine ⟨hask.modifyReq_hand hr hc, touched_modifyReq _ r f, ?_⟩
    show (s.req r).SamePlace (update s.req r (f (s.req r)) r)
    rw [Function.update_self]
    exact hf
  rw [Loop.callOnRetry]
  split
  · exact ⟨⟨h.located, h.marked⟩, fun _ _ => ⟨rfl, rfl⟩, .refl _⟩
  · rw [Loop.defaultCalculateRetryEnhanced]
    dsimp only
    split
    · exact hwrite _ (fun _ => { s.req r with
        currentRetries := (s.req r).currentRetries + 1
        nextRetryAt := _ }) ⟨rfl, rfl, rfl, rfl⟩ fun hc => hc
    · exact ⟨h, .refl s, .refl _⟩
  · exact hwrite _ (fun q => q.dueAt _) ⟨rfl, rfl, rfl, rfl⟩ fun hc => hc

theorem WF.reschedule (h : s.WF v C) (env : Env ω) (hh : v .hand = r :: l) (hq : (s.req r).Finished)
    {success : Bool} {retryIn : ℤ} (hz : (s.reschedule env r success retryIn).Spared strict) :
    ∃ v', (s.reschedule env r success retryIn).WF v' C ∧
      PutDown r l v v' s (s.reschedule env r success retryIn) := by
  have hr : r ∈ v .hand := hh ▸ List.mem_cons_self
  have main : ∀ p : Bool × Loop ω, p.2.WF v C → Touched r s p.2 →
      (s.req r).SamePlace (p.2.req r) →
      (if p.1 then (p.2.curlEventLoopRequestCleanup r).countRetried.enqueueRequest r
        else p.2.finish r success).Spared strict →
      ∃ v', (if p.1 then (p.2.curlEventLoopRequestCleanup r).countRetried.enqueueRequest r
          else p.2.finish r success).WF v' C ∧
        PutDown r l v v' s (if p.1 then
          (p.2.curlEventLoopRequestCleanup r).countRetried.enqueueRequest r
          else p.2.finish r success) := by
    intro p hp htouch hsame hz
    split
    · obtain ⟨v', hwf, hput⟩ := hp.cleanupEnqueue hh (hq.congr hsame)
      have hput' := hput.after htouch h hr
      exact ⟨v', ⟨hwf.located, hwf.marked⟩,
        ⟨hput'.hand, hput'.detached, hput'.stays, hput'.links, hput'.reqs⟩⟩
    · rename_i hno
      rw [if_neg hno] at hz
      obtain ⟨v', hwf, hput⟩ := hp.finish hh (hq.congr hsame) hz
      exact ⟨v', hwf, hput.after htouch h hr⟩
  rw [Loop.reschedule] at hz ⊢
  split
  · have hask : (s.ask env.macroNow).2.WF v C := ⟨h.located, h.marked⟩
    have hmod := hask.modifyReq_hand hr
      (f := fun q => q.dueAt (macroNowAddSeconds (env.macroNow s.world).1 retryIn)) fun hc => hc
    have hreq : ((s.ask env.macroNow).2.modifyReq r fun q =>
        q.dueAt (macroNowAddSeconds (env.macroNow s.world).1 retryIn)).req r =
        (s.req r).dueAt (macroNowAddSeconds (env.macroNow s.world).1 retryIn) :=
      Function.update_self ..
    obtain ⟨v', hwf, hput⟩ := hmod.cleanupEnqueue hh (by
      rw [hreq]
      exact hq.congr ⟨rfl, rfl, rfl, rfl⟩)
    exact ⟨v', hwf, hput.after (touched_modifyReq (s.ask env.macroNow).2 r _) h hr⟩
  · rename_i hpos
    rw [if_neg hpos] at hz
    refine main (if retryIn < 0 then s.callOnRetry env r else (false, s)) ?_ ?_ ?_ hz
    all_goals split
    · exact (h.callOnRetry hr).1
    · exact h
    · exact (h.callOnRetry hr).2.1
    · exact .refl s
    · exact (h.callOnRetry hr).2.2
    · exact .refl _

theorem WF.settle (h : s.WF v C) (hh : v .hand = r :: l) (hq : (s.req r).Finished)
    {httpCode : ℤ} {success : Bool} {retryIn : ℤ}
    (hz : (s.settle env r httpCode success retryIn).Spared strict) :
    ∃ v', (s.settle env r httpCode success retryIn).WF v' C ∧
      PutDown r l v v' s (s.settle env r httpCode success retryIn) := by
  have hr : r ∈ v .hand := hh ▸ List.mem_cons_self
  have hask : ∀ w, ({ s with world := w } : Loop ω).WF v C := fun w => ⟨h.located, h.marked⟩
  have htouch : ∀ w, Touched r s { s with world := w } := fun w _ _ => ⟨rfl, rfl⟩
  rw [Loop.settle] at hz ⊢
  cases hkey : (s.req r).rateLimit with
  | none =>
    rw [hkey] at hz
    exact h.reschedule env hh hq hz
  | some key =>
    rw [hkey] at hz
    dsimp only at hz ⊢
    split
    · obtain ⟨v', hwf, hput⟩ := (hask (env.macroNow (env.rateManagerHandle429 key
        s.world).2).2).parkRateLimited hh hq.isPending (macroNowAddSeconds
        (env.macroNow (env.rateManagerHandle429 key s.world).2).1
        (env.rateManagerHandle429 key s.world).1)
      exact ⟨v', hwf, hput.after (htouch _) h hr⟩
    · rename_i hcode
      rw [if_neg hcode] at hz
      obtain ⟨v', hwf, hput⟩ := (hask (env.rateManagerRequestDone key s.world)).reschedule
        env hh hq hz
      exact ⟨v', hwf, hput.after (htouch _) h hr⟩

/-! ### Messages -/

/-- A completion callback asks the outside world and makes its calls. -/
theorem callOnComplete_eq (env : Env ω) (s : Loop ω) (r : ReqId) :
    ∃ w tr cs, (s.callOnComplete env r).2 =
      ({ s with world := w, trace := tr } : Loop ω).calls env cs := by
  rw [Loop.callOnComplete]
  split
  · exact ⟨_, _, _, rfl⟩
  · exact ⟨_, _, [], rfl⟩

theorem callOnFailure_eq (env : Env ω) (s : Loop ω) (r : ReqId) (easy : EasyId) (code : CurlCode)
    (httpCode : ℤ) :
    ∃ w tr cs, (s.callOnFailure env r easy code httpCode).2 =
      ({ s with world := w, trace := tr } : Loop ω).calls env cs := by
  rw [Loop.callOnFailure]
  split
  · exact ⟨_, _, _, rfl⟩
  · exact ⟨_, _, [], rfl⟩

/-- The calls of a callback, which was told to the outside world first. -/
theorem WF.callback (h : s.WF v C) (hv : v.NoneWoken)
    (ht : ∃ w tr cs, t = ({ s with world := w, trace := tr } : Loop ω).calls env cs)
    (hz : t.Spared strict) : ∃ v' C', t.WF v' C' ∧ Undisturbed strict v v' s t := by
  obtain ⟨w, tr, cs, rfl⟩ := ht
  have htold : ({ s with world := w, trace := tr } : Loop ω).WF v C := ⟨h.located, h.marked⟩
  obtain ⟨v', C', hwf, hund⟩ := htold.calls hv cs hz
  exact ⟨v', C', hwf, hund.after rfl rfl⟩

/-- The message of a transfer is read. -/
theorem WF.reportMessage (h : s.WF v C) (easy : EasyId) : (s.reportMessage easy).WF v C := by
  refine ⟨h.located.setTransfers fun a ha hrep => ?_, h.marked⟩
  obtain ⟨b, hb, rfl⟩ := List.mem_map.mp ha
  split at hrep
  · simp at hrep
  · rename_i hne
    rwa [if_neg hne]

/-- After its message is read, no transfer of the request is left to report. -/
theorem WF.reported (h : s.WF v C) {a : Transfer} (ha : a ∈ s.multi.transfers)
    (hrep : a.reported = false) :
    ∀ b ∈ (s.reportMessage a.easy).multi.transfers, b.reported = false → b.priv ≠ a.priv := by
  intro b hb hbrep hpriv
  obtain ⟨c, hc, rfl⟩ := List.mem_map.mp hb
  split at hbrep
  · simp at hbrep
  · rename_i hne
    rw [if_neg hne] at hpriv
    -- an active request has one easy handle, so `c` would be the transfer reported
    have he := (h.located.attached c hc hbrep).2
    rw [hpriv, (h.located.attached a ha hrep).2] at he
    exact hne (Option.some.inj he).symm

theorem mem_of_transferOf {msg : Message} {a : Transfer} (h : s.transferOf msg = some a) :
    a ∈ s.multi.transfers ∧ a.easy = msg.easy ∧ a.reported = false := by
  have hfound := List.find?_some h
  simp only [decide_eq_true_eq] at hfound
  exact ⟨List.mem_of_find?_eq_some h, hfound⟩

/-- A request whose transfer has a message to read is active. -/
theorem WF.mem_queued_of_transferOf (h : s.WF v C) {msg : Message} {a : Transfer}
    (ha : s.transferOf msg = some a) : a.priv ∈ v (.map .queued) := by
  obtain ⟨hmem, _, hrep⟩ := mem_of_transferOf ha
  exact (h.located.attached a hmem hrep).1

/-- The request of a message is taken into hand and its callback called. -/
theorem WF.receive (h : s.WF v C) (env : Env ω) (hv : v.NoneWoken) {msg : Message} {a : Transfer}
    (ha : s.transferOf msg = some a) (hz : (s.receive env msg a.priv).2.Spared strict) :
    ∃ v' C', (s.receive env msg a.priv).2.WF v' C' ∧
      Undisturbed strict (update (update v (.map .queued) ((v (.map .queued)).erase a.priv)) .hand
        (a.priv :: v .hand)) v' s (s.receive env msg a.priv).2 := by
  obtain ⟨hmem, heasy, hrep⟩ := mem_of_transferOf ha
  have hqueued := h.mem_queued_of_transferOf ha
  have herase := (h.reportMessage a.easy).eraseMap hqueued (h.reported hmem hrep)
  have hfollow : (s.reportMessage msg.easy).follow a.priv = s.reportMessage msg.easy :=
    (h.reportMessage msg.easy).located.follow hqueued
  rw [heasy] at herase
  have hnum : (((s.reportMessage msg.easy).eraseMap .queued a.priv).addNum .queued (-1)).WF
      (update (update v (.map .queued) ((v (.map .queued)).erase a.priv)) .hand
        (a.priv :: v .hand)) C := ⟨herase.located, herase.marked⟩
  have hnone := hv.hold (p := .map .queued) (by simp) ((v (.map .queued)).erase a.priv)
    (a.priv :: v .hand)
  have main : ∀ t : Loop ω, (∃ w tr cs, t = ({ ((s.reportMessage msg.easy).eraseMap .queued
      a.priv).addNum .queued (-1) with world := w, trace := tr } : Loop ω).calls env cs) →
      t.Spared strict → ∃ v' C', t.WF v' C' ∧
        Undisturbed strict (update (update v (.map .queued) ((v (.map .queued)).erase a.priv)) .hand
          (a.priv :: v .hand)) v' s t := by
    intro t ht hz
    obtain ⟨v', C', hwf, hund⟩ := hnum.callback hnone ht hz
    exact ⟨v', C', hwf, hund.after rfl rfl⟩
  unfold Loop.receive at hz ⊢
  dsimp only at hz ⊢
  rw [hfollow] at hz ⊢
  split
  · rename_i hok
    rw [if_pos hok] at hz
    exact main _ (callOnComplete_eq env _ _) hz
  · rename_i hok
    rw [if_neg hok] at hz
    exact main _ (callOnFailure_eq env _ _ _ _ _) hz

/-- One round over the messages of the multi handle. -/
theorem AtRest.completedRound (h : s.AtRest strict) (msg : Message)
    (hz : (s.completedRound env msg).Spared strict) :
    (s.completedRound env msg).AtRest strict := by
  obtain ⟨v, C, hwf, hv⟩ := h
  rw [Loop.completedRound] at hz ⊢
  cases ha : s.transferOf msg with
  | none => exact ⟨v, C, hwf, hv⟩
  | some a =>
    rw [ha] at hz
    dsimp only at hz ⊢
    have hqueued := hwf.mem_queued_of_transferOf ha
    have hfit := hwf.located.fits _ _ hqueued
    obtain ⟨v₁, C₁, hwf₁, hund⟩ := hwf.receive env hv.noneWoken ha
      ((evolves_settle (q := False) env _ _ _ _ _).spared hz)
    obtain ⟨hhand, hdet⟩ := hv.erase .queued a.priv
    have hfin : ((s.receive env msg a.priv).2.req a.priv).Finished :=
      Request.Finished.congr ⟨hfit.2.1, hfit.2.2⟩
        (hund.reqs a.priv (hhand ▸ List.mem_singleton_self a.priv))
    obtain ⟨v₂, hwf₂, hput⟩ := hwf₁.settle (hund.hand.trans hhand) hfin hz
    exact ⟨v₂, C₁, hwf₂, hput.slack fun p hk => (hund.detached p hk).trans (hdet p hk)⟩

theorem Resting.completedRound (h : s.Resting) (msg : Message)
    (hz : (s.completedRound env msg).hazards = []) : (s.completedRound env msg).Resting :=
  atRest_true.mp ((atRest_true.mpr h).completedRound msg (.of_nil hz))

/-! ### Injected requests -/

/-- One round over the detached injected list. -/
theorem WF.injectedRound (h : s.WF v C) (hv : v.SlackBut strict .injected)
    (hp : v (.detached .injected) = r :: l) (hz : (s.injectedRound env r).Spared strict) :
    ∃ v' C', (s.injectedRound env r).WF v' C' ∧
      Handled strict .injected r l v v' s (s.injectedRound env r) := by
  have hhand : update (update v (.detached .injected) l) .hand (r :: v .hand) .hand =
      r :: v .hand := Function.update_self ..
  have hnone := (hv.noneWoken (by simp)).hold (p := .detached .injected) (by simp) l (r :: v .hand)
  unfold Loop.injectedRound at hz ⊢
  dsimp only at hz ⊢
  split
  · rename_i hset
    rw [if_pos hset] at hz
    obtain ⟨v₁, C₁, hwf, hund⟩ := (h.takeUp hp).callback hnone (callOnComplete_eq env s r)
      ((evolves_destroy (q := False) _ r).spared hz)
    obtain ⟨v₂, hwf', hput⟩ := hwf.destroy (hund.hand.trans hhand) hz
    exact ⟨v₂, C₁, hwf', .of_putDown h hp (.refl s) hund hput⟩
  · rename_i hset
    rw [if_neg hset] at hz
    obtain ⟨v₂, hwf', hput⟩ := (h.takeUp hp).destroy hhand hz
    exact ⟨v₂, C, hwf', .of_putDown h hp (.refl s) (.refl _ _) hput⟩

theorem AtRest.processInjected (h : s.AtRest strict)
    (hz : (s.processInjected env).Spared strict) : (s.processInjected env).AtRest strict := by
  obtain ⟨v, C, hwf, hv⟩ := h
  have hdet : s.detachInjected.WF
      (update (update v .injected []) (.detached .injected) (v .injected)) C :=
    ⟨hwf.located.detachInjected (hv.detached .injected (.inr (by simp))), hwf.marked⟩
  obtain ⟨v₂, C₂, hwf₂, hrest, hv₂⟩ := hdet.forEachHandled (p := .injected)
    (f := Loop.injectedRound env) (P := fun v _ => v.SlackBut strict .injected) (.inr (by simp))
    (fun r t ht => (evolves_injectedRound env r t).spared ht)
    (fun r l v C t ht hp hv hz => by
      obtain ⟨v', C', hwf', hh⟩ := ht.injectedRound hv hp hz
      exact ⟨v', C', hwf', hh, hh.slackBut hv⟩)
    (a := s.injectedRequests) (by
      rw [Function.update_self]
      exact hwf.located.linked.injected) (hv.detach (by simp) (by simp)) hz
  exact ⟨v₂, C₂, hwf₂, hv₂.slack hrest⟩

/-- The loop over the messages. -/
theorem AtRest.completedRounds (h : s.AtRest strict) {msgs : List Message}
    (hz : (msgs.foldl (fun s m => s.completedRound env m) s).Spared strict) :
    (msgs.foldl (fun s m => s.completedRound env m) s).AtRest strict := by
  induction msgs generalizing s with
  | nil => exact h
  | cons msg msgs ih =>
    have hmono := (evolves_foldl (fun s m => evolves_completedRound env s m) msgs
      (s.completedRound env msg)).spared hz
    exact ih (h.completedRound msg hmono) hz

theorem AtRest.processCompletedRequests (h : s.AtRest strict) {msgs : List Message}
    (hz : (s.processCompletedRequests env msgs).Spared strict) :
    (s.processCompletedRequests env msgs).AtRest strict :=
  (h.completedRounds ((evolves_processInjected env _).spared hz)).processInjected hz

end Loop

end CurlLoop
