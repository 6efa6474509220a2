import CurlLoop.Scheduler

/-!
# Submitting a request again

A request the loop owns is in one of six places. `curl_event_request_submit` looks at two fields:
`is_pending`, which is set by a submission and cleared by the next pass, and `multi_handle`, which
is set while the request is attached. A request that waits for a resource, for its retry time or for
its next run has neither, and a request that a publication put back on the pending list is pending
without the field. `curl_event_loop_submit` looks at nothing.

A request that is taken twice is linked through `next_pending` twice, in the list it is in and in
the pending list, or is both in a map and on the list.

## Main definitions

* `Submission` — a call of one of the two functions
* `Submission.Refused` — the call returns `NULL` or `false` and leaves everything as it was
* `Submission.Noticed` — the call looks at the request, and the two fields tell

## Main results

* `Submission.refused_iff`
* `Loop.Resting.unnoticed` — where the fields never tell
-/

namespace CurlLoop

variable {ω : Type}

/-- A call of a submission function, with its priority. -/
inductive Submission
  /-- `curl_event_request_submit`. -/
  | request (priority : ℤ)
  /-- `curl_event_loop_submit`. -/
  | loop (priority : ℤ)
deriving DecidableEq, Repr

namespace Submission

variable {s : Loop ω} {r : ReqId} {env : Env ω}

/-- The call, and whether the request was taken. `curl_event_loop_submit` returns `false` only where
an argument is `NULL`. -/
def call (c : Submission) (env : Env ω) (s : Loop ω) (r : ReqId) : Bool × Loop ω :=
  match c with
  | .request priority => s.curlEventRequestSubmit env r priority
  | .loop priority => (true, s.curlEventLoopSubmit env r priority)

/-- The request is not taken. It, the pending list, the maps and `total_requests` are as they were,
and the pending list is a finite list without repetitions. -/
structure Refused (c : Submission) (env : Env ω) (s : Loop ω) (r : ReqId) : Prop where
  answer : (c.call env s r).1 = false
  req : (c.call env s r).2.req = s.req
  nextPending : (c.call env s r).2.nextPending = s.nextPending
  pendingRequests : (c.call env s r).2.pendingRequests = s.pendingRequests
  maps : (c.call env s r).2.maps = s.maps
  totalRequests : (c.call env s r).2.metrics.totalRequests = s.metrics.totalRequests
  listed : ∃ l : List ReqId, l.Nodup ∧
    Intrusive.IsChain (c.call env s r).2.nextPending (c.call env s r).2.pendingRequests l

/-- `curl_event_request_submit` is called for a request that has no URL, or whose fields tell that
it is pending or attached. -/
def Noticed (c : Submission) (s : Loop ω) (r : ReqId) : Prop :=
  match c with
  | .request _ => (s.req r).url = none ∨ (s.req r).isPending = true ∨ (s.req r).multiHandle = true
  | .loop _ => False

instance (c : Submission) : Decidable (c.Noticed s r) :=
  match c with
  | .request _ => inferInstanceAs (Decidable (_ ∨ _))
  | .loop _ => inferInstanceAs (Decidable False)

/-- A call that does not notice the request takes it. -/
theorem call_of_not_noticed {c : Submission} (h : ¬ c.Noticed s r) : (c.call env s r).1 = true := by
  cases c with
  | request priority =>
    obtain ⟨hurl, hfields⟩ := not_or.mp h
    rw [call, Loop.curlEventRequestSubmit]
    dsimp only
    rw [if_neg hurl, if_neg hfields]
  | loop priority => rfl

/-- A call that notices the request does nothing. -/
theorem call_of_noticed {c : Submission} (h : c.Noticed s r) : c.call env s r = (false, s) := by
  cases c with
  | request priority =>
    rw [call, Loop.curlEventRequestSubmit]
    dsimp only
    rcases h with hurl | hfields
    · rw [if_pos hurl]
    · rw [if_pos hfields, ite_self]
  | loop priority => exact h.elim

/-- **When a request cannot be submitted again.** In every state reached by a run that met no hazard,
for every live request and every call of either function. -/
theorem refused_iff (env : Env ω) (mem : Memory) (world : ω) (as : List Action) (r : ReqId)
    (c : Submission) :
    let s := Guarded.run (Loop.act env) (curlEventLoopInit mem world) as
    s.hazards = [] → s.Live r → (c.Refused env s r ↔ c.Noticed s r) := by
  intro s hz _
  obtain ⟨v, C, hwf, -⟩ := Loop.resting_run mem world hz
  constructor
  · intro hrefused
    by_contra h
    exact Bool.false_ne_true (hrefused.answer.symm.trans (call_of_not_noticed h))
  · intro h
    have hlist : ∃ l : List ReqId, l.Nodup ∧ Intrusive.IsChain s.nextPending s.pendingRequests l :=
      ⟨v .pending, hwf.located.placed.nodup .pending, hwf.located.linked.pending⟩
    constructor <;> rw [call_of_noticed h]
    exact hlist

end Submission

/-- In a resting loop the fields of a request that waits for a resource, for its retry time or for
its next run tell nothing. -/
theorem Loop.Resting.unnoticed {s : Loop ω} (h : s.Resting) {r : ReqId}
    (hr : (∃ id, r ∈ s.contents (.blocked id)) ∨ r ∈ s.maps .inactive ∨ r ∈ s.maps .refresh)
    (hurl : (s.req r).url ≠ none) (c : Submission) : ¬ c.Noticed s r := by
  obtain ⟨v, C, hwf, -⟩ := h
  have hfields : (s.req r).multiHandle = false ∧ (s.req r).isPending = false := by
    have hmap : ∀ m, m = .inactive ∨ m = .refresh → r ∈ s.maps m →
        (s.req r).multiHandle = false ∧ (s.req r).isPending = false := by
      intro m hm hmem
      rw [hwf.located.maps] at hmem
      have hfit := hwf.located.fits (.map m) r hmem
      have hnamed : Loop.cancelledMap (s.req r) = m ∧ (s.req r).isPending = false := by
        rcases hm with rfl | rfl <;> exact ⟨hfit.1, hfit.2.1⟩
      refine ⟨Bool.eq_false_iff.mpr fun hattached => ?_, hnamed.2⟩
      -- An attached request is in `queued_requests`, by its fields.
      have hqueued : Loop.cancelledMap (s.req r) = .queued := if_pos hattached
      rw [hnamed.1] at hqueued
      rcases hm with rfl | rfl <;> exact nomatch hqueued
    rcases hr with ⟨id, hmem⟩ | hmem | hmem
    · rw [hwf.contents_eq] at hmem
      exact hwf.located.fits (.blocked id) r hmem
    · exact hmap .inactive (.inl rfl) hmem
    · exact hmap .refresh (.inr rfl) hmem
  cases c with
  | request priority =>
    rintro (hnone | hpending | hattached)
    · exact hurl hnone
    · exact Bool.false_ne_true (hfields.2.symm.trans hpending)
    · exact Bool.false_ne_true (hfields.1.symm.trans hattached)
  | loop priority => exact not_false

namespace Submission

/-- An active request is refused by `curl_event_request_submit`. -/
theorem refused_active :
    (Submission.request 0).Refused Env.uneventful
      (Guarded.run (Loop.act Env.uneventful) (curlEventLoopInit (Memory.plain fun _ => []) ())
        [.call (.api (.submit 1 0)), .processCancelledAndPendingRequests]) 1 :=
  (refused_iff Env.uneventful (Memory.plain fun _ => []) ()
    [.call (.api (.submit 1 0)), .processCancelledAndPendingRequests] 1 (.request 0)
    (by decide +kernel) (by decide +kernel)).mpr (by decide +kernel)

/-- Request 1 waits for resource 7 and is taken again by `curl_event_request_submit`. Request 2 is
pending and is taken again by `curl_event_loop_submit`: its link leads to itself. -/
theorem not_refused_blocked_pending :
    let s := Guarded.run (Loop.act Env.uneventful)
      (curlEventLoopInit (Memory.plain fun r => if r = 1 then [7] else []) ())
      [.call (.api (.submit 1 0)), .processCancelledAndPendingRequests, .call (.api (.submit 2 0))]
    s.hazards = [] ∧ s.Live 1 ∧ s.Live 2 ∧ s.contents (.blocked 7) = [1] ∧
      ¬ (Submission.request 0).Refused Env.uneventful s 1 ∧
      ¬ (Submission.loop 0).Refused Env.uneventful s 2 ∧
      ((Submission.loop 0).call Env.uneventful s 2).2.nextPending 2 = some 2 := by
  intro s
  refine ⟨by decide +kernel, by decide +kernel, by decide +kernel, by decide +kernel, fun h => ?_,
    fun h => ?_, by decide +kernel⟩
  · exact absurd h.answer (by decide +kernel)
  · exact absurd h.answer (by decide +kernel)

end Submission

end CurlLoop
