import CurlLoop.EventLoop
import CurlLoop.Lib.GuardedRun

/-!
# Runs of an event loop

`curl_event_loop_run`, and everything that can happen to a loop between and around its passes.

## Two views of a run

`Action` lists what a loop is subjected to: calls by its users, the passes, the operations of the
inbox, its destruction. A list of actions is a run in which the passes come in any order and as
often as one likes; what is proved of such runs holds whoever calls the passes.

`Runner` is the loop together with the point `curl_event_loop_run` has reached. Its steps follow the
body of the `while` loop, one pass or one inbox operation at a time, and between any two of them
other threads may call any function that is safe from any thread. What a step of a `Runner` does to
its loop is a list of actions (`Runner.exists_actions`), so that the first view covers the second.

## Main definitions

* `Action`, `Loop.act` — what happens to a loop
* `Pc`, `Runner`, `Runner.step` — `curl_event_loop_run` step by step
* `Loop.idle` — the exit test
-/

namespace CurlLoop

variable {ω : Type}

/-! ### Actions -/

/-- What happens to a loop. -/
inductive Action
  /-- A call on the loop thread outside the passes, or a call of another thread. -/
  | call (c : Call)
  | setOwnerThread
  /-- The exchange at the start of `curl_resource_inbox_drain`. -/
  | takeInbox
  /-- One round of the loop of `curl_resource_inbox_drain`. -/
  | applyOp (op : ResOp)
  | processCancelledAndPendingRequests
  | moveInactiveRequestsToQueue
  | processCompletedRequests (msgs : List Message)
  /-- The time an iteration may sleep is calculated. -/
  | calculateNextTimerExpiry
  | start
  | stop
  | destroy
deriving DecidableEq, Repr

namespace Loop

/-- The exchange at the start of `curl_resource_inbox_drain`. -/
def takeInbox (s : Loop ω) : Loop ω := { s with resInbox := [] }

/-- `loop->keep_running = b`. -/
def setKeepRunning (s : Loop ω) (b : Bool) : Loop ω := { s with keepRunning := b }

/-- One action. -/
def act (env : Env ω) : Action → Loop ω → Loop ω
  | .call c, s => s.call env c
  | .setOwnerThread, s => s.curlResourceSetOwnerThread
  | .takeInbox, s => s.takeInbox
  | .applyOp op, s => s.applyOp env op
  | .processCancelledAndPendingRequests, s => s.processCancelledAndPendingRequests env
  | .moveInactiveRequestsToQueue, s => s.moveInactiveRequestsToQueue env
  | .processCompletedRequests msgs, s => s.processCompletedRequests env msgs
  | .calculateNextTimerExpiry, s => (s.calculateNextTimerExpiry env 200).2
  | .start, s => s.setKeepRunning true
  | .stop, s => s.setKeepRunning false
  | .destroy, s => s.curlEventLoopDestroy env

/-- The exit test of `curl_event_loop_run`. -/
def idle (s : Loop ω) (stillRunning : ℕ) : Bool :=
  stillRunning = 0 ∧ s.pendingRequests = none ∧ (s.maps .queued).head? = none ∧
    (s.maps .refresh).head? = none ∧ (s.maps .inactive).head? = none

end Loop

/-! ### The loop thread -/

/-- Why `curl_event_loop_run` returned. -/
inductive Exit
  /-- Through the exit test. -/
  | idle
  /-- `on_loop` returned `false`. -/
  | onLoop
  /-- `keep_running` was found `false`. -/
  | stopped
deriving DecidableEq, Repr

/-- Where the loop thread stands in `curl_event_loop_run`. -/
inductive Pc
  /-- Not in it; how it was left last. -/
  | outside (last : Option Exit)
  /-- Before `while (loop->keep_running)`. -/
  | whileTest
  | setOwnerThread
  | onLoop
  | processCancelledAndPending
  | moveInactive
  | perform
  | processCompleted (stillRunning : ℕ)
  | drain (stillRunning : ℕ)
  /-- In the loop of `curl_resource_inbox_drain`, with the operations still to be applied. -/
  | apply (stillRunning : ℕ) (ops : List ResOp)
  | exitTest (stillRunning : ℕ)
  | wait
deriving DecidableEq, Repr

/-- What a step of the loop thread learns from outside: the calls `on_loop` makes and the value it
returns, the number of transfers `curl_multi_perform` reports as running, and the messages
`curl_multi_info_read` has to offer. -/
structure Answer where
  onLoopCalls : List Call
  onLoop : Bool
  stillRunning : ℕ
  msgs : List Message

/-- A loop, and where its thread stands. -/
structure Runner (ω : Type) where
  loop : Loop ω
  pc : Pc

/-- What can happen next. -/
inductive Move
  /-- Another thread makes a call. -/
  | api (c : ApiCall)
  /-- `curl_event_loop_stop`, on any thread. -/
  | stop
  /-- The loop thread makes a call outside `curl_event_loop_run`. -/
  | call (c : Call)
  /-- The loop thread calls `curl_event_loop_run`. -/
  | run
  /-- The loop thread goes on in `curl_event_loop_run`. -/
  | step (answer : Answer)

namespace Runner

/-- The next step of the loop thread in `curl_event_loop_run`. -/
def advance (env : Env ω) (s : Runner ω) (a : Answer) : Runner ω :=
  match s.pc with
  | .outside _ => s
  | .whileTest => { s with
      pc := if s.loop.keepRunning then .setOwnerThread else .outside (some .stopped) }
  | .setOwnerThread => ⟨s.loop.curlResourceSetOwnerThread, .onLoop⟩
  | .onLoop => ⟨s.loop.calls env a.onLoopCalls,
      if a.onLoop then .processCancelledAndPending else .outside (some .onLoop)⟩
  | .processCancelledAndPending => ⟨s.loop.processCancelledAndPendingRequests env, .moveInactive⟩
  | .moveInactive => ⟨s.loop.moveInactiveRequestsToQueue env, .perform⟩
  | .perform => { s with
      pc := .processCompleted (if s.loop.num .queued > 0 then a.stillRunning else 0) }
  | .processCompleted n => ⟨s.loop.processCompletedRequests env a.msgs, .drain n⟩
  | .drain n => ⟨s.loop.takeInbox, .apply n s.loop.resInbox.reverse⟩
  | .apply n (op :: ops) => ⟨s.loop.applyOp env op, .apply n ops⟩
  | .apply n [] => { s with pc := .exitTest n }
  | .exitTest n => { s with pc := if s.loop.idle n then .outside (some .idle) else .wait }
  | .wait => ⟨(s.loop.calculateNextTimerExpiry env 200).2, .whileTest⟩

/-- Whether the loop thread is outside `curl_event_loop_run`. -/
def isOutside (s : Runner ω) : Bool :=
  match s.pc with
  | .outside _ => true
  | _ => false

/-- One move. The loop thread calls functions by itself only outside `curl_event_loop_run`. -/
def move (env : Env ω) (m : Move) (s : Runner ω) : Runner ω :=
  match m with
  | .api c => { s with loop := s.loop.apiCall env c }
  | .stop => { s with loop := s.loop.setKeepRunning false }
  | .call c => if s.isOutside then { s with loop := s.loop.call env c } else s
  | .run => if s.isOutside then ⟨s.loop.setKeepRunning true, .whileTest⟩ else s
  | .step a => s.advance env a

/-- A loop just created. -/
def init (mem : Memory) (world : ω) : Runner ω := ⟨curlEventLoopInit mem world, .outside none⟩

/-- The calls of a list are actions. -/
theorem run_calls (env : Env ω) (s : Loop ω) (cs : List Call) :
    Guarded.run (Loop.act env) s (cs.map .call) = s.calls env cs := by
  rw [Guarded.run, List.foldl_map]
  rfl

/-- **The two views.** A move subjects the loop to a list of actions. -/
theorem exists_actions (env : Env ω) (m : Move) (s : Runner ω) :
    ∃ as : List Action, (s.move env m).loop = Guarded.run (Loop.act env) s.loop as := by
  cases m with
  | api c => exact ⟨[.call (.api c)], rfl⟩
  | stop => exact ⟨[.stop], rfl⟩
  | call c =>
    rw [move]
    split
    · exact ⟨[.call c], rfl⟩
    · exact ⟨[], rfl⟩
  | run =>
    rw [move]
    split
    · exact ⟨[.start], rfl⟩
    · exact ⟨[], rfl⟩
  | step a =>
    rw [move, advance]
    cases s.pc with
    | outside last => exact ⟨[], rfl⟩
    | whileTest => exact ⟨[], rfl⟩
    | setOwnerThread => exact ⟨[.setOwnerThread], rfl⟩
    | onLoop => exact ⟨a.onLoopCalls.map .call, (run_calls env s.loop _).symm⟩
    | processCancelledAndPending => exact ⟨[.processCancelledAndPendingRequests], rfl⟩
    | moveInactive => exact ⟨[.moveInactiveRequestsToQueue], rfl⟩
    | perform => exact ⟨[], rfl⟩
    | processCompleted n => exact ⟨[.processCompletedRequests a.msgs], rfl⟩
    | drain n => exact ⟨[.takeInbox], rfl⟩
    | apply n ops =>
      cases ops with
      | nil => exact ⟨[], rfl⟩
      | cons op ops => exact ⟨[.applyOp op], rfl⟩
    | exitTest n => exact ⟨[], rfl⟩
    | wait => exact ⟨[.calculateNextTimerExpiry], rfl⟩

end Runner

end CurlLoop
