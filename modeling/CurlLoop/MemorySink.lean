import CurlLoop.EventLoop
import CurlLoop.Lib.GuardedRun
import Mathlib.Data.List.Induction

/-!
# Attempts of a request with a memory sink

A request may be tried more than once: it is parked after a `429`, rescheduled because a callback
asks for it, or refreshed. A memory sink collects the body of a response and hands it to its
callback when the attempt ends. This file follows the buffer of one sink through all the attempts of
its request.

The buffer is created by `memory_init`, which the default callbacks call while `sink_initialized` is
unset. Nothing ever unsets it, so the buffer of the first attempt serves all of them: what an attempt
without a completion left in it is handed out with the next body. `memory_failure` frees the buffer,
and no later attempt gets another.

## Conventions

A byte is an element of an arbitrary type. A chunk is what one call of the write callback receives.
`aml_buffer_append` appends, and `aml_buffer_init` does not run out of memory. The effect of a call
on a buffer pointer that is `NULL` is not defined; the model records the call and goes on.

## Main definitions

* `SinkRequest` — a request, the state of its sink, and what happened to it
* `memoryInit`, `memoryWrite`, `memoryFailure`, `memoryComplete`
* `defaultOnWrite`, `defaultOnComplete`, `defaultOnFailure`
* `Attempt`, `SinkRequest.attempt` — one attempt, up to the handling of its result
* `Unmixed`, `Separate` — what a user expects of the attempts, and when it is so

## Main results

* `unmixed_iff_separate`
-/

namespace CurlLoop

/-! ### The sink -/

/-- `aml_buffer_t`. -/
structure Buffer (β : Type) where
  initialSize : ℕ
  data : List β
deriving DecidableEq, Repr

/-- `aml_buffer_append`. -/
def Buffer.append {β : Type} (b : Buffer β) (chunk : List β) : Buffer β :=
  { b with data := b.data ++ chunk }

/-- What happens to a memory sink. -/
inductive SinkEvent (β : Type)
  /-- `aml_buffer_append` was called, and whether there was a buffer. -/
  | write (found : Bool)
  /-- The callback was called. Without a buffer there are no data to hand out. -/
  | callback (data : Option (List β)) (success : Bool) (result : CurlCode) (httpCode : ℤ)
deriving DecidableEq, Repr

/-- A request with a `memory_sink_t`. -/
structure SinkRequest (β : Type) where
  req : Request
  sinkInitialized : Bool
  buffer : Option (Buffer β)
  /-- Newest first. -/
  log : List (SinkEvent β)
deriving DecidableEq, Repr

variable {β : Type}

/-- A request after `memory_sink`. -/
def memorySink (β : Type) (req : Request) : SinkRequest β := ⟨req, false, none, []⟩

namespace SinkRequest

/-- The bytes in the buffer. -/
def data (s : SinkRequest β) : Option (List β) := s.buffer.map Buffer.data

/-- `memory_init`. A buffer the sink still has is destroyed. -/
def memoryInit (s : SinkRequest β) (contentLength : ℤ) : SinkRequest β :=
  { s with buffer := some ⟨if contentLength > 0 then (contentLength + 1).toNat else 1024, []⟩ }

/-- `memory_write`. -/
def memoryWrite (s : SinkRequest β) (chunk : List β) : ℕ × SinkRequest β :=
  (chunk.length, { s with
    buffer := s.buffer.map fun b => b.append chunk
    log := .write s.buffer.isSome :: s.log })

/-- `memory_failure`. -/
def memoryFailure (s : SinkRequest β) (result : CurlCode) (httpCode : ℤ) : SinkRequest β :=
  { s with buffer := none, log := .callback s.data false result httpCode :: s.log }

/-- `memory_complete`. -/
def memoryComplete (s : SinkRequest β) : SinkRequest β :=
  { s with log := .callback s.data true .ok 200 :: s.log }

/-! ### The default callbacks -/

/-- `curl_event_request_content_length`, where libcurl knows the length `known`. -/
def curlEventRequestContentLength (s : SinkRequest β) (known : ℤ) : ℤ × SinkRequest β :=
  if s.req.contentLengthFound then (s.req.contentLength, s)
  else
    let length := if s.req.easyHandle.isSome ∧ known ≥ 0 then known else s.req.contentLength
    (length, { s with req := { s.req with contentLength := length, contentLengthFound := true } })

/-- `if (!req->sink_initialized && sink->init) …`, which opens each of the default callbacks. -/
def initOnce (s : SinkRequest β) (known : ℤ) : SinkRequest β :=
  if s.sinkInitialized then s
  else
    let (length, s) := s.curlEventRequestContentLength known
    { s.memoryInit length with sinkInitialized := true }

/-- `default_on_write`. -/
def defaultOnWrite (s : SinkRequest β) (known : ℤ) (chunk : List β) : ℕ × SinkRequest β :=
  (s.initOnce known).memoryWrite chunk

/-- `default_on_complete`. -/
def defaultOnComplete (s : SinkRequest β) (known : ℤ) : ℤ × SinkRequest β :=
  (0, (s.initOnce known).memoryComplete)

/-- `default_on_failure`. -/
def defaultOnFailure (s : SinkRequest β) (known : ℤ) (result : CurlCode) (httpCode : ℤ) :
    ℤ × SinkRequest β :=
  (0, (s.initOnce known).memoryFailure result httpCode)

end SinkRequest

/-! ### Attempts -/

/-- What `on_failure` points to. -/
inductive FailureCallback
  /-- `default_on_failure`. -/
  | default
  /-- A callback of the user, which returns `ret` and has no way to reach the buffer. -/
  | user (ret : ℤ)
  | null
deriving DecidableEq, Repr

/-- What the outside contributes to an attempt: the content length libcurl knows, the chunks of the
body, the message that ends it, which names the handle it ran on, and the callback for a failure. -/
structure Attempt (β : Type) where
  known : ℤ
  chunks : List (List β)
  message : Message
  onFailure : FailureCallback
deriving DecidableEq, Repr

namespace Attempt

/-- The bytes of the body. -/
def body (a : Attempt β) : List β := a.chunks.flatten

/-- `result == CURLE_OK && http_code == 200`. -/
def Success (a : Attempt β) : Prop := Loop.Message.success a.message = true

instance (a : Attempt β) : Decidable a.Success := inferInstanceAs (Decidable (_ = _))

/-- The attempt ends in `memory_failure`. -/
def Frees (a : Attempt β) : Prop := ¬ a.Success ∧ a.onFailure = .default

instance (a : Attempt β) : Decidable a.Frees := inferInstanceAs (Decidable (_ ∧ _))

end Attempt

namespace SinkRequest

/-- The body arrives. -/
def receiveBody (s : SinkRequest β) (known : ℤ) (chunks : List (List β)) : SinkRequest β :=
  chunks.foldl (fun s chunk => (s.defaultOnWrite known chunk).2) s

/-- The call of `on_complete` or `on_failure` in `process_completed_requests`. -/
def report (s : SinkRequest β) (a : Attempt β) : ℤ × SinkRequest β :=
  if a.Success then s.defaultOnComplete a.known
  else match a.onFailure with
    | .default => s.defaultOnFailure a.known a.message.result a.message.httpCode
    | .user ret => (ret, s)
    | .null => (-1, s)

/-- The request is parked in `rate_limited_requests`. -/
def Limited (s : SinkRequest β) (a : Attempt β) : Prop :=
  a.message.httpCode = 429 ∧ s.req.rateLimit.isSome

instance (s : SinkRequest β) (a : Attempt β) : Decidable (s.Limited a) :=
  inferInstanceAs (Decidable (_ ∧ _))

/-- One attempt: `setup_curl_handle`, the body, the callback, and the clean-up on every path but
that of a `429`. Answers what the callback returned. -/
def attempt (s : SinkRequest β) (a : Attempt β) : ℤ × SinkRequest β :=
  let s := { s with req := s.req.reset.withHandle a.message.easy }
  let (retryIn, s) := (s.receiveBody a.known a.chunks).report a
  (retryIn, if s.Limited a then s else { s with req := s.req.cleaned })

/-- Whether another attempt follows: after a `429`, when the callback asks for it and, where it asks
`on_retry`, that agrees, or because the request is refreshed. -/
def Reattempted (s : SinkRequest β) (a : Attempt β) (onRetry : Bool) : Prop :=
  s.Limited a ∨ (s.attempt a).1 > 0 ∨ ((s.attempt a).1 < 0 ∧ onRetry) ∨ s.req.shouldRefresh

instance (s : SinkRequest β) (a : Attempt β) (onRetry : Bool) :
    Decidable (s.Reattempted a onRetry) := inferInstanceAs (Decidable (_ ∨ _))

/-- The request after a list of attempts. -/
def attempts (s : SinkRequest β) (as : List (Attempt β)) : SinkRequest β :=
  Guarded.run (fun a s => (s.attempt a).2) s as

@[simp] theorem attempts_nil (s : SinkRequest β) : s.attempts [] = s := rfl

@[simp] theorem attempts_cons (s : SinkRequest β) (a : Attempt β) (as : List (Attempt β)) :
    s.attempts (a :: as) = (s.attempt a).2.attempts as := rfl

theorem attempts_concat (s : SinkRequest β) (as : List (Attempt β)) (a : Attempt β) :
    s.attempts (as ++ [a]) = ((s.attempts as).attempt a).2 :=
  Guarded.run_concat s as a

/-! ### The two states of a sink -/

/-- The buffer holds `bytes`. A buffer still to be created holds none. -/
structure Holds (s : SinkRequest β) (bytes : List β) : Prop where
  initialized : s.sinkInitialized = s.buffer.isSome
  data : s.data.getD [] = bytes

/-- The buffer was freed, and no other will be created. -/
structure Freed (s : SinkRequest β) : Prop where
  initialized : s.sinkInitialized = true
  buffer : s.buffer = none

variable {s : SinkRequest β} {a : Attempt β} {as : List (Attempt β)} {bytes : List β} {k : ℤ}

theorem Holds.memorySink (req : Request) : (memorySink β req).Holds [] := ⟨rfl, rfl⟩

theorem Freed.initOnce (h : s.Freed) : s.initOnce k = s := if_pos h.initialized

theorem log_initOnce (s : SinkRequest β) (k : ℤ) : (s.initOnce k).log = s.log := by
  have hlength : (s.curlEventRequestContentLength k).2.log = s.log := by
    rw [curlEventRequestContentLength]
    split <;> rfl
  rw [initOnce]
  split
  · rfl
  · exact hlength

/-- The first call creates the buffer. -/
theorem data_initOnce_of_not (hs : s.sinkInitialized = false) :
    (s.initOnce k).sinkInitialized = true ∧ (s.initOnce k).data = some [] := by
  rw [initOnce, if_neg (by simp [hs])]
  exact ⟨rfl, rfl⟩

/-- There is a buffer once the sink is initialized, and it holds what it held. -/
theorem Holds.initOnce (h : s.Holds bytes) :
    (s.initOnce k).sinkInitialized = true ∧ (s.initOnce k).data = some bytes := by
  cases hs : s.sinkInitialized with
  | true =>
    have heq : s.initOnce k = s := if_pos hs
    obtain ⟨b, hb⟩ := Option.isSome_iff_exists.mp (h.initialized.symm.trans hs)
    have hdata := h.data
    rw [SinkRequest.data, hb] at hdata
    rw [heq, SinkRequest.data, hb]
    exact ⟨hs, congrArg some hdata⟩
  | false =>
    have hb : s.buffer = none := by simpa [hs] using h.initialized
    have hdata : [] = bytes := by simpa [SinkRequest.data, hb] using h.data
    rw [← hdata]
    exact data_initOnce_of_not hs

theorem Holds.of_data (hs : s.sinkInitialized = true) (hdata : s.data = some bytes) :
    s.Holds bytes := by
  obtain ⟨b, hb, hbytes⟩ := Option.map_eq_some_iff.mp hdata
  exact ⟨by rw [hs, hb]; rfl, by rw [hdata]; rfl⟩

/-! ### The body -/

@[simp] theorem receiveBody_nil (s : SinkRequest β) (k : ℤ) : s.receiveBody k [] = s := rfl

@[simp] theorem receiveBody_cons (s : SinkRequest β) (k : ℤ) (chunk : List β)
    (chunks : List (List β)) : s.receiveBody k (chunk :: chunks) =
      (s.defaultOnWrite k chunk).2.receiveBody k chunks := rfl

/-- A chunk is appended to the buffer. -/
theorem Holds.defaultOnWrite (h : s.Holds bytes) (chunk : List β) :
    (s.defaultOnWrite k chunk).2.Holds (bytes ++ chunk) ∧
      (s.defaultOnWrite k chunk).2.log = .write true :: s.log := by
  obtain ⟨hinit, hdata⟩ := h.initOnce (k := k)
  obtain ⟨b, hb, hbytes⟩ := Option.map_eq_some_iff.mp hdata
  constructor
  · refine .of_data hinit ?_
    show ((s.initOnce k).buffer.map fun b => b.append chunk).map Buffer.data = _
    rw [hb, ← hbytes]
    rfl
  · show SinkEvent.write (s.initOnce k).buffer.isSome :: (s.initOnce k).log = _
    rw [hb, log_initOnce]
    rfl

theorem Holds.receiveBody (h : s.Holds bytes) (chunks : List (List β)) :
    (s.receiveBody k chunks).Holds (bytes ++ chunks.flatten) ∧
      (s.receiveBody k chunks).log = List.replicate chunks.length (.write true) ++ s.log := by
  induction chunks generalizing s bytes with
  | nil => exact ⟨by simpa using h, rfl⟩
  | cons chunk chunks ih =>
    obtain ⟨hw, hlog⟩ := h.defaultOnWrite (k := k) chunk
    obtain ⟨hrest, hlog'⟩ := ih hw
    refine ⟨by simpa using hrest, hlog'.trans ?_⟩
    rw [hlog, List.length_cons, List.replicate_succ', List.append_assoc]
    rfl

/-- Without a buffer every chunk is lost. -/
theorem Freed.receiveBody (h : s.Freed) (chunks : List (List β)) :
    (s.receiveBody k chunks).Freed ∧
      (s.receiveBody k chunks).log = List.replicate chunks.length (.write false) ++ s.log := by
  induction chunks generalizing s with
  | nil => exact ⟨h, rfl⟩
  | cons chunk chunks ih =>
    have hw : (s.defaultOnWrite k chunk).2 =
        { s with buffer := none, log := .write false :: s.log } := by
      rw [SinkRequest.defaultOnWrite, h.initOnce, memoryWrite, h.buffer]
      rfl
    obtain ⟨hrest, hlog⟩ := ih (s := (s.defaultOnWrite k chunk).2)
      (hw ▸ ⟨h.initialized, rfl⟩)
    refine ⟨hrest, hlog.trans ?_⟩
    rw [hw, List.length_cons, List.replicate_succ', List.append_assoc]
    rfl

/-! ### One attempt -/

/-- The callback of a successful attempt comes last, and hands out the buffer. -/
theorem head_log_report (s : SinkRequest β) (ha : a.Success) :
    (s.report a).2.log.head? = some (.callback (s.initOnce a.known).data true .ok 200) := by
  rw [report, if_pos ha]
  rfl

/-- Reporting the result writes nothing. -/
theorem write_mem_log_report (s : SinkRequest β) (a : Attempt β) (b : Bool) :
    .write b ∈ (s.report a).2.log ↔ .write b ∈ s.log := by
  have hlog := log_initOnce s a.known
  rw [report]
  split
  · show SinkEvent.write b ∈ SinkEvent.callback .. :: (s.initOnce a.known).log ↔ _
    simp [hlog]
  · cases a.onFailure with
    | default =>
      show SinkEvent.write b ∈ SinkEvent.callback .. :: (s.initOnce a.known).log ↔ _
      simp [hlog]
    | user ret => exact Iff.rfl
    | null => exact Iff.rfl

theorem Holds.report (h : s.Holds bytes) (ha : ¬ a.Frees) : (s.report a).2.Holds bytes := by
  rw [SinkRequest.report]
  split
  · obtain ⟨hinit, hdata⟩ := h.initOnce (k := a.known)
    exact .of_data hinit hdata
  · rename_i hs
    cases hf : a.onFailure with
    | default => exact absurd ⟨hs, hf⟩ ha
    | user ret => exact h
    | null => exact h

theorem Holds.report_frees (h : s.Holds bytes) (ha : a.Frees) : (s.report a).2.Freed := by
  rw [SinkRequest.report, if_neg ha.1, ha.2]
  exact ⟨(h.initOnce (k := a.known)).1, rfl⟩

theorem Freed.report (h : s.Freed) : (s.report a).2.Freed := by
  rw [SinkRequest.report]
  split
  · rw [SinkRequest.defaultOnComplete, h.initOnce]
    exact ⟨h.initialized, h.buffer⟩
  · cases a.onFailure with
    | default =>
      rw [SinkRequest.defaultOnFailure, h.initOnce]
      exact ⟨h.initialized, rfl⟩
    | user ret => exact h
    | null => exact h

/-- An attempt is its body and its report; the rest of it does not touch the sink. -/
theorem attempt_eq (s : SinkRequest β) (a : Attempt β) :
    ∃ q q', (s.attempt a).2 =
      { ((({ s with req := q } : SinkRequest β).receiveBody a.known a.chunks).report a).2 with
        req := q' } := by
  refine ⟨s.req.reset.withHandle a.message.easy, ?_⟩
  rw [attempt]
  dsimp only
  split
  · exact ⟨_, rfl⟩
  · exact ⟨_, rfl⟩

theorem Holds.attempt (h : s.Holds bytes) (ha : ¬ a.Frees) :
    (s.attempt a).2.Holds (bytes ++ a.body) := by
  obtain ⟨q, q', heq⟩ := attempt_eq s a
  have hq : ({ s with req := q } : SinkRequest β).Holds bytes := ⟨h.initialized, h.data⟩
  have hend := (hq.receiveBody (k := a.known) a.chunks).1.report ha
  rw [heq]
  exact ⟨hend.initialized, hend.data⟩

theorem Holds.attempt_frees (h : s.Holds bytes) (ha : a.Frees) : (s.attempt a).2.Freed := by
  obtain ⟨q, q', heq⟩ := attempt_eq s a
  have hq : ({ s with req := q } : SinkRequest β).Holds bytes := ⟨h.initialized, h.data⟩
  have hend := (hq.receiveBody (k := a.known) a.chunks).1.report_frees ha
  rw [heq]
  exact ⟨hend.initialized, hend.buffer⟩

theorem Freed.attempt (h : s.Freed) : (s.attempt a).2.Freed := by
  obtain ⟨q, q', heq⟩ := attempt_eq s a
  have hq : ({ s with req := q } : SinkRequest β).Freed := ⟨h.initialized, h.buffer⟩
  have hend := (hq.receiveBody (k := a.known) a.chunks).1.report (a := a)
  rw [heq]
  exact ⟨hend.initialized, hend.buffer⟩

/-- Of a buffer that is there, an attempt that succeeds hands out all it holds. -/
theorem Holds.head_log_attempt (h : s.Holds bytes) (ha : a.Success) :
    (s.attempt a).2.log.head? = some (.callback (some (bytes ++ a.body)) true .ok 200) := by
  obtain ⟨q, q', heq⟩ := attempt_eq s a
  have hq : ({ s with req := q } : SinkRequest β).Holds bytes := ⟨h.initialized, h.data⟩
  have hbody := (hq.receiveBody (k := a.known) a.chunks).1
  rw [heq]
  refine (head_log_report _ ha).trans ?_
  rw [(hbody.initOnce (k := a.known)).2]
  rfl

theorem Freed.head_log_attempt (h : s.Freed) (ha : a.Success) :
    (s.attempt a).2.log.head? = some (.callback none true .ok 200) := by
  obtain ⟨q, q', heq⟩ := attempt_eq s a
  have hq : ({ s with req := q } : SinkRequest β).Freed := ⟨h.initialized, h.buffer⟩
  have hbody := (hq.receiveBody (k := a.known) a.chunks).1
  rw [heq]
  refine (head_log_report _ ha).trans ?_
  rw [hbody.initOnce, SinkRequest.data, hbody.buffer]
  rfl

/-- No chunk is lost while there is a buffer to append it to. -/
theorem Holds.lost_iff (h : s.Holds bytes) (a : Attempt β) :
    .write false ∈ (s.attempt a).2.log ↔ .write false ∈ s.log := by
  obtain ⟨q, q', heq⟩ := attempt_eq s a
  have hq : ({ s with req := q } : SinkRequest β).Holds bytes := ⟨h.initialized, h.data⟩
  rw [heq]
  refine (write_mem_log_report _ a false).trans ?_
  rw [(hq.receiveBody (k := a.known) a.chunks).2]
  simp

/-- After the buffer was freed every chunk is lost. -/
theorem Freed.lost_iff (h : s.Freed) (a : Attempt β) :
    .write false ∈ (s.attempt a).2.log ↔ .write false ∈ s.log ∨ a.chunks ≠ [] := by
  obtain ⟨q, q', heq⟩ := attempt_eq s a
  have hq : ({ s with req := q } : SinkRequest β).Freed := ⟨h.initialized, h.buffer⟩
  rw [heq]
  refine (write_mem_log_report _ a false).trans ?_
  rw [(hq.receiveBody (k := a.known) a.chunks).2, List.mem_append, List.mem_replicate]
  simp [or_comm]

/-! ### All attempts -/

/-- Until an attempt frees it, the buffer collects the bodies of all attempts. -/
theorem Holds.attempts (h : s.Holds bytes) (has : ∀ b ∈ as, ¬ b.Frees) :
    (s.attempts as).Holds (bytes ++ as.flatMap Attempt.body) := by
  induction as generalizing s bytes with
  | nil => simpa using h
  | cons a as ih =>
    have hrest := ih (h.attempt (has a List.mem_cons_self)) fun b hb =>
      has b (List.mem_cons_of_mem a hb)
    simpa using hrest

theorem Freed.attempts (h : s.Freed) (as : List (Attempt β)) : (s.attempts as).Freed := by
  induction as generalizing s with
  | nil => exact h
  | cons a as ih => exact ih h.attempt

/-- After the first attempt that frees the buffer there is none. -/
theorem Holds.attempts_frees (h : s.Holds bytes) (has : ∃ b ∈ as, b.Frees) :
    (s.attempts as).Freed := by
  induction as generalizing s bytes with
  | nil => simp at has
  | cons a as ih =>
    by_cases ha : a.Frees
    · exact (h.attempt_frees ha).attempts as
    · refine ih (h.attempt ha) ?_
      simpa [ha] using has

/-- Which attempts lose a chunk. -/
theorem Holds.lost_attempts_iff (h : s.Holds bytes) (hlog : .write false ∉ s.log)
    (as : List (Attempt β)) :
    .write false ∈ (s.attempts as).log ↔
      ∃ pre a, pre ++ [a] <+: as ∧ (∃ b ∈ pre, b.Frees) ∧ a.chunks ≠ [] := by
  induction as using List.reverseRecOn with
  | nil => simpa using hlog
  | append_singleton as a ih =>
    have hlast : .write false ∈ (s.attempts (as ++ [a])).log ↔
        .write false ∈ (s.attempts as).log ∨ (∃ b ∈ as, b.Frees) ∧ a.chunks ≠ [] := by
      rw [attempts_concat]
      by_cases has : ∃ b ∈ as, b.Frees
      · simpa [has] using (h.attempts_frees has).lost_iff a
      · have hfree : ∀ b ∈ as, ¬ b.Frees := fun b hb hf => has ⟨b, hb, hf⟩
        simpa [has] using (h.attempts hfree).lost_iff a
    rw [hlast, ih]
    constructor
    · rintro (⟨pre, b, hpre, hb⟩ | ha)
      · exact ⟨pre, b, hpre.trans (List.prefix_append ..), hb⟩
      · exact ⟨as, a, List.prefix_rfl, ha⟩
    · rintro ⟨pre, b, hpre, hb⟩
      rcases List.prefix_concat_iff.mp hpre with heq | hpre
      · obtain ⟨rfl, hba⟩ := List.append_inj' heq rfl
        obtain rfl : b = a := by simpa using hba
        exact .inr hb
      · exact .inl ⟨pre, b, hpre, hb⟩

/-- What a user expects of the attempts of a request: every write finds a buffer, and the callback of
a successful attempt receives the body of that attempt. -/
structure Unmixed (s : SinkRequest β) (as : List (Attempt β)) : Prop where
  writes : .write false ∉ (s.attempts as).log
  bodies : ∀ pre a, pre ++ [a] <+: as → a.Success →
    (s.attempts (pre ++ [a])).log.head? = some (.callback (some a.body) true .ok 200)

end SinkRequest

/-- No attempt writes or succeeds once the buffer was freed, and nothing arrives before an attempt
that succeeds. -/
def Separate (as : List (Attempt β)) : Prop :=
  ∀ pre a, pre ++ [a] <+: as →
    ((∃ b ∈ pre, b.Frees) → a.chunks = [] ∧ ¬ a.Success) ∧
    (a.Success → ∀ b ∈ pre, b.body = [])

namespace SinkRequest

/-- **When attempts do not mix.** -/
theorem unmixed_iff_separate (req : Request) (as : List (Attempt β)) :
    (memorySink β req).Unmixed as ↔ Separate as := by
  have h : (memorySink β req).Holds [] := .memorySink req
  have hlost := h.lost_attempts_iff (by simp [memorySink]) as
  constructor
  · intro hun pre a hpre
    refine ⟨fun hfreed => ⟨?_, fun ha => ?_⟩, fun ha b hb => ?_⟩
    · by_contra hne
      exact hun.writes (hlost.mpr ⟨pre, a, hpre, hfreed, hne⟩)
    · have hbody := hun.bodies pre a hpre ha
      rw [attempts_concat, (h.attempts_frees hfreed).head_log_attempt ha] at hbody
      simp at hbody
    · have hbody := hun.bodies pre a hpre ha
      rw [attempts_concat] at hbody
      by_cases hfreed : ∃ b ∈ pre, b.Frees
      · rw [(h.attempts_frees hfreed).head_log_attempt ha] at hbody
        simp at hbody
      · have hfree : ∀ b ∈ pre, ¬ b.Frees := fun b hb hf => hfreed ⟨b, hb, hf⟩
        rw [(h.attempts hfree).head_log_attempt ha] at hbody
        have hnil : pre.flatMap Attempt.body = [] := by simpa using hbody
        exact List.flatMap_eq_nil_iff.mp hnil b hb
  · intro hsep
    refine ⟨fun hw => ?_, fun pre a hpre ha => ?_⟩
    · obtain ⟨pre, a, hpre, hfreed, hne⟩ := hlost.mp hw
      exact hne ((hsep pre a hpre).1 hfreed).1
    · obtain ⟨hafter, hbefore⟩ := hsep pre a hpre
      have hfree : ∀ b ∈ pre, ¬ b.Frees := fun b hb hf => (hafter ⟨b, hb, hf⟩).2 ha
      rw [attempts_concat, (h.attempts hfree).head_log_attempt ha,
        List.flatMap_eq_nil_iff.mpr (hbefore ha)]
      rfl

/-- A request with a rate limit and the default callbacks is answered `429`, with a body, and then
succeeds. The body of the second answer finds no buffer. -/
theorem not_unmixed_after_429 :
    let req := { Request.init with url := some "u", rateLimit := some "k" }
    let first : Attempt ℕ := ⟨-1, [[1]], ⟨0, .ok, 429⟩, .default⟩
    let second : Attempt ℕ := ⟨-1, [[2]], ⟨1, .ok, 200⟩, .default⟩
    (memorySink ℕ req).Reattempted first false ∧ ¬ (memorySink ℕ req).Unmixed [first, second] := by
  intro req first second
  refine ⟨by decide, fun h => h.writes ?_⟩
  decide

-- a retry the user's callback asks for: both bodies are handed out as one
example : ((memorySink ℕ Request.init).attempts [⟨-1, [[1]], ⟨0, .ok, 500⟩, .user 5⟩,
    ⟨-1, [[2]], ⟨1, .ok, 200⟩, .default⟩]).log.head? =
      some (.callback (some [1, 2]) true .ok 200) := by decide

end SinkRequest

end CurlLoop
