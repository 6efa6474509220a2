import CurlLoop.MemorySink

/-!
# The initialization of a sink

The default callbacks hand a response to a sink. Whichever of them is called first calls the `init`
of the sink, which may fail, sets `sink_initialized`, and goes on as if it had not failed. Nothing
unsets the flag. So a sink may be written to that could not be initialized, and at every attempt but
one it is written to without being initialized for that attempt.

Here a sink is any `curl_sink_interface_t`, with functions that may be `NULL`, and the callbacks of
an attempt come in any order and number. What is expected of them is a condition on the calls that
reach the sink, read off the log of each attempt: `Respects`. It turns out to be a condition on the
callbacks: `Sink.UsedOnce`.

The log of an attempt has one of three shapes. Its first entry says that `init` succeeded, or that
it failed, or there is no entry of this kind at all; and in each case the entries that follow are
those of the callbacks themselves (`Entries`), none of which is a call of `init`.

## Main definitions

* `Sink`, `SinkClient` — a sink, and a request that uses one
* `SinkClient.defaultOnWrite`, `SinkClient.defaultOnComplete`, `SinkClient.defaultOnFailure`
* `SinkAttempt`, `SinkClient.logs` — the calls of each attempt
* `Respects` — what a user expects of a log
* `Sink.UsedOnce` — the callbacks make do with one initialization
* `fileSink`, `memorySinkInterface` — the sinks of the library

## Main results

* `respects_iff_usedOnce`
* `defaultOnWrite_memorySink` — a request with a memory sink is an instance
-/

namespace CurlLoop

/-! ### Sinks -/

/-- `curl_sink_interface_t`, with what the sink keeps in a state of its own. A function that is
`NULL` is `none`. -/
structure Sink (σ : Type) where
  init : Option (ℤ → σ → Bool × σ)
  write : Option (ℕ → ℕ → List UInt8 → σ → ℕ × σ)
  failure : Option (CurlCode → ℤ → σ → σ)
  complete : Option (σ → σ)

/-- What happens between a request and its sink. -/
inductive SinkCall
  | init (ok : Bool)
  | write
  | failure
  | complete
  /-- The write callback answered `n`, for a chunk of `total` bytes. -/
  | answered (n total : ℕ)
deriving DecidableEq, Repr

/-- A request that may have a sink. -/
structure SinkClient (σ : Type) where
  req : Request
  sinkData : Option (Sink σ)
  sinkInitialized : Bool
  user : σ
  /-- Oldest first. -/
  log : List SinkCall

variable {σ : Type}

/-- A request after `curl_event_request_sink`. -/
def curlEventRequestSink (q : Request) (sink : Sink σ) (user : σ) : SinkClient σ :=
  ⟨q, some sink, false, user, []⟩

/-- `curl_event_request_content_length`, where libcurl knows the length `known`. -/
def Request.knownContentLength (q : Request) (known : ℤ) : ℤ × Request :=
  if q.contentLengthFound then (q.contentLength, q)
  else
    let length := if q.easyHandle.isSome ∧ known ≥ 0 then known else q.contentLength
    (length, { q with contentLength := length, contentLengthFound := true })

namespace SinkClient

def logCall (s : SinkClient σ) (call : SinkCall) : SinkClient σ := { s with log := s.log ++ [call] }

/-- `if (!req->sink_initialized && sink->init) …`, which opens each of the default callbacks. -/
def initSink (s : SinkClient σ) (sink : Sink σ) (known : ℤ) : SinkClient σ :=
  match sink.init with
  | none => s
  | some init =>
    if s.sinkInitialized then s
    else
      let (length, q) := s.req.knownContentLength known
      let (ok, user) := init length s.user
      { s with req := q, user := user, sinkInitialized := true }.logCall (.init ok)

/-- `default_on_write`. -/
def defaultOnWrite (s : SinkClient σ) (known : ℤ) (size nmemb : ℕ) (bytes : List UInt8) :
    ℕ × SinkClient σ :=
  match s.sinkData with
  | none => (size * nmemb, s)
  | some sink =>
    let s := s.initSink sink known
    match sink.write with
    | none => (size * nmemb, s)
    | some write =>
      let (n, user) := write size nmemb bytes s.user
      (n, { s with user := user }.logCall .write)

/-- `default_on_complete`. -/
def defaultOnComplete (s : SinkClient σ) (known : ℤ) : ℤ × SinkClient σ :=
  match s.sinkData with
  | none => (0, s)
  | some sink =>
    let s := s.initSink sink known
    match sink.complete with
    | none => (0, s)
    | some complete => (0, { s with user := complete s.user }.logCall .complete)

/-- `default_on_failure`. -/
def defaultOnFailure (s : SinkClient σ) (known : ℤ) (result : CurlCode) (httpCode : ℤ) :
    ℤ × SinkClient σ :=
  match s.sinkData with
  | none => (0, s)
  | some sink =>
    let s := s.initSink sink known
    match sink.failure with
    | none => (0, s)
    | some failure => (0, { s with user := failure result httpCode s.user }.logCall .failure)

end SinkClient

/-! ### Attempts -/

/-- A call of one of the default callbacks, with the length libcurl knows. -/
inductive Callback
  | write (known : ℤ) (size nmemb : ℕ) (bytes : List UInt8)
  | complete (known : ℤ)
  | failure (known : ℤ) (result : CurlCode) (httpCode : ℤ)
deriving DecidableEq, Repr

namespace Callback

def known : Callback → ℤ
  | write known _ _ _ | complete known | failure known _ _ => known

/-- It is the write callback. -/
def IsWrite : Callback → Prop
  | write .. => True
  | complete _ | failure .. => False

/-- It reaches `write` or `complete` of a sink. -/
def Uses (sink : Sink σ) : Callback → Prop
  | write .. => sink.write.isSome
  | complete _ => sink.complete.isSome
  | failure .. => False

end Callback

/-- One attempt: the easy handle it is made with, and the callbacks. -/
structure SinkAttempt where
  easy : EasyId
  callbacks : List Callback
deriving DecidableEq, Repr

namespace SinkClient

def step (s : SinkClient σ) : Callback → SinkClient σ
  | .write known size nmemb bytes =>
    let (n, s) := s.defaultOnWrite known size nmemb bytes
    s.logCall (.answered n (size * nmemb))
  | .complete known => (s.defaultOnComplete known).2
  | .failure known result httpCode => (s.defaultOnFailure known result httpCode).2

/-- The resets of `setup_curl_handle`. The log of an attempt begins here. -/
def begin (s : SinkClient σ) (easy : EasyId) : SinkClient σ :=
  { s with req := s.req.reset.withHandle easy, log := [] }

def attempt (s : SinkClient σ) (a : SinkAttempt) : SinkClient σ :=
  a.callbacks.foldl step (s.begin a.easy)

/-- The logs of a list of attempts. -/
def logs (s : SinkClient σ) : List SinkAttempt → List (List SinkCall)
  | [] => []
  | a :: as => (s.attempt a).log :: (s.attempt a).logs as

end SinkClient

/-- What is expected of the calls of one attempt. The sink is written to and completed only after an
`init` that succeeded, and after one that failed the write callback answers short. -/
def Respects (log : List SinkCall) : Prop :=
  ∀ before call after, log = before ++ call :: after →
    (call = .write ∨ call = .complete → .init true ∈ before) ∧
      ∀ n total, call = .answered n total → .init false ∈ before → n < total

/-- What the first callback of an attempt makes of `init`, if there is one. -/
def Sink.firstInit (sink : Sink σ) (q : Request) (user : σ) (a : SinkAttempt) : Option Bool :=
  match sink.init, a.callbacks with
  | some init, c :: _ =>
    some (init ((q.reset.withHandle a.easy).knownContentLength c.known).1 user).1
  | _, _ => none

/-- The callbacks make do with one initialization. Only the first attempt that has any uses the
sink, and it does so only if `init` succeeds; and if `init` fails nothing is to be written. -/
def Sink.UsedOnce (sink : Sink σ) (q : Request) (user : σ) (as : List SinkAttempt) : Prop :=
  match as.dropWhile (·.callbacks.isEmpty) with
  | [] => True
  | a :: later =>
    (∀ b ∈ later, ∀ c ∈ b.callbacks, ¬ c.Uses sink) ∧
      (sink.firstInit q user a = some true ∨
        (∀ c ∈ a.callbacks, ¬ c.Uses sink) ∧
          (sink.firstInit q user a = some false → ∀ c ∈ a.callbacks, ¬ c.IsWrite))

/-! ### The log of an attempt -/

/-- The entries callbacks leave when `init` is not called. -/
structure Entries (sink : Sink σ) (cs : List Callback) (es : List SinkCall) : Prop where
  noInit : ∀ ok, .init ok ∉ es
  uses : (.write ∈ es ∨ .complete ∈ es) ↔ ∃ c ∈ cs, c.Uses sink
  answered : (∃ n total, .answered n total ∈ es) ↔ ∃ c ∈ cs, c.IsWrite
  /-- Without a function to write with, nothing is written and all is answered. -/
  full : sink.write = none → ∀ n total, .answered n total ∈ es → n = total

section Entries

variable {sink : Sink σ} {cs ds : List Callback} {es fs : List SinkCall}

theorem Entries.nil : Entries sink [] [] := ⟨by simp, by simp, by simp, by simp⟩

theorem Entries.append (h : Entries sink cs es) (h' : Entries sink ds fs) :
    Entries sink (cs ++ ds) (es ++ fs) where
  noInit ok := by
    rw [List.mem_append, not_or]
    exact ⟨h.noInit ok, h'.noInit ok⟩
  uses := by
    simp only [List.mem_append, or_and_right, exists_or, ← h.uses, ← h'.uses]
    exact or_or_or_comm
  answered := by
    simp only [List.mem_append, or_and_right, exists_or, ← h.answered, ← h'.answered]
  full hw n total hmem := by
    rcases List.mem_append.mp hmem with hmem | hmem
    · exact h.full hw n total hmem
    · exact h'.full hw n total hmem

/-- Without a call of `init`, the sink must not be used. -/
theorem Entries.respects_iff (h : Entries sink cs es) :
    Respects es ↔ ∀ c ∈ cs, ¬ c.Uses sink := by
  constructor
  · intro hr c hc huses
    have hmem := h.uses.mpr ⟨c, hc, huses⟩
    obtain ⟨call, hcall, hmem⟩ : ∃ call, (call = .write ∨ call = .complete) ∧ call ∈ es := by
      rcases hmem with hmem | hmem
      · exact ⟨_, .inl rfl, hmem⟩
      · exact ⟨_, .inr rfl, hmem⟩
    obtain ⟨before, after, rfl⟩ := List.append_of_mem hmem
    exact h.noInit true (List.mem_append_left _ ((hr before call after rfl).1 hcall))
  · rintro hnot before call after rfl
    refine ⟨fun hcall => ?_, fun n total _ hfalse => ?_⟩
    · have huses : ∃ c ∈ cs, c.Uses sink := h.uses.mp (by rcases hcall with rfl | rfl <;> simp)
      obtain ⟨c, hc, huses⟩ := huses
      exact absurd huses (hnot c hc)
    · exact absurd (List.mem_append_left _ hfalse) (h.noInit false)

/-- After an `init` that succeeded, anything goes. -/
theorem Entries.respects_init_true (h : Entries sink cs es) : Respects (.init true :: es) := by
  intro before call after heq
  cases before with
  | nil =>
    obtain ⟨rfl, -⟩ := List.cons_eq_cons.mp heq
    exact ⟨by simp, by simp⟩
  | cons first before =>
    obtain ⟨rfl, rfl⟩ := List.cons_eq_cons.mp heq
    refine ⟨fun _ => List.mem_cons_self, fun n total _ hfalse => ?_⟩
    rcases List.mem_cons.mp hfalse with hfalse | hfalse
    · cases hfalse
    · exact absurd (List.mem_append_left _ hfalse) (h.noInit false)

/-- After an `init` that failed, the sink must not be used, and nothing may be written: a callback
that has no function to write with does not answer short. -/
theorem Entries.respects_init_false (h : Entries sink cs es) :
    Respects (.init false :: es) ↔
      (∀ c ∈ cs, ¬ c.Uses sink) ∧ ∀ c ∈ cs, ¬ c.IsWrite := by
  constructor
  · intro hr
    have hes : Respects es := by
      rintro before call after rfl
      obtain ⟨hinit, hshort⟩ := hr (.init false :: before) call after rfl
      refine ⟨fun hcall => ?_, fun n total hcall _ => hshort n total hcall List.mem_cons_self⟩
      exact (List.mem_cons.mp (hinit hcall)).resolve_left (by simp)
    have hnot := h.respects_iff.mp hes
    refine ⟨hnot, fun c hc hwrite => ?_⟩
    obtain ⟨n, total, hmem⟩ := h.answered.mpr ⟨c, hc, hwrite⟩
    have hnone : sink.write = none := by
      cases c with
      | write known size nmemb bytes => simpa [Callback.Uses] using hnot _ hc
      | complete _ => exact absurd hwrite id
      | failure _ _ _ => exact absurd hwrite id
    obtain ⟨before, after, rfl⟩ := List.append_of_mem hmem
    have hlt := (hr (.init false :: before) _ after rfl).2 n total rfl List.mem_cons_self
    exact hlt.ne (h.full hnone n total hmem)
  · rintro ⟨hnot, hwrite⟩ before call after heq
    cases before with
    | nil =>
      obtain ⟨rfl, -⟩ := List.cons_eq_cons.mp heq
      exact ⟨by simp, by simp⟩
    | cons first before =>
      obtain ⟨rfl, rfl⟩ := List.cons_eq_cons.mp heq
      refine ⟨fun hcall => ?_, fun n total hcall _ => ?_⟩
      · exact List.mem_cons_of_mem _ ((h.respects_iff.mpr hnot before call after rfl).1 hcall)
      · subst hcall
        obtain ⟨c, hc, hw⟩ := h.answered.mp ⟨n, total, by simp⟩
        exact absurd hw (hwrite c hc)

end Entries

namespace SinkClient

section Log

variable {s : SinkClient σ} {sink : Sink σ} {q : Request} {user : σ} {a : SinkAttempt}
  {as : List SinkAttempt}

/-- `init` will not be called any more. -/
structure Settled (s : SinkClient σ) (sink : Sink σ) : Prop where
  sinkData : s.sinkData = some sink
  done : sink.init = none ∨ s.sinkInitialized = true

theorem Settled.initSink (h : s.Settled sink) (known : ℤ) : s.initSink sink known = s := by
  rw [SinkClient.initSink]
  rcases h.done with hnone | hdone
  · rw [hnone]
  · cases sink.init with
    | none => rfl
    | some init => exact if_pos hdone

/-- One callback of a sink that is settled. -/
theorem Settled.step (h : s.Settled sink) (c : Callback) :
    (s.step c).Settled sink ∧ ∃ es, Entries sink [c] es ∧ (s.step c).log = s.log ++ es := by
  cases c with
  | write known size nmemb bytes =>
    simp only [SinkClient.step, defaultOnWrite, h.sinkData, h.initSink]
    cases hw : sink.write with
    | none =>
      refine ⟨⟨h.sinkData, h.done⟩, [.answered (size * nmemb) (size * nmemb)], ?_, rfl⟩
      constructor <;> simp [Callback.Uses, Callback.IsWrite, hw]
    | some write =>
      refine ⟨⟨rfl, h.done⟩,
        [.write, .answered (write size nmemb bytes s.user).1 (size * nmemb)], ?_,
        List.append_assoc ..⟩
      constructor <;> simp [Callback.Uses, Callback.IsWrite, hw]
  | complete known =>
    simp only [SinkClient.step, defaultOnComplete, h.sinkData, h.initSink]
    cases hc : sink.complete with
    | none =>
      refine ⟨h, [], ?_, (List.append_nil _).symm⟩
      constructor <;> simp [Callback.Uses, Callback.IsWrite, hc]
    | some complete =>
      refine ⟨⟨rfl, h.done⟩, [.complete], ?_, rfl⟩
      constructor <;> simp [Callback.Uses, Callback.IsWrite, hc]
  | failure known result httpCode =>
    simp only [SinkClient.step, defaultOnFailure, h.sinkData, h.initSink]
    cases sink.failure with
    | none =>
      refine ⟨h, [], ?_, (List.append_nil _).symm⟩
      constructor <;> simp [Callback.Uses, Callback.IsWrite]
    | some failure =>
      refine ⟨⟨rfl, h.done⟩, [.failure], ?_, rfl⟩
      constructor <;> simp [Callback.Uses, Callback.IsWrite]

/-- The callbacks of a sink that is settled. -/
theorem Settled.foldl (h : s.Settled sink) (cs : List Callback) :
    (cs.foldl SinkClient.step s).Settled sink ∧
      ∃ es, Entries sink cs es ∧ (cs.foldl SinkClient.step s).log = s.log ++ es := by
  induction cs generalizing s with
  | nil => exact ⟨h, [], .nil, (List.append_nil _).symm⟩
  | cons c cs ih =>
    obtain ⟨hstep, es, hes, hlog⟩ := h.step c
    obtain ⟨hrest, fs, hfs, hlog'⟩ := ih hstep
    refine ⟨hrest, es ++ fs, hes.append hfs, ?_⟩
    rw [List.foldl_cons, hlog', hlog, List.append_assoc]

theorem Settled.attempt (h : s.Settled sink) (a : SinkAttempt) :
    (s.attempt a).Settled sink ∧ Entries sink a.callbacks (s.attempt a).log := by
  have hbegin : (s.begin a.easy).Settled sink := ⟨h.sinkData, h.done⟩
  obtain ⟨hsettled, es, hes, hlog⟩ := hbegin.foldl a.callbacks
  refine ⟨hsettled, ?_⟩
  rw [SinkClient.attempt, hlog]
  exact hes

/-- Every attempt of a sink that is settled must leave it alone. -/
theorem Settled.respects_logs_iff (h : s.Settled sink) (as : List SinkAttempt) :
    (∀ log ∈ s.logs as, Respects log) ↔ ∀ a ∈ as, ∀ c ∈ a.callbacks, ¬ c.Uses sink := by
  induction as generalizing s with
  | nil => simp [logs]
  | cons a as ih =>
    obtain ⟨hsettled, hes⟩ := h.attempt a
    rw [logs, List.forall_mem_cons, List.forall_mem_cons, hes.respects_iff, ih hsettled]

/-- No callback has been called yet. -/
structure Fresh (s : SinkClient σ) (sink : Sink σ) (q : Request) (user : σ) : Prop where
  sinkData : s.sinkData = some sink
  initialized : s.sinkInitialized = false
  user : s.user = user
  reset : s.req.reset = q.reset

theorem Fresh.initSink (h : s.Fresh sink q user) {init : ℤ → σ → Bool × σ}
    (hinit : sink.init = some init) (known : ℤ) :
    (s.initSink sink known).Settled sink ∧ (s.initSink sink known).log =
      s.log ++ [.init (init (s.req.knownContentLength known).1 s.user).1] := by
  simp only [SinkClient.initSink, hinit, h.initialized, Bool.false_eq_true, if_false, logCall]
  exact ⟨⟨h.sinkData, .inr rfl⟩, trivial⟩

/-- The first callback calls `init`, and then does what it would do later. -/
theorem Fresh.step (h : s.Fresh sink q user) {init : ℤ → σ → Bool × σ} (hinit : sink.init = some init)
    (c : Callback) : s.step c = (s.initSink sink c.known).step c := by
  have hdata : ∀ known, (s.initSink sink known).sinkData = some sink := fun known =>
    (h.initSink hinit known).1.sinkData
  have hsame : ∀ known, (s.initSink sink known).initSink sink known = s.initSink sink known :=
    fun known => (h.initSink hinit known).1.initSink known
  cases c <;>
    simp only [SinkClient.step, defaultOnWrite, defaultOnComplete, defaultOnFailure, h.sinkData,
      hdata, Callback.known, hsame]

/-- An attempt without callbacks. -/
theorem Fresh.attempt_nil (h : s.Fresh sink q user) (ha : a.callbacks = []) :
    (s.attempt a).Fresh sink q user ∧ (s.attempt a).log = [] := by
  rw [SinkClient.attempt, ha, List.foldl_nil]
  exact ⟨⟨h.sinkData, h.initialized, h.user, h.reset⟩, rfl⟩

/-- The first attempt with callbacks, of a sink with an `init`. -/
theorem Fresh.attempt_cons (h : s.Fresh sink q user) (hinit : sink.init ≠ none)
    (ha : a.callbacks ≠ []) :
    (s.attempt a).Settled sink ∧ ∃ ok es, sink.firstInit q user a = some ok ∧
      Entries sink a.callbacks es ∧ (s.attempt a).log = .init ok :: es := by
  obtain ⟨init, hinit⟩ := Option.ne_none_iff_exists'.mp hinit
  obtain ⟨c, cs, hcs⟩ := List.exists_cons_of_ne_nil ha
  have hbegin : (s.begin a.easy).Fresh sink q user :=
    ⟨h.sinkData, h.initialized, h.user, h.reset⟩
  obtain ⟨ht, hlog⟩ := hbegin.initSink hinit c.known
  obtain ⟨hsettled, es, hes, hlog'⟩ := ht.foldl (c :: cs)
  have hattempt : s.attempt a =
      (c :: cs).foldl SinkClient.step ((s.begin a.easy).initSink sink c.known) := by
    rw [SinkClient.attempt, hcs, List.foldl_cons, List.foldl_cons, hbegin.step hinit]
  rw [hattempt, hcs]
  refine ⟨hsettled, _, es, ?_, hes, by rw [hlog', hlog]; rfl⟩
  simp only [Sink.firstInit, hinit, hcs]
  rw [← h.reset, ← h.user]
  rfl

theorem Fresh.respects_logs_iff (h : s.Fresh sink q user) (as : List SinkAttempt) :
    (∀ log ∈ s.logs as, Respects log) ↔ sink.UsedOnce q user as := by
  induction as generalizing s with
  | nil => simp [logs, Sink.UsedOnce]
  | cons a as ih =>
    rw [logs, List.forall_mem_cons]
    by_cases ha : a.callbacks = []
    · obtain ⟨hfresh, hlog⟩ := h.attempt_nil ha
      have hskip : sink.UsedOnce q user (a :: as) = sink.UsedOnce q user as := by
        simp [Sink.UsedOnce, ha]
      rw [hlog, hskip, ih hfresh, (Entries.nil : Entries sink [] []).respects_iff]
      simp
    · have hstop : (a :: as).dropWhile (·.callbacks.isEmpty) = a :: as := by simp [ha]
      rw [Sink.UsedOnce, hstop]
      dsimp only
      by_cases hinit : sink.init = none
      · have hsettled : s.Settled sink := ⟨h.sinkData, .inl hinit⟩
        obtain ⟨hnext, hes⟩ := hsettled.attempt a
        have hfirst : sink.firstInit q user a = none := by simp [Sink.firstInit, hinit]
        rw [hes.respects_iff, hnext.respects_logs_iff, hfirst]
        simp [and_comm]
      · obtain ⟨hnext, ok, es, hfirst, hes, hlog⟩ := h.attempt_cons hinit ha
        rw [hnext.respects_logs_iff, hfirst, hlog]
        cases ok with
        | true => simp [hes.respects_init_true]
        | false => simp [hes.respects_init_false, and_comm]

end Log

end SinkClient

/-- **When a sink is used properly.** In all attempts of a request with the default callbacks, the
sink is used only after an `init` of the attempt that succeeded, and a write after one that failed
is answered short, if and only if the callbacks make do with one initialization. -/
theorem respects_iff_usedOnce (sink : Sink σ) (q : Request) (user : σ) (as : List SinkAttempt) :
    (∀ log ∈ (curlEventRequestSink q sink user).logs as, Respects log) ↔
      sink.UsedOnce q user as := by
  have hfresh : (curlEventRequestSink q sink user).Fresh sink q user := ⟨rfl, rfl, rfl, rfl⟩
  exact hfresh.respects_logs_iff as

/-! ### The sinks of the library -/

/-- `file_sink_t`: the contents of the open file, and whether the file can be opened. -/
structure FileSink where
  file : Option (List UInt8)
  opens : Bool

/-- The functions of `file_sink`. What `fwrite` does without a file is not defined; the model writes
nothing. -/
def fileSink : Sink FileSink where
  init := some fun _ f => (f.opens, { f with file := if f.opens then some [] else none })
  write := some fun size nmemb bytes f =>
    (if f.file.isSome then nmemb * size else 0, { f with file := f.file.map (· ++ bytes) })
  failure := some fun _ _ f => f
  complete := some id

/-- A file that cannot be opened is written to. A file that can be opened is written to in a second
attempt, without being opened for it. -/
theorem not_respects_fileSink :
    (¬ ∀ (sink : Sink FileSink) (q : Request) (user : FileSink) (as : List SinkAttempt),
      ∀ log ∈ (curlEventRequestSink q sink user).logs as, Respects log) ∧
    ¬ (∀ log ∈ (curlEventRequestSink .init fileSink ⟨none, false⟩).logs
      [⟨0, [.write 1 1 1 [7]]⟩], Respects log) ∧
    ¬ ∀ log ∈ (curlEventRequestSink .init fileSink ⟨none, true⟩).logs
      [⟨0, [.write 1 1 1 [7], .failure 1 (.other 56) 200]⟩, ⟨1, [.write 1 1 1 [7]]⟩],
        Respects log := by
  have hfails : ¬ ∀ log ∈ (curlEventRequestSink .init fileSink ⟨none, false⟩).logs
      [⟨0, [.write 1 1 1 [7]]⟩], Respects log := by
    rw [respects_iff_usedOnce]
    rintro ⟨-, hsucceeds | ⟨hunused, -⟩⟩
    · exact absurd hsucceeds (by decide)
    · exact hunused _ List.mem_cons_self rfl
  refine ⟨fun h => hfails (h _ _ _ _), hfails, ?_⟩
  rw [respects_iff_usedOnce]
  rintro ⟨hlater, -⟩
  exact hlater _ List.mem_cons_self _ List.mem_cons_self rfl

/-- The functions of `memory_sink`, on the buffer and what happened to it. `aml_buffer_init` does not
run out of memory. -/
def memorySinkInterface : Sink (Option (Buffer UInt8) × List (SinkEvent UInt8)) where
  init := some fun length u =>
    (true, some ⟨if length > 0 then (length + 1).toNat else 1024, []⟩, u.2)
  write := some fun size nmemb bytes u =>
    (size * nmemb, u.1.map fun b => b.append bytes, .write u.1.isSome :: u.2)
  failure := some fun result httpCode u =>
    (none, .callback (u.1.map Buffer.data) false result httpCode :: u.2)
  complete := some fun u => (u.1, .callback (u.1.map Buffer.data) true .ok 200 :: u.2)

/-- A request with a memory sink, as a request with any sink. -/
def SinkRequest.toClient (s : SinkRequest UInt8) (log : List SinkCall) :
    SinkClient (Option (Buffer UInt8) × List (SinkEvent UInt8)) :=
  ⟨s.req, some memorySinkInterface, s.sinkInitialized, (s.buffer, s.log), log⟩

section Memory

variable (s : SinkRequest UInt8) (known : ℤ) (log : List SinkCall)

theorem curlEventRequestContentLength_eq :
    s.curlEventRequestContentLength known = ((s.req.knownContentLength known).1,
      { s with req := (s.req.knownContentLength known).2 }) := by
  rw [SinkRequest.curlEventRequestContentLength, Request.knownContentLength]
  split_ifs <;> rfl

theorem initSink_memorySink : ∃ log', (s.toClient log).initSink memorySinkInterface known =
    (s.initOnce known).toClient log' := by
  rw [SinkRequest.initOnce, curlEventRequestContentLength_eq]
  cases hs : s.sinkInitialized with
  | true =>
    refine ⟨log, ?_⟩
    simp [SinkClient.initSink, memorySinkInterface, SinkRequest.toClient, hs]
  | false =>
    refine ⟨log ++ [.init true], ?_⟩
    simp [SinkClient.initSink, memorySinkInterface, SinkRequest.toClient, SinkRequest.memoryInit,
      SinkClient.logCall, hs]

/-- The default callbacks on a memory sink are the default callbacks on its interface. -/
theorem defaultOnWrite_memorySink {size nmemb : ℕ} {bytes : List UInt8}
    (hlength : bytes.length = size * nmemb) :
    ∃ log', (s.toClient log).defaultOnWrite known size nmemb bytes =
      ((s.defaultOnWrite known bytes).1, (s.defaultOnWrite known bytes).2.toClient log') := by
  obtain ⟨log', hinit⟩ := initSink_memorySink s known log
  refine ⟨log' ++ [.write], ?_⟩
  simp only [SinkClient.defaultOnWrite, SinkRequest.toClient] at hinit ⊢
  rw [hinit]
  simp [memorySinkInterface, SinkRequest.defaultOnWrite, SinkRequest.memoryWrite,
    SinkClient.logCall, hlength]

theorem defaultOnComplete_memorySink : ∃ log', (s.toClient log).defaultOnComplete known =
    ((s.defaultOnComplete known).1, (s.defaultOnComplete known).2.toClient log') := by
  obtain ⟨log', hinit⟩ := initSink_memorySink s known log
  refine ⟨log' ++ [.complete], ?_⟩
  simp only [SinkClient.defaultOnComplete, SinkRequest.toClient] at hinit ⊢
  rw [hinit]
  rfl

theorem defaultOnFailure_memorySink (result : CurlCode) (httpCode : ℤ) :
    ∃ log', (s.toClient log).defaultOnFailure known result httpCode =
      ((s.defaultOnFailure known result httpCode).1,
        (s.defaultOnFailure known result httpCode).2.toClient log') := by
  obtain ⟨log', hinit⟩ := initSink_memorySink s known log
  refine ⟨log' ++ [.failure], ?_⟩
  simp only [SinkClient.defaultOnFailure, SinkRequest.toClient] at hinit ⊢
  rw [hinit]
  rfl

end Memory

end CurlLoop
