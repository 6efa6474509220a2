import CurlLoop.ContentLength
import CurlLoop.DownloadCap
import CurlLoop.MemorySink

/-!
# From the wire to the user

A response reaches the user of a memory sink through four functions. libcurl calls `header_callback`
with the lines of the headers, if there is a cap on the download, and `write_thunk` with the chunks
of the body. `write_thunk` hands a chunk on to `default_on_write`, which appends it to the buffer of
the sink, and when the transfer is over `default_on_complete` or `default_on_failure` hands out the
buffer. Each of them was looked at alone. Here they work on one request, through all of its attempts.

Header lines and chunks arrive in any order, as they do when a response is a redirection or has
trailers, and no more of them arrive once a callback has answered short. libcurl then ends the
transfer with an error, which is the one thing that is asked of it.

What the cap lets through does not depend on the sink. So the chunks are followed once for any
property of the sink that an appended chunk moves along (`Collects`), and there are two: that the
buffer holds certain bytes, and that it was freed for good.

## Main definitions

* `Arrival`, `Exchange` — what libcurl contributes to an attempt
* `SinkRequest.exchange` — one attempt
* `Exchange.received` — what the sink is given in an attempt
* `SinkRequest.Obeys` — a transfer in which a callback answered short does not succeed

## Main results

* `Collects.receive` — the arrivals of one transfer
* `handed_of_obeys` — what the callback of the sink is handed, in every attempt
-/

namespace CurlLoop

open CText

/-! ### Responses -/

/-- What libcurl passes to a callback. -/
inductive Arrival
  | header (line : List UInt8)
  | chunk (c : Chunk)

/-- `header_callback` aborts the transfer at this line, under a cap of `m`. -/
def Rejects (m : ℤ) (line : List UInt8) : Prop :=
  StartsContentLength (rtrim (line.takeWhile (· != 0))) ∧
    readLength (rtrim (line.takeWhile (· != 0))) > m ∧ m > 0

instance (m : ℤ) (line : List UInt8) : Decidable (Rejects m line) :=
  inferInstanceAs (Decidable (_ ∧ _))

namespace Arrival

/-- The bytes of the body it brings. -/
def bytes : Arrival → List UInt8
  | header _ => []
  | chunk c => c.bytes

/-- It is a line at which the transfer is aborted. -/
def Rejected (m : ℤ) : Arrival → Prop
  | header line => Rejects m line
  | chunk _ => False

instance (m : ℤ) : ∀ a : Arrival, Decidable (a.Rejected m)
  | header line => inferInstanceAs (Decidable (Rejects m line))
  | chunk _ => inferInstanceAs (Decidable False)

end Arrival

/-- The bytes that come before a line at which the transfer is aborted. -/
def admitted (m : ℤ) : List Arrival → List UInt8
  | [] => []
  | a :: as => if a.Rejected m then [] else a.bytes ++ admitted m as

/-- What libcurl contributes to an attempt: the content length it knows, the lines and chunks of the
response, and the message. The callback for a failure is the user's choice. -/
structure Exchange where
  known : ℤ
  arrivals : List Arrival
  message : Message
  onFailure : FailureCallback

namespace Exchange

/-- The end of the attempt, which is all that matters once the body is there. -/
def outcome (x : Exchange) : Attempt UInt8 := ⟨x.known, [], x.message, x.onFailure⟩

/-- The whole body. -/
def content (x : Exchange) : List UInt8 := x.arrivals.flatMap Arrival.bytes

/-- **What the sink is given** of it, under a cap of `m`. -/
def received (m : ℤ) (x : Exchange) : List UInt8 := capped m (admitted m x.arrivals)

end Exchange

/-! ### The callbacks of a transfer -/

namespace SinkRequest

/-- `header_callback`, which is set if there is a cap. -/
def headerCallback (s : SinkRequest UInt8) (line : List UInt8) : ℕ × SinkRequest UInt8 :=
  if s.req.maxDownloadSize > 0 then
    let (n, q) := CurlLoop.headerCallback s.req line
    (n, { s with req := q })
  else (line.length, s)

/-- `req->bytes_downloaded += (long)n`. -/
def countBytes (s : SinkRequest UInt8) (n : ℕ) : SinkRequest UInt8 :=
  { s with req := { s.req with
    bytesDownloaded := wrapLong (s.req.bytesDownloaded + wrapLong n) } }

/-- `write_thunk`, where `write_cb` is `default_on_write`. -/
def writeThunk (s : SinkRequest UInt8) (known : ℤ) (c : Chunk) : ℕ × SinkRequest UInt8 :=
  let total := c.size * c.nmemb
  if 0 < s.req.maxDownloadSize ∧
      s.req.maxDownloadSize < wrapLong (s.req.bytesDownloaded + wrapLong total) then
    let allowed := Download.allowed s.req
    if allowed ≠ 0 ∧ s.req.writeCb then
      let (w, s) := s.defaultOnWrite known (c.bytes.take allowed)
      (0, s.countBytes w)
    else (0, s)
  else
    let s := s.countBytes total
    if s.req.writeCb then s.defaultOnWrite known c.bytes else (total, s)

/-- A response arrives, until a callback answers short. Answers whether one did. -/
def receive (known : ℤ) : List Arrival → SinkRequest UInt8 → Bool × SinkRequest UInt8
  | [], s => (false, s)
  | .header line :: as, s =>
    let (n, s) := s.headerCallback line
    if n = line.length then receive known as s else (true, s)
  | .chunk c :: as, s =>
    let (n, s) := s.writeThunk known c
    if n = c.size * c.nmemb then receive known as s else (true, s)

theorem receive_header (known : ℤ) (line : List UInt8) (as : List Arrival)
    (s : SinkRequest UInt8) :
    receive known (.header line :: as) s = if (s.headerCallback line).1 = line.length then
      receive known as (s.headerCallback line).2 else (true, (s.headerCallback line).2) := rfl

theorem receive_chunk (known : ℤ) (c : Chunk) (as : List Arrival) (s : SinkRequest UInt8) :
    receive known (.chunk c :: as) s = if (s.writeThunk known c).1 = c.size * c.nmemb then
      receive known as (s.writeThunk known c).2 else (true, (s.writeThunk known c).2) := rfl

/-- The transfer of an attempt: `setup_curl_handle` and the response. -/
def transfer (s : SinkRequest UInt8) (x : Exchange) : Bool × SinkRequest UInt8 :=
  receive x.known x.arrivals { s with req := s.req.reset.withHandle x.message.easy }

/-- One attempt: the transfer, the callback, and the clean-up on every path but that of a `429`. -/
def exchange (s : SinkRequest UInt8) (x : Exchange) : SinkRequest UInt8 :=
  let s := ((s.transfer x).2.report x.outcome).2
  if s.Limited x.outcome then s else { s with req := s.req.cleaned }

/-- The request after a list of attempts. -/
def exchanges (s : SinkRequest UInt8) (xs : List Exchange) : SinkRequest UInt8 :=
  Guarded.run (fun x s => s.exchange x) s xs

/-- libcurl ends a transfer in which a callback answered short with an error. -/
def Obeys (x : Exchange) (s : SinkRequest UInt8) : Prop :=
  (s.transfer x).1 = true → x.message.result ≠ .ok

instance (x : Exchange) (s : SinkRequest UInt8) : Decidable (Obeys x s) :=
  inferInstanceAs (Decidable (_ → _))

/-! ### The request -/

variable {s t : SinkRequest UInt8} {x : Exchange} {m : ℤ} {bytes given : List UInt8} {k : ℤ}
  {P : List UInt8 → SinkRequest UInt8 → Prop}

/-- A transfer that goes on, and has handed on certain bytes. What the cap depends on is that of a
transfer with any callback. -/
def Within (m : ℤ) (given : List UInt8) (s : SinkRequest UInt8) : Prop :=
  Download.Within (⟨s.req, (), given, false⟩ : Download Unit) m

/-- A request that is ready for a transfer under a cap. -/
structure Ready (m : ℤ) (s : SinkRequest UInt8) : Prop where
  writeCb : s.req.writeCb = true
  max : s.req.maxDownloadSize = m

/-- The cap depends on three fields of the request. -/
theorem Within.congr (h : s.Within m given) (hset : t.req.writeCb = s.req.writeCb)
    (hmax : t.req.maxDownloadSize = s.req.maxDownloadSize)
    (hcount : t.req.bytesDownloaded = s.req.bytesDownloaded) : t.Within m given :=
  ⟨hset.trans h.writeCb, hmax.trans h.max, rfl, fun hm => hcount.trans (h.count hm), h.le⟩

/-- A callback leaves them alone. -/
structure Untouched (s t : SinkRequest UInt8) : Prop where
  writeCb : t.req.writeCb = s.req.writeCb
  max : t.req.maxDownloadSize = s.req.maxDownloadSize
  count : t.req.bytesDownloaded = s.req.bytesDownloaded

theorem untouched_initOnce (s : SinkRequest UInt8) (known : ℤ) :
    s.Untouched (s.initOnce known) := by
  have hlength : s.Untouched (s.curlEventRequestContentLength known).2 := by
    rw [curlEventRequestContentLength]
    split <;> exact ⟨rfl, rfl, rfl⟩
  rw [initOnce]
  split
  · exact ⟨rfl, rfl, rfl⟩
  · exact ⟨hlength.writeCb, hlength.max, hlength.count⟩

theorem untouched_defaultOnWrite (s : SinkRequest UInt8) (known : ℤ) (chunk : List UInt8) :
    s.Untouched (s.defaultOnWrite known chunk).2 :=
  ⟨(untouched_initOnce s known).writeCb, (untouched_initOnce s known).max,
    (untouched_initOnce s known).count⟩

theorem untouched_report (s : SinkRequest UInt8) (a : Attempt UInt8) :
    s.Untouched (s.report a).2 := by
  have hinit := untouched_initOnce s a.known
  rw [report]
  split
  · exact ⟨hinit.writeCb, hinit.max, hinit.count⟩
  · split
    · exact ⟨hinit.writeCb, hinit.max, hinit.count⟩
    · exact ⟨rfl, rfl, rfl⟩
    · exact ⟨rfl, rfl, rfl⟩

/-! ### One arrival -/

/-- A property of the sink that a chunk moves along. -/
structure Collects (P : List UInt8 → SinkRequest UInt8 → Prop) : Prop where
  req : ∀ {given s} (q : Request), P given s → P given { s with req := q }
  write : ∀ {given s} (known : ℤ) (chunk : List UInt8), P given s →
    P (given ++ chunk) (s.defaultOnWrite known chunk).2

/-- A buffer that is there, or still to be created, collects them. -/
theorem collects_holds (bytes : List UInt8) :
    Collects fun given (s : SinkRequest UInt8) => s.Holds (bytes ++ given) where
  req _ h := ⟨h.initialized, h.data⟩
  write _ chunk h := List.append_assoc bytes _ chunk ▸ (h.defaultOnWrite chunk).1

/-- One that was freed loses them. -/
theorem collects_freed : Collects fun _ (s : SinkRequest UInt8) => s.Freed where
  req _ h := ⟨h.initialized, h.buffer⟩
  write known chunk h := by
    rw [SinkRequest.defaultOnWrite, h.initOnce, memoryWrite, h.buffer]
    exact ⟨h.initialized, rfl⟩

theorem headerCallback_fst (q : Request) (line : List UInt8) :
    (CurlLoop.headerCallback q line).1 = line.length ↔ ¬ Rejects q.maxDownloadSize line := by
  rw [CurlLoop.headerCallback, Rejects]
  dsimp only
  split
  · rename_i hstarts
    have hpos : 0 < line.length := by
      refine List.length_pos_iff.mpr ?_
      rintro rfl
      exact absurd hstarts (by decide)
    split <;> rename_i hlarge
    · exact iff_of_false hpos.ne fun hno => hno ⟨hstarts, hlarge⟩
    · exact iff_of_true rfl fun h => hlarge h.2
  · rename_i hstarts
    exact iff_of_true rfl fun h => hstarts h.1

/-- A header line is nothing to the sink, nor to the count. -/
theorem headerCallback_eq (hP : Collects P) (h : P given s) (hw : s.Within m given)
    (line : List UInt8) : ((s.headerCallback line).1 = line.length ↔ ¬ Rejects m line) ∧
      P given (s.headerCallback line).2 ∧ (s.headerCallback line).2.Within m given := by
  have hm : s.req.maxDownloadSize = m := hw.max
  rw [headerCallback]
  split
  · refine ⟨hm ▸ headerCallback_fst s.req line, hP.req _ h, ?_⟩
    have hsame : s.Untouched { s with req := (CurlLoop.headerCallback s.req line).2 } := by
      rw [CurlLoop.headerCallback]
      dsimp only
      split
      · split <;> exact ⟨rfl, rfl, rfl⟩
      · exact ⟨rfl, rfl, rfl⟩
    exact hw.congr hsame.writeCb hsame.max hsame.count
  · rename_i hnone
    exact ⟨iff_of_true rfl fun hr => hnone (hm ▸ hr.2.2), h, hw⟩

/-- A chunk within the cap is appended. -/
theorem writeThunk_within (hP : Collects P) (h : P given s) (hw : s.Within m given) {c : Chunk}
    (hfits : 0 < m → (given.length + c.bytes.length : ℤ) + m < 2 ^ 63)
    (hle : 0 < m → (given.length + c.bytes.length : ℤ) ≤ m) :
    (s.writeThunk k c).1 = c.size * c.nmemb ∧ P (given ++ c.bytes) (s.writeThunk k c).2 ∧
      (s.writeThunk k c).2.Within m (given ++ c.bytes) := by
  have hgo : ¬ (0 < s.req.maxDownloadSize ∧ s.req.maxDownloadSize <
      wrapLong (s.req.bytesDownloaded + wrapLong ↑(c.size * c.nmemb))) := by
    rintro ⟨hm, hlt⟩
    rw [hw.max] at hm hlt
    have hsum := hw.wrapLong_add hm (hfits hm)
    have hcap := hle hm
    exact absurd (hsum ▸ hlt) (by simpa using hcap)
  have hset : (s.countBytes (c.size * c.nmemb)).req.writeCb = true := hw.writeCb
  have hcounted : P given (s.countBytes (c.size * c.nmemb)) := hP.req _ h
  have hsame := untouched_defaultOnWrite (s.countBytes (c.size * c.nmemb)) k c.bytes
  rw [writeThunk, if_neg hgo, if_pos hset]
  refine ⟨c.length_eq, hP.write k c.bytes hcounted, hsame.writeCb.trans hset,
    hsame.max.trans hw.max, rfl, fun hm => ?_, fun hm => ?_⟩
  · refine hsame.count.trans ((hw.wrapLong_add hm (hfits hm)).trans ?_)
    simp
  · simpa using hle hm

/-- A chunk beyond the cap is cut at the cap, and the answer is short. -/
theorem writeThunk_beyond (hP : Collects P) (h : P given s) (hw : s.Within m given) {c : Chunk}
    (hm : 0 < m) (hfits : (given.length + c.bytes.length : ℤ) + m < 2 ^ 63)
    (hlt : m < (given.length + c.bytes.length : ℤ)) :
    (s.writeThunk k c).1 ≠ c.size * c.nmemb ∧
      P ((given ++ c.bytes).take m.toNat) (s.writeThunk k c).2 ∧ (s.writeThunk k c).2.Ready m := by
  have hstop : 0 < s.req.maxDownloadSize ∧ s.req.maxDownloadSize <
      wrapLong (s.req.bytesDownloaded + wrapLong ↑(c.size * c.nmemb)) := by
    refine ⟨hm.trans_eq hw.max.symm, ?_⟩
    rw [hw.max]
    exact hlt.trans_eq (hw.wrapLong_add hm hfits).symm
  have hle : (given.length : ℤ) ≤ m := hw.le hm
  have hallowed : (Download.allowed s.req : ℤ) = m - given.length := hw.allowed_eq hm (by omega)
  -- The answer is zero, and the chunk is not empty.
  have hshort : 0 ≠ c.size * c.nmemb := by
    rw [← c.length_eq]
    omega
  have htake : (given ++ c.bytes).take m.toNat =
      given ++ c.bytes.take (Download.allowed s.req) := by
    have hm' : m.toNat = given.length + Download.allowed s.req := by omega
    rw [hm', List.take_length_add_append]
  have hset : s.req.writeCb = true := hw.writeCb
  rw [writeThunk, if_pos hstop]
  by_cases hzero : Download.allowed s.req = 0
  · rw [if_neg fun hx => hx.1 hzero]
    refine ⟨hshort, ?_, hset, hw.max⟩
    rw [htake, hzero, List.take_zero, List.append_nil]
    exact h
  · rw [if_pos ⟨hzero, hset⟩]
    have hsame := untouched_defaultOnWrite s k (c.bytes.take (Download.allowed s.req))
    refine ⟨hshort, ?_, hsame.writeCb.trans hset, hsame.max.trans hw.max⟩
    rw [htake]
    exact hP.req _ (hP.write k _ h)

/-! ### One transfer -/

theorem capped_of_le (hle : 0 < m → (given.length : ℤ) ≤ m) : capped m given = given := by
  rw [capped]
  split
  · rename_i hm
    exact List.take_of_length_le (by have := hle hm; omega)
  · rfl

/-- What comes after the cap was passed makes no difference. -/
theorem capped_append (hm : 0 < m) (hlt : m < (given.length : ℤ)) (rest : List UInt8) :
    capped m (given ++ rest) = given.take m.toNat := by
  rw [capped, if_pos hm, List.take_append_of_le_length (by omega)]

/-- **The arrivals of a transfer.** The sink is given the bytes before a line that is rejected, as
many as the cap allows, and a callback answers short if and only if there is such a line or the body
is longer. The induction is on the arrivals. -/
theorem Collects.receive (hP : Collects P) (as : List Arrival) : ∀ {given : List UInt8}
    {s : SinkRequest UInt8}, P given s → s.Within m given →
    (0 < m → (given.length + (as.flatMap Arrival.bytes).length : ℤ) + m < 2 ^ 63) →
    P (capped m (given ++ admitted m as)) (SinkRequest.receive k as s).2 ∧
      (SinkRequest.receive k as s).2.Ready m ∧
      ((SinkRequest.receive k as s).1 = true ↔ (∃ a ∈ as, a.Rejected m) ∨
        0 < m ∧ m < (given.length + (as.flatMap Arrival.bytes).length : ℤ)) := by
  induction as with
  | nil =>
    intro given s h hw _
    have hnot : ¬ (0 < m ∧ m < (given.length : ℤ)) := fun ⟨hm, hlt⟩ => by
      have hle : (given.length : ℤ) ≤ m := hw.le hm
      omega
    rw [admitted, List.append_nil, capped_of_le hw.le, SinkRequest.receive]
    exact ⟨h, ⟨hw.writeCb, hw.max⟩, by simpa using hnot⟩
  | cons a as ih =>
    intro given s h hw hfits
    cases a with
    | header line =>
      obtain ⟨hanswer, h', hw'⟩ := headerCallback_eq hP h hw line
      have hbytes : ((Arrival.header line :: as).flatMap Arrival.bytes) =
        as.flatMap Arrival.bytes := rfl
      rw [hbytes] at hfits ⊢
      rw [receive_header, admitted]
      by_cases hrej : Rejects m line
      · have hrej' : (Arrival.header line).Rejected m := hrej
        rw [if_pos hrej', if_neg fun heq => hanswer.mp heq hrej, List.append_nil,
          capped_of_le hw.le]
        exact ⟨h', ⟨hw'.writeCb, hw'.max⟩, iff_of_true rfl (.inl ⟨_, List.mem_cons_self, hrej⟩)⟩
      · have hrej' : ¬ (Arrival.header line).Rejected m := hrej
        rw [if_neg hrej', if_pos (hanswer.mpr hrej), Arrival.bytes, List.nil_append]
        obtain ⟨hgiven, hready, hshort⟩ := ih h' hw' hfits
        refine ⟨hgiven, hready, hshort.trans ?_⟩
        rw [List.exists_mem_cons_iff, or_iff_right hrej']
    | chunk c =>
      have hnot : ¬ (Arrival.chunk c).Rejected m := id
      have hbytes : ((Arrival.chunk c :: as).flatMap Arrival.bytes) =
        c.bytes ++ as.flatMap Arrival.bytes := rfl
      rw [hbytes, List.length_append, Nat.cast_add] at hfits ⊢
      rw [receive_chunk, admitted, if_neg hnot, List.exists_mem_cons_iff, or_iff_right hnot,
        Arrival.bytes, ← List.append_assoc]
      by_cases hbeyond : 0 < m ∧ m < (given.length + c.bytes.length : ℤ)
      · obtain ⟨hm, hlt⟩ := hbeyond
        have hroom := hfits hm
        obtain ⟨hshort, hcut, hready⟩ :=
          writeThunk_beyond (k := k) hP h hw hm (by omega) hlt
        rw [if_neg hshort, capped_append hm (by rw [List.length_append]; omega)]
        exact ⟨hcut, hready, iff_of_true rfl (.inr ⟨hm, by omega⟩)⟩
      · obtain ⟨hfull, h', hw'⟩ := writeThunk_within (k := k) (c := c) hP h hw
          (fun hm => by have := hfits hm; omega) (fun hm => by omega)
        have hlength : ((given ++ c.bytes).length : ℤ) = given.length + c.bytes.length := by
          rw [List.length_append, Nat.cast_add]
        rw [if_pos hfull]
        have hrest := ih h' hw' (fun hm => by have := hfits hm; omega)
        rwa [hlength, add_assoc] at hrest

/-! ### One attempt -/

end SinkRequest

/-- A callback answers short: there is a line that is rejected, or the body is beyond the cap. -/
def Exchange.Broken (m : ℤ) (x : Exchange) : Prop :=
  (∃ a ∈ x.arrivals, a.Rejected m) ∨ 0 < m ∧ m < (x.content.length : ℤ)

theorem admitted_of_none {m : ℤ} {as : List Arrival} (has : ¬ ∃ a ∈ as, a.Rejected m) :
    admitted m as = as.flatMap Arrival.bytes := by
  induction as with
  | nil => rfl
  | cons a as ih =>
    rw [List.exists_mem_cons_iff, not_or] at has
    rw [admitted, if_neg has.1, ih has.2]
    rfl

/-- A transfer that is not cut short hands on the whole body. -/
theorem Exchange.received_of_not_broken {m : ℤ} {x : Exchange} (hx : ¬ x.Broken m) :
    x.received m = x.content := by
  rw [Broken, not_or] at hx
  rw [received, admitted_of_none hx.1]
  exact SinkRequest.capped_of_le fun hm => Int.not_lt.mp fun hlt => hx.2 ⟨hm, hlt⟩

theorem Exchange.length_received_le {m : ℤ} (hm : 0 < m) (x : Exchange) :
    (x.received m).length ≤ m.toNat := by
  rw [received, capped, if_pos hm]
  exact List.length_take_le ..

namespace SinkRequest

variable {s t : SinkRequest UInt8} {x : Exchange} {m : ℤ} {bytes given : List UInt8} {k : ℤ}
  {P : List UInt8 → SinkRequest UInt8 → Prop} {pre xs : List Exchange}

theorem Collects.transfer (hP : Collects P) (h : P [] s) (hr : s.Ready m) (x : Exchange)
    (hfits : 0 < m → (x.content.length : ℤ) + m < 2 ^ 63) :
    P (x.received m) (s.transfer x).2 ∧ (s.transfer x).2.Ready m ∧
      ((s.transfer x).1 = true ↔ x.Broken m) := by
  have hstart : Within m [] { s with req := s.req.reset.withHandle x.message.easy } :=
    ⟨hr.writeCb, hr.max, rfl, fun _ => rfl, Int.le_of_lt⟩
  have hbegin := hP.receive (k := x.known) x.arrivals (hP.req _ h) hstart
    (by simpa [Exchange.content] using hfits)
  simpa [Exchange.received, Exchange.content, Exchange.Broken, SinkRequest.transfer] using hbegin

/-- An attempt is its transfer and its report; the rest of it does not touch the sink. -/
theorem exchange_eq (s : SinkRequest UInt8) (x : Exchange) : ∃ q : Request,
    s.exchange x = { ((s.transfer x).2.report x.outcome).2 with req := q } ∧
      q.writeCb = (s.transfer x).2.req.writeCb ∧
      q.maxDownloadSize = (s.transfer x).2.req.maxDownloadSize := by
  have hsame := untouched_report (s.transfer x).2 x.outcome
  rw [exchange]
  dsimp only
  split
  · exact ⟨_, rfl, hsame.writeCb, hsame.max⟩
  · exact ⟨_, rfl, hsame.writeCb, hsame.max⟩

/-- The callback of a failed attempt comes last, and hands out the buffer before it is freed. -/
theorem head_log_report_frees {a : Attempt UInt8} (s : SinkRequest UInt8) (ha : a.Frees) :
    (s.report a).2.log.head? = some (.callback (s.initOnce a.known).data false a.message.result
      a.message.httpCode) := by
  rw [report, if_neg ha.1, ha.2]
  rfl

/-! ### All attempts -/

/-- The sink after a list of attempts. -/
structure Served (m : ℤ) (pre : List Exchange) (s : SinkRequest UInt8) : Prop where
  ready : s.Ready m
  holds : (¬ ∃ y ∈ pre, y.outcome.Frees) → s.Holds (pre.flatMap (Exchange.received m))
  freed : (∃ y ∈ pre, y.outcome.Frees) → s.Freed

theorem served_memorySink {req : Request} (hset : req.writeCb = true) :
    (memorySink UInt8 req).Served req.maxDownloadSize [] where
  ready := ⟨hset, rfl⟩
  holds _ := .memorySink req
  freed h := by simp at h

/-- **A transfer** adds what the sink is given, unless the buffer was freed. -/
theorem Served.transfer (h : s.Served m pre) (x : Exchange)
    (hfits : 0 < m → (x.content.length : ℤ) + m < 2 ^ 63) :
    (s.transfer x).2.Ready m ∧ ((s.transfer x).1 = true ↔ x.Broken m) ∧
      ((¬ ∃ y ∈ pre, y.outcome.Frees) →
        (s.transfer x).2.Holds ((pre ++ [x]).flatMap (Exchange.received m))) ∧
      ((∃ y ∈ pre, y.outcome.Frees) → (s.transfer x).2.Freed) := by
  by_cases hpre : ∃ y ∈ pre, y.outcome.Frees
  · obtain ⟨hfreed, hready, hshort⟩ := collects_freed.transfer (h.freed hpre) h.ready x hfits
    exact ⟨hready, hshort, fun hno => absurd hpre hno, fun _ => hfreed⟩
  · have hstart : s.Holds (pre.flatMap (Exchange.received m) ++ []) := by
      rw [List.append_nil]
      exact h.holds hpre
    obtain ⟨hholds, hready, hshort⟩ := (collects_holds _).transfer hstart h.ready x hfits
    refine ⟨hready, hshort, fun _ => ?_, fun hyes => absurd hyes hpre⟩
    rw [List.flatMap_append, List.flatMap_singleton]
    exact hholds

theorem Served.exchange (h : s.Served m pre) (x : Exchange)
    (hfits : 0 < m → (x.content.length : ℤ) + m < 2 ^ 63) :
    (s.exchange x).Served m (pre ++ [x]) := by
  obtain ⟨hready, -, hholds, hfreed⟩ := h.transfer x hfits
  obtain ⟨q, heq, hset, hmax⟩ := exchange_eq s x
  have hlast : (∃ y ∈ pre ++ [x], y.outcome.Frees) ↔
      (∃ y ∈ pre, y.outcome.Frees) ∨ x.outcome.Frees := by
    simp [or_and_right, exists_or]
  rw [heq]
  refine ⟨⟨hset.trans hready.writeCb, hmax.trans hready.max⟩, fun hno => ?_, fun hyes => ?_⟩
  · rw [hlast, not_or] at hno
    have hend := (hholds hno.1).report hno.2
    exact ⟨hend.initialized, hend.data⟩
  · have hend : ((s.transfer x).2.report x.outcome).2.Freed := by
      by_cases hpre : ∃ y ∈ pre, y.outcome.Frees
      · exact (hfreed hpre).report
      · exact (hholds hpre).report_frees ((hlast.mp hyes).resolve_left hpre)
    exact ⟨hend.initialized, hend.buffer⟩

/-- What the callback of the sink is handed at the end of an attempt, after others: all that the sink
was given until then, and nothing once an attempt has freed the buffer. -/
def handedOut (m : ℤ) (pre : List Exchange) (x : Exchange) : Option (List UInt8) :=
  if ∃ y ∈ pre, y.outcome.Frees then none
  else some ((pre ++ [x]).flatMap (Exchange.received m))

theorem Served.data_initOnce (h : s.Served m pre) (x : Exchange)
    (hfits : 0 < m → (x.content.length : ℤ) + m < 2 ^ 63) :
    ((s.transfer x).2.initOnce x.known).data = handedOut m pre x := by
  obtain ⟨-, -, hholds, hfreed⟩ := h.transfer x hfits
  rw [handedOut]
  split
  · rename_i hpre
    rw [(hfreed hpre).initOnce, SinkRequest.data, (hfreed hpre).buffer]
    rfl
  · rename_i hpre
    exact ((hholds hpre).initOnce (k := x.known)).2

/-- What is expected of an attempt, after others. -/
structure Handed (m : ℤ) (pre : List Exchange) (x : Exchange) (t : SinkRequest UInt8) : Prop where
  /-- An attempt that succeeds was not cut short. -/
  whole : x.outcome.Success → x.received m = x.content
  success : x.outcome.Success → t.log.head? = some (.callback (handedOut m pre x) true .ok 200)
  failure : x.outcome.Frees → t.log.head? =
    some (.callback (handedOut m pre x) false x.message.result x.message.httpCode)
  /-- The cap bounds what is kept of an attempt. -/
  bounded : 0 < m → (t.data.getD []).length ≤ (pre.length + 1) * m.toNat

theorem length_flatMap_received_le (hm : 0 < m) (xs : List Exchange) :
    (xs.flatMap (Exchange.received m)).length ≤ xs.length * m.toNat := by
  induction xs with
  | nil => exact Nat.zero_le _
  | cons x xs ih =>
    rw [List.flatMap_cons, List.length_append, List.length_cons, Nat.succ_mul, Nat.add_comm]
    exact Nat.add_le_add ih (x.length_received_le hm)

theorem Served.length_data_le (h : s.Served m pre) (hm : 0 < m) :
    (s.data.getD []).length ≤ pre.length * m.toNat := by
  by_cases hpre : ∃ y ∈ pre, y.outcome.Frees
  · have hnone : s.data = none := by
      rw [SinkRequest.data, (h.freed hpre).buffer]
      rfl
    rw [hnone]
    exact Nat.zero_le _
  · rw [(h.holds hpre).data]
    exact length_flatMap_received_le hm pre

theorem Served.handed (h : s.Served m pre) {x : Exchange}
    (hfits : 0 < m → (x.content.length : ℤ) + m < 2 ^ 63) (hx : Obeys x s) :
    Handed m pre x (s.exchange x) := by
  obtain ⟨-, hshort, -, -⟩ := h.transfer x hfits
  obtain ⟨q, heq, -, -⟩ := exchange_eq s x
  have hlog : (s.exchange x).log = ((s.transfer x).2.report x.outcome).2.log := by
    rw [heq]
  have hdata := h.data_initOnce x hfits
  refine ⟨fun hok => ?_, fun hok => ?_, fun hfrees => ?_, fun hm => ?_⟩
  · have hresult : x.message.result = .ok := (of_decide_eq_true hok).1
    exact Exchange.received_of_not_broken fun hbroken => hx (hshort.mpr hbroken) hresult
  · rw [hlog, head_log_report _ hok, ← hdata]
    rfl
  · rw [hlog, head_log_report_frees _ hfrees, ← hdata]
    rfl
  · have hle := (h.exchange x hfits).length_data_le hm
    rwa [List.length_append, List.length_singleton] at hle

theorem served_exchanges {req : Request} (hset : req.writeCb = true) (xs : List Exchange)
    (hfits : 0 < req.maxDownloadSize → ∀ x ∈ xs,
      (x.content.length : ℤ) + req.maxDownloadSize < 2 ^ 63) :
    ((memorySink UInt8 req).exchanges xs).Served req.maxDownloadSize xs := by
  induction xs using List.reverseRecOn with
  | nil => exact served_memorySink hset
  | append_singleton xs x ih =>
    rw [exchanges, Guarded.run_concat]
    refine (ih fun hm y hy => ?_).exchange x fun hm => ?_
    · exact hfits hm y (List.mem_append_left [x] hy)
    · exact hfits hm x (List.mem_append_right xs List.mem_cons_self)

/-- **What a user is handed**, in every attempt of every request with a memory sink. The callback of
an attempt that succeeds gets the whole body, behind what earlier attempts left in the buffer; that of
one that fails gets what the cap and the header lines let through. -/
theorem handed_of_obeys {req : Request} (hset : req.writeCb = true) (xs : List Exchange)
    (hfits : 0 < req.maxDownloadSize → ∀ x ∈ xs,
      (x.content.length : ℤ) + req.maxDownloadSize < 2 ^ 63)
    (hobeys : Guarded.Allowed (fun x s => SinkRequest.exchange s x) Obeys (memorySink UInt8 req) xs) :
    ∀ pre x, pre ++ [x] <+: xs → Handed req.maxDownloadSize pre x
      ((memorySink UInt8 req).exchanges (pre ++ [x])) := by
  intro pre x hpre
  have hmem : ∀ y ∈ pre ++ [x], y ∈ xs := fun y hy => hpre.subset hy
  have hserved := served_exchanges hset pre fun hm y hy =>
    hfits hm y (hmem y (List.mem_append_left [x] hy))
  rw [exchanges, Guarded.run_concat]
  exact hserved.handed (fun hm => hfits hm x (hmem x (List.mem_append_right pre List.mem_cons_self)))
    (Guarded.allowed_iff_prefix.mp hobeys pre x hpre)

-- what the cap let through of the first body comes before the second
example :
    let req := { Request.init with maxDownloadSize := 3 }
    ((memorySink UInt8 req).exchanges
      [⟨-1, [.chunk ⟨1, 2, [1, 2], rfl, by decide⟩, .chunk ⟨1, 2, [3, 4], rfl, by decide⟩],
        ⟨0, .other 23, 200⟩, .user 5⟩,
      ⟨-1, [.header (CString.ofString "Content-Length: 2\r\n"),
        .chunk ⟨2, 1, [5, 6], rfl, by decide⟩], ⟨1, .ok, 200⟩, .default⟩]).log.head? =
      some (.callback (some [1, 2, 3, 5, 6]) true .ok 200) := by decide

/-- Under a cap of three, an attempt is cut short in its second chunk and tried again, and the next
one announces its length and succeeds. -/
theorem handed_of_obeys_retried :
    let req := { Request.init with maxDownloadSize := 3 }
    let first : Exchange := ⟨-1, [.chunk ⟨1, 2, [1, 2], rfl, by decide⟩,
      .chunk ⟨1, 2, [3, 4], rfl, by decide⟩], ⟨0, .other 23, 200⟩, .user 5⟩
    let second : Exchange := ⟨-1, [.header (CString.ofString "Content-Length: 2\r\n"),
      .chunk ⟨2, 1, [5, 6], rfl, by decide⟩], ⟨1, .ok, 200⟩, .default⟩
    Handed 3 [first] second ((memorySink UInt8 req).exchanges [first, second]) := by
  intro req first second
  exact @handed_of_obeys req rfl [first, second] (by decide) (by decide) [first] second
    List.prefix_rfl

end SinkRequest

end CurlLoop
