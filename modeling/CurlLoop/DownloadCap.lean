import CurlLoop.State

/-!
# The cap on a download

`write_thunk` is what libcurl calls with every chunk of a body. It adds the length of the chunk to
`bytes_downloaded` and hands the chunk on to `write_cb`, unless the sum is above
`max_download_size`: then it hands on what is left of the allowance, and answers `0`, at which
libcurl aborts the transfer.

The chunks come from libcurl, and so do their boundaries. The invariant of a transfer that goes on
does not mention them: the counter is the number of bytes handed on, and within the cap. A chunk
that keeps to the cap keeps the invariant, and a chunk that does not ends the transfer with exactly
the cap handed on, wherever the boundary falls in it.

## Main definitions

* `Chunk`, `WriteCallback`, `Download`
* `writeThunk`, `deliver` — one chunk, and chunks until a callback answers short
* `Download.Within` — the invariant

## Main results

* `writeThunk_within`, `writeThunk_beyond` — a chunk that keeps to the cap, and one that does not
* `deliver_exact` — the cap is exact
-/

namespace CurlLoop

/-! ### Downloads -/

/-- What one call of the write callback receives. The product of the two sizes does not wrap. -/
structure Chunk where
  size : ℕ
  nmemb : ℕ
  bytes : List UInt8
  length_eq : bytes.length = size * nmemb
  fits : size * nmemb < 2 ^ 64

/-- The bytes of a body, which is delivered in chunks. -/
def body (chunks : List Chunk) : List UInt8 := chunks.flatMap Chunk.bytes

/-- A `curl_event_write_callback_t` with a state of its own. Its arguments are the two sizes and the
bytes they stand for. -/
abbrev WriteCallback (σ : Type) := ℕ → ℕ → List UInt8 → σ → ℕ × σ

/-- A transfer under way: the request, the state of its callback, the bytes the callback was given,
and whether a callback answered short. -/
structure Download (σ : Type) where
  req : Request
  user : σ
  given : List UInt8
  aborted : Bool

variable {σ : Type}

namespace Download

/-- The beginning of an attempt, after the resets of `setup_curl_handle`. -/
def start (q : Request) (user : σ) : Download σ := ⟨q.reset, user, [], false⟩

/-- `pub->write_cb(ptr, size, nmemb, pub)`. -/
def callWriteCb (cb : WriteCallback σ) (size nmemb : ℕ) (bytes : List UInt8) (t : Download σ) :
    ℕ × Download σ :=
  let (w, user) := cb size nmemb bytes t.user
  (w, { t with user := user, given := t.given ++ bytes })

/-- `req->bytes_downloaded += (long)n`. -/
def countBytes (t : Download σ) (n : ℕ) : Download σ :=
  { t with req := { t.req with
    bytesDownloaded := wrapLong (t.req.bytesDownloaded + wrapLong n) } }

/-- What is left of the allowance, as a `size_t`. -/
def allowed (q : Request) : ℕ :=
  if 0 < wrapLong (q.maxDownloadSize - q.bytesDownloaded) then
    (wrapLong (q.maxDownloadSize - q.bytesDownloaded)).toNat
  else 0

end Download

/-- `write_thunk`. -/
def writeThunk (cb : WriteCallback σ) (c : Chunk) (t : Download σ) : ℕ × Download σ :=
  let total := c.size * c.nmemb
  if 0 < t.req.maxDownloadSize ∧
      t.req.maxDownloadSize < wrapLong (t.req.bytesDownloaded + wrapLong total) then
    let allowed := Download.allowed t.req
    if allowed ≠ 0 ∧ t.req.writeCb then
      let (w, t) := t.callWriteCb cb 1 allowed (c.bytes.take allowed)
      (0, t.countBytes w)
    else (0, t)
  else
    let t := t.countBytes total
    if t.req.writeCb then t.callWriteCb cb c.size c.nmemb c.bytes else (total, t)

/-- libcurl delivers the chunks of a body in their order, and aborts the transfer when the callback
answers short. -/
def deliver (cb : WriteCallback σ) : List Chunk → Download σ → Download σ
  | [], t => t
  | c :: chunks, t =>
    let (w, t) := writeThunk cb c t
    if w = c.size * c.nmemb then deliver cb chunks t else { t with aborted := true }

/-- The callback consumes all it is given. -/
def Consumes (cb : WriteCallback σ) : Prop :=
  ∀ size nmemb bytes user, (cb size nmemb bytes user).1 = size * nmemb

/-! ### One chunk -/

/-- A transfer that goes on, of a request with a callback. Under a cap, `bytes_downloaded` counts the
bytes that were given to the callback, and they are within the cap. -/
structure Download.Within (t : Download σ) (m : ℤ) : Prop where
  writeCb : t.req.writeCb = true
  max : t.req.maxDownloadSize = m
  going : t.aborted = false
  count : 0 < m → t.req.bytesDownloaded = t.given.length
  le : 0 < m → (t.given.length : ℤ) ≤ m

section Chunk

variable {cb : WriteCallback σ} {c : Chunk} {t : Download σ} {m : ℤ}

/-- The arithmetic on `long` is exact. -/
theorem Download.Within.wrapLong_add (h : t.Within m) (hm : 0 < m)
    (hfits : (t.given.length + c.bytes.length : ℤ) + m < 2 ^ 63) :
    wrapLong (t.req.bytesDownloaded + wrapLong ↑(c.size * c.nmemb)) =
      t.given.length + c.bytes.length := by
  rw [← c.length_eq, h.count hm, wrapLong_of_lt (n := (c.bytes.length : ℤ)) (by omega) (by omega)]
  exact wrapLong_of_lt (by omega) (by omega)

theorem Download.Within.allowed_eq (h : t.Within m) (hm : 0 < m) (hfits : m < 2 ^ 63) :
    (Download.allowed t.req : ℤ) = m - t.given.length := by
  have hle := h.le hm
  rw [Download.allowed, h.max, h.count hm, wrapLong_of_lt (by omega) (by omega)]
  split_ifs with hpos
  · omega
  · omega

/-- **A chunk within the cap** is given to the callback, and the transfer goes on. -/
theorem writeThunk_within (hcb : Consumes cb) (h : t.Within m)
    (hfits : (t.given.length + c.bytes.length : ℤ) + m < 2 ^ 63)
    (hle : 0 < m → (t.given.length + c.bytes.length : ℤ) ≤ m) :
    (writeThunk cb c t).1 = c.size * c.nmemb ∧
      (writeThunk cb c t).2.given = t.given ++ c.bytes ∧ (writeThunk cb c t).2.Within m := by
  have hgo : ¬ (0 < t.req.maxDownloadSize ∧ t.req.maxDownloadSize <
      wrapLong (t.req.bytesDownloaded + wrapLong ↑(c.size * c.nmemb))) := by
    rintro ⟨hm, hlt⟩
    rw [h.max] at hm hlt
    rw [h.wrapLong_add hm hfits] at hlt
    have hcap := hle hm
    omega
  have hset : (t.countBytes (c.size * c.nmemb)).req.writeCb = true := h.writeCb
  simp only [writeThunk, if_neg hgo, hset, if_true]
  refine ⟨hcb _ _ _ _, rfl, h.writeCb, h.max, h.going, fun hm => ?_, fun hm => ?_⟩
  · refine (h.wrapLong_add hm hfits).trans ?_
    simp [Download.callWriteCb, Download.countBytes]
  · simpa [Download.callWriteCb, Download.countBytes] using hle hm

/-- **A chunk beyond the cap** is cut, and the answer is short. -/
theorem writeThunk_beyond (hcb : Consumes cb) (h : t.Within m)
    (hfits : (t.given.length + c.bytes.length : ℤ) + m < 2 ^ 63) (hm : 0 < m)
    (hlt : m < (t.given.length + c.bytes.length : ℤ)) :
    (writeThunk cb c t).1 ≠ c.size * c.nmemb ∧
      (writeThunk cb c t).2.given = (t.given ++ c.bytes).take m.toNat ∧
      (writeThunk cb c t).2.req.bytesDownloaded = m := by
  have hstop : 0 < t.req.maxDownloadSize ∧ t.req.maxDownloadSize <
      wrapLong (t.req.bytesDownloaded + wrapLong ↑(c.size * c.nmemb)) := by
    rw [h.max, h.wrapLong_add hm hfits]
    exact ⟨hm, hlt⟩
  have hle := h.le hm
  have hallowed := h.allowed_eq hm (by omega)
  -- The answer is zero, and the chunk is not empty.
  have hshort : 0 ≠ c.size * c.nmemb := by
    rw [← c.length_eq]
    omega
  have htake : (t.given ++ c.bytes).take m.toNat =
      t.given ++ c.bytes.take (Download.allowed t.req) := by
    have hm' : m.toNat = t.given.length + Download.allowed t.req := by omega
    rw [hm', List.take_length_add_append]
  simp only [writeThunk, if_pos hstop, h.writeCb, and_true]
  by_cases hzero : Download.allowed t.req = 0
  · rw [if_neg (by simpa using hzero)]
    refine ⟨hshort, ?_, ?_⟩
    · rw [htake, hzero, List.take_zero, List.append_nil]
    · rw [h.count hm]
      omega
  · rw [if_pos hzero]
    refine ⟨hshort, htake.symm, ?_⟩
    have hanswer : (t.callWriteCb cb 1 (Download.allowed t.req)
        (c.bytes.take (Download.allowed t.req))).1 = Download.allowed t.req :=
      (hcb _ _ _ _).trans (Nat.one_mul _)
    simp only [Download.countBytes, hanswer]
    refine (congrArg wrapLong ?_).trans (wrapLong_of_lt (by omega) (by omega))
    rw [wrapLong_of_lt (by omega) (by omega), hallowed]
    simp only [Download.callWriteCb, h.count hm]
    omega

end Chunk

/-! ### The body -/

/-- What a transfer hands on of a body. -/
def capped (m : ℤ) (bytes : List UInt8) : List UInt8 :=
  if 0 < m then bytes.take m.toNat else bytes

/-- The chunks that follow a transfer within the cap. The induction is on the chunks: what has been
given and what is to come make up the body all the time. -/
theorem Download.Within.deliver {cb : WriteCallback σ} {m : ℤ} (hcb : Consumes cb)
    (chunks : List Chunk) : ∀ {t : Download σ}, t.Within m →
      (t.given.length + (body chunks).length : ℤ) + m < 2 ^ 63 →
      (CurlLoop.deliver cb chunks t).given = capped m (t.given ++ body chunks) ∧
        ((CurlLoop.deliver cb chunks t).aborted = true ↔
          0 < m ∧ m < (t.given.length + (body chunks).length : ℤ)) ∧
        (0 < m → (CurlLoop.deliver cb chunks t).req.bytesDownloaded ≤ m) := by
  induction chunks with
  | nil =>
    intro t h _
    have hnot : ¬ (0 < m ∧ m < (t.given.length : ℤ)) := fun ⟨hm, hlt⟩ => by
      have hle := h.le hm
      omega
    have hbody : body [] = [] := rfl
    rw [CurlLoop.deliver, hbody, List.append_nil, List.length_nil, Nat.cast_zero, add_zero]
    refine ⟨?_, by simp [h.going, hnot], fun hm => (h.count hm).trans_le (h.le hm)⟩
    rw [capped]
    split_ifs with hm
    · have hle := h.le hm
      rw [List.take_of_length_le (by omega)]
    · rfl
  | cons c chunks ih =>
    intro t h hfits
    have hbody : body (c :: chunks) = c.bytes ++ body chunks := List.flatMap_cons
    rw [hbody, List.length_append, Nat.cast_add] at hfits ⊢
    rw [CurlLoop.deliver]
    by_cases hbeyond : 0 < m ∧ m < (t.given.length + c.bytes.length : ℤ)
    · obtain ⟨hm, hlt⟩ := hbeyond
      obtain ⟨hshort, hgiven, hcount⟩ := writeThunk_beyond hcb h (by omega) hm hlt
      simp only [if_neg hshort, hgiven, hcount]
      refine ⟨?_, by simp; omega, fun _ => Int.le_refl m⟩
      have hcut : (t.given ++ c.bytes ++ body chunks).take m.toNat =
          (t.given ++ c.bytes).take m.toNat :=
        List.take_append_of_le_length (by rw [List.length_append]; omega)
      rw [capped, if_pos hm, ← List.append_assoc, hcut]
    · obtain ⟨hfull, hgiven, hwithin⟩ :=
        writeThunk_within (c := c) hcb h (by omega) fun hm => by omega
      have hlength : (((writeThunk cb c t).2.given.length : ℤ) + (body chunks).length : ℤ) =
          t.given.length + (c.bytes.length + (body chunks).length) := by
        rw [hgiven, List.length_append]
        omega
      simp only [if_pos hfull]
      have hrest := ih hwithin (by omega)
      rwa [hgiven, List.append_assoc, ← hgiven, hlength] at hrest

/-- **The download cap is exact.** A callback that consumes what it is given is given the first bytes
of the body, as many as the cap allows; the transfer is aborted if and only if the body is longer;
and the counter never passes the cap. -/
theorem deliver_exact {cb : WriteCallback σ} (hcb : Consumes cb) {q : Request}
    (hset : q.writeCb = true) (user : σ) {chunks : List Chunk}
    (hfits : ((body chunks).length : ℤ) + q.maxDownloadSize < 2 ^ 63) :
    (deliver cb chunks (.start q user)).given = capped q.maxDownloadSize (body chunks) ∧
      ((deliver cb chunks (.start q user)).aborted = true ↔
        0 < q.maxDownloadSize ∧ q.maxDownloadSize < (body chunks).length) ∧
      (0 < q.maxDownloadSize →
        (deliver cb chunks (.start q user)).req.bytesDownloaded ≤ q.maxDownloadSize) := by
  have hstart : (Download.start q user).Within q.maxDownloadSize :=
    ⟨hset, rfl, rfl, fun _ => rfl, Int.le_of_lt⟩
  simpa [Download.start] using hstart.deliver hcb chunks (by simpa [Download.start] using hfits)

/-- Two chunks of two bytes under a cap of three. -/
theorem deliver_exact_three :
    let chunks : List Chunk := [⟨1, 2, [1, 2], rfl, by decide⟩, ⟨1, 2, [3, 4], rfl, by decide⟩]
    let t := deliver (fun size nmemb _ _ => (size * nmemb, ())) chunks
      (.start { Request.init with maxDownloadSize := 3 } ())
    t.given = [1, 2, 3] ∧ (t.aborted = true ↔ (0 : ℤ) < 3 ∧ (3 : ℤ) < 4) ∧
      ((0 : ℤ) < 3 → t.req.bytesDownloaded ≤ 3) :=
  deliver_exact (fun _ _ _ _ => rfl) rfl () (by decide)

end CurlLoop
