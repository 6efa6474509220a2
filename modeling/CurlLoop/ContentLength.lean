import CurlLoop.Headers
import CurlLoop.Lib.CText

/-!
# The content length of a header line

`header_callback` is called with every line of the headers of a response, if the request has a
`max_download_size`. It looks for `Content-Length`, reads the number that follows, and aborts the
transfer if the number is above the cap.

The scanner is not strict about either. It compares fourteen bytes, so that the colon after the name
may be missing and the name may be a longer one; and a number that does not fit is noticed by its
sign, in which case it becomes `-1`, which is above no cap. What a line announces is therefore
defined without the scanner, by the field name before the colon and the digits after it.

## Conventions

Arithmetic on `long` is read modulo `2 ^ 64`. The digits of a value are those it begins with; what
follows them is not looked at, neither by the code nor by `announced`.

## Main definitions

* `scanLength`, `headerCallback`
* `IsContentLength`, `announced` — the field name of a line, and the number it announces
* `LineExact` — what a user expects of the callback on a line

## Main results

* `scanLength_eq_decimal` — the loop reads a number that fits
* `lineExact_iff` — a line on which the callback is exact
-/

namespace CurlLoop

open CText

/-! ### The callback -/

/-- The loop over the digits. -/
def scanLength : ℤ → CString → ℤ
  | cl, [] => cl
  | cl, b :: p =>
    if !isDigit b then cl
    else
      let cl := wrapLong (wrapLong (cl * 10) + (b.toNat - 48))
      if cl < 0 then -1 else scanLength cl p

/-- `"Content-Length"`. -/
def contentLengthName : CString := CString.ofString "Content-Length"

/-- `strncasecmp(p, "Content-Length", 14) == 0`. -/
def StartsContentLength (p : CString) : Prop :=
  (p.take 14).map toLower = contentLengthName.map toLower

instance (p : CString) : Decidable (StartsContentLength p) := inferInstanceAs (Decidable (_ = _))

/-- `if (*p == ':') ++p`. -/
def skipColon (p : CString) : CString := if p.head? = some colon then p.tail else p

/-- The content length the callback reads from a line that begins with the name. -/
def readLength (line : CString) : ℤ := scanLength 0 (ltrim (skipColon (line.drop 14)))

/-- `header_callback`, on the bytes of the buffer. The copy of the buffer ends where the string
does. -/
def headerCallback (q : Request) (buffer : List UInt8) : ℕ × Request :=
  let line : CString := rtrim (buffer.takeWhile (· != 0))
  if StartsContentLength line then
    let cl := readLength line
    let q := { q with contentLengthFound := true, contentLength := cl }
    if cl > q.maxDownloadSize ∧ q.maxDownloadSize > 0 then (0, q) else (buffer.length, q)
  else (buffer.length, q)

/-! ### What a line announces -/

/-- The line has a field name, and it is `Content-Length`, in letters of either case. -/
def IsContentLength (line : CString) : Prop :=
  colon ∈ line ∧ (fieldName line).map toLower = contentLengthName.map toLower

instance (line : CString) : Decidable (IsContentLength line) := inferInstanceAs (Decidable (_ ∧ _))

/-- The number a line announces as the content length. -/
def announced (line : CString) : Option ℕ :=
  if IsContentLength line ∧ numeral (fieldValue line) ≠ [] then
    some (decimal (numeral (fieldValue line)))
  else none

/-- The callback does on this line what the line says, for every request: it changes the content
length only if the line is about it, stores the number the line announces or `-1` if that does not
fit, and aborts the transfer if and only if there is a cap and the number is above it. -/
structure LineExact (line : CString) : Prop where
  changes : ∀ q : Request, (headerCallback q line).2.contentLength ≠ q.contentLength →
    IsContentLength line
  stores : ∀ (q : Request), ∀ n ∈ announced line,
    (headerCallback q line).2.contentLength = if n < 2 ^ 63 then (n : ℤ) else -1
  aborts : ∀ q : Request, (headerCallback q line).1 ≠ line.length ↔
    0 < q.maxDownloadSize ∧ ∃ n ∈ announced line, q.maxDownloadSize < n

/-! ### The name -/

section Name

variable {line : CString}

theorem length_of_sameName {name : CString}
    (h : name.map toLower = contentLengthName.map toLower) : name.length = 14 :=
  (List.length_map toLower).symm.trans (congrArg List.length h)

theorem not_colon_mem_of_sameName {name : CString}
    (h : name.map toLower = contentLengthName.map toLower) : colon ∉ name := fun hmem => by
  have hcolon : toLower colon ∈ contentLengthName.map toLower := h ▸ List.mem_map_of_mem hmem
  exact absurd hcolon (by decide)

/-- The rest of the line is trimmed, and not the name. -/
theorem StartsContentLength.rtrim_eq (h : StartsContentLength line) :
    rtrim line = line.take 14 ++ rtrim (line.drop 14) := by
  conv_lhs => rw [← List.take_append_drop 14 line]
  refine rtrim_append _ _ fun hne => not_isSpace_of_toLower ?_
  have hlast : some (toLower ((line.take 14).getLast hne)) =
      (contentLengthName.map toLower).getLast? := by
    rw [← show (line.take 14).map toLower = contentLengthName.map toLower from h,
      List.getLast?_map, List.getLast?_eq_some_getLast hne, Option.map_some]
  have hlast' : (contentLengthName.map toLower).getLast? = some 104 := rfl
  rw [Option.some.inj (hlast.trans hlast')]
  decide

theorem startsContentLength_rtrim :
    StartsContentLength (rtrim line) ↔ StartsContentLength line := by
  constructor
  · intro h
    have hlength : 14 ≤ (rtrim line).length := by
      have htake := length_of_sameName h
      rw [List.length_take] at htake
      omega
    obtain ⟨rest, hrest⟩ : rtrim line <+: line := List.rdropWhile_prefix _ _
    rw [StartsContentLength, ← hrest, List.take_append_of_le_length hlength]
    exact h
  · intro h
    have hlength : (line.take 14).length = 14 := length_of_sameName h
    rw [StartsContentLength, h.rtrim_eq, List.take_append_of_le_length hlength.ge, List.take_take]
    exact h

theorem take_append_of_colon (hcolon : (line)[14]? = some colon) :
    line.take 14 ++ colon :: line.drop 15 = line := by
  obtain ⟨hlt, hget⟩ := List.getElem?_eq_some_iff.mp hcolon
  rw [← hget, ← List.drop_eq_getElem_cons, List.take_append_drop]

/-- The field name is `Content-Length` when the line begins so and a colon follows. -/
theorem isContentLength_iff :
    IsContentLength line ↔ StartsContentLength line ∧ (line)[14]? = some colon := by
  constructor
  · rintro ⟨hcolon, hname⟩
    have hlength := length_of_sameName hname
    have hline := fieldName_append_fieldValue hcolon
    rw [← hline]
    refine ⟨?_, by simp [← hlength]⟩
    rw [StartsContentLength, ← hlength, List.take_left]
    exact hname
  · rintro ⟨hname, hcolon⟩
    have hnot := not_colon_mem_of_sameName hname
    rw [IsContentLength, ← take_append_of_colon hcolon, fieldName_append hnot]
    exact ⟨by simp, hname⟩

end Name

/-! ### The number -/

/-- The loop stops at the first byte that is no digit. -/
theorem scanLength_takeWhile (cl : ℤ) (p : CString) :
    scanLength cl (p.takeWhile isDigit) = scanLength cl p := by
  induction p generalizing cl with
  | nil => rfl
  | cons b p ih =>
    by_cases hb : isDigit b
    · rw [List.takeWhile_cons_of_pos hb]
      simp only [scanLength, ih]
    · rw [List.takeWhile_cons_of_neg hb]
      simp [scanLength, hb]

theorem le_foldl_decimal (ds : CString) (n : ℕ) :
    n ≤ ds.foldl (fun n b => n * 10 + (b.toNat - 48)) n := by
  induction ds generalizing n with
  | nil => exact le_rfl
  | cons b ds ih =>
    rw [List.foldl_cons]
    exact le_trans (by omega) (ih (n * 10 + (b.toNat - 48)))

/-- **The loop reads a number that fits.** The induction is on the digits; what has been read never
exceeds the number, so no product or sum on the way does. -/
theorem scanLength_eq_foldl (ds : CString) (hds : ∀ b ∈ ds, isDigit b) (n : ℕ)
    (hfits : ds.foldl (fun n b => n * 10 + (b.toNat - 48)) n < 2 ^ 63) :
    scanLength n ds = ds.foldl (fun n b => n * 10 + (b.toNat - 48)) n := by
  induction ds generalizing n with
  | nil => rfl
  | cons b ds ih =>
    have hb : isDigit b := hds b List.mem_cons_self
    have hle : 48 ≤ b.toNat := by
      simp only [isDigit, Bool.and_eq_true, decide_eq_true_eq, UInt8.le_iff_toNat_le] at hb
      exact hb.1
    rw [List.foldl_cons] at hfits ⊢
    have hnext := le_foldl_decimal ds (n * 10 + (b.toNat - 48))
    have hwrap : wrapLong (wrapLong (n * 10) + (b.toNat - 48)) =
        ((n * 10 + (b.toNat - 48) : ℕ) : ℤ) := by
      rw [wrapLong_of_lt (n := (n * 10 : ℤ)) (by omega) (by omega)]
      rw [wrapLong_of_lt (by omega) (by omega)]
      omega
    simp only [scanLength, hb, Bool.not_true, Bool.false_eq_true, if_false, hwrap]
    rw [if_neg (by omega)]
    exact ih (fun c hc => hds c (List.mem_cons_of_mem b hc)) _ hfits

theorem scanLength_eq_decimal {ds : CString} (hds : ∀ b ∈ ds, isDigit b)
    (hfits : decimal ds < 2 ^ 63) : scanLength 0 ds = decimal ds :=
  scanLength_eq_foldl ds hds 0 hfits

/-! ### The line -/

section Line

variable {line : CString} {q : Request}

/-- What the callback reads from a line about the content length are the digits of its value. -/
theorem readLength_eq (h : IsContentLength line) :
    readLength (rtrim line) = scanLength 0 (numeral (fieldValue line)) := by
  have hname := (isContentLength_iff.mp h).1
  have hlength := length_of_sameName hname
  have hline := take_append_of_colon (isContentLength_iff.mp h).2
  have hvalue : fieldValue line = line.drop 15 := by
    conv_lhs => rw [← hline]
    exact fieldValue_append (not_colon_mem_of_sameName hname) _
  have hdrop : line.drop 14 = colon :: line.drop 15 := by
    conv_lhs => rw [← hline]
    rw [List.drop_left' hlength]
  have hcolon : rtrim (colon :: line.drop 15) = colon :: rtrim (line.drop 15) :=
    rtrim_append [colon] _ fun _ => (by decide : ¬ isSpace colon)
  rw [readLength, hname.rtrim_eq, List.drop_left' hlength, hdrop, hcolon, hvalue]
  rw [← numeral_rtrim (line.drop 15), numeral, scanLength_takeWhile]
  rfl

/-- The copy of a buffer without a zero byte is the whole buffer. -/
theorem takeWhile_ne_zero (hzero : 0 ∉ line) : line.takeWhile (· != 0) = line := by
  rw [List.takeWhile_eq_self_iff]
  exact fun b hb => bne_iff_ne.mpr fun hb0 => hzero (hb0 ▸ hb)

theorem headerCallback_of_starts (hzero : 0 ∉ line) (h : StartsContentLength line) (q : Request) :
    headerCallback q line =
      (if readLength (rtrim line) > q.maxDownloadSize ∧ q.maxDownloadSize > 0 then 0
        else line.length,
      { q with contentLengthFound := true, contentLength := readLength (rtrim line) }) := by
  rw [headerCallback, takeWhile_ne_zero hzero, if_pos (startsContentLength_rtrim.mpr h)]
  dsimp only
  split_ifs <;> rfl

theorem headerCallback_of_not_starts (hzero : 0 ∉ line) (h : ¬ StartsContentLength line)
    (q : Request) : headerCallback q line = (line.length, q) := by
  rw [headerCallback, takeWhile_ne_zero hzero, if_neg (startsContentLength_rtrim.not.mpr h)]

/-- What the callback reads from a line about the content length, if it fits: the number the line
announces, and zero if it announces none. -/
theorem readLength_eq_announced (h : IsContentLength line)
    (hfits : ∀ n ∈ announced line, n < 2 ^ 63) :
    readLength (rtrim line) = ((announced line).getD 0 : ℕ) := by
  have hdigits : ∀ b ∈ numeral (fieldValue line), isDigit b := fun b => List.mem_takeWhile_imp
  rw [readLength_eq h]
  by_cases hne : numeral (fieldValue line) = []
  · simp [announced, hne, scanLength]
  · have hann : announced line = some (decimal (numeral (fieldValue line))) := if_pos ⟨h, hne⟩
    rw [hann, Option.getD_some]
    exact scanLength_eq_decimal hdigits (hfits _ hann)

/-- **When the callback is exact.** On a line without a zero byte, the callback does what the line
says, for every request, if and only if a line that begins with `Content-Length` has a colon there,
and a number it announces fits a `long`. -/
theorem lineExact_iff (hzero : 0 ∉ line) :
    LineExact line ↔
      (StartsContentLength line → (line)[14]? = some colon) ∧ ∀ n ∈ announced line, n < 2 ^ 63 := by
  constructor
  · intro h
    constructor
    · intro hstarts
      -- A request that holds another content length than the one that is read.
      have hchange := h.changes { Request.init with contentLength := readLength (rtrim line) + 1 }
      rw [headerCallback_of_starts hzero hstarts] at hchange
      exact (isContentLength_iff.mp (hchange (by simp))).2
    · intro n hn
      by_contra hlarge
      -- The number becomes `-1`, which is not above the cap, and the number is.
      have hstore := h.stores { Request.init with maxDownloadSize := 1 } n hn
      have habort := (h.aborts { Request.init with maxDownloadSize := 1 }).mpr
        ⟨by decide, n, hn, by simp; omega⟩
      have hstarts : StartsContentLength line := by
        by_contra hstarts
        rw [headerCallback_of_not_starts hzero hstarts] at habort
        exact habort rfl
      rw [headerCallback_of_starts hzero hstarts] at hstore habort
      rw [if_neg hlarge] at hstore
      simp only at hstore
      rw [hstore] at habort
      simp at habort
  · rintro ⟨hcolon, hfits⟩
    by_cases hstarts : StartsContentLength line
    · have hname := isContentLength_iff.mpr ⟨hstarts, hcolon hstarts⟩
      have hread := readLength_eq_announced hname hfits
      refine ⟨fun _ _ => hname, fun q n hn => ?_, fun q => ?_⟩
      · rw [headerCallback_of_starts hzero hstarts, if_pos (hfits n hn), hread,
          Option.mem_def.mp hn, Option.getD_some]
      · have hlength := length_of_sameName hstarts
        rw [List.length_take] at hlength
        have hzero' : 0 ≠ line.length := by omega
        rw [headerCallback_of_starts hzero hstarts, hread]
        cases hann : announced line with
        | none => simp; omega
        | some n =>
          simp [hzero', and_comm]
    · have hname : ¬ IsContentLength line := fun h => hstarts (isContentLength_iff.mp h).1
      have hnone : announced line = none := if_neg fun h => hname h.1
      refine ⟨fun q hq => ?_, fun q n hn => ?_, fun q => ?_⟩
      · rw [headerCallback_of_not_starts hzero hstarts] at hq
        exact absurd rfl hq
      · rw [hnone] at hn
        cases hn
      · rw [headerCallback_of_not_starts hzero hstarts, hnone]
        simp

end Line

theorem lineExact_forty_two : LineExact (.ofString "content-length: 42\r\n") := by
  refine (lineExact_iff (by decide)).mpr ⟨fun _ => by decide, fun n hn => ?_⟩
  have hann : announced (.ofString "content-length: 42\r\n") = some 42 := by decide
  rw [hann, Option.mem_some_iff] at hn
  rw [← hn]
  decide

/-- A number that does not fit, and a name that begins with the other. -/
theorem not_lineExact :
    ¬ (∀ line : CString, 0 ∉ line → LineExact line) ∧
      ¬ LineExact (.ofString "Content-Length: 9223372036854775808") ∧
      ¬ LineExact (.ofString "Content-Length-Limit: 5") := by
  have hnumber : ¬ LineExact (.ofString "Content-Length: 9223372036854775808") := fun h => by
    have hfits := ((lineExact_iff (by decide)).mp h).2 9223372036854775808 (by decide)
    exact absurd hfits (by decide)
  have hname : ¬ LineExact (.ofString "Content-Length-Limit: 5") := fun h =>
    absurd (((lineExact_iff (by decide)).mp h).1 (by decide)) (by decide)
  exact ⟨fun h => hnumber (h _ (by decide)), hnumber, hname⟩

end CurlLoop
