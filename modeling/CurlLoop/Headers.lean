import CurlLoop.State
import CurlLoop.Lib.Overwrite

/-!
# The headers of a request

`headers` is a `struct curl_slist`, a list of lines in the order they were added.
`curl_event_request_add_header` appends a line, and `curl_event_request_set_header` rebuilds the
list with the new line in the place of every line for the name. A line is for a name if it begins
with the name and a colon: the comparison is exact, and the colon keeps a name apart from the longer
names it begins.

So a name that was added twice and is then set has two lines with the new value, since the loop of
`set_header` notes in `found` that it put the line and does not ask.

## Main definitions

* `headerLine`, `IsLineFor` — a line, and the name it is for
* `curlEventRequestAddHeader`, `curlEventRequestSetHeader`
* `curlEventRequestApplyBrowserProfile`
* `HeaderCall` — the calls that build a list
* `Request.SetsOneLine` — a name has one line with the new value, and nothing else has changed

## Main results

* `curlEventRequestSetHeader_eq` — the loop is `Overwrite.overwrite`
* `setsOneLine_iff` — the name had at most one line
* `headers_set_independent` — setting a name again, and setting two names
* `set_userAgent_applyBrowserProfile` — setting the user agent after the profile
-/

namespace CurlLoop

/-! ### Lines -/

/-- What stands before the first colon of a line. -/
def fieldName (line : CString) : CString := line.takeWhile (· != colon)

/-- What stands after the first colon of a line. -/
def fieldValue (line : CString) : CString := (line.dropWhile (· != colon)).tail

theorem fieldName_append {name : CString} (h : colon ∉ name) (value : CString) :
    fieldName (name ++ colon :: value) = name := by
  rw [fieldName, List.takeWhile_append_of_pos]
  · simp
  · intro b hb
    exact bne_iff_ne.mpr fun hbc => h (hbc ▸ hb)

theorem fieldValue_append {name : CString} (h : colon ∉ name) (value : CString) :
    fieldValue (name ++ colon :: value) = value := by
  rw [fieldValue, List.dropWhile_append_of_pos]
  · simp
  · intro b hb
    exact bne_iff_ne.mpr fun hbc => h (hbc ▸ hb)

/-- A line with a colon is its field name, the colon and its field value. -/
theorem fieldName_append_fieldValue {line : CString} (h : colon ∈ line) :
    fieldName line ++ colon :: fieldValue line = line := by
  obtain ⟨name, value, rfl, hname⟩ := List.eq_append_cons_of_mem h
  rw [fieldName_append hname, fieldValue_append hname]

/-- What `sprintf(line, "%s: %s", name, value)` writes. -/
def headerLine (name value : CString) : CString := name ++ [colon, 32] ++ value

/-- The test of `curl_event_request_set_header`: `strncmp` finds the name at the beginning of the
line, and the next byte is a colon. -/
def IsLineFor (name line : CString) : Bool :=
  name.isPrefixOf line && (line)[name.length]? == some colon

theorem isLineFor_iff {name line : CString} :
    IsLineFor name line ↔ ∃ rest, line = name ++ colon :: rest := by
  rw [IsLineFor, Bool.and_eq_true, List.isPrefixOf_iff_prefix, beq_iff_eq]
  constructor
  · rintro ⟨⟨rest, rfl⟩, hcolon⟩
    cases rest with
    | nil => simp at hcolon
    | cons b rest =>
      have hb : b = colon := by simpa using hcolon
      exact ⟨rest, by rw [hb]⟩
  · rintro ⟨rest, rfl⟩
    exact ⟨List.prefix_append name _, by simp⟩

theorem isLineFor_headerLine (name value : CString) : IsLineFor name (headerLine name value) :=
  isLineFor_iff.mpr ⟨32 :: value, by simp [headerLine]⟩

/-- **A line is for one name.** A colon ends the name, unless the name has one. -/
theorem eq_of_isLineFor {n m line : CString} (hn : colon ∉ n) (hm : colon ∉ m)
    (h : IsLineFor n line) (h' : IsLineFor m line) : n = m := by
  obtain ⟨rest, rfl⟩ := isLineFor_iff.mp h
  obtain ⟨rest', heq⟩ := isLineFor_iff.mp h'
  rw [← fieldName_append hn rest, heq, fieldName_append hm rest']

theorem not_isLineFor_of_ne {n m : CString} (hn : colon ∉ n) (hm : colon ∉ m) (h : n ≠ m)
    (line : CString) (hline : IsLineFor n line) : ¬ IsLineFor m line :=
  fun hline' => h (eq_of_isLineFor hn hm hline hline')

/-! ### The functions -/

/-- `add_header_line`, on the list it is given. -/
def addHeaderLine (list : List CString) (name value : CString) : List CString :=
  list ++ [headerLine name value]

/-- `curl_event_request_add_header`. -/
def curlEventRequestAddHeader (q : Request) (name value : CString) : Request :=
  { q with headers := addHeaderLine q.headers name value }

/-- `curl_event_request_set_header`. The loop builds the new list and notes whether it found the
name. -/
def curlEventRequestSetHeader (q : Request) (name value : CString) : Request :=
  let (newList, found) := q.headers.foldl (fun (newList, found) data =>
    if IsLineFor name data then (addHeaderLine newList name value, true)
    else (newList ++ [data], found)) ([], false)
  { q with headers := if found then newList else addHeaderLine newList name value }

/-- `curl_event_request_apply_browser_profile`. The arguments are the user agent and the accepted
languages, if they are not the default ones. -/
def curlEventRequestApplyBrowserProfile (q : Request) (uaOpt alOpt : Option CString) : Request :=
  let ua := uaOpt.getD (.ofString ("Mozilla/5.0 (Macintosh; Intel Mac OS X 10_15_7) " ++
    "AppleWebKit/537.36 (KHTML, like Gecko) " ++ "Chrome/124.0.0.0 Safari/537.36"))
  let al := alOpt.getD (.ofString "en-US,en;q=0.9")
  let q := curlEventRequestSetHeader q (.ofString "User-Agent") ua
  let q := curlEventRequestSetHeader q (.ofString "Accept")
    (.ofString "text/html,application/xhtml+xml,application/xml;q=0.9,*/*;q=0.8")
  curlEventRequestSetHeader q (.ofString "Accept-Language") al

/-- A call that changes the headers. -/
inductive HeaderCall
  | add (name value : CString)
  | set (name value : CString)

def HeaderCall.apply (q : Request) : HeaderCall → Request
  | .add name value => curlEventRequestAddHeader q name value
  | .set name value => curlEventRequestSetHeader q name value

/-- The request after a list of calls. -/
def HeaderCall.run (q : Request) (cs : List HeaderCall) : Request := cs.foldl apply q

/-- **The loop of `set_header`** is the update of a table. -/
theorem curlEventRequestSetHeader_eq (q : Request) (name value : CString) :
    curlEventRequestSetHeader q name value = { q with
      headers := Overwrite.overwrite (IsLineFor name) (headerLine name value) q.headers } := by
  have hloop : ∀ (l newList : List CString) (found : Bool),
      l.foldl (fun (newList, found) data =>
        if IsLineFor name data then (addHeaderLine newList name value, true)
        else (newList ++ [data], found)) (newList, found) =
      (newList ++ l.map (Overwrite.substitute (IsLineFor name) (headerLine name value)),
        found || l.any (IsLineFor name)) := by
    intro l
    induction l with
    | nil => intro newList found; simp
    | cons data l ih =>
      intro newList found
      rw [List.foldl_cons]
      by_cases h : IsLineFor name data
      · simp only [h, ↓reduceIte]
        rw [ih, addHeaderLine, List.map_cons, Overwrite.substitute_of_pos h, List.any_cons, h]
        simp
      · simp only [h, Bool.false_eq_true, ↓reduceIte]
        rw [ih, List.map_cons, Overwrite.substitute_of_neg h, List.any_cons,
          Bool.eq_false_iff.mpr h]
        simp
  rw [curlEventRequestSetHeader, hloop]
  by_cases h : q.headers.any (IsLineFor name)
  · simp [Overwrite.overwrite_of_any h, h]
  · simp [Overwrite.overwrite_of_not_any h, h, addHeaderLine,
      Overwrite.map_substitute_of_not_any h]

/-- A line for the name is there afterwards. -/
theorem any_headers_set (q : Request) (n v : CString) :
    (curlEventRequestSetHeader q n v).headers.any (IsLineFor n) := by
  rw [curlEventRequestSetHeader_eq]
  exact Overwrite.any_overwrite (isLineFor_headerLine n v)

theorem any_headers_set_of_ne {n m : CString} (hn : colon ∉ n) (hm : colon ∉ m) (hne : n ≠ m)
    (q : Request) (w : CString) :
    (curlEventRequestSetHeader q m w).headers.any (IsLineFor n) =
      q.headers.any (IsLineFor n) := by
  rw [curlEventRequestSetHeader_eq]
  exact Overwrite.any_overwrite_of_disjoint (isLineFor_headerLine m w)
    (not_isLineFor_of_ne hm hn hne.symm)

/-! ### Setting a header replaces it -/

/-- The call leaves the name with one line, which has the new value, and the other lines as they
are, in their order. -/
def Request.SetsOneLine (q : Request) (n v : CString) : Prop :=
  (curlEventRequestSetHeader q n v).headers.filter (IsLineFor n) = [headerLine n v] ∧
    (curlEventRequestSetHeader q n v).headers.filter (fun line => !IsLineFor n line) =
      q.headers.filter fun line => !IsLineFor n line

instance (q : Request) (n v : CString) : Decidable (q.SetsOneLine n v) :=
  inferInstanceAs (Decidable (_ ∧ _))

/-- **When a header is replaced.** Whatever calls built the list, a call of `set_header` leaves one
line for the name if and only if there was at most one. -/
theorem setsOneLine_iff (q : Request) (cs : List HeaderCall) (n v : CString) :
    (HeaderCall.run q cs).SetsOneLine n v ↔
      ((HeaderCall.run q cs).headers.filter (IsLineFor n)).length ≤ 1 := by
  generalize HeaderCall.run q cs = q
  have hline := isLineFor_headerLine n v
  rw [Request.SetsOneLine, curlEventRequestSetHeader_eq]
  dsimp only
  rw [Overwrite.filter_overwrite hline, Overwrite.filter_not_overwrite hline]
  constructor
  · rintro ⟨hone, -⟩
    have hlength := congrArg List.length hone
    rw [List.length_replicate, List.length_singleton] at hlength
    omega
  · intro hone
    rw [Nat.max_eq_left hone]
    exact ⟨rfl, rfl⟩

/-- A header that is added twice and then set has two lines. -/
theorem not_setsOneLine_added_twice :
    ¬ ∀ (cs : List HeaderCall) (n v : CString), colon ∉ n →
      (HeaderCall.run .init cs).SetsOneLine n v := by
  intro h
  have htwo := h [.add (.ofString "X-Test") (.ofString "alpha"),
    .add (.ofString "X-Test") (.ofString "beta")] (.ofString "X-Test") (.ofString "gamma")
    (by decide)
  exact absurd htwo (by decide)

/-! ### Two calls -/

theorem set_set (q : Request) (n v w : CString) :
    curlEventRequestSetHeader (curlEventRequestSetHeader q n v) n w =
      curlEventRequestSetHeader q n w := by
  simp only [curlEventRequestSetHeader_eq]
  rw [Overwrite.overwrite_overwrite (isLineFor_headerLine n v)]

/-- A call that finds its name may be made before a call for another name. -/
theorem set_comm_of_any {q : Request} {n m : CString} (hn : colon ∉ n) (hm : colon ∉ m)
    (hne : n ≠ m) (h : q.headers.any (IsLineFor n)) (v w : CString) :
    curlEventRequestSetHeader (curlEventRequestSetHeader q m w) n v =
      curlEventRequestSetHeader (curlEventRequestSetHeader q n v) m w := by
  simp only [curlEventRequestSetHeader_eq]
  rw [Overwrite.overwrite_comm_of_any (isLineFor_headerLine n v) (isLineFor_headerLine m w)
    (not_isLineFor_of_ne hn hm hne) h]

/-- **The last value wins, and names are independent.** Setting a name again makes the first call
void, and the order of the calls for two names is at most the order of their lines. -/
theorem headers_set_independent (q : Request) {n : CString} (hn : colon ∉ n) :
    (∀ v w, curlEventRequestSetHeader (curlEventRequestSetHeader q n v) n w =
      curlEventRequestSetHeader q n w) ∧
    ∀ m, colon ∉ m → n ≠ m → ∀ v w,
      (curlEventRequestSetHeader (curlEventRequestSetHeader q n v) m w).headers.Perm
        (curlEventRequestSetHeader (curlEventRequestSetHeader q m w) n v).headers := by
  refine ⟨set_set q n, fun m hm hne v w => ?_⟩
  simp only [curlEventRequestSetHeader_eq]
  exact Overwrite.overwrite_comm_perm (isLineFor_headerLine m w) (isLineFor_headerLine n v)
    (not_isLineFor_of_ne hm hn hne.symm)

/-- Two names of which one begins the other. -/
theorem headers_set_independent_accept :
    (curlEventRequestSetHeader (curlEventRequestSetHeader .init (.ofString "Accept")
      (.ofString "*/*")) (.ofString "Accept-Language") (.ofString "en")).headers.Perm
    (curlEventRequestSetHeader (curlEventRequestSetHeader .init (.ofString "Accept-Language")
      (.ofString "en")) (.ofString "Accept") (.ofString "*/*")).headers :=
  (headers_set_independent .init (by decide)).2 _ (by decide) (by decide) _ _

/-- The user agent of a browser profile can be set after the profile as well as with it. -/
theorem set_userAgent_applyBrowserProfile (q : Request) (uaOpt alOpt : Option CString)
    (ua : CString) :
    curlEventRequestSetHeader (curlEventRequestApplyBrowserProfile q uaOpt alOpt)
      (.ofString "User-Agent") ua = curlEventRequestApplyBrowserProfile q (some ua) alOpt := by
  rw [curlEventRequestApplyBrowserProfile, curlEventRequestApplyBrowserProfile]
  generalize hagent : CString.ofString "User-Agent" = agent
  have hcolon : colon ∉ agent := by subst hagent; decide
  have haccept : agent ≠ .ofString "Accept" := by subst hagent; decide
  have hlanguage : agent ≠ .ofString "Accept-Language" := by subst hagent; decide
  generalize uaOpt.getD _ = first
  have hany := any_headers_set q agent first
  -- The call for the user agent moves before the other two, and meets the first one there.
  rw [set_comm_of_any hcolon (by decide) hlanguage, set_comm_of_any hcolon (by decide) haccept hany,
    set_set]
  · rfl
  · rwa [any_headers_set_of_ne hcolon (by decide) haccept]

end CurlLoop
