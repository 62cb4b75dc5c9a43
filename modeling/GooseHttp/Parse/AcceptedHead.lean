import GooseHttp.Parse.HeadText
/-!
# What heads are accepted

The parser cuts a head into lines, checks them one by one and decides on what it noted.
`IsHead` says the same of the lines and the fields they carry, with no loop in it, and a
buffer is accepted if and only if it starts with a section of such lines.
-/

namespace GooseHttp

open Lib

/-! ## Sections of lines -/

structure IsSection (lines : List Text) : Prop where
  line : ∀ line ∈ lines, line ≠ [] ∧ ¬ CRLF <:+: line
  utf8 : utf8Valid (headText lines) = true
  short : (headText lines).length ≤ HEADER_LIMIT

theorem exists_section {buffer : Bytes} {n : Nat} (h : findHeadersEnd buffer = some n) :
    ∃ lines rest, buffer = headText lines ++ rest ∧ n = (headText lines).length ∧
      lines ≠ [] ∧ (∀ line ∈ lines, ¬ CRLF <:+: line) ∧ ∀ line ∈ lines.tail, line ≠ [] := by
  obtain ⟨front, rest, rfl, rfl, hfirst⟩ := findHeadersEnd_first h
  have hhead : headText (splitPair CR LF front) = front ++ CRLFCRLF := by
    rw [headText_eq, unlines_splitPair, List.append_assoc]
    rfl
  refine ⟨splitPair CR LF front, rest, by rw [hhead], by rw [hhead]; simp [CRLFCRLF],
    splitPair_ne_nil _ _ _, fun line hline => not_infix_of_mem_splitPair hline, ?_⟩
  -- an empty line behind the first one would be an earlier end
  intro line hline hnil
  subst hnil
  obtain ⟨p, ps, hps, -⟩ := splitPair_front CR LF front
  rw [hps] at hhead hline
  obtain ⟨ls, ls', hsplit⟩ := List.append_of_mem hline
  rw [List.tail_cons] at hsplit
  rw [hsplit, headText_eq, ← List.cons_append, unlines_append, unlines_cons CR LF [] ls'] at hhead
  obtain ⟨body, hbody⟩ : ∃ body, unlines CR LF (p :: ls) = body ++ CRLF := by
    rcases List.eq_nil_or_concat (p :: ls) with hnil | ⟨ls₀, l, hls⟩
    · cases hnil
    · rw [hls, List.concat_eq_append, unlines_append, unlines_cons]
      exact ⟨unlines CR LF ls₀ ++ l, by simp [CRLF]⟩
  rw [hbody] at hhead
  have hearly := hfirst body (unlines CR LF ls' ++ CRLF ++ rest) (by
    rw [← hhead]
    simp [CRLF, CRLFCRLF])
  have hlen := congrArg List.length hhead
  simp only [List.length_append, List.length_cons, CRLF, CRLFCRLF, List.length_nil] at hlen
  omega

/-! ## Lines that are a head -/

/-- A start line and field lines with everything the parser asks of them, the fields they
carry, and the request they stand for. -/
structure IsHead (line : Text) (lines : List Text) (fields : List (HeaderName × Text))
    (request : Request) (mode : BodyMode) : Prop where
  short : line.length ≤ LINE_LIMIT
  start : parseRequestLine line = .ok (request.method, request.target, request.version)
  checked : List.Forall₂ (fun line f => checkFieldLine line = .ok f) lines fields
  acceptable : Acceptable fields
  framed : Frames fields mode
  headers : request.headers = Headers.empty.appendAll fields
  body : request.body = mode.toBody
  payload : request.payload = []

theorem exists_line_of_mem {lines : List Text} {fields : List (HeaderName × Text)}
    (h : List.Forall₂ (fun line f => checkFieldLine line = .ok f) lines fields)
    {f : HeaderName × Text} (hf : f ∈ fields) :
    ∃ line ∈ lines, checkFieldLine line = .ok f := by
  induction h with
  | nil => cases hf
  | cons hline _ ih =>
      rcases List.mem_cons.mp hf with rfl | hf
      · exact ⟨_, by simp, hline⟩
      · obtain ⟨l, hl, hcheck⟩ := ih hf
        exact ⟨l, by simp [hl], hcheck⟩

section Collected

variable {line : Text} {lines : List Text} {fields : List (HeaderName × Text)}
  {request : Request} {mode : BodyMode}

theorem IsHead.lines_perm (h : IsHead line lines fields request mode) :
    request.headers.lines.Perm fields := by
  rw [h.headers]
  simpa using Headers.lines_appendAll_perm .empty fields

theorem IsHead.fieldValues_lines (h : IsHead line lines fields request mode) (key : HeaderName) :
    fieldValues request.headers.lines key = fieldValues fields key := by
  rw [Headers.fieldValues_lines, h.headers, Headers.values_appendAll, Headers.values_empty,
    List.nil_append]

end Collected

theorem HeadState.Notes.acceptable {st : HeadState} {fields : List (HeaderName × Text)}
    (hst : st.Notes fields) (hhost : st.hostValue.isNone = false)
    (hcodings : ∀ value ∈ fieldValues fields HeaderKeys.transferEncoding,
      ∃ codings, parseTransferEncoding value = .ok codings) : Acceptable fields := by
  refine ⟨?_, ?_, hcodings⟩
  · rcases hst.host with ⟨-, -, hnone⟩ | ⟨value, hvalue, hvalid, -⟩
    · rw [hnone] at hhost
      cases hhost
    · exact ⟨value, hvalue, hvalid⟩
  · rcases hst.length with ⟨hnil, -⟩ | ⟨k, -, -, hall⟩
    · exact ⟨0, by simp [hnil]⟩
    · exact ⟨k, fun value hvalue => parseContentLength_of_parseU64 (hall value hvalue)⟩

theorem HeadState.Notes.determineBodyMode {st : HeadState} {fields : List (HeaderName × Text)}
    {mode : BodyMode} (hst : st.Notes fields) (h : Frames fields mode) :
    determineBodyMode st.contentLength st.transferEncodings = .ok mode := by
  have hcodings : fieldValues fields HeaderKeys.transferEncoding = [] →
      st.transferEncodings = [] := by
    intro hnil
    rw [hst.codings, hnil]
    rfl
  have hlengths : fieldValues fields HeaderKeys.contentLength = [] → st.contentLength = none := by
    intro hnil
    rcases hst.length with ⟨-, hnone⟩ | ⟨k, -, hne, -⟩
    · exact hnone
    · exact absurd hnil hne
  rw [determineBodyMode_ok_iff]
  cases mode with
  | none =>
      obtain ⟨hte, hcl⟩ := h.none.mp rfl
      exact Or.inr (Or.inr ⟨hcodings hte, hlengths hcl, rfl⟩)
  | fixed k =>
      obtain ⟨hte, hne, hall⟩ := (h.fixed k).mp rfl
      refine Or.inr (Or.inl ⟨hcodings hte, k, ?_, rfl⟩)
      rcases hst.length with ⟨hnil, -⟩ | ⟨j, hj, -, hall'⟩
      · exact absurd hnil hne
      · obtain ⟨v, hv⟩ := List.exists_mem_of_ne_nil _ hne
        rw [hj, ← hall' v hv, hall v hv]
  | chunked =>
      obtain ⟨hlast, hcl⟩ := h.coded rfl
      have hmap : st.transferEncodings =
          ((fieldValues fields HeaderKeys.transferEncoding).flatMap codingsOf).map
            asciiLowercase := by
        rw [hst.codings, List.map_flatMap]
      have hlast' := chunkedOnlyLast_map_lowercase hlast
      rw [← hmap] at hlast'
      refine Or.inl ⟨?_, hlast', hlengths hcl, rfl⟩
      obtain ⟨front, last, heq, -⟩ := hlast'
      simp [heq]

/-- The text of a head is accepted if and only if its lines are a head. -/
theorem parseHeadText_ok_iff {head line : Text} {lines more : List Text} {request : Request}
    {mode : BodyMode} (hsplit : splitPair CR LF head = line :: (lines ++ [] :: more))
    (hne : ∀ line ∈ lines, line ≠ []) :
    parseHeadText head = .ok (request, mode) ↔ ∃ fields, IsHead line lines fields request mode := by
  constructor
  · intro h
    obtain ⟨line', lines', method, target, version, st, hsplit', hshort, hstart, hloop, hhost,
      hmode, rfl⟩ := parseHeadText_ok h
    rw [hsplit] at hsplit'
    obtain ⟨rfl, rfl⟩ := List.cons.inj hsplit'
    obtain ⟨fields, hcheck, hcodings⟩ := headerLoop_checked hne hloop
    have hnotes : st.Notes fields := by
      have hnotes := headerLoop_notes HeadState.notes_start hloop
      rwa [takeWhile_lines hne, filterMap_rawField hcheck, List.nil_append] at hnotes
    exact ⟨fields, hshort, hstart, hcheck, hnotes.acceptable hhost hcodings,
      hnotes.frames hmode, hnotes.headers, rfl, rfl⟩
  · rintro ⟨fields, h⟩
    obtain ⟨st, hloop, hnotes⟩ := headerLoop_of_acceptable more HeadState.notes_start h.checked
      (by simpa using h.acceptable)
    rw [List.nil_append] at hnotes
    have hrequest : ({ Request.new request.method request.target with
        version := request.version, body := mode.toBody, headers := st.headers } : Request) =
          request := by
      rw [hnotes.headers, ← h.headers, ← h.body, Request.new, ← h.payload]
    rw [parseHeadText, hsplit]
    simp only [Nat.not_lt.mpr h.short, if_false, h.start, hloop, h.acceptable.hostValue hnotes,
      Bool.false_eq_true, hnotes.determineBodyMode h.framed, hrequest]

/-! ## Accepted buffers -/

/-- A buffer is accepted if and only if it starts with a section of lines that are a head. -/
theorem parseRequestHead_ok_iff {buffer : Bytes} {request : Request} {mode : BodyMode} {n : Nat} :
    parseRequestHead buffer = .ok (request, mode, n) ↔
      ∃ line lines fields rest, buffer = headText (line :: lines) ++ rest ∧
        n = (headText (line :: lines)).length ∧ IsSection (line :: lines) ∧
          IsHead line lines fields request mode := by
  constructor
  · intro h
    obtain ⟨hend, hlimit, hutf, htext⟩ := parseRequestHead_ok h
    obtain ⟨lines, rest, rfl, rfl, hnil, hpair, hne⟩ := exists_section hend
    rw [List.take_left] at hutf htext
    cases lines with
    | nil => exact absurd rfl hnil
    | cons line lines =>
        obtain ⟨fields, hhead⟩ := (parseHeadText_ok_iff (splitPair_section hpair) hne).mp htext
        have hline : line ≠ [] := by
          rintro rfl
          cases hhead.start
        refine ⟨line, lines, fields, rest, rfl, rfl, ⟨fun l hl => ⟨?_, hpair l hl⟩, hutf, hlimit⟩,
          hhead⟩
        rcases List.mem_cons.mp hl with rfl | hl
        · exact hline
        · exact hne l hl
  · rintro ⟨line, lines, fields, rest, rfl, rfl, hsection, hhead⟩
    have hsplit := splitPair_section fun l hl => (hsection.line l hl).2
    have hne : ∀ l ∈ lines, l ≠ [] := fun l hl => (hsection.line l (by simp [hl])).1
    apply parseRequestHead_of_text (findHeadersEnd_section rest (by simp) hsection.line)
      hsection.short
    · rw [List.take_left]
      exact hsection.utf8
    · rw [List.take_left]
      exact (parseHeadText_ok_iff hsplit hne).mpr ⟨fields, hhead⟩

theorem rawFields_headText {line : Text} {lines : List Text} {fields : List (HeaderName × Text)}
    (h : ∀ l ∈ line :: lines, l ≠ [] ∧ ¬ CRLF <:+: l)
    (hcheck : List.Forall₂ (fun line f => checkFieldLine line = .ok f) lines fields) :
    rawFields (headText (line :: lines)) = fields := by
  have hne : ∀ l ∈ lines, l ≠ [] := fun l hl => (h l (by simp [hl])).1
  rw [rawFields, fieldLines, splitPair_section fun l hl => (h l hl).2, List.cons_append,
    List.tail_cons, takeWhile_lines hne, filterMap_rawField hcheck]

/-- An accepted buffer starts with a head that carries the fields its bytes hold. -/
theorem isHead_rawFields {buffer : Bytes} {request : Request} {mode : BodyMode} {n : Nat}
    (h : parseRequestHead buffer = .ok (request, mode, n)) :
    ∃ line lines, IsHead line lines (rawFields (buffer.take n)) request mode := by
  obtain ⟨line, lines, fields, rest, rfl, rfl, hsection, hhead⟩ := parseRequestHead_ok_iff.mp h
  refine ⟨line, lines, ?_⟩
  rw [List.take_left, rawFields_headText hsection.line hhead.checked]
  exact hhead

end GooseHttp
