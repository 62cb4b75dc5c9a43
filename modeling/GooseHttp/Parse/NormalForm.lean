import GooseHttp.Parse.AcceptedHead
/-!
# The normal form of a head

A parsed head is written with names in lower case, values without outer white space,
repeated fields side by side and the version as it is displayed.  None of this makes a
line longer or changes what a line means, so the normal form is accepted and stands for
the same request.
-/

namespace GooseHttp

open Lib

/-! ## Field lines -/

def normalLine (f : HeaderName × Text) : Text := f.1.text ++ 58 :: f.2

theorem checkFieldLine_normalLine {line : Text} {f : HeaderName × Text}
    (h : checkFieldLine line = .ok f) :
    checkFieldLine (normalLine f) = .ok f ∧ (normalLine f).length ≤ line.length := by
  obtain ⟨name, value, rfl, hname, hlen, hvalid, rfl⟩ := checkFieldLine_ok_iff.mp h
  have hle : (normalLine (HeaderName.new name, trimOws value)).length ≤
      (name ++ 58 :: value).length := by
    have htrim := length_trimOws_le value
    simp only [normalLine, HeaderName.text_new, asciiLowercase, List.length_append,
      List.length_cons, List.length_map]
    omega
  have hidem := trimOws_idem value
  refine ⟨checkFieldLine_ok_iff.mpr ⟨asciiLowercase name, trimOws value, rfl, ?_, ?_, ?_, ?_⟩, hle⟩
  · rw [isToken_asciiLowercase, hname]
  · exact hle.trans hlen
  · rw [hidem, hvalid]
  · rw [hidem]
    exact congrArg (·, trimOws value) (HeaderName.new_eq_iff.mpr (by simp))

theorem utf8Valid_normalLine {line : Text} {f : HeaderName × Text}
    (h : checkFieldLine line = .ok f) (hutf : utf8Valid line = true) :
    utf8Valid (normalLine f) = true := by
  obtain ⟨name, value, rfl, hname, -, -, rfl⟩ := checkFieldLine_ok_iff.mp h
  have hvalue := (utf8Valid_of_append_ascii hutf (by decide)).2
  have hname' : utf8Valid (asciiLowercase name) = true :=
    utf8Valid_of_isToken (by rw [isToken_asciiLowercase, hname])
  apply utf8Valid_append hname'
  rw [utf8Valid_cons_ascii _ (by decide)]
  exact utf8Valid_trimOws hvalue

theorem cr_not_mem_normalLine {line : Text} {f : HeaderName × Text}
    (h : checkFieldLine line = .ok f) : CR ∉ normalLine f := by
  obtain ⟨name, value, rfl, hname, -, hvalid, rfl⟩ := checkFieldLine_ok_iff.mp h
  have hname' : CR ∉ asciiLowercase name :=
    not_mem_of_isToken (by rw [isToken_asciiLowercase, hname]) (by decide)
  have hvalue := cr_not_mem_of_valid hvalid
  have hcolon : CR ≠ 58 := by decide
  simp only [normalLine, HeaderName.text_new, List.mem_append, List.mem_cons, not_or]
  exact ⟨hname', hcolon, hvalue⟩

/-! ## Start lines -/

theorem length_startLine_le {line : Text} {method : Method} {target : RequestTarget}
    {version : HttpVersion} (h : parseRequestLine line = .ok (method, target, version)) :
    (startLine method target version).length ≤ line.length := by
  obtain ⟨versionStr, rfl, -, -, -, -, hfrom, hversion⟩ := parseRequestLine_ok h
  have hle := length_display_le hfrom hversion
  rw [startLine_eq]
  simp only [List.length_append, List.length_cons]
  omega

theorem parseRequestLine_normal {line : Text} {method : Method} {target : RequestTarget}
    {version : HttpVersion} (h : parseRequestLine line = .ok (method, target, version)) :
    parseRequestLine (startLine method target version) = .ok (method, target, version) := by
  obtain ⟨versionStr, -, hmethod, htarget, hspace, -, -, hversion⟩ := parseRequestLine_ok h
  exact parseRequestLine_startLine hmethod htarget hspace hversion

theorem utf8Valid_startLine {line : Text} {method : Method} {target : RequestTarget}
    {version : HttpVersion} (h : parseRequestLine line = .ok (method, target, version))
    (hutf : utf8Valid line = true) : utf8Valid (startLine method target version) = true := by
  obtain ⟨versionStr, rfl, -, -, -, -, -, hversion⟩ := parseRequestLine_ok h
  obtain ⟨hmethod, hrest⟩ := utf8Valid_of_append_ascii hutf (by decide)
  have htarget := (utf8Valid_of_append_ascii hrest (by decide)).1
  have hdisplay : utf8Valid version.display = true := by
    rcases hversion with rfl | rfl <;> decide
  rw [startLine_eq]
  apply utf8Valid_append hmethod
  rw [utf8Valid_cons_ascii _ (by decide)]
  apply utf8Valid_append htarget
  rwa [utf8Valid_cons_ascii _ (by decide)]

theorem not_crlf_infix_startLine {line : Text} {method : Method} {target : RequestTarget}
    {version : HttpVersion} (h : parseRequestLine line = .ok (method, target, version))
    (hpair : ¬ CRLF <:+: line) : ¬ CRLF <:+: startLine method target version := by
  obtain ⟨versionStr, rfl, -, -, -, -, -, hversion⟩ := parseRequestLine_ok h
  have hversion' : LF ∉ 32 :: version.display := by
    rcases hversion with rfl | rfl <;> decide
  rw [startLine_eq]
  intro hin
  apply hpair
  rw [← List.cons_append, ← List.append_assoc] at hin ⊢
  exact (pair_infix_of_append hversion' hin).trans (List.prefix_append _ _).isInfix

/-! ## Heads -/

def headLines (request : Request) : List Text :=
  startLine request.method request.target request.version :: request.headers.lines.map normalLine

/-- A request head in normal form. -/
def serializeHead (request : Request) : Bytes := headText (headLines request)

theorem length_headText (lines : List Text) :
    (headText lines).length = (lines.map fun line => line.length + 2).sum + 2 := by
  induction lines with
  | nil => rfl
  | cons line lines ih =>
      rw [headText_cons, List.length_append, ih, List.map_cons, List.sum_cons]
      simp only [CRLF, List.length_append, List.length_cons, List.length_nil]
      omega

theorem utf8Valid_of_mem_headText {lines : List Text} (h : utf8Valid (headText lines) = true) :
    ∀ line ∈ lines, utf8Valid line = true := by
  induction lines with
  | nil => simp
  | cons line lines ih =>
      have hcons : headText (line :: lines) = line ++ CR :: LF :: headText lines := by
        rw [headText_cons, List.append_assoc]
        rfl
      rw [hcons] at h
      obtain ⟨hline, hrest⟩ := utf8Valid_of_append_ascii h (by decide)
      rw [utf8Valid_cons_ascii _ (by decide)] at hrest
      intro l hl
      rcases List.mem_cons.mp hl with rfl | hl
      · exact hline
      · exact ih hrest l hl

theorem Frames.congr {fields fields' : List (HeaderName × Text)} {mode : BodyMode}
    (h : Frames fields mode) (heq : ∀ key, fieldValues fields' key = fieldValues fields key) :
    Frames fields' mode := by
  refine ⟨?_, ?_, ?_, ?_⟩
  · rw [heq]
    exact h.chunked
  · rw [heq, heq]
    exact h.coded
  · rw [heq, heq]
    exact h.fixed
  · rw [heq, heq]
    exact h.none

theorem Acceptable.congr {fields fields' : List (HeaderName × Text)} (h : Acceptable fields)
    (heq : ∀ key, fieldValues fields' key = fieldValues fields key) : Acceptable fields' := by
  refine ⟨?_, ?_, ?_⟩
  · rw [heq]
    exact h.host
  · rw [heq]
    exact h.length
  · rw [heq]
    exact h.codings

theorem length_normalLines_le {lines : List Text} {fields : List (HeaderName × Text)}
    (h : List.Forall₂ (fun line f => checkFieldLine line = .ok f) lines fields) :
    (fields.map fun f => (normalLine f).length + 2).sum ≤
      (lines.map fun line => line.length + 2).sum := by
  induction h with
  | nil => exact Nat.le_refl _
  | cons hline _ ih =>
      have hle := (checkFieldLine_normalLine hline).2
      rw [List.map_cons, List.map_cons, List.sum_cons, List.sum_cons]
      omega

section Normal

variable {line : Text} {lines : List Text} {fields : List (HeaderName × Text)}
  {request : Request} {mode : BodyMode}

theorem IsHead.length_serializeHead_le (h : IsHead line lines fields request mode) :
    (serializeHead request).length ≤ (headText (line :: lines)).length := by
  have hstart := length_startLine_le h.start
  have hfields := length_normalLines_le h.checked
  have hperm := (h.lines_perm.map fun f => (normalLine f).length + 2).sum_nat
  rw [serializeHead, headLines, length_headText, length_headText, List.map_cons, List.map_cons,
    List.sum_cons, List.sum_cons, List.map_map]
  simp only [Function.comp_def, hperm]
  omega

/-- The normal form of a section is a section. -/
theorem IsHead.section_headLines (h : IsHead line lines fields request mode)
    (hsection : IsSection (line :: lines)) : IsSection (headLines request) := by
  have hutf := utf8Valid_of_mem_headText hsection.utf8
  have hline : ∀ l ∈ headLines request,
      (l ≠ [] ∧ ¬ CRLF <:+: l) ∧ utf8Valid l = true := by
    intro l hl
    rcases List.mem_cons.mp hl with rfl | hl
    · refine ⟨⟨?_, not_crlf_infix_startLine h.start (hsection.line line (by simp)).2⟩,
        utf8Valid_startLine h.start (hutf line (by simp))⟩
      rw [startLine_eq]
      simp
    · obtain ⟨f, hf, rfl⟩ := List.mem_map.mp hl
      obtain ⟨l, hl, hcheck⟩ := exists_line_of_mem h.checked (h.lines_perm.subset hf)
      exact ⟨⟨ne_nil_of_checkFieldLine (checkFieldLine_normalLine hcheck).1,
        not_crlf_infix_of_not_mem (cr_not_mem_normalLine hcheck)⟩,
        utf8Valid_normalLine hcheck (hutf l (by simp [hl]))⟩
  refine ⟨fun l hl => (hline l hl).1, utf8Valid_headText fun l hl => (hline l hl).2, ?_⟩
  exact h.length_serializeHead_le.trans hsection.short

theorem IsHead.normal (h : IsHead line lines fields request mode) :
    ∃ request', IsHead (startLine request.method request.target request.version)
      (request.headers.lines.map normalLine) request.headers.lines request' mode ∧
        request'.method = request.method ∧ request'.target = request.target ∧
          request'.version = request.version ∧ request'.body = request.body ∧
            request'.headers.iter = request.headers.iter := by
  let request' : Request :=
    { request with headers := Headers.empty.appendAll request.headers.lines }
  refine ⟨request', ⟨?_, ?_, ?_, ?_, ?_, rfl, h.body, h.payload⟩, rfl, rfl, rfl, rfl,
    Headers.iter_appendAll_lines _⟩
  · exact (length_startLine_le h.start).trans h.short
  · exact parseRequestLine_normal h.start
  · rw [List.forall₂_map_left_iff, List.forall₂_same]
    intro f hf
    obtain ⟨l, -, hcheck⟩ := exists_line_of_mem h.checked (h.lines_perm.subset hf)
    exact (checkFieldLine_normalLine hcheck).1
  · exact h.acceptable.congr h.fieldValues_lines
  · exact h.framed.congr h.fieldValues_lines

end Normal

/-- A parsed head that is written in normal form and parsed again, whatever follows it,
gives the same request and the same framing and is consumed exactly; and it stays within
the limits. -/
theorem parseRequestHead_serializeHead {buffer : Bytes} {request : Request} {mode : BodyMode}
    {n : Nat} (h : parseRequestHead buffer = .ok (request, mode, n)) (rest : Bytes) :
    (∃ request', parseRequestHead (serializeHead request ++ rest) =
        .ok (request', mode, (serializeHead request).length) ∧
      request'.method = request.method ∧ request'.target = request.target ∧
      request'.version = request.version ∧ request'.body = request.body ∧
      request'.headers.iter = request.headers.iter) ∧
    (∀ line ∈ headLines request, line.length ≤ LINE_LIMIT) ∧
    (serializeHead request).length ≤ HEADER_LIMIT := by
  obtain ⟨line, lines, fields, rest', rfl, rfl, hsection, hhead⟩ := parseRequestHead_ok_iff.mp h
  have hsection' := hhead.section_headLines hsection
  obtain ⟨request', hhead', hsame⟩ := hhead.normal
  refine ⟨⟨request', ?_, hsame⟩, ?_, hsection'.short⟩
  · exact parseRequestHead_ok_iff.mpr ⟨_, _, _, rest, rfl, rfl, hsection', hhead'⟩
  · intro l hl
    rcases List.mem_cons.mp hl with rfl | hl
    · exact hhead'.short
    · obtain ⟨f, hf, rfl⟩ := List.mem_map.mp hl
      obtain ⟨l, -, hcheck⟩ := exists_line_of_mem hhead.checked (hhead.lines_perm.subset hf)
      obtain ⟨-, -, -, -, hlen, -⟩ :=
        checkFieldLine_ok_iff.mp (checkFieldLine_normalLine hcheck).1
      exact hlen

/-- Names, order and spaces of `announcedTwice` change in its normal form, and nothing else. -/
theorem parseRequestHead_serializeHead_twice :
    ∃ request mode n, parseRequestHead announcedTwice = .ok (request, mode, n) ∧
      serializeHead request = ascii
        "POST / HTTP/1.1\r\ncontent-length:2\r\ncontent-length:2\r\nhost:a\r\n\r\n" ∧
      ∃ request', parseRequestHead (serializeHead request ++ ascii "hi") =
        .ok (request', mode, (serializeHead request).length) := by
  have hcheck : ∃ p ∈ (parseRequestHead announcedTwice).toOption, serializeHead p.1 = ascii
      "POST / HTTP/1.1\r\ncontent-length:2\r\ncontent-length:2\r\nhost:a\r\n\r\n" := by
    decide +kernel
  obtain ⟨⟨request, mode, n⟩, hparsed, hserial⟩ := hcheck
  have hparse := ok_of_mem_toOption hparsed
  obtain ⟨⟨request', hagain, -⟩, -⟩ := parseRequestHead_serializeHead hparse (ascii "hi")
  exact ⟨request, mode, n, hparse, hserial, request', hagain⟩

end GooseHttp
