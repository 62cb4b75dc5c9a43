import GooseHttp.Lib.Lines
import GooseHttp.Parse.HeadFraming
import GooseHttp.Parse.StartLine
/-!
# Heads put together from lines

A head written line by line is found, split and parsed as it was written, whatever
follows it in the buffer.
-/

namespace GooseHttp

open Lib

/-! ## Lines -/

def headText (lines : List Text) : Bytes := lines.flatMap (fun line => line ++ CRLF) ++ CRLF

theorem headText_cons (line : Text) (lines : List Text) :
    headText (line :: lines) = line ++ CRLF ++ headText lines := by
  simp [headText]

theorem headText_eq (lines : List Text) : headText lines = unlines CR LF lines ++ CRLF := rfl

theorem cr_ne_lf : CR ≠ LF := by decide

theorem not_crlf_infix_of_not_mem {text : Text} (h : CR ∉ text) : ¬ CRLF <:+: text :=
  fun hin => h (hin.subset (by simp [CRLF]))

/-- A section of lines ends at its first empty line. -/
theorem findHeadersEnd_section {lines : List Text} (rest : Bytes) (hne : lines ≠ [])
    (h : ∀ line ∈ lines, line ≠ [] ∧ ¬ CRLF <:+: line) :
    findHeadersEnd (headText lines ++ rest) = some (headText lines).length := by
  have hfind := findWindow_unlines cr_ne_lf rest hne h
  have hbuffer : headText lines ++ rest = unlines CR LF lines ++ CR :: LF :: rest := by
    rw [headText_eq, List.append_assoc]
    rfl
  obtain ⟨i, hi, hlen⟩ := Option.map_eq_some_iff.mp hfind
  have hi' : findWindow CRLFCRLF (headText lines ++ rest) = some i := by
    rw [hbuffer]
    exact hi
  rw [findHeadersEnd, hi', headText_eq, List.length_append, ← hlen]
  rfl

theorem splitPair_section {lines : List Text} (h : ∀ line ∈ lines, ¬ CRLF <:+: line) :
    splitPair CR LF (headText lines) = lines ++ [[], []] :=
  splitPair_unlines cr_ne_lf CRLF h

theorem utf8Valid_headText {lines : List Text} (h : ∀ line ∈ lines, utf8Valid line = true) :
    utf8Valid (headText lines) = true := by
  have hcrlf : utf8Valid CRLF = true := by decide
  induction lines with
  | nil => exact hcrlf
  | cons line lines ih =>
      rw [headText_cons]
      exact utf8Valid_append (utf8Valid_append (h line (by simp)) hcrlf)
        (ih fun l hl => h l (by simp [hl]))

/-! ## The start line -/

def requestLine (methodToken target : Text) : Text :=
  methodToken ++ ascii " " ++ target ++ ascii " " ++ ascii "HTTP/1.1"

structure IsTargetText (target : Text) : Prop where
  ne_nil : target ≠ []
  clean : ∀ b ∈ target, 32 < b ∧ b ≠ 127
  utf8 : utf8Valid target = true

theorem IsTargetText.not_mem {target : Text} (h : IsTargetText target) {b : UInt8}
    (hb : b ≤ 32) : b ∉ target := by
  intro hmem
  exact absurd (h.clean b hmem).1 (by simpa using hb)

theorem parseRequestLine_requestLine {methodToken target : Text} {method : Method}
    {requestTarget : RequestTarget} (hmethod : Method.fromToken methodToken = some method)
    (htarget : IsTargetText target)
    (hparse : parseRequestTarget method target = .ok requestTarget) :
    parseRequestLine (requestLine methodToken target) = .ok (method, requestTarget, .http11) := by
  have hasStr := (Method.fromToken_ok hmethod).1
  have htext := asStr_of_parseRequestTarget hparse
  have hline : requestLine methodToken target = startLine method requestTarget .http11 := by
    rw [startLine, hasStr, htext, requestLine]
    rfl
  rw [hline]
  apply parseRequestLine_startLine
  · rw [hasStr, hmethod]
  · rw [htext, hparse]
  · rw [htext]
    exact htarget.not_mem (by decide)
  · exact Or.inr rfl

theorem requestLine_line {methodToken target : Text} {method : Method}
    (hmethod : Method.fromToken methodToken = some method) (htarget : IsTargetText target) :
    requestLine methodToken target ≠ [] ∧ CR ∉ requestLine methodToken target ∧
      utf8Valid (requestLine methodToken target) = true := by
  have htoken := (Method.fromToken_ok hmethod).2
  have hcr : CR ∉ methodToken := not_mem_of_isToken htoken (by decide)
  have hcr' : CR ∉ target := htarget.not_mem (by decide)
  have hspace : CR ∉ ascii " " := by decide
  have hversion : CR ∉ ascii "HTTP/1.1" := by decide
  refine ⟨?_, ?_, ?_⟩
  · simp [requestLine, (isToken_iff.mp htoken).1]
  · simp only [requestLine, List.mem_append, not_or]
    exact ⟨⟨⟨⟨hcr, hspace⟩, hcr'⟩, hspace⟩, hversion⟩
  · have hutf : utf8Valid (ascii " ") = true := by decide
    have hutf' : utf8Valid (ascii "HTTP/1.1") = true := by decide
    exact utf8Valid_append (utf8Valid_append (utf8Valid_append (utf8Valid_append
      (utf8Valid_of_isToken htoken) hutf) htarget.utf8) hutf) hutf'

/-! ## Whole heads -/

def requestHead (methodToken target : Text) (fields : List (Text × Text)) : Bytes :=
  headText (requestLine methodToken target :: fields.map fun f => fieldText f.1 f.2)

/-- A written head is parsed to the request it was written from. -/
theorem parseRequestHead_requestHead {methodToken target : Text} {fields : List (Text × Text)}
    {method : Method} {requestTarget : RequestTarget} {mode : BodyMode} (rest : Bytes)
    (hmethod : Method.fromToken methodToken = some method) (htarget : IsTargetText target)
    (hparse : parseRequestTarget method target = .ok requestTarget)
    (hfields : ∀ f ∈ fields, IsFieldText f) (haccept : Acceptable (fields.map namedField))
    (hmode : ∀ st : HeadState, st.Notes (fields.map namedField) →
      determineBodyMode st.contentLength st.transferEncodings = .ok mode)
    (hshort : (requestLine methodToken target).length ≤ LINE_LIMIT)
    (hlimit : (requestHead methodToken target fields).length ≤ HEADER_LIMIT) :
    parseRequestHead (requestHead methodToken target fields ++ rest) =
      .ok ({ Request.new method requestTarget with
        version := .http11
        headers := Headers.empty.appendAll (fields.map namedField)
        body := mode.toBody }, mode, (requestHead methodToken target fields).length) := by
  obtain ⟨hne, hcr, hutf⟩ := requestLine_line hmethod htarget
  have hlines : ∀ line ∈ requestLine methodToken target :: fields.map (fun f => fieldText f.1 f.2),
      line ≠ [] ∧ CR ∉ line ∧ utf8Valid line = true := by
    intro line hline
    rcases List.mem_cons.mp hline with rfl | hline
    · exact ⟨hne, hcr, hutf⟩
    · obtain ⟨f, hf, rfl⟩ := List.mem_map.mp hline
      have hf := hfields f hf
      exact ⟨fieldText_ne_nil _ _, cr_not_mem_fieldText hf.name hf.value.valid,
        utf8Valid_fieldText hf.name hf.value⟩
  obtain ⟨st, hloop, hnotes⟩ := headerLoop_of_acceptable [[]] HeadState.notes_start
    (IsFieldText.checked hfields) (by simpa using haccept)
  rw [List.nil_append] at hnotes
  have hcrlf : ∀ l ∈ requestLine methodToken target :: fields.map (fun f => fieldText f.1 f.2),
      ¬ CRLF <:+: l := fun l hl => not_crlf_infix_of_not_mem (hlines l hl).2.1
  apply parseRequestHead_of_text
  · exact findHeadersEnd_section rest (by simp) fun l hl => ⟨(hlines l hl).1, hcrlf l hl⟩
  · exact hlimit
  · rw [List.take_left]
    exact utf8Valid_headText fun l hl => (hlines l hl).2.2
  · rw [List.take_left, parseHeadText, requestHead,
      splitPair_section hcrlf, List.cons_append]
    simp only [Nat.not_lt.mpr hshort, if_false, parseRequestLine_requestLine hmethod htarget hparse]
    rw [show ∀ ls : List Text, ls ++ [[], []] = ls ++ [] :: [[]] from fun _ => rfl, hloop]
    simp only [haccept.hostValue hnotes, Bool.false_eq_true, if_false, hmode st hnotes, hnotes.headers]

end GooseHttp
