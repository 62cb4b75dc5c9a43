import GooseHttp.Decimal
import GooseHttp.Parse.AcceptedHead
/-!
# How strict the head parser is

Tokens and values are scanned for control characters and lengths are read as numbers.
The target of a request is not scanned, and the number parser takes a plus sign: these
are all the ways in which more than the grammar gets through.
-/

namespace GooseHttp

open Lib

/-! ## Control characters -/

def isControl (b : UInt8) : Bool := b ≤ 31 || b = 127

def secondWord (line : Text) : Text := (splitAll 32 line).tail.headD []

/-- Nothing of a head holds a control character, but for tabs inside values. -/
structure Request.IsClean (r : Request) : Prop where
  method : ∀ b ∈ r.method.asStr, isControl b = false
  target : ∀ b ∈ r.target.asStr, isControl b = false
  name : ∀ l ∈ r.headers.lines, ∀ b ∈ l.1.text, isControl b = false
  value : ∀ l ∈ r.headers.lines, ∀ b ∈ l.2, isControl b = true → b = 9

theorem isControl_of_isTchar {b : UInt8} (h : isTchar b = true) : isControl b = false := by
  have hgraphic : ∀ b, isGraphic b = true → isControl b = false := by decide +kernel
  exact hgraphic b (isGraphic_of_isTchar h)

theorem not_control_of_isToken {name : Text} (h : isToken name = true) :
    ∀ b ∈ name, isControl b = false :=
  fun b hb => isControl_of_isTchar ((isToken_iff.mp h).2 b hb)

theorem eq_tab_of_valid {value : Text} (h : containsInvalidHeaderValue value = false) :
    ∀ b ∈ value, isControl b = true → b = 9 := by
  have hall : ∀ b : UInt8, (b ≤ 8 || (10 ≤ b && b ≤ 31) || b = 127) = false →
      isControl b = true → b = 9 := by decide +kernel
  intro b hb
  apply hall b
  rw [← Bool.not_eq_true]
  exact List.any_eq_false.mp h b hb

theorem secondWord_startLine {method target version : Text} (hmethod : 32 ∉ method)
    (htarget : 32 ∉ target) :
    secondWord (method ++ 32 :: (target ++ 32 :: version)) = target := by
  rw [secondWord, splitAll_append _ hmethod, splitAll_append _ htarget]
  rfl

theorem clean_of_checkFieldLine {line : Text} {f : HeaderName × Text}
    (h : checkFieldLine line = .ok f) :
    (∀ b ∈ f.1.text, isControl b = false) ∧ ∀ b ∈ f.2, isControl b = true → b = 9 := by
  obtain ⟨name, value, rfl, hname, -, hvalid, rfl⟩ := checkFieldLine_ok_iff.mp h
  refine ⟨fun b hb => ?_, eq_tab_of_valid hvalid⟩
  have hlower : isToken (asciiLowercase name) = true := by rw [isToken_asciiLowercase, hname]
  exact not_control_of_isToken hlower b hb

/-- An accepted head has no control character in its method, in a name or, tabs excepted,
in a value; and it has none at all if and only if the target on its start line has none. -/
theorem parseRequestHead_clean_iff {buffer : Bytes} {request : Request} {mode : BodyMode} {n : Nat}
    (h : parseRequestHead buffer = .ok (request, mode, n)) :
    request.IsClean ↔
      ∀ b ∈ secondWord ((splitPair CR LF (buffer.take n)).headD []), isControl b = false := by
  obtain ⟨line, lines, fields, rest, rfl, rfl, hsection, hhead⟩ := parseRequestHead_ok_iff.mp h
  obtain ⟨versionStr, hline, hmethod, -, hspace, -⟩ := parseRequestLine_ok hhead.start
  have htoken := (Method.fromToken_ok hmethod).2
  have hword : secondWord ((splitPair CR LF ((headText (line :: lines) ++ rest).take
      (headText (line :: lines)).length)).headD []) = request.target.asStr := by
    rw [List.take_left, splitPair_section fun l hl => (hsection.line l hl).2, List.cons_append,
      List.headD_cons, hline]
    exact secondWord_startLine (not_mem_of_isToken htoken (by decide)) hspace
  have hfield : ∀ l ∈ request.headers.lines,
      (∀ b ∈ l.1.text, isControl b = false) ∧ ∀ b ∈ l.2, isControl b = true → b = 9 := by
    intro l hl
    obtain ⟨line', -, hcheck⟩ := exists_line_of_mem hhead.checked (hhead.lines_perm.subset hl)
    exact clean_of_checkFieldLine hcheck
  rw [hword]
  constructor
  · exact fun hclean => hclean.target
  · intro htarget
    exact ⟨not_control_of_isToken htoken, htarget, fun l hl => (hfield l hl).1,
      fun l hl => (hfield l hl).2⟩

/-- A request with a bare carriage return and a null byte in its target. -/
def controlTarget : Bytes := ascii "GET /" ++ [13, 0] ++ ascii " HTTP/1.1\r\nHost: a\r\n\r\n"

theorem parseRequestHead_controlTarget :
    ∃ request mode n, parseRequestHead controlTarget = .ok (request, mode, n) ∧
      ¬ request.IsClean := by
  have hcheck : ∃ p ∈ (parseRequestHead controlTarget).toOption, 13 ∈ p.1.target.asStr := by
    decide +kernel
  obtain ⟨⟨request, mode, n⟩, hparsed, hcr⟩ := hcheck
  refine ⟨request, mode, n, ok_of_mem_toOption hparsed, fun hclean => ?_⟩
  exact absurd (hclean.target 13 hcr) (by decide)

def cleanTarget : Bytes := ascii "GET /a HTTP/1.1\r\nHost: a\r\nX: \t1\t2\r\n\r\n"

theorem parseRequestHead_clean_iff_cleanTarget :
    ∃ request mode n, parseRequestHead cleanTarget = .ok (request, mode, n) ∧
      request.IsClean := by
  have hcheck : ∃ p ∈ (parseRequestHead cleanTarget).toOption,
      ∀ b ∈ secondWord ((splitPair CR LF (cleanTarget.take p.2.2)).headD []),
        isControl b = false := by
    decide +kernel
  obtain ⟨⟨request, mode, n⟩, hparsed, hword⟩ := hcheck
  have hparse := ok_of_mem_toOption hparsed
  exact ⟨request, mode, n, hparse, (parseRequestHead_clean_iff hparse).mpr hword⟩

/-! ## Lengths -/

structure AcceptableButLength (buffer : Bytes) (n : Nat) : Prop where
  ends : findHeadersEnd buffer = some n
  limit : n ≤ HEADER_LIMIT
  utf8 : utf8Valid (buffer.take n) = true
  start : ∃ line lines parts, splitPair CR LF (buffer.take n) = line :: lines ∧
    line.length ≤ LINE_LIMIT ∧ parseRequestLine line = .ok parts
  lines : ∀ line ∈ fieldLines (buffer.take n), ∃ f, checkFieldLine line = .ok f
  host : ∃ value, fieldValues (rawFields (buffer.take n)) HeaderKeys.host = [value] ∧
    isValidHost value = true
  codings : fieldValues (rawFields (buffer.take n)) HeaderKeys.transferEncoding = []

theorem forall₂_rawField {lines : List Text}
    (h : ∀ line ∈ lines, ∃ f, checkFieldLine line = .ok f) :
    List.Forall₂ (fun line f => checkFieldLine line = .ok f) lines (lines.filterMap rawField) := by
  induction lines with
  | nil => exact .nil
  | cons line lines ih =>
      obtain ⟨f, hf⟩ := h line (by simp)
      rw [List.filterMap_cons, rawField_of_checkFieldLine hf]
      exact .cons hf (ih fun l hl => h l (by simp [hl]))

/-- A head whose length lines are all digits of one value is framed by that value. -/
theorem AcceptableButLength.accepted {buffer : Bytes} {n length : Nat}
    (h : AcceptableButLength buffer n)
    (hne : fieldValues (rawFields (buffer.take n)) HeaderKeys.contentLength ≠ [])
    (hlength : ∀ value ∈ fieldValues (rawFields (buffer.take n)) HeaderKeys.contentLength,
      IsLength value length) :
    ∃ request, parseRequestHead buffer = .ok (request, .fixed length, n) := by
  obtain ⟨hend, hlimit, hutf, ⟨line, lines, ⟨method, target, version⟩, hsplit, hshort, hstart⟩,
    hlines, hhost, hcodings⟩ := h
  obtain ⟨ls, rest, rfl, rfl, hnil, hpair, hfilled⟩ := exists_section hend
  rw [List.take_left] at *
  obtain ⟨line', lines', rfl⟩ := List.exists_cons_of_ne_nil hnil
  rw [List.tail_cons] at hfilled
  have hfirst : line' = line := by
    rw [splitPair_section hpair, List.cons_append] at hsplit
    exact (List.cons.inj hsplit).1
  subst hfirst
  have hfilled' : ∀ l ∈ line' :: lines', l ≠ [] ∧ ¬ CRLF <:+: l := by
    intro l hl
    refine ⟨?_, hpair l hl⟩
    rcases List.mem_cons.mp hl with rfl | hl
    · rintro rfl
      cases hstart
    · exact hfilled l hl
  have hfieldLines : fieldLines (headText (line' :: lines')) = lines' := by
    rw [fieldLines, splitPair_section hpair, List.cons_append, List.tail_cons,
      takeWhile_lines hfilled]
  rw [hfieldLines] at hlines
  have hcheck := forall₂_rawField hlines
  rw [rawFields_headText hfilled' hcheck] at hne hlength hhost hcodings
  generalize lines'.filterMap rawField = fields at hcheck hne hlength hhost hcodings
  have hparse : ∀ value ∈ fieldValues fields HeaderKeys.contentLength,
      parseU64 value = some length := fun value hvalue => (hlength value hvalue).parseU64
  refine ⟨{ Request.new method target with
    version := version
    headers := Headers.empty.appendAll fields
    body := .fixed length }, parseRequestHead_ok_iff.mpr ⟨line', lines', fields, rest, rfl, rfl,
      ⟨hfilled', hutf, hlimit⟩, hshort, hstart, hcheck, ⟨hhost, ?_, ?_⟩, ?_, rfl, rfl, rfl⟩⟩
  · exact ⟨length, fun value hvalue => parseContentLength_of_parseU64 (hparse value hvalue)⟩
  · simp [hcodings]
  · refine ⟨by simp [hcodings], by simp, fun k => ?_, by simp [hne]⟩
    constructor
    · rintro ⟨⟩
      exact ⟨hcodings, hne, hparse⟩
    · rintro ⟨-, -, hparse'⟩
      obtain ⟨v, hv⟩ := List.exists_mem_of_ne_nil _ hne
      have heq := (hparse v hv).symm.trans (hparse' v hv)
      rw [Option.some.inj heq]

/-- The lengths of a head that is framed by them are digits if and only if none has a sign;
and lengths that are digits of one value are accepted wherever the rest of the head is. -/
theorem parseRequestHead_contentLength_iff (buffer : Bytes) (length n : Nat) :
    (∀ request, parseRequestHead buffer = .ok (request, .fixed length, n) →
      ((∀ value ∈ fieldValues (rawFields (buffer.take n)) HeaderKeys.contentLength,
          IsLength value length) ↔
        ∀ value ∈ fieldValues (rawFields (buffer.take n)) HeaderKeys.contentLength,
          value.head? ≠ some 43)) ∧
    (AcceptableButLength buffer n →
      fieldValues (rawFields (buffer.take n)) HeaderKeys.contentLength ≠ [] →
      (∀ value ∈ fieldValues (rawFields (buffer.take n)) HeaderKeys.contentLength,
        IsLength value length) →
        ∃ request, parseRequestHead buffer = .ok (request, .fixed length, n)) := by
  refine ⟨?_, fun h => h.accepted⟩
  intro request h
  obtain ⟨line, lines, hhead⟩ := isHead_rawFields h
  have hframed := hhead.framed
  obtain ⟨-, -, hparse⟩ := (hframed.fixed length).mp rfl
  constructor
  · exact fun hlength value hvalue => (hlength value hvalue).head?_ne
  · exact fun hsign value hvalue => (parseU64_ok_iff (hsign value hvalue)).mp (hparse value hvalue)

def signedLength : Bytes := ascii "POST / HTTP/1.1\r\nHost: a\r\nContent-Length: +2\r\n\r\nhi"

theorem parseRequestHead_signedLength :
    ∃ request n, parseRequestHead signedLength = .ok (request, .fixed 2, n) ∧
      ¬ ∀ value ∈ fieldValues (rawFields (signedLength.take n)) HeaderKeys.contentLength,
        IsLength value 2 := by
  have hcheck : ∃ p ∈ (parseRequestHead signedLength).toOption, p.2.1 = .fixed 2 ∧
      ascii "+2" ∈
        fieldValues (rawFields (signedLength.take p.2.2)) HeaderKeys.contentLength := by
    decide +kernel
  obtain ⟨⟨request, mode, n⟩, hparsed, hmode, hmem⟩ := hcheck
  obtain rfl : mode = .fixed 2 := hmode
  refine ⟨request, n, ok_of_mem_toOption hparsed, fun hall => ?_⟩
  exact (hall _ hmem).head?_ne rfl

/-- A request whose length is given twice, with a leading zero once. -/
def leadingZero : Bytes := ascii
  "POST / HTTP/1.1\r\nContent-Length: 02\r\nHost: a\r\ncontent-length:2 \r\n\r\nhi"

theorem parseRequestHead_contentLength_iff_leadingZero :
    ∃ request, parseRequestHead leadingZero = .ok (request, .fixed 2, 67) := by
  have hlength : IsLength (ascii "02") 2 ∧ IsLength (ascii "2") 2 :=
    ⟨⟨by decide, by decide +kernel, by decide +kernel, by decide⟩,
      ⟨by decide, by decide +kernel, by decide +kernel, by decide⟩⟩
  have hvalues : fieldValues (rawFields (leadingZero.take 67)) HeaderKeys.contentLength =
      [ascii "02", ascii "2"] := by decide +kernel
  have hlines : fieldLines (leadingZero.take 67) =
      [ascii "Content-Length: 02", ascii "Host: a", ascii "content-length:2 "] := by
    decide +kernel
  have hcheck : ∀ line ∈ fieldLines (leadingZero.take 67), ∃ f, checkFieldLine line = .ok f := by
    intro line hline
    rw [hlines, List.mem_cons, List.mem_cons, List.mem_singleton] at hline
    rcases hline with rfl | rfl | rfl
    · exact ⟨(HeaderKeys.contentLength, ascii "02"), by decide +kernel⟩
    · exact ⟨(HeaderKeys.host, ascii "a"), by decide +kernel⟩
    · exact ⟨(HeaderKeys.contentLength, ascii "2"), by decide +kernel⟩
  apply (parseRequestHead_contentLength_iff leadingZero 2 67).2
  · exact ⟨by decide +kernel, by decide +kernel, by decide +kernel,
      ⟨ascii "POST / HTTP/1.1", [ascii "Content-Length: 02", ascii "Host: a",
        ascii "content-length:2 ", [], []], (.post, .origin (ascii "/"), .http11),
        by decide +kernel, by decide +kernel, by decide +kernel⟩,
      hcheck, ⟨ascii "a", by decide +kernel, by decide +kernel⟩, by decide +kernel⟩
  · rw [hvalues]
    simp
  · rw [hvalues]
    simpa using hlength

end GooseHttp
