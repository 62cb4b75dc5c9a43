import GooseHttp.Parse.AcceptedHead
import GooseHttp.Trim
/-!
# Transfer codings of an accepted head

The codings of a head are cut at commas and trimmed of every white-space character, while
field values are trimmed of spaces and tabs.  An accepted list is one of the grammar as
long as it is ASCII.
-/

namespace GooseHttp

open Lib

def codingValues (head : Text) : List Text :=
  fieldValues (rawFields head) HeaderKeys.transferEncoding

/-- Every element of a value is a token, with nothing but spaces and tabs around it. -/
def IsCodingList (value : Text) : Prop :=
  ∀ piece ∈ splitAll 44 value, isToken (trimOws piece) = true

instance (value : Text) : Decidable (IsCodingList value) :=
  inferInstanceAs (Decidable (∀ piece ∈ splitAll 44 value, isToken (trimOws piece) = true))

def LastIsChunked (values : List Text) : Prop :=
  ∃ value piece, values.getLast? = some value ∧ (splitAll 44 value).getLast? = some piece ∧
    isChunkedCoding (trimOws piece) = true

theorem ascii_or_graphic_of_valid : ∀ {b : UInt8}, b < 0x80 →
    (b ≤ 8 || (10 ≤ b && b ≤ 31) || b = 127) = false → isOws b = true ∨ isGraphic b = true := by
  decide +kernel

theorem plain_of_valid {value : Text} (hvalid : containsInvalidHeaderValue value = false)
    (hascii : ∀ b ∈ value, b < 0x80) : ∀ b ∈ value, isOws b = true ∨ isGraphic b = true :=
  fun b hb => ascii_or_graphic_of_valid (hascii b hb) ((Bool.not_eq_true _).mp
    (List.any_eq_false.mp hvalid b hb))

theorem trimOws_piece {value piece : Text} (hvalid : containsInvalidHeaderValue value = false)
    (hascii : ∀ b ∈ value, b < 0x80) (hpiece : piece ∈ splitAll 44 value) :
    trimOws piece = trim piece :=
  trimOws_eq_trim fun b hb =>
    plain_of_valid hvalid hascii b ((sublist_of_mem_splitAll hpiece).subset hb)

theorem IsCodingList.ascii {value : Text} (h : IsCodingList value) : ∀ b ∈ value, b < 0x80 := by
  intro b hb
  by_cases hcomma : b = 44
  · rw [hcomma]
    decide
  · obtain ⟨piece, hpiece, hmem⟩ := mem_splitAll_of_mem hb hcomma
    obtain ⟨ows, ows', heq, hows, hows'⟩ := trimOws_eq piece
    rw [heq, List.mem_append, List.mem_append] at hmem
    rcases hmem with (hmem | hmem) | hmem
    · exact ascii_of_isOws (hows b hmem)
    · exact ascii_of_isGraphic (isGraphic_of_isTchar ((isToken_iff.mp (h piece hpiece)).2 b hmem))
    · exact ascii_of_isOws (hows' b hmem)

section Accepted

variable {line : Text} {lines : List Text} {fields : List (HeaderName × Text)}
  {request : Request} {mode : BodyMode}

theorem IsHead.valid_of_mem (h : IsHead line lines fields request mode) {name : HeaderName}
    {value : Text} (hmem : (name, value) ∈ fields) : containsInvalidHeaderValue value = false := by
  obtain ⟨l, -, hcheck⟩ := exists_line_of_mem h.checked hmem
  obtain ⟨n, v, -, -, -, hvalid, heq⟩ := checkFieldLine_ok_iff.mp hcheck
  cases heq
  exact hvalid

theorem IsHead.tokens (h : IsHead line lines fields request mode) {value : Text}
    (hvalue : value ∈ fieldValues fields HeaderKeys.transferEncoding) :
    ∀ piece ∈ splitAll 44 value, isToken (trim piece) = true := by
  obtain ⟨codings, hparse⟩ := h.acceptable.codings value hvalue
  have htokens := (parseTransferEncoding_ok_iff.mp hparse).1
  exact fun piece hpiece => htokens (trim piece) (List.mem_map_of_mem hpiece)

theorem IsHead.last_chunked (h : IsHead line lines fields request .chunked) :
    ∃ value piece, (fieldValues fields HeaderKeys.transferEncoding).getLast? = some value ∧
      (splitAll 44 value).getLast? = some piece ∧ isChunkedCoding (trim piece) = true := by
  obtain ⟨⟨front, last, heq, hlast, -⟩, -⟩ := h.framed.coded rfl
  rcases List.eq_nil_or_concat (fieldValues fields HeaderKeys.transferEncoding) with
    hnil | ⟨values, value, hvalues⟩
  · rw [hnil] at heq
    simp at heq
  · rw [List.concat_eq_append] at hvalues
    obtain ⟨pieces, piece, hpieces⟩ :=
      (List.eq_nil_or_concat (splitAll 44 value)).resolve_left (splitAll_ne_nil 44 value)
    rw [List.concat_eq_append] at hpieces
    rw [hvalues, List.flatMap_append, List.flatMap_singleton, codingsOf, hpieces,
      List.map_append, List.map_singleton, ← List.append_assoc] at heq
    refine ⟨value, piece, by rw [hvalues, List.getLast?_concat], ?_, ?_⟩
    · rw [hpieces, List.getLast?_concat]
    · rw [(List.append_singleton_inj.mp heq).2]
      exact hlast

end Accepted

/-- The codings of an accepted chunked head are a list of the grammar that ends with
`chunked` if and only if they are ASCII. -/
theorem parseRequestHead_codings_iff {buffer : Bytes} {request : Request} {n : Nat}
    (h : parseRequestHead buffer = .ok (request, .chunked, n)) :
    ((∀ value ∈ codingValues (buffer.take n), IsCodingList value) ∧
      LastIsChunked (codingValues (buffer.take n))) ↔
    ∀ value ∈ codingValues (buffer.take n), ∀ b ∈ value, b < 0x80 := by
  obtain ⟨line, lines, hhead⟩ := isHead_rawFields h
  constructor
  · exact fun hlist value hvalue => (hlist.1 value hvalue).ascii
  · intro hascii
    have hsame : ∀ value ∈ codingValues (buffer.take n), ∀ piece ∈ splitAll 44 value,
        trimOws piece = trim piece := fun value hvalue piece hpiece =>
      trimOws_piece (hhead.valid_of_mem (mem_fieldValues.mp hvalue)) (hascii value hvalue) hpiece
    constructor
    · intro value hvalue piece hpiece
      rw [hsame value hvalue piece hpiece]
      exact hhead.tokens hvalue piece hpiece
    · obtain ⟨value, piece, hvalue, hpiece, hchunked⟩ := hhead.last_chunked
      refine ⟨value, piece, hvalue, hpiece, ?_⟩
      rw [hsame value (List.mem_of_getLast? hvalue) piece (List.mem_of_getLast? hpiece)]
      exact hchunked

/-- A head whose coding stands behind a no-break space. -/
def spacedCoding : Bytes :=
  ascii "POST / HTTP/1.1\r\nHost: a\r\nTransfer-Encoding: " ++ [0xC2, 0xA0] ++
    ascii "chunked\r\n\r\n"

theorem parseRequestHead_spacedCoding :
    ∃ request n, parseRequestHead spacedCoding = .ok (request, .chunked, n) ∧
      ¬ ∀ value ∈ codingValues (spacedCoding.take n), IsCodingList value := by
  have hcheck : ∃ p ∈ (parseRequestHead spacedCoding).toOption, p.2.1 = .chunked ∧
      0xC2 :: 0xA0 :: ascii "chunked" ∈ codingValues (spacedCoding.take p.2.2) := by
    decide +kernel
  obtain ⟨⟨request, mode, n⟩, hparsed, hmode, hmem⟩ := hcheck
  obtain rfl : mode = .chunked := hmode
  refine ⟨request, n, ok_of_mem_toOption hparsed, fun hall => ?_⟩
  exact absurd ((hall _ hmem).ascii 0xC2 (by simp)) (by decide)

def listedCodings : Bytes := ascii
  "POST / HTTP/1.1\r\nTransfer-Encoding: gzip ,\tx\r\nHost: a\r\nTransfer-Encoding: Chunked\r\n\r\n"

theorem parseRequestHead_codings_iff_listed :
    ∃ request n, parseRequestHead listedCodings = .ok (request, .chunked, n) ∧
      LastIsChunked (codingValues (listedCodings.take n)) := by
  have hcheck : ∃ p ∈ (parseRequestHead listedCodings).toOption, p.2.1 = .chunked ∧
      ∀ value ∈ codingValues (listedCodings.take p.2.2), ∀ b ∈ value, b < 0x80 := by
    decide +kernel
  obtain ⟨⟨request, mode, n⟩, hparsed, hmode, hascii⟩ := hcheck
  obtain rfl : mode = .chunked := hmode
  have hparse := ok_of_mem_toOption hparsed
  exact ⟨request, n, hparse, ((parseRequestHead_codings_iff hparse).mpr hascii).2⟩

end GooseHttp
