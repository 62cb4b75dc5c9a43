import GooseHttp.Parse.FieldLine
import GooseHttp.Parse.HeadFraming
/-!
# Trailer lines and header lines

The loop over header lines and the one over trailer lines check a line by copies of the
same tests, but only the first bounds the length of a line.  On a line of a field that is
not about framing the two agree exactly up to that bound.
-/

namespace GooseHttp

open Lib

def notedFields : List HeaderName :=
  [HeaderKeys.host, HeaderKeys.contentLength, HeaderKeys.transferEncoding]

def IsPlainLine (line : Text) : Prop :=
  ∀ name value, splitHeaderLine line = .ok (name, value) → HeaderName.new name ∉ notedFields

def IsFieldSyntax (line : Text) : Prop :=
  ∃ name value, line = name ++ 58 :: value ∧ isToken name = true ∧
    containsInvalidHeaderValue (trimOws value) = false

/-- Both loops take a line or neither does, and where both take it they append the same
field. -/
def TreatedAlike (st : HeadState) (r : ChunkedBodyReader) (line : Text) : Prop :=
  ((∃ st', headerLine st line = .ok st') ↔ ∃ r', r.round = .next r') ∧
    ∀ st' r', headerLine st line = .ok st' → r.round = .next r' →
      ∃ name value, st'.headers = st.headers.append name value ∧
        r'.trailers = r.trailers.append name value

theorem readLine_buffered {line : Bytes} (rest : Bytes) (incoming : List ReadEvent)
    (hcrlf : ¬ CRLF <:+: line) (hutf : utf8Valid line = true) :
    readLine ⟨line ++ CRLF ++ rest, incoming⟩ = (.ok line, ⟨rest, incoming⟩) := by
  have hfind : findCrlf (line ++ CRLF ++ rest) = some line.length :=
    findWindow_append_pair (by decide) rest hcrlf
  have htake : (line ++ CRLF ++ rest).take line.length = line := by
    rw [List.append_assoc, List.take_left]
  have hdrop : (line ++ CRLF ++ rest).drop (line.length + 2) = rest := by
    have hlen : (line ++ CRLF).length = line.length + 2 := by simp [CRLF]
    rw [← hlen, List.drop_left]
  apply readLineLoop.run_done
  change readLineRound _ = _
  rw [readLineRound]
  dsimp only
  rw [hfind]
  simp only [htake, hutf, if_true, Input.advance, hdrop]

/-! ## What each loop does with a line -/

theorem isFieldSyntax_iff (line : Text) :
    IsFieldSyntax line ↔ ∃ f, checkTrailerLine line = .ok f := by
  constructor
  · rintro ⟨name, value, hline, hname, hvalid⟩
    exact ⟨_, checkTrailerLine_ok_iff.mpr ⟨name, value, hline, hname, hvalid, rfl⟩⟩
  · rintro ⟨f, hcheck⟩
    obtain ⟨name, value, hline, hname, hvalid, -⟩ := checkTrailerLine_ok_iff.mp hcheck
    exact ⟨name, value, hline, hname, hvalid⟩

theorem IsPlainLine.not_noted {line : Text} {f : HeaderName × Text} (h : IsPlainLine line)
    (hcheck : checkTrailerLine line = .ok f) : f.1 ∉ notedFields := by
  obtain ⟨name, value, hline, hname, -, rfl⟩ := checkTrailerLine_ok_iff.mp hcheck
  have hcolon : (58 : UInt8) ∉ name := not_mem_of_isToken hname (by decide)
  apply h name value
  rw [hline, splitHeaderLine, splitOnce_append _ hcolon]

theorem noteField_of_not_noted (st : HeadState) {name : HeaderName} (value : Text)
    (h : name ∉ notedFields) : noteField st name value = .ok st := by
  simp only [notedFields, List.mem_cons, List.not_mem_nil, or_false, not_or] at h
  obtain ⟨hhost, hlength, hcoding⟩ := h
  exact noteField_ok_iff.mpr (Or.inr (Or.inr (Or.inr ⟨hhost, hlength, hcoding, rfl⟩)))

theorem headerLine_ok_iff_of_plain {st st' : HeadState} {line : Text} (h : IsPlainLine line) :
    headerLine st line = .ok st' ↔
      ∃ f, line.length ≤ LINE_LIMIT ∧ checkTrailerLine line = .ok f ∧
        st' = { st with headers := st.headers.append f.1 f.2 } := by
  constructor
  · intro hline
    unfold headerLine at hline
    split at hline
    · cases hline
    · rename_i name value hcheck
      obtain ⟨hlen, htrailer⟩ := checkFieldLine_ok_iff_trailer.mp hcheck
      rw [noteField_of_not_noted st value (h.not_noted htrailer)] at hline
      cases hline
      exact ⟨(name, value), hlen, htrailer, rfl⟩
  · rintro ⟨f, hlen, htrailer, rfl⟩
    have hcheck := checkFieldLine_ok_iff_trailer.mpr ⟨hlen, htrailer⟩
    have hnote := noteField_of_not_noted st f.2 (h.not_noted htrailer)
    simp only [headerLine, hcheck, hnote]

theorem round_next_iff_of_trailer {r r' : ChunkedBodyReader} {line : Text} {input : Input}
    (hstate : r.state = .readingTrailers) (hread : readLine r.input = (.ok line, input))
    (hne : line ≠ []) :
    r.round = .next r' ↔
      ∃ f, checkTrailerLine line = .ok f ∧
        r' = { r with input := input, trailers := r.trailers.append f.1 f.2 } := by
  simp only [ChunkedBodyReader.round, hstate, hread, if_neg hne]
  cases checkTrailerLine line with
  | error e => simp
  | ok f => simp [eq_comm]

/-! ## Where they agree -/

/-- The two loops treat a line alike exactly when it is no longer than the limit of header
lines or is no field line in the first place. -/
theorem treatedAlike_iff (st : HeadState) {r : ChunkedBodyReader} {line : Text} {input : Input}
    (hstate : r.state = .readingTrailers) (hread : readLine r.input = (.ok line, input))
    (hne : line ≠ []) (hplain : IsPlainLine line) :
    TreatedAlike st r line ↔ line.length ≤ LINE_LIMIT ∨ ¬ IsFieldSyntax line := by
  have hheader := fun st' => @headerLine_ok_iff_of_plain st st' line hplain
  have htrailer := fun r' => @round_next_iff_of_trailer r r' line input hstate hread hne
  simp only [TreatedAlike, hheader, htrailer, isFieldSyntax_iff]
  constructor
  · rintro ⟨hboth, -⟩
    by_contra hnot
    rw [not_or, not_not] at hnot
    obtain ⟨hlong, f, hf⟩ := hnot
    obtain ⟨-, -, hlen, -, -⟩ := hboth.mpr ⟨_, f, hf, rfl⟩
    exact hlong hlen
  · intro hcase
    have hlen : ∀ f, checkTrailerLine line = .ok f → line.length ≤ LINE_LIMIT :=
      fun f hf => hcase.resolve_right (not_not_intro ⟨f, hf⟩)
    refine ⟨⟨?_, ?_⟩, ?_⟩
    · rintro ⟨st', f, -, hf, -⟩
      exact ⟨_, f, hf, rfl⟩
    · rintro ⟨r', f, hf, -⟩
      exact ⟨_, f, hlen f hf, hf, rfl⟩
    · rintro st' r' ⟨f, -, hf, rfl⟩ ⟨g, hg, rfl⟩
      have heq : f = g := Except.ok.inj (hf.symm.trans hg)
      exact ⟨f.1, f.2, rfl, by rw [heq]⟩

theorem isPlainLine_append {name : Text} (value : Text) (hcolon : (58 : UInt8) ∉ name)
    (hnoted : HeaderName.new name ∉ notedFields) : IsPlainLine (name ++ 58 :: value) := by
  intro name' value' hsplit
  rw [splitHeaderLine, splitOnce_append _ hcolon, Except.ok.injEq, Prod.mk.injEq] at hsplit
  obtain ⟨rfl, -⟩ := hsplit
  exact hnoted

def trailerReader (line : Text) : ChunkedBodyReader :=
  { ChunkedBodyReader.new ⟨line ++ CRLF ++ CRLF, []⟩ with state := .readingTrailers }

theorem treatedAlike_iff_digest :
    TreatedAlike .start (trailerReader (ascii "digest: a")) (ascii "digest: a") := by
  have hplain : IsPlainLine (ascii "digest: a") :=
    @isPlainLine_append (ascii "digest") (ascii " a") (by decide) (by decide)
  have hread := @readLine_buffered (ascii "digest: a") CRLF [] (by decide) (by decide)
  apply (treatedAlike_iff .start rfl hread (by decide) hplain).mpr
  left
  decide

def oversizedField : Text := ascii "x" ++ 58 :: List.replicate LINE_LIMIT 97

theorem isGraphic_longValue : ∀ b ∈ List.replicate LINE_LIMIT (97 : UInt8),
    isGraphic b = true := by
  intro b hb
  rw [List.eq_of_mem_replicate hb]
  decide

theorem isGraphic_oversizedField : ∀ b ∈ oversizedField, isGraphic b = true := by
  intro b hb
  rw [oversizedField, List.mem_append, List.mem_cons] at hb
  rcases hb with hx | rfl | hvalue
  · have htoken : isToken (ascii "x") = true := by decide
    exact isGraphic_of_isTchar ((isToken_iff.mp htoken).2 b hx)
  · decide
  · exact isGraphic_longValue b hvalue

theorem checkTrailerLine_oversizedField : ∃ f, checkTrailerLine oversizedField = .ok f := by
  have hvalid : containsInvalidHeaderValue (trimOws (List.replicate LINE_LIMIT 97)) = false := by
    rw [trimOws_graphic isGraphic_longValue, containsInvalidHeaderValue, List.any_eq_false]
    intro b hb
    rw [List.eq_of_mem_replicate hb]
    decide
  apply (isFieldSyntax_iff oversizedField).mp
  exact ⟨ascii "x", List.replicate LINE_LIMIT 97, rfl, by decide, hvalid⟩

/-- The loop over trailers takes a line that the loop over headers finds too long. -/
theorem treatedAlike_oversizedField :
    ∃ line, ¬ CRLF <:+: line ∧ line ≠ [] ∧ utf8Valid line = true ∧ IsPlainLine line ∧
      readLine (trailerReader line).input = (.ok line, ⟨CRLF, []⟩) ∧
        ¬ TreatedAlike .start (trailerReader line) line := by
  have hgraphic := isGraphic_oversizedField
  have hcrlf : ¬ CRLF <:+: oversizedField := by
    intro h
    have hcr := hgraphic CR (h.subset (by decide))
    exact absurd hcr (by decide)
  have hutf : utf8Valid oversizedField = true :=
    utf8Valid_of_ascii fun b hb => ascii_of_isGraphic (hgraphic b hb)
  have hplain : IsPlainLine oversizedField :=
    isPlainLine_append (List.replicate LINE_LIMIT 97) (by decide) (by decide)
  have hread := readLine_buffered CRLF [] hcrlf hutf
  have hne : oversizedField ≠ [] := List.append_ne_nil_of_right_ne_nil _ (List.cons_ne_nil _ _)
  refine ⟨oversizedField, hcrlf, hne, hutf, hplain, hread, ?_⟩
  rintro ⟨hboth, -⟩
  obtain ⟨f, hcheck⟩ := checkTrailerLine_oversizedField
  have htaken := (round_next_iff_of_trailer (r := trailerReader oversizedField) rfl hread hne).mpr
    ⟨f, hcheck, rfl⟩
  obtain ⟨st', hline⟩ := hboth.mpr ⟨_, htaken⟩
  obtain ⟨-, hlen, -, -⟩ := (headerLine_ok_iff_of_plain hplain).mp hline
  rw [oversizedField, List.length_append, List.length_cons, List.length_replicate] at hlen
  omega

end GooseHttp
