import GooseHttp.Encode
import GooseHttp.Parse.Decode
/-!
# Field lines read back

A field written as a name, a colon, a space and a value passes the checks of the
parser for header lines and for trailer lines, and comes back as it was written.
-/

namespace GooseHttp

open Lib

def fieldText (name value : Text) : Text := name ++ ascii ": " ++ value

theorem fieldLine_eq (name value : Text) : fieldLine name value = fieldText name value ++ CRLF :=
  rfl

/-- A value as field lines carry it: text without control characters other than
tabs, and without outer white space. -/
structure IsFieldValue (value : Text) : Prop where
  valid : containsInvalidHeaderValue value = false
  trimmed : trimOws value = value
  utf8 : utf8Valid value = true

instance (value : Text) : Decidable (IsFieldValue value) :=
  decidable_of_iff (containsInvalidHeaderValue value = false ∧ trimOws value = value ∧
    utf8Valid value = true) ⟨fun h => ⟨h.1, h.2.1, h.2.2⟩, fun h => ⟨h.valid, h.trimmed, h.utf8⟩⟩

theorem not_mem_of_valid {value : Text} {b : UInt8}
    (h : containsInvalidHeaderValue value = false)
    (hb : (b ≤ 8 || (10 ≤ b && b ≤ 31) || b = 127) = true) : b ∉ value := by
  intro hmem
  have hnot := List.any_eq_false.mp h b hmem
  exact hnot hb

theorem cr_not_mem_of_valid {value : Text} (h : containsInvalidHeaderValue value = false) :
    CR ∉ value := not_mem_of_valid h (by decide)

theorem isFieldName_iff (name : Text) : isFieldName name = isToken name := rfl

theorem splitHeaderLine_fieldText {name : Text} (value : Text) (hname : isToken name = true) :
    splitHeaderLine (fieldText name value) = .ok (name, 32 :: value) := by
  have hcolon : (58 : UInt8) ∉ name := not_mem_of_isToken hname (by decide)
  have htext : fieldText name value = name ++ 58 :: 32 :: value := by
    rw [fieldText, List.append_assoc]
    rfl
  rw [splitHeaderLine, htext, splitOnce_append _ hcolon]

theorem splitHeaderLine_ok {line name value : Text}
    (h : splitHeaderLine line = .ok (name, value)) :
    line = name ++ 58 :: value ∧ (58 : UInt8) ∉ name := by
  unfold splitHeaderLine at h
  split at h
  · rename_i pair hsplit
    cases h
    exact splitOnce_some hsplit
  · cases h

theorem trimOws_space {value : Text} (h : trimOws value = value) :
    trimOws (32 :: value) = value := by
  have hspace : ∀ c ∈ ([32] : Text), isOws c = true := by simp [isOws]
  have hpad := trimOws_pad hspace h (List.forall_mem_nil _)
  rwa [List.append_nil] at hpad

theorem checkTrailerLine_fieldText {name value : Text} (hname : isToken name = true)
    (hvalue : IsFieldValue value) :
    checkTrailerLine (fieldText name value) = .ok (HeaderName.new name, value) := by
  rw [checkTrailerLine, splitHeaderLine_fieldText value hname]
  simp only [isFieldName_iff, hname, trimOws_space hvalue.trimmed, hvalue.valid,
    Bool.not_true, Bool.false_eq_true, if_false]

theorem head?_of_isToken {name : Text} (rest : Text) (hname : isToken name = true) :
    ∃ b, isTchar b = true ∧ (name ++ rest).head? = some b := by
  obtain ⟨hne, hall⟩ := isToken_iff.mp hname
  cases name with
  | nil => exact absurd rfl hne
  | cons b name => exact ⟨b, hall b (by simp), rfl⟩

theorem checkTrailerLine_ok_iff {line : Text} {f : HeaderName × Text} :
    checkTrailerLine line = .ok f ↔
      ∃ name value, line = name ++ 58 :: value ∧ isToken name = true ∧
        containsInvalidHeaderValue (trimOws value) = false ∧
          f = (HeaderName.new name, trimOws value) := by
  constructor
  · intro h
    unfold checkTrailerLine at h
    split at h
    · cases h
    · rename_i name value hsplit
      have hline := (splitHeaderLine_ok hsplit).1
      split at h
      · cases h
      · rename_i hname
        dsimp only at h
        split at h
        · cases h
        · rename_i hvalid
          cases h
          rw [Bool.not_eq_true', Bool.not_eq_false] at hname
          exact ⟨name, value, hline, hname, (Bool.not_eq_true _).mp hvalid, rfl⟩
  · rintro ⟨name, value, rfl, hname, hvalid, rfl⟩
    have hcolon : (58 : UInt8) ∉ name := not_mem_of_isToken hname (by decide)
    rw [checkTrailerLine, splitHeaderLine, splitOnce_append _ hcolon]
    simp only [isFieldName_iff, hname, hvalid, Bool.not_true, Bool.false_eq_true, if_false]

theorem checkTrailerLine_ne_ok_of_folded {line : Text} {f : HeaderName × Text}
    (hfold : (line.head? = some 32 || line.head? = some 9) = true) :
    checkTrailerLine line ≠ .ok f := by
  intro h
  obtain ⟨name, value, rfl, hname, -, -⟩ := checkTrailerLine_ok_iff.mp h
  obtain ⟨b, hb, hhead⟩ := head?_of_isToken (58 :: value) hname
  rw [hhead] at hfold
  simp only [Option.some.injEq, Bool.or_eq_true, decide_eq_true_eq] at hfold
  rcases hfold with rfl | rfl
  · exact absurd hb (by decide)
  · exact absurd hb (by decide)

theorem checkFieldLine_ok_iff_trailer {line : Text} {f : HeaderName × Text} :
    checkFieldLine line = .ok f ↔
      line.length ≤ LINE_LIMIT ∧ checkTrailerLine line = .ok f := by
  unfold checkFieldLine
  by_cases hlong : LINE_LIMIT < line.length
  · rw [if_pos hlong]
    simp only [reduceCtorEq, false_iff, not_and]
    omega
  · have hlen : line.length ≤ LINE_LIMIT := by omega
    simp only [if_neg hlong, hlen, true_and]
    by_cases hfold : (line.head? = some 32 || line.head? = some 9) = true
    · rw [if_pos hfold]
      simp only [reduceCtorEq, false_iff]
      exact checkTrailerLine_ne_ok_of_folded hfold
    · rw [if_neg hfold, checkTrailerLine]
      cases hsplit : splitHeaderLine line with
      | error e => exact Iff.rfl
      | ok pair =>
          obtain ⟨name, value⟩ := pair
          -- the second length check of a header line can not fail behind the first one
          have hvalue : ¬ LINE_LIMIT < (trimOws value).length := by
            have hline := (splitHeaderLine_ok hsplit).1
            have htrim := length_trimOws_le value
            have hcount := congrArg List.length hline
            rw [List.length_append, List.length_cons] at hcount
            omega
          simp only [if_neg hvalue]

/-- A field line that passes is a token, a colon and a value without control characters. -/
theorem checkFieldLine_ok_iff {line : Text} {f : HeaderName × Text} :
    checkFieldLine line = .ok f ↔
      ∃ name value, line = name ++ 58 :: value ∧ isToken name = true ∧
        line.length ≤ LINE_LIMIT ∧ containsInvalidHeaderValue (trimOws value) = false ∧
          f = (HeaderName.new name, trimOws value) := by
  rw [checkFieldLine_ok_iff_trailer, checkTrailerLine_ok_iff]
  constructor
  · rintro ⟨hlen, name, value, hline, hname, hvalid, hf⟩
    exact ⟨name, value, hline, hname, hlen, hvalid, hf⟩
  · rintro ⟨name, value, hline, hname, hlen, hvalid, hf⟩
    exact ⟨hlen, name, value, hline, hname, hvalid, hf⟩

theorem checkFieldLine_fieldText {name value : Text} (hname : isToken name = true)
    (hvalue : IsFieldValue value) (hlen : (fieldText name value).length ≤ LINE_LIMIT) :
    checkFieldLine (fieldText name value) = .ok (HeaderName.new name, value) := by
  have htrim := trimOws_space hvalue.trimmed
  have hline : fieldText name value = name ++ 58 :: 32 :: value := by
    rw [fieldText, List.append_assoc]
    rfl
  apply checkFieldLine_ok_iff.mpr
  exact ⟨name, 32 :: value, hline, hname, hlen, by rw [htrim, hvalue.valid], by rw [htrim]⟩

theorem utf8Valid_of_isToken {name : Text} (h : isToken name = true) :
    utf8Valid name = true :=
  utf8Valid_of_ascii fun b hb =>
    ascii_of_isGraphic (isGraphic_of_isTchar ((isToken_iff.mp h).2 b hb))

theorem utf8Valid_fieldText {name value : Text} (hname : isToken name = true)
    (hvalue : IsFieldValue value) : utf8Valid (fieldText name value) = true := by
  have hcolon : utf8Valid (ascii ": ") = true := by decide
  exact utf8Valid_append (utf8Valid_append (utf8Valid_of_isToken hname) hcolon) hvalue.utf8

theorem cr_not_mem_fieldText {name value : Text} (hname : isToken name = true)
    (hvalue : containsInvalidHeaderValue value = false) : CR ∉ fieldText name value := by
  have hn : CR ∉ name := not_mem_of_isToken hname (by decide)
  have hc : CR ∉ ascii ": " := by decide
  simp only [fieldText, List.mem_append, not_or]
  exact ⟨⟨hn, hc⟩, cr_not_mem_of_valid hvalue⟩

theorem fieldText_ne_nil (name value : Text) : fieldText name value ≠ [] := by
  have h : ascii ": " ≠ [] := by decide
  simp [fieldText, h]

theorem fieldOf_fieldText {name value : Text} (hname : isToken name = true)
    (hvalue : IsFieldValue value) :
    chunkGrammar.fieldOf (fieldText name value) = .ok (HeaderName.new name, value) := by
  have hutf := utf8Valid_fieldText hname hvalue
  have hdef : chunkGrammar.fieldOf (fieldText name value) =
      (checkTrailerLine (fieldText name value)).mapError .invalidTrailer := if_pos hutf
  rw [hdef, checkTrailerLine_fieldText hname hvalue]
  rfl

def namedField (f : Text × Text) : HeaderName × Text := (HeaderName.new f.1, f.2)

theorem fields_fieldLines {fields : List (Text × Text)} (rest : Bytes)
    (h : ∀ f ∈ fields, isToken f.1 = true ∧ IsFieldValue f.2) :
    chunkGrammar.fields (fields.flatMap (fun f => fieldLine f.1 f.2) ++ CRLF ++ rest) =
      .ok ⟨[], fields.map namedField, rest⟩ := by
  let lines := fields.map fun f => (fieldText f.1 f.2, namedField f)
  have hlines : ∀ p ∈ lines, CR ∉ p.1 ∧ p.1 ≠ [] ∧ chunkGrammar.fieldOf p.1 = .ok p.2 := by
    intro p hp
    obtain ⟨f, hf, rfl⟩ := List.mem_map.mp hp
    obtain ⟨hname, hvalue⟩ := h f hf
    exact ⟨cr_not_mem_fieldText hname hvalue.valid, fieldText_ne_nil _ _,
      fieldOf_fieldText hname hvalue⟩
  have hencode := chunkGrammar.fields_encode rest hlines
  rw [ChunkGrammar.encodeFields, chunkGrammar_lineEnd] at hencode
  simpa [lines, List.flatMap_map, List.map_map, Function.comp_def, fieldLine_eq] using hencode

end GooseHttp
