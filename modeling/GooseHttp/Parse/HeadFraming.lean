import GooseHttp.Parse.FieldLine
/-!
# How a head frames its body

What the header loop accumulates is a function of the field lines: `Notes` is its
invariant, kept by every round, and `determineBodyMode` decides on it.  The lines
are read off the bytes by `rawFields`, which knows nothing of the loop.
-/

namespace GooseHttp

open Lib

/-! ## The fields of a head, line by line -/

def rawField (line : Text) : Option (HeaderName × Text) :=
  (splitOnce 58 line).map fun p => (HeaderName.new p.1, trimOws p.2)

/-- The lines between the start line and the first empty line. -/
def fieldLines (head : Text) : List Text :=
  (splitPair CR LF head).tail.takeWhile fun line => line ≠ []

def rawFields (head : Text) : List (HeaderName × Text) := (fieldLines head).filterMap rawField

def codingsOf (value : Text) : List Text := (splitAll 44 value).map trim

theorem rawField_of_checkFieldLine {line : Text} {f : HeaderName × Text}
    (h : checkFieldLine line = .ok f) : rawField line = some f := by
  obtain ⟨name, value, rfl, hname, -, -, rfl⟩ := checkFieldLine_ok_iff.mp h
  have hcolon : (58 : UInt8) ∉ name := not_mem_of_isToken hname (by decide)
  rw [rawField, splitOnce_append _ hcolon]
  rfl

theorem ne_nil_of_checkFieldLine {line : Text} {f : HeaderName × Text}
    (h : checkFieldLine line = .ok f) : line ≠ [] := by
  obtain ⟨name, value, rfl, -⟩ := checkFieldLine_ok_iff.mp h
  simp

/-! ## The values a head can carry -/

theorem parseContentLength_ok {value : Text} {k : Nat} (h : parseContentLength value = .ok k) :
    parseU64 value = some k := by
  unfold parseContentLength at h
  split at h
  · cases h
  · split at h
    · rename_i length hlen
      cases h
      exact hlen
    · cases h

theorem parseContentLength_of_parseU64 {value : Text} {k : Nat} (h : parseU64 value = some k) :
    parseContentLength value = .ok k := by
  have hne : value ≠ [] := by
    rintro rfl
    cases h
  rw [parseContentLength, if_neg hne, h]

theorem parseCodings_ok {pieces codings : List Text} (h : parseCodings pieces = .ok codings) :
    codings = pieces.map (fun c => asciiLowercase (trim c)) ∧
      ∀ c ∈ pieces, isToken (trim c) = true := by
  induction pieces generalizing codings with
  | nil =>
      cases h
      exact ⟨rfl, by simp⟩
  | cons c pieces ih =>
      rw [parseCodings] at h
      split at h
      · cases h
      · rename_i htoken
        simp only [Bool.or_eq_true, decide_eq_true_eq, Bool.not_eq_true', not_or,
          Bool.not_eq_false] at htoken
        split at h
        · cases h
        · rename_i codings' hrest
          cases h
          obtain ⟨rfl, hall⟩ := ih hrest
          refine ⟨rfl, fun d hd => ?_⟩
          rcases List.mem_cons.mp hd with rfl | hd
          · exact htoken.2
          · exact hall d hd

theorem parseCodings_of_tokens {pieces : List Text}
    (h : ∀ c ∈ pieces, isToken (trim c) = true) :
    parseCodings pieces = .ok (pieces.map fun c => asciiLowercase (trim c)) := by
  induction pieces with
  | nil => rfl
  | cons c pieces ih =>
      have htoken := h c (by simp)
      have hne := (isToken_iff.mp htoken).1
      rw [parseCodings, ih fun d hd => h d (by simp [hd])]
      simp [htoken, hne]

theorem codingsOf_ne_nil (value : Text) : codingsOf value ≠ [] := by
  simp [codingsOf]

theorem parseTransferEncoding_ok_iff {value : Text} {codings : List Text} :
    parseTransferEncoding value = .ok codings ↔
      (∀ coding ∈ codingsOf value, isToken coding = true) ∧
        codings = (codingsOf value).map asciiLowercase := by
  have hlower : (codingsOf value).map asciiLowercase =
      (splitAll 44 value).map fun c => asciiLowercase (trim c) := by
    rw [codingsOf, List.map_map]
    rfl
  rw [codingsOf, List.forall_mem_map, ← codingsOf, hlower]
  constructor
  · intro h
    unfold parseTransferEncoding at h
    split at h
    · cases h
    · rename_i codings' hparse
      split at h
      · cases h
      · cases h
        obtain ⟨heq, htokens⟩ := parseCodings_ok hparse
        exact ⟨htokens, heq⟩
  · rintro ⟨htokens, rfl⟩
    rw [parseTransferEncoding, parseCodings_of_tokens htokens]
    dsimp only
    rw [if_neg (by simp)]

theorem isChunkedCoding_asciiLowercase (coding : Text) :
    isChunkedCoding (asciiLowercase coding) = isChunkedCoding coding := by
  simp [isChunkedCoding, eqIgnoreAsciiCase]

/-! ## The decision -/

/-- `chunked` stands at the end of a list of codings and nowhere else. -/
def ChunkedOnlyLast (codings : List Text) : Prop :=
  ∃ front last, codings = front ++ [last] ∧ isChunkedCoding last = true ∧
    ∀ coding ∈ front, isChunkedCoding coding = false

theorem positions_concat (front : List Text) (last : Text) :
    (((front ++ [last]).zipIdx.filter fun p => isChunkedCoding p.1).map Prod.snd) =
      ((front.zipIdx.filter fun p => isChunkedCoding p.1).map Prod.snd) ++
        (if isChunkedCoding last then [front.length] else []) := by
  rw [List.zipIdx_append, List.filter_append, List.map_append]
  congr 1
  cases hlast : isChunkedCoding last <;> simp [hlast]

theorem lt_of_mem_positions {codings : List Text} {i : Nat}
    (h : i ∈ (codings.zipIdx.filter fun p => isChunkedCoding p.1).map Prod.snd) :
    i < codings.length := by
  obtain ⟨p, hp, rfl⟩ := List.mem_map.mp h
  have hmem := List.mem_of_mem_filter hp
  have hlt := List.snd_lt_add_of_mem_zipIdx hmem
  omega

theorem positions_eq_nil_iff {codings : List Text} :
    (codings.zipIdx.filter fun p => isChunkedCoding p.1).map Prod.snd = [] ↔
      ∀ coding ∈ codings, isChunkedCoding coding = false := by
  rw [List.map_eq_nil_iff, List.filter_eq_nil_iff]
  constructor
  · intro h coding hc
    obtain ⟨i, hi, rfl⟩ := List.getElem_of_mem hc
    have hmem : (codings[i], i) ∈ codings.zipIdx := by
      rw [List.mk_mem_zipIdx_iff_getElem?, List.getElem?_eq_getElem hi]
    simpa using h _ hmem
  · intro h p hp
    simp [h p.1 (List.fst_mem_of_mem_zipIdx hp)]

theorem chunkedOnlyLast_concat {front : List Text} {last : Text} :
    ChunkedOnlyLast (front ++ [last]) ↔
      isChunkedCoding last = true ∧ ∀ coding ∈ front, isChunkedCoding coding = false := by
  constructor
  · rintro ⟨front', last', heq, hlast, hfront⟩
    obtain ⟨rfl, rfl⟩ := List.append_inj' heq rfl |>.imp id List.singleton_inj.mp
    exact ⟨hlast, hfront⟩
  · rintro ⟨hlast, hfront⟩
    exact ⟨front, last, rfl, hlast, hfront⟩

theorem positions_accepted_iff (front : List Text) (last : Text) :
    let positions := ((front ++ [last]).zipIdx.filter fun p => isChunkedCoding p.1).map Prod.snd
    (positions ≠ [] ∧ ¬ (1 < positions.length ∨
        positions.getLast? ≠ some ((front ++ [last]).length - 1))) ↔
      ChunkedOnlyLast (front ++ [last]) := by
  dsimp only
  rw [positions_concat, chunkedOnlyLast_concat, ← positions_eq_nil_iff]
  generalize hps : (front.zipIdx.filter fun p => isChunkedCoding p.1).map Prod.snd = positions
  have hlt : ∀ i ∈ positions, i < front.length := by
    intro i hi
    rw [← hps] at hi
    exact lt_of_mem_positions hi
  cases hlast : isChunkedCoding last with
  | true =>
      cases positions with
      | nil => simp
      | cons i positions => simp
  | false =>
      simp only [Bool.false_eq_true, if_false, List.append_nil, false_and, iff_false,
        not_and, not_not]
      intro hne
      right
      intro hlast?
      have hmem := List.mem_of_getLast? hlast?
      have := hlt _ hmem
      rw [List.length_append, List.length_singleton] at this
      omega

/-- What every decision rests on. -/
theorem determineBodyMode_ok_iff {contentLength : Option Nat} {codings : List Text}
    {mode : BodyMode} :
    determineBodyMode contentLength codings = .ok mode ↔
      (codings ≠ [] ∧ ChunkedOnlyLast codings ∧ contentLength = none ∧ mode = .chunked) ∨
      (codings = [] ∧ ∃ length, contentLength = some length ∧ mode = .fixed length) ∨
      (codings = [] ∧ contentLength = none ∧ mode = .none) := by
  rcases List.eq_nil_or_concat codings with rfl | ⟨front, last, rfl⟩
  · cases contentLength with
    | none =>
        constructor
        · rintro ⟨⟩
          exact Or.inr (Or.inr ⟨rfl, rfl, rfl⟩)
        · rintro (⟨hne, -⟩ | ⟨-, length, hlength, -⟩ | ⟨-, -, rfl⟩)
          · exact absurd rfl hne
          · cases hlength
          · rfl
    | some length =>
        constructor
        · rintro ⟨⟩
          exact Or.inr (Or.inl ⟨rfl, length, rfl, rfl⟩)
        · rintro (⟨hne, -⟩ | ⟨-, length', hlength, rfl⟩ | ⟨-, hlength, -⟩)
          · exact absurd rfl hne
          · cases hlength
            rfl
          · cases hlength
  · have hne : front ++ [last] ≠ [] := by simp
    have haccept := positions_accepted_iff front last
    dsimp only at haccept
    rw [List.concat_eq_append, determineBodyMode.eq_def, if_pos hne, ← haccept]
    simp only [hne, ne_eq, not_false_eq_true, true_and, false_and, or_false]
    generalize ((front ++ [last]).zipIdx.filter fun p => isChunkedCoding p.1).map Prod.snd =
      positions
    split
    · rename_i hnil
      simp [hnil]
    · rename_i hsome
      split
      · rename_i hbad
        constructor
        · intro h
          cases h
        · rintro ⟨⟨-, hgood⟩, -⟩
          exact absurd hbad hgood
      · rename_i hgood
        cases contentLength with
        | none =>
            constructor
            · rintro ⟨⟩
              exact ⟨⟨hsome, hgood⟩, rfl, rfl⟩
            · rintro ⟨-, -, rfl⟩
              rfl
        | some length =>
            constructor
            · intro h
              cases h
            · rintro ⟨-, hnone, -⟩
              cases hnone

/-! ## The header loop -/

/-- What the header loop has noted after the given fields. -/
structure HeadState.Notes (st : HeadState) (fields : List (HeaderName × Text)) : Prop where
  headers : st.headers = Headers.empty.appendAll fields
  host : (fieldValues fields HeaderKeys.host = [] ∧ st.hostSeen = false ∧ st.hostValue = none) ∨
    ∃ value, fieldValues fields HeaderKeys.host = [value] ∧ isValidHost value = true ∧
      st.hostSeen = true ∧ st.hostValue = some value
  length : (fieldValues fields HeaderKeys.contentLength = [] ∧ st.contentLength = none) ∨
    ∃ length, st.contentLength = some length ∧
      fieldValues fields HeaderKeys.contentLength ≠ [] ∧
        ∀ value ∈ fieldValues fields HeaderKeys.contentLength, parseU64 value = some length
  codings : st.transferEncodings =
    (fieldValues fields HeaderKeys.transferEncoding).flatMap fun value =>
      (codingsOf value).map asciiLowercase

theorem HeadState.notes_start : HeadState.start.Notes [] where
  headers := rfl
  host := Or.inl ⟨rfl, rfl, rfl⟩
  length := Or.inl ⟨rfl, rfl⟩
  codings := rfl

theorem hostKey_ne : HeaderKeys.host ≠ HeaderKeys.contentLength ∧
    HeaderKeys.host ≠ HeaderKeys.transferEncoding ∧
      HeaderKeys.contentLength ≠ HeaderKeys.transferEncoding := by
  decide

theorem noteField_ok_iff {st st' : HeadState} {name : HeaderName} {value : Text} :
    noteField st name value = .ok st' ↔
      (name = HeaderKeys.host ∧ st.hostSeen = false ∧ isValidHost value = true ∧
        st' = { st with hostSeen := true, hostValue := some value }) ∨
      (name = HeaderKeys.contentLength ∧ ∃ length, parseContentLength value = .ok length ∧
        ((st.contentLength = none ∧ st' = { st with contentLength := some length }) ∨
          (st.contentLength = some length ∧ st' = st))) ∨
      (name = HeaderKeys.transferEncoding ∧ ∃ codings,
        parseTransferEncoding value = .ok codings ∧
          st' = { st with transferEncodings := st.transferEncodings ++ codings }) ∨
      (name ≠ HeaderKeys.host ∧ name ≠ HeaderKeys.contentLength ∧
        name ≠ HeaderKeys.transferEncoding ∧ st' = st) := by
  obtain ⟨hhl, hht, hlt⟩ := hostKey_ne
  unfold noteField
  by_cases hhost : name = HeaderKeys.host
  · subst hhost
    simp only [if_true, hhl, hht, false_and, or_false, true_and, ne_eq, not_true_eq_false]
    cases hseen : st.hostSeen with
    | true => simp
    | false =>
        cases hvalid : isValidHost value with
        | true => simp [eq_comm]
        | false => simp
  · by_cases hlength : name = HeaderKeys.contentLength
    · subst hlength
      simp only [Ne.symm hhl, if_true, if_false, hlt, false_and, false_or, or_false, true_and,
        ne_eq, not_true_eq_false, not_false_eq_true, and_false]
      cases parseContentLength value with
      | error e => simp
      | ok length =>
          cases hst : st.contentLength with
          | none => simp [eq_comm]
          | some existing =>
              by_cases heq : existing = length
              · simp [heq, eq_comm]
              · simp [heq]
    · by_cases hcoding : name = HeaderKeys.transferEncoding
      · subst hcoding
        simp only [Ne.symm hht, Ne.symm hlt, if_true, if_false, false_and, false_or, or_false,
          true_and, ne_eq, not_true_eq_false, not_false_eq_true, and_false]
        cases parseTransferEncoding value with
        | error e => simp
        | ok codings => simp [eq_comm]
      · simp only [hhost, hlength, hcoding, if_false, false_and, false_or, ne_eq,
          not_false_eq_true, true_and, Except.ok.injEq]
        exact eq_comm

theorem noteField_notes {st st' : HeadState} {fields : List (HeaderName × Text)}
    {name : HeaderName} {value : Text} (hst : st.Notes fields)
    (h : noteField st name value = .ok st') :
    ({ st' with headers := st'.headers.append name value } : HeadState).Notes
      (fields ++ [(name, value)]) := by
  obtain ⟨hhl, hht, hlt⟩ := hostKey_ne
  have happend : Headers.empty.appendAll (fields ++ [(name, value)]) =
      (Headers.empty.appendAll fields).append name value := by
    rw [Headers.appendAll_append]
    rfl
  rcases noteField_ok_iff.mp h with ⟨rfl, hseen, hvalid, rfl⟩ | ⟨rfl, length, hparse, hcase⟩ |
    ⟨rfl, codings, hparse, rfl⟩ | ⟨hhost, hlength, hcoding, rfl⟩
  · refine ⟨?_, ?_, ?_, ?_⟩
    · rw [happend, ← hst.headers]
    · right
      rcases hst.host with ⟨hnil, -, -⟩ | ⟨v, -, -, hseen', -⟩
      · exact ⟨value, by simp [hnil], hvalid, rfl, rfl⟩
      · rw [hseen] at hseen'
        cases hseen'
    · simpa [fieldValues_cons_of_ne value [] hhl] using hst.length
    · simpa [fieldValues_cons_of_ne value [] hht] using hst.codings
  · have hparse := parseContentLength_ok hparse
    have hkeep : st'.headers = st.headers ∧ st'.hostSeen = st.hostSeen ∧
        st'.hostValue = st.hostValue ∧ st'.transferEncodings = st.transferEncodings ∧
          st'.contentLength = some length := by
      rcases hcase with ⟨-, rfl⟩ | ⟨hsome, rfl⟩
      · exact ⟨rfl, rfl, rfl, rfl, rfl⟩
      · exact ⟨rfl, rfl, rfl, rfl, hsome⟩
    obtain ⟨hheaders, hseen, hvalue, hcodings, hlength⟩ := hkeep
    refine ⟨?_, ?_, ?_, ?_⟩
    · rw [happend, ← hst.headers, hheaders]
    · simpa [fieldValues_cons_of_ne value [] (Ne.symm hhl), hseen, hvalue] using hst.host
    · refine Or.inr ⟨length, hlength, by simp, ?_⟩
      intro v hv
      rw [fieldValues_append, List.mem_append] at hv
      rcases hv with hv | hv
      · rcases hst.length with ⟨hnil, -⟩ | ⟨existing, hexisting, -, hall⟩
        · rw [hnil] at hv
          cases hv
        · have heq : existing = length := by
            rcases hcase with ⟨hnone, -⟩ | ⟨hsome, -⟩
            · rw [hexisting] at hnone
              cases hnone
            · rw [hexisting] at hsome
              exact Option.some.inj hsome
          rw [← heq]
          exact hall v hv
      · rw [fieldValues_cons_self, fieldValues_nil, List.mem_singleton] at hv
        rw [hv]
        exact hparse
    · simpa [fieldValues_cons_of_ne value [] hlt, hcodings] using hst.codings
  · refine ⟨?_, ?_, ?_, ?_⟩
    · rw [happend, ← hst.headers]
    · simpa [fieldValues_cons_of_ne value [] (Ne.symm hht)] using hst.host
    · simpa [fieldValues_cons_of_ne value [] (Ne.symm hlt)] using hst.length
    · rw [hst.codings, (parseTransferEncoding_ok_iff.mp hparse).2]
      simp
  · refine ⟨?_, ?_, ?_, ?_⟩
    · rw [happend, ← hst.headers]
    · simpa [fieldValues_cons_of_ne value [] hhost] using hst.host
    · simpa [fieldValues_cons_of_ne value [] hlength] using hst.length
    · simpa [fieldValues_cons_of_ne value [] hcoding] using hst.codings

theorem takeWhile_lines {lines more : List Text} (hne : ∀ line ∈ lines, line ≠ []) :
    (lines ++ [] :: more).takeWhile (fun line => line ≠ []) = lines := by
  rw [List.takeWhile_append_of_pos fun line hline => decide_eq_true (hne line hline)]
  simp

theorem filterMap_rawField {lines : List Text} {fields : List (HeaderName × Text)}
    (h : List.Forall₂ (fun line f => checkFieldLine line = .ok f) lines fields) :
    lines.filterMap rawField = fields := by
  induction h with
  | nil => rfl
  | cons hline _ ih => rw [List.filterMap_cons, rawField_of_checkFieldLine hline, ih]

theorem headerLoop_notes {st st' : HeadState} {fields : List (HeaderName × Text)}
    {lines : List Text} (hst : st.Notes fields) (h : headerLoop st lines = .ok st') :
    st'.Notes (fields ++ (lines.takeWhile fun line => line ≠ []).filterMap rawField) := by
  induction lines generalizing st fields with
  | nil =>
      cases h
      simpa using hst
  | cons line lines ih =>
      rw [headerLoop] at h
      by_cases hnil : line = []
      · rw [if_pos hnil] at h
        cases h
        simpa [hnil] using hst
      · rw [if_neg hnil] at h
        split at h
        · cases h
        · rename_i st₁ hline
          unfold headerLine at hline
          split at hline
          · cases hline
          · rename_i name value hcheck
            split at hline
            · cases hline
            · rename_i st₂ hnote
              cases hline
              have hrest := ih (noteField_notes hst hnote) h
              simpa [List.takeWhile_cons, hnil, rawField_of_checkFieldLine hcheck,
                List.append_assoc] using hrest

/-! ## Framing of an accepted head -/

structure Frames (fields : List (HeaderName × Text)) (mode : BodyMode) : Prop where
  chunked : mode = .chunked ↔ fieldValues fields HeaderKeys.transferEncoding ≠ []
  coded : mode = .chunked →
    ChunkedOnlyLast ((fieldValues fields HeaderKeys.transferEncoding).flatMap codingsOf) ∧
      fieldValues fields HeaderKeys.contentLength = []
  fixed : ∀ length, mode = .fixed length ↔
    fieldValues fields HeaderKeys.transferEncoding = [] ∧
      fieldValues fields HeaderKeys.contentLength ≠ [] ∧
        ∀ value ∈ fieldValues fields HeaderKeys.contentLength, parseU64 value = some length
  none : mode = .none ↔
    fieldValues fields HeaderKeys.transferEncoding = [] ∧
      fieldValues fields HeaderKeys.contentLength = []

theorem chunkedOnlyLast_lowercase {codings : List Text}
    (h : ChunkedOnlyLast (codings.map asciiLowercase)) : ChunkedOnlyLast codings := by
  obtain ⟨front, last, heq, hlast, hfront⟩ := h
  obtain ⟨front', last', rfl, rfl, hl⟩ := List.map_eq_append_iff.mp heq
  obtain ⟨coding, rfl, rfl⟩ := List.map_eq_singleton_iff.mp hl
  refine ⟨front', coding, rfl, ?_, fun c hc => ?_⟩
  · rwa [isChunkedCoding_asciiLowercase] at hlast
  · have := hfront _ (List.mem_map_of_mem hc)
    rwa [isChunkedCoding_asciiLowercase] at this

theorem chunkedOnlyLast_map_lowercase {codings : List Text} (h : ChunkedOnlyLast codings) :
    ChunkedOnlyLast (codings.map asciiLowercase) := by
  obtain ⟨front, last, rfl, hlast, hfront⟩ := h
  refine ⟨front.map asciiLowercase, asciiLowercase last, by simp, ?_, ?_⟩
  · rwa [isChunkedCoding_asciiLowercase]
  · intro coding hc
    obtain ⟨c, hmem, rfl⟩ := List.mem_map.mp hc
    rw [isChunkedCoding_asciiLowercase]
    exact hfront c hmem

theorem codings_eq_nil_iff {values : List Text} :
    (values.flatMap fun value => (codingsOf value).map asciiLowercase) = [] ↔ values = [] := by
  cases values with
  | nil => simp
  | cons v values => simp [codingsOf_ne_nil]

theorem HeadState.Notes.frames {st : HeadState} {fields : List (HeaderName × Text)}
    {mode : BodyMode} (hst : st.Notes fields)
    (h : determineBodyMode st.contentLength st.transferEncodings = .ok mode) :
    Frames fields mode := by
  have hcodings : st.transferEncodings = [] ↔
      fieldValues fields HeaderKeys.transferEncoding = [] := by
    rw [hst.codings, codings_eq_nil_iff]
  have hlengths : st.contentLength = none → fieldValues fields HeaderKeys.contentLength = [] := by
    intro hnone
    rcases hst.length with ⟨hcl, -⟩ | ⟨k, hk, -⟩
    · exact hcl
    · rw [hnone] at hk
      cases hk
  rcases determineBodyMode_ok_iff.mp h with ⟨hne, hlast, hnone, rfl⟩ |
    ⟨hnil, length, hlength, rfl⟩ | ⟨hnil, hnone, rfl⟩
  · have hte : fieldValues fields HeaderKeys.transferEncoding ≠ [] := fun h => hne (hcodings.mpr h)
    have hcl := hlengths hnone
    rw [hst.codings, ← List.map_flatMap] at hlast
    exact ⟨by simp [hte], fun _ => ⟨chunkedOnlyLast_lowercase hlast, hcl⟩, by simp [hte],
      by simp [hte]⟩
  · have hte := hcodings.mp hnil
    rcases hst.length with ⟨-, hnone⟩ | ⟨k, hk, hne, hall⟩
    · rw [hlength] at hnone
      cases hnone
    · rw [hlength, Option.some.injEq] at hk
      subst hk
      refine ⟨by simp [hte], by simp, fun k => ?_, by simp [hne]⟩
      constructor
      · rintro ⟨⟩
        exact ⟨hte, hne, hall⟩
      · rintro ⟨-, -, hall'⟩
        obtain ⟨v, hv⟩ := List.exists_mem_of_ne_nil _ hne
        have heq := (hall v hv).symm.trans (hall' v hv)
        rw [Option.some.inj heq]
  · have hte := hcodings.mp hnil
    have hcl := hlengths hnone
    exact ⟨by simp [hte], by simp, by simp [hcl], by simp [hte, hcl]⟩

theorem parseHeadText_ok {head : Text} {request : Request} {mode : BodyMode}
    (h : parseHeadText head = .ok (request, mode)) :
    ∃ requestLine lines method target version st,
      splitPair CR LF head = requestLine :: lines ∧ requestLine.length ≤ LINE_LIMIT ∧
      parseRequestLine requestLine = .ok (method, target, version) ∧
      headerLoop .start lines = .ok st ∧ st.hostValue.isNone = false ∧
      determineBodyMode st.contentLength st.transferEncodings = .ok mode ∧
      request = { Request.new method target with
        version := version, body := mode.toBody, headers := st.headers } := by
  unfold parseHeadText at h
  split at h
  · cases h
  · rename_i requestLine lines hsplit
    split at h
    · cases h
    · rename_i hlong
      split at h
      · cases h
      · rename_i method target version hline
        split at h
        · cases h
        · rename_i st hloop
          split at h
          · cases h
          · rename_i hhost
            split at h
            · cases h
            · rename_i mode' hmode
              cases h
              exact ⟨requestLine, lines, method, target, version, st, hsplit,
                Nat.not_lt.mp hlong, hline, hloop, (Bool.not_eq_true _).mp hhost, hmode, rfl⟩

theorem findHeadersEnd_first {buffer : Bytes} {n : Nat} (h : findHeadersEnd buffer = some n) :
    ∃ front rest, buffer = front ++ CRLFCRLF ++ rest ∧ n = front.length + 4 ∧
      ∀ a b, buffer = a ++ CRLFCRLF ++ b → front.length ≤ a.length := by
  obtain ⟨i, hi, rfl⟩ := Option.map_eq_some_iff.mp h
  obtain ⟨rest, hrest, hlen⟩ := findWindow_some hi
  have hi' : (buffer.take i).length = i := by
    rw [List.length_take]
    omega
  refine ⟨buffer.take i, rest, hrest, by rw [hi'], fun a b hab => ?_⟩
  rw [hi']
  exact findWindow_first hi hab

/-- Every accepted head is framed in one way only: its end is the first empty line,
its headers are its field lines, one of them a valid `Host`, and the body mode is the one
these lines announce, in any order, repetition and letter case. -/
theorem parseRequestHead_framing {buffer : Bytes} {request : Request} {mode : BodyMode}
    {n : Nat} (h : parseRequestHead buffer = .ok (request, mode, n)) :
    (∃ front rest, buffer = front ++ CRLFCRLF ++ rest ∧ n = front.length + 4 ∧
      ∀ a b, buffer = a ++ CRLFCRLF ++ b → front.length ≤ a.length) ∧
    n ≤ HEADER_LIMIT ∧
    (∀ name, request.headers.values name = fieldValues (rawFields (buffer.take n)) name) ∧
    (∃ value, request.headers.values HeaderKeys.host = [value] ∧ isValidHost value = true) ∧
    Frames (rawFields (buffer.take n)) mode ∧
    request.body = mode.toBody := by
  obtain ⟨hend, hlimit, -, htext⟩ := parseRequestHead_ok h
  obtain ⟨requestLine, lines, method, target, version, st, hsplit, -, -, hloop, hhost, hmode,
    rfl⟩ :=
    parseHeadText_ok htext
  have hnotes : st.Notes (rawFields (buffer.take n)) := by
    have := headerLoop_notes HeadState.notes_start hloop
    rwa [List.nil_append, show lines = (splitPair CR LF (buffer.take n)).tail by rw [hsplit]; rfl]
      at this
  have hvalues : ∀ name, st.headers.values name =
      fieldValues (rawFields (buffer.take n)) name := by
    intro name
    rw [hnotes.headers, Headers.values_appendAll, Headers.values_empty, List.nil_append]
  refine ⟨findHeadersEnd_first hend, hlimit, hvalues, ?_, hnotes.frames hmode, rfl⟩
  rcases hnotes.host with ⟨-, -, hnone⟩ | ⟨value, hvalue, hvalid, -⟩
  · rw [hnone] at hhost
    cases hhost
  · exact ⟨value, (hvalues _).trans hvalue, hvalid⟩

def announcedTwice : Bytes := ascii
  "POST / HTTP/1.1\r\nContent-Length: 2\r\nHOST: a\r\ncontent-length: 2\r\n\r\nhi"

theorem parseRequestHead_framing_twice :
    ∃ request mode n, parseRequestHead announcedTwice = .ok (request, mode, n) ∧
      n ≤ HEADER_LIMIT ∧ request.body = mode.toBody := by
  have hok : (parseRequestHead announcedTwice).toOption.isSome = true := by decide +kernel
  obtain ⟨⟨request, mode, n⟩, hparsed⟩ := Option.isSome_iff_exists.mp hok
  have hparse := ok_of_mem_toOption hparsed
  have hframing := parseRequestHead_framing hparse
  exact ⟨request, mode, n, hparse, hframing.2.1, hframing.2.2.2.2.2⟩

/-! ## Heads that are accepted -/

structure Acceptable (fields : List (HeaderName × Text)) : Prop where
  host : ∃ value, fieldValues fields HeaderKeys.host = [value] ∧ isValidHost value = true
  length : ∃ length, ∀ value ∈ fieldValues fields HeaderKeys.contentLength,
    parseContentLength value = .ok length
  codings : ∀ value ∈ fieldValues fields HeaderKeys.transferEncoding,
    ∃ codings, parseTransferEncoding value = .ok codings

theorem Acceptable.hostValue {st : HeadState} {fields : List (HeaderName × Text)}
    (h : Acceptable fields) (hst : st.Notes fields) : st.hostValue.isNone = false := by
  obtain ⟨v, hv, -⟩ := h.host
  rcases hst.host with ⟨hnil, -⟩ | ⟨w, -, -, -, hw⟩
  · rw [hnil] at hv
    cases hv
  · rw [hw]
    rfl

theorem noteField_of_acceptable {st : HeadState} {done rest : List (HeaderName × Text)}
    {name : HeaderName} {value : Text} (hst : st.Notes done)
    (h : Acceptable (done ++ (name, value) :: rest)) :
    ∃ st', noteField st name value = .ok st' := by
  by_cases hhost : name = HeaderKeys.host
  · subst hhost
    obtain ⟨v, hv, hvalid⟩ := h.host
    rw [fieldValues_append, fieldValues_cons_self] at hv
    rcases hst.host with ⟨hnil, hseen, -⟩ | ⟨w, hw, -⟩
    · rw [hnil, List.nil_append] at hv
      obtain ⟨rfl, -⟩ := List.cons.inj hv
      exact ⟨_, noteField_ok_iff.mpr (Or.inl ⟨rfl, hseen, hvalid, rfl⟩)⟩
    · rw [hw] at hv
      simp at hv
  · by_cases hlength : name = HeaderKeys.contentLength
    · subst hlength
      obtain ⟨k, hk⟩ := h.length
      have hvalue := hk value (by simp)
      rcases hst.length with ⟨-, hnone⟩ | ⟨existing, hexisting, hne, hall⟩
      · exact ⟨_, noteField_ok_iff.mpr (Or.inr (Or.inl ⟨rfl, k, hvalue, Or.inl ⟨hnone, rfl⟩⟩))⟩
      · obtain ⟨v, hv⟩ := List.exists_mem_of_ne_nil _ hne
        have heq : existing = k := by
          have hparse := parseContentLength_ok (hk v (by simp [hv]))
          exact Option.some.inj ((hall v hv).symm.trans hparse)
        exact ⟨_, noteField_ok_iff.mpr (Or.inr (Or.inl
          ⟨rfl, k, hvalue, Or.inr ⟨heq ▸ hexisting, rfl⟩⟩))⟩
    · by_cases hcoding : name = HeaderKeys.transferEncoding
      · subst hcoding
        obtain ⟨codings, hcodings⟩ := h.codings value (by simp)
        exact ⟨_, noteField_ok_iff.mpr (Or.inr (Or.inr (Or.inl ⟨rfl, codings, hcodings, rfl⟩)))⟩
      · exact ⟨_, noteField_ok_iff.mpr (Or.inr (Or.inr (Or.inr ⟨hhost, hlength, hcoding, rfl⟩)))⟩

theorem headerLoop_of_acceptable {st : HeadState} {done fields : List (HeaderName × Text)}
    {lines : List Text} (more : List Text) (hst : st.Notes done)
    (hcheck : List.Forall₂ (fun line f => checkFieldLine line = .ok f) lines fields)
    (h : Acceptable (done ++ fields)) :
    ∃ st', headerLoop st (lines ++ [] :: more) = .ok st' ∧ st'.Notes (done ++ fields) := by
  induction hcheck generalizing st done with
  | nil => exact ⟨st, rfl, by simpa using hst⟩
  | @cons line f lines fields hline _ ih =>
      obtain ⟨st₁, hnote⟩ := noteField_of_acceptable hst h
      have hround : headerLine st line =
          .ok { st₁ with headers := st₁.headers.append f.1 f.2 } := by
        rw [headerLine, hline]
        simp only [hnote]
      obtain ⟨st', hloop, hnotes⟩ := ih (noteField_notes hst hnote) (by simpa using h)
      refine ⟨st', ?_, by simpa using hnotes⟩
      rw [List.cons_append, headerLoop, if_neg (ne_nil_of_checkFieldLine hline), hround]
      exact hloop

/-- The loop takes only lines that pass their checks and codings that can be read. -/
theorem headerLoop_checked {st st' : HeadState} {lines more : List Text}
    (hne : ∀ line ∈ lines, line ≠ []) (h : headerLoop st (lines ++ [] :: more) = .ok st') :
    ∃ fields, List.Forall₂ (fun line f => checkFieldLine line = .ok f) lines fields ∧
      ∀ value ∈ fieldValues fields HeaderKeys.transferEncoding,
        ∃ codings, parseTransferEncoding value = .ok codings := by
  induction lines generalizing st with
  | nil => exact ⟨[], .nil, by simp⟩
  | cons line lines ih =>
      rw [List.cons_append, headerLoop, if_neg (hne line (by simp))] at h
      split at h
      · cases h
      · rename_i st₁ hround
        unfold headerLine at hround
        split at hround
        · cases hround
        · rename_i name value hcheck
          split at hround
          · cases hround
          · rename_i st₂ hnote
            obtain ⟨fields, hfields, hcodings⟩ := ih (fun l hl => hne l (by simp [hl])) h
            refine ⟨(name, value) :: fields, .cons hcheck hfields, fun v hv => ?_⟩
            rcases List.mem_cons.mp (mem_fieldValues.mp hv) with heq | hmem
            · cases heq
              -- of the cases of a noted field only the one of the codings is left
              obtain ⟨hhl, hht, hlt⟩ := hostKey_ne
              rcases noteField_ok_iff.mp hnote with ⟨hkey, -⟩ | ⟨hkey, -⟩ |
                ⟨-, codings, hparse, -⟩ | ⟨-, -, hkey, -⟩
              · exact absurd hkey.symm hht
              · exact absurd hkey.symm hlt
              · exact ⟨codings, hparse⟩
              · exact absurd rfl hkey
            · exact hcodings v (mem_fieldValues.mpr hmem)

structure IsFieldText (f : Text × Text) : Prop where
  name : isToken f.1 = true
  value : IsFieldValue f.2
  short : (fieldText f.1 f.2).length ≤ LINE_LIMIT

theorem IsFieldText.checked {fields : List (Text × Text)}
    (hfields : ∀ f ∈ fields, IsFieldText f) :
    List.Forall₂ (fun line f => checkFieldLine line = .ok f)
      (fields.map fun f => fieldText f.1 f.2) (fields.map namedField) := by
  rw [List.forall₂_map_left_iff, List.forall₂_map_right_iff, List.forall₂_same]
  intro f hf
  exact checkFieldLine_fieldText (hfields f hf).name (hfields f hf).value (hfields f hf).short

end GooseHttp
