import GooseHttp.Parse.Decode
import GooseHttp.Trim
/-!
# Chunk-size lines

A size line is trimmed of every white-space character and read by a number parser that
takes a sign, so it may hold more than digits.  A decoded body is cut into chunks of the
lengths its lines say, and its size lines are those of the grammar as long as they begin
with neither white space nor a sign and hold no other white space than the grammar allows.
-/

namespace GooseHttp

open Lib

def sizeField (line : Text) : Text :=
  match splitOnce 59 line with
  | some (size, _) => size
  | none => line

/-- Hexadecimal digits for a size, followed only by spaces and tabs up to the extensions, on
a line without line breaks. -/
structure IsSizeLine (line : Text) (size : Nat) : Prop where
  field : ∃ digits ows ds, sizeField line = digits ++ ows ∧ digits ≠ [] ∧
    toDigits 16 digits = some ds ∧ numeralValue 16 ds = size ∧ ∀ b ∈ ows, isOws b = true
  lt : size < 2 ^ 64
  breaks : CR ∉ line ∧ LF ∉ line

/-- No sign and no white space in front, in front of the extensions visible characters,
spaces and tabs only, and no line breaks. -/
structure IsPlainSizeLine (line : Text) : Prop where
  front : ∀ b, line.head? = some b → b ≠ 43 ∧ isOws b = false
  visible : ∀ b ∈ sizeField line, isOws b = true ∨ isGraphic b = true
  breaks : CR ∉ line ∧ LF ∉ line

instance (line : Text) : Decidable (IsPlainSizeLine line) :=
  decidable_of_iff ((∀ b ∈ line.head?, b ≠ 43 ∧ isOws b = false) ∧
      (∀ b ∈ sizeField line, isOws b = true ∨ isGraphic b = true) ∧ CR ∉ line ∧ LF ∉ line)
    ⟨fun h => ⟨h.1, h.2.1, h.2.2⟩, fun h => ⟨h.front, h.visible, h.breaks⟩⟩

/-! ## One size line -/

theorem sizeField_append (line : Text) : ∃ extensions, line = sizeField line ++ extensions := by
  rw [sizeField]
  split
  · rename_i size extensions hsplit
    exact ⟨59 :: extensions, (splitOnce_some hsplit).1⟩
  · exact ⟨[], (List.append_nil line).symm⟩

theorem head?_of_sizeField {line front rest : Text} {b : UInt8}
    (h : sizeField line = b :: front ++ rest) : line.head? = some b := by
  obtain ⟨extensions, hline⟩ := sizeField_append line
  rw [hline, h]
  rfl

theorem parseChunkSize_ok_iff {line : Text} {size : Nat} :
    parseChunkSize line = .ok size ↔
      fromStrRadix 16 u64Bound (trim (sizeField line)) = some size := by
  unfold parseChunkSize sizeField
  cases splitOnce 59 line with
  | none =>
      dsimp only
      cases fromStrRadix 16 u64Bound (trim line) <;> simp
  | some pair =>
      dsimp only
      cases fromStrRadix 16 u64Bound (trim pair.1) <;> simp

theorem sizeOf_ok {line : Text} {size : Nat} (h : chunkGrammar.sizeOf line = .ok size) :
    parseChunkSize line = .ok size := by
  have hdef : chunkGrammar.sizeOf line =
      if utf8Valid line then parseChunkSize line else .error .invalidChunk := rfl
  rw [hdef] at h
  split at h
  · exact h
  · cases h

theorem IsSizeLine.plain {line : Text} {size : Nat} (h : IsSizeLine line size) :
    IsPlainSizeLine line := by
  obtain ⟨digits, ows, ds, hfield, hne, hds, -, hows⟩ := h.field
  have hgraphic := isGraphic_of_toDigits hds
  refine ⟨?_, ?_, h.breaks⟩
  · intro b hb
    obtain ⟨c, digits', rfl⟩ := List.exists_cons_of_ne_nil hne
    rw [head?_of_sizeField hfield, Option.some.injEq] at hb
    have hmem : b ∈ c :: digits' := by simp [hb]
    constructor
    · intro hsign
      rw [hsign] at hmem
      exact not_mem_of_toDigits hds (toDigit_plus 16) hmem
    · exact (Bool.not_eq_true _).mp (not_isOws_of_isGraphic (hgraphic b hmem))
  · intro b hb
    rw [hfield, List.mem_append] at hb
    exact hb.symm.imp (hows b) (hgraphic b)

theorem IsPlainSizeLine.isSizeLine {line : Text} {size : Nat} (h : IsPlainSizeLine line)
    (hparse : parseChunkSize line = .ok size) : IsSizeLine line size := by
  rw [parseChunkSize_ok_iff] at hparse
  obtain ⟨w, w', hfront, hback, heq⟩ := trim_eq_of_visible h.visible
  -- white space in front of the number would be the first byte of the line
  have hnil : w = [] := by
    cases w with
    | nil => rfl
    | cons b w =>
        rw [List.append_assoc] at heq
        have hows := (h.front b (head?_of_sizeField heq)).2
        rw [hfront b List.mem_cons_self] at hows
        cases hows
  rw [hnil, List.nil_append] at heq
  have hsign : (trim (sizeField line)).head? ≠ some 43 := by
    intro hhead
    obtain ⟨rest, hrest⟩ := List.head?_eq_some_iff.mp hhead
    rw [hrest] at heq
    exact (h.front 43 (head?_of_sizeField heq)).1 rfl
  obtain ⟨hne, ds, hds, hvalue, hlt⟩ := (fromStrRadix_eq_some_iff hsign).mp hparse
  exact ⟨⟨trim (sizeField line), w', ds, heq, hne, hds, hvalue, hback⟩, hlt, h.breaks⟩

theorem isSizeLine_iff_plain {line : Text} {size : Nat}
    (h : chunkGrammar.sizeOf line = .ok size) : IsSizeLine line size ↔ IsPlainSizeLine line :=
  ⟨IsSizeLine.plain, fun hplain => hplain.isSizeLine (sizeOf_ok h)⟩

/-! ## The size lines of a body -/

theorem payload_of_fields {bytes : Bytes} {d : Decoded UInt8 (HeaderName × Text)}
    (h : chunkGrammar.fields bytes = .ok d) : d.payload = [] :=
  chunkGrammar.fields_induction (motive := fun _ d => d.payload = []) (fun _ => rfl)
    (fun _ _ _ ih => ih) h

/-- A body read to its end is cut into chunks whose data is as long as their lines say. -/
theorem framed_of_collect {input : Input} {payload : Bytes} {reader : BodyReader}
    (h : (bodyReader .chunked input).collect = (.ok payload, reader)) :
    ∃ pieces last tail fields, chunkGrammar.Framed input.all pieces last tail ∧
      chunkGrammar.fields tail = .ok ⟨[], fields, reader.input.all⟩ ∧
        payload = pieces.flatMap Prod.snd := by
  have hcollect := collect_bodyReader .chunked input
  rw [h] at hcollect
  have hdecode := hcollect.ok payload rfl
  rw [decodeBody] at hdecode
  cases hchunks : chunkGrammar.chunks input.all with
  | error e =>
      rw [hchunks] at hdecode
      cases hdecode
  | ok d =>
      rw [hchunks] at hdecode
      obtain ⟨pieces, last, tail, d', hframed, hfields, rfl⟩ := chunkGrammar.chunks_framed hchunks
      have hresult := Except.ok.inj hdecode
      have hpayload := congrArg BodyResult.payload hresult
      have hrest := congrArg BodyResult.rest hresult
      have hnil := payload_of_fields hfields
      simp only [BodyResult.ofDecoded, Decoded.prepend, hnil, List.append_nil] at hpayload hrest
      refine ⟨pieces, last, tail, d'.fields, hframed, ?_, hpayload.symm⟩
      rw [hfields, ← hrest, ← hnil]

/-- A body that is read to its end is framed by its size lines in exactly one way, and these
are lines of the grammar if and only if all of them are plain. -/
theorem collect_sizeLines_iff {input : Input} {payload : Bytes} {reader : BodyReader}
    (h : (bodyReader .chunked input).collect = (.ok payload, reader)) :
    ∃ pieces last tail fields, chunkGrammar.Framed input.all pieces last tail ∧
      chunkGrammar.fields tail = .ok ⟨[], fields, reader.input.all⟩ ∧
      payload = pieces.flatMap Prod.snd ∧
      (∀ pieces' last' tail', chunkGrammar.Framed input.all pieces' last' tail' →
        pieces' = pieces ∧ last' = last ∧ tail' = tail) ∧
      (((∀ p ∈ pieces, IsSizeLine p.1 p.2.length) ∧ IsSizeLine last 0) ↔
        ∀ line ∈ last :: pieces.map Prod.fst, IsPlainSizeLine line) := by
  obtain ⟨pieces, last, tail, fields, hframed, hfields, hpayload⟩ := framed_of_collect h
  have hends : chunkGrammar.cr ≠ chunkGrammar.lf := by decide
  refine ⟨pieces, last, tail, fields, hframed, hfields, hpayload, ?_, ?_⟩
  · exact fun pieces' last' tail' hother => hframed.unique hends hother
  · rw [List.forall_mem_cons, List.forall_mem_map, isSizeLine_iff_plain hframed.finish, and_comm]
    apply and_congr_right
    intro _
    apply forall₂_congr
    intro p hp
    exact isSizeLine_iff_plain (hframed.chunk p hp).2

def byteBody (line : Text) : Input :=
  ⟨chunkGrammar.encodeChunks [(line, ascii "a")] ++ (ascii "0" ++ CRLF ++ CRLF), []⟩

theorem framed_byteBody {line : Text} (hcr : CR ∉ line)
    (hsize : chunkGrammar.sizeOf line = .ok 1) :
    chunkGrammar.Framed (byteBody line).all [(line, ascii "a")] (ascii "0") CRLF := by
  refine ⟨Input.all_of_incoming_nil rfl, ?_, ?_, by decide +kernel⟩
  · intro l hl
    rw [List.map_singleton, List.mem_cons, List.mem_singleton] at hl
    rcases hl with rfl | rfl
    · decide
    · exact fun hends => hcr (hends.subset (by decide))
  · intro p hp
    rw [List.mem_singleton.mp hp]
    exact ⟨List.cons_ne_nil _ _, hsize⟩

theorem collect_byteBody {line : Text} (hcr : CR ∉ line)
    (hsize : chunkGrammar.sizeOf line = .ok 1) :
    ∃ reader, (bodyReader .chunked (byteBody line)).collect = (.ok (ascii "a"), reader) := by
  have hpieces : ∀ p ∈ [(line, ascii "a")],
      chunkGrammar.cr ∉ p.1 ∧ p.2 ≠ [] ∧ chunkGrammar.sizeOf p.1 = .ok p.2.length := by
    intro p hp
    rw [List.mem_singleton.mp hp]
    exact ⟨hcr, List.cons_ne_nil _ _, hsize⟩
  have hlast : chunkGrammar.sizeOf (ascii "0") = .ok 0 := by decide +kernel
  have hchunks := chunkGrammar.chunks_encode CRLF hpieces (by decide) hlast
  have hfields : chunkGrammar.fields CRLF = .ok ⟨[], [], []⟩ := chunkGrammar.fields_end []
  rw [hfields] at hchunks
  have hdecode : decodeBody .chunked (byteBody line).all = .ok ⟨ascii "a", some .empty, []⟩ := by
    rw [chunkGrammar_lineEnd] at hchunks
    rw [decodeBody, Input.all_of_incoming_nil rfl, byteBody, hchunks]
    rfl
  have hclean : (byteBody line).Clean := List.forall_mem_nil _
  obtain ⟨reader, hread, -⟩ := collect_bodyReader_of_decode hclean hdecode
  exact ⟨reader, hread⟩

theorem collect_sizeLines_iff_extended :
    ∃ reader, (bodyReader .chunked (byteBody (ascii "01 ;a"))).collect =
        (.ok (ascii "a"), reader) ∧
      ∃ pieces last tail fields,
        chunkGrammar.Framed (byteBody (ascii "01 ;a")).all pieces last tail ∧
        chunkGrammar.fields tail = .ok ⟨[], fields, reader.input.all⟩ ∧
        ascii "a" = pieces.flatMap Prod.snd ∧
        (∀ p ∈ pieces, IsSizeLine p.1 p.2.length) ∧ IsSizeLine last 0 := by
  have hsize : chunkGrammar.sizeOf (ascii "01 ;a") = .ok 1 := by decide +kernel
  obtain ⟨reader, hread⟩ := collect_byteBody (by decide) hsize
  obtain ⟨pieces, last, tail, fields, hframed, hfields, hpayload, hunique, hiff⟩ :=
    collect_sizeLines_iff hread
  refine ⟨reader, hread, pieces, last, tail, fields, hframed, hfields, hpayload, hiff.mpr ?_⟩
  obtain ⟨rfl, rfl, -⟩ := hunique _ _ _ (framed_byteBody (by decide) hsize)
  decide +kernel

/-- A body whose size has a sign is decoded. -/
theorem collect_signedSize :
    ∃ reader, (bodyReader .chunked (byteBody (ascii "+1"))).collect = (.ok (ascii "a"), reader) ∧
      ∃ pieces last tail, chunkGrammar.Framed (byteBody (ascii "+1")).all pieces last tail ∧
        ¬ ∀ p ∈ pieces, IsSizeLine p.1 p.2.length := by
  have hsize : chunkGrammar.sizeOf (ascii "+1") = .ok 1 := by decide +kernel
  obtain ⟨reader, hread⟩ := collect_byteBody (by decide) hsize
  refine ⟨reader, hread, _, _, _, framed_byteBody (by decide) hsize, fun hall => ?_⟩
  have hline : IsSizeLine (ascii "+1") 1 := hall _ (List.mem_singleton_self _)
  exact (hline.plain.front 43 rfl).1 rfl

end GooseHttp
