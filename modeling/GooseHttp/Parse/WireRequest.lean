import GooseHttp.Parse.ChunkedRoundTrip
import GooseHttp.Parse.HeadText
/-!
# Requests as they are sent

A `WireRequest` is the text of a well-formed request together with what it stands
for.  Its fields carry the conditions of well-formedness, so every value of the type
can be serialised, and parsing the serialisation gives the request back and leaves
what follows it.
-/

namespace GooseHttp

open Lib

/-! ## Bodies -/

structure SizeLine where
  size : Text
  ext : Text
  digits : List Nat
  size_ne : size ≠ []
  size_digits : toDigits 16 size = some digits
  fits : numeralValue 16 digits < u64Bound
  ext_ok : IsChunkExtension ext

namespace SizeLine

def text (l : SizeLine) : Text := l.size ++ l.ext

def value (l : SizeLine) : Nat := numeralValue 16 l.digits

theorem sizeOf_text (l : SizeLine) :
    chunkGrammar.sizeOf l.text = .ok l.value ∧ CR ∉ l.text :=
  sizeOf_digits l.size_ne l.size_digits l.fits l.ext_ok

end SizeLine

structure WireChunk where
  line : SizeLine
  data : Bytes
  data_ne : data ≠ []
  length_eq : line.value = data.length

/-- A chunked body cut into chunks, with its last chunk and its trailers. -/
structure WireChunks where
  chunks : List WireChunk
  last : SizeLine
  last_zero : last.value = 0
  trailers : List (Text × Text)
  trailers_ok : ∀ f ∈ trailers, isToken f.1 = true ∧ IsFieldValue f.2

namespace WireChunks

def payload (w : WireChunks) : Bytes := w.chunks.flatMap fun c => c.data

def bytes (w : WireChunks) : Bytes :=
  w.chunks.flatMap (fun c => c.line.text ++ CRLF ++ (c.data ++ CRLF)) ++
    (w.last.text ++ CRLF ++ (w.trailers.flatMap (fun f => fieldLine f.1 f.2) ++ CRLF))

theorem chunks_bytes (w : WireChunks) (rest : Bytes) :
    chunkGrammar.chunks (w.bytes ++ rest) =
      .ok ⟨w.payload, w.trailers.map namedField, rest⟩ := by
  let pieces := w.chunks.map fun c => (c.line.text, c.data)
  have hpieces : ∀ p ∈ pieces,
      CR ∉ p.1 ∧ p.2 ≠ [] ∧ chunkGrammar.sizeOf p.1 = .ok p.2.length := by
    intro p hp
    obtain ⟨c, -, rfl⟩ := List.mem_map.mp hp
    obtain ⟨hsize, hcr⟩ := c.line.sizeOf_text
    exact ⟨hcr, c.data_ne, by rw [hsize, c.length_eq]⟩
  obtain ⟨hlast, hlastcr⟩ := w.last.sizeOf_text
  rw [w.last_zero] at hlast
  have hencode := chunkGrammar.chunks_encode
    (w.trailers.flatMap (fun f => fieldLine f.1 f.2) ++ CRLF ++ rest) hpieces hlastcr hlast
  rw [fields_fieldLines rest w.trailers_ok, chunkGrammar_lineEnd] at hencode
  simpa [pieces, bytes, payload, ChunkGrammar.encodeChunks, chunkGrammar_lineEnd,
    List.flatMap_map, Except.map, Decoded.prepend, List.append_assoc] using hencode

end WireChunks

inductive WireBody
  | none
  | sized (payload : Bytes)
  | chunked (body : WireChunks)

namespace WireBody

def payload : WireBody → Bytes
  | none => []
  | sized payload => payload
  | chunked body => body.payload

def bytes : WireBody → Bytes
  | none => []
  | sized payload => payload
  | chunked body => body.bytes

def mode : WireBody → BodyMode
  | none => .none
  | sized payload => .fixed payload.length
  | chunked _ => .chunked

/-- The framing fields that go with a body, on any number of lines. -/
def AnnouncedBy (body : WireBody) (fields : List (HeaderName × Text)) : Prop :=
  match body with
  | none =>
      fieldValues fields HeaderKeys.transferEncoding = [] ∧
        fieldValues fields HeaderKeys.contentLength = []
  | sized payload =>
      fieldValues fields HeaderKeys.transferEncoding = [] ∧
        fieldValues fields HeaderKeys.contentLength ≠ [] ∧
          ∀ value ∈ fieldValues fields HeaderKeys.contentLength,
            parseU64 value = some payload.length
  | chunked _ =>
      fieldValues fields HeaderKeys.contentLength = [] ∧
        (∀ value ∈ fieldValues fields HeaderKeys.transferEncoding,
          ∀ coding ∈ codingsOf value, isToken coding = true) ∧
        ChunkedOnlyLast ((fieldValues fields HeaderKeys.transferEncoding).flatMap codingsOf)

theorem decodeBody_bytes (body : WireBody) (rest : Bytes) :
    ∃ trailers, decodeBody body.mode (body.bytes ++ rest) =
      .ok ⟨body.payload, trailers, rest⟩ := by
  cases body with
  | none => exact ⟨_, rfl⟩
  | sized payload =>
      refine ⟨Option.none, ?_⟩
      simp only [mode, bytes, decodeBody, decodeFixed, List.length_append, List.take_left,
        List.drop_left, WireBody.payload]
      rw [if_neg (by omega)]
  | chunked body =>
      refine ⟨some (Headers.empty.appendAll (body.trailers.map namedField)), ?_⟩
      simp only [mode, bytes, decodeBody, body.chunks_bytes rest]
      rfl

theorem AnnouncedBy.acceptable {body : WireBody} {fields : List (HeaderName × Text)}
    (h : body.AnnouncedBy fields)
    (hhost : ∃ value, fieldValues fields HeaderKeys.host = [value] ∧ isValidHost value = true) :
    Acceptable fields := by
  refine ⟨hhost, ?_, ?_⟩
  · cases body with
    | none => exact ⟨0, by simp [h.2]⟩
    | sized payload =>
        exact ⟨payload.length, fun v hv => parseContentLength_of_parseU64 (h.2.2 v hv)⟩
    | chunked body => exact ⟨0, by simp [h.1]⟩
  · intro v hv
    cases body with
    | none => simp [h.1] at hv
    | sized payload => simp [h.1] at hv
    | chunked body => exact ⟨_, parseTransferEncoding_ok_iff.mpr ⟨h.2.1 v hv, rfl⟩⟩

theorem AnnouncedBy.mode_eq {body : WireBody} {fields : List (HeaderName × Text)}
    (h : body.AnnouncedBy fields) {st : HeadState} (hst : st.Notes fields) :
    determineBodyMode st.contentLength st.transferEncodings = .ok body.mode := by
  rw [determineBodyMode_ok_iff, hst.codings, codings_eq_nil_iff]
  have hnone : fieldValues fields HeaderKeys.contentLength = [] → st.contentLength = Option.none := by
    intro hnil
    rcases hst.length with ⟨-, hnone⟩ | ⟨k, -, hne, -⟩
    · exact hnone
    · exact absurd hnil hne
  cases body with
  | none => exact Or.inr (Or.inr ⟨h.1, hnone h.2, rfl⟩)
  | sized payload =>
      refine Or.inr (Or.inl ⟨h.1, payload.length, ?_, rfl⟩)
      rcases hst.length with ⟨hnil, -⟩ | ⟨k, hk, hne, hall⟩
      · exact absurd hnil h.2.1
      · obtain ⟨v, hv⟩ := List.exists_mem_of_ne_nil _ hne
        rw [hk, ← h.2.2 v hv, hall v hv]
  | chunked body =>
      have hne : fieldValues fields HeaderKeys.transferEncoding ≠ [] := by
        obtain ⟨front, last, heq, -⟩ := h.2.2
        intro hnil
        simp [hnil] at heq
      refine Or.inl ⟨fun hnil => hne (codings_eq_nil_iff.mp hnil), ?_, hnone h.1, rfl⟩
      rw [← List.map_flatMap]
      exact chunkedOnlyLast_map_lowercase h.2.2

end WireBody

/-! ## Requests -/

structure WireRequest where
  methodToken : Text
  targetText : Text
  fields : List (Text × Text)
  body : WireBody
  method : Method
  target : RequestTarget
  method_ok : Method.fromToken methodToken = some method
  targetText_ok : IsTargetText targetText
  target_ok : parseRequestTarget method targetText = .ok target
  fields_ok : ∀ f ∈ fields, IsFieldText f
  host_ok : ∃ value, fieldValues (fields.map namedField) HeaderKeys.host = [value] ∧
    isValidHost value = true
  announced : body.AnnouncedBy (fields.map namedField)
  line_short : (requestLine methodToken targetText).length ≤ LINE_LIMIT
  head_short : (requestHead methodToken targetText fields).length ≤ HEADER_LIMIT

namespace WireRequest

def bytes (w : WireRequest) : Bytes :=
  requestHead w.methodToken w.targetText w.fields ++ w.body.bytes

def request (w : WireRequest) : Request where
  method := w.method
  target := w.target
  version := .http11
  headers := Headers.empty.appendAll (w.fields.map namedField)
  body := w.body.mode.toBody
  payload := w.body.payload

/-- The head of a serialised request is accepted and its body decoded, with the rest
of the stream left over. -/
theorem parse_bytes (w : WireRequest) (rest : Bytes) :
    ∃ consumed trailers,
      parseRequestHead (w.bytes ++ rest) =
        .ok ({ w.request with payload := [] }, w.body.mode, consumed) ∧
      decodeBody w.body.mode ((w.bytes ++ rest).drop consumed) =
        .ok ⟨w.body.payload, trailers, rest⟩ := by
  obtain ⟨trailers, hbody⟩ := w.body.decodeBody_bytes rest
  refine ⟨(requestHead w.methodToken w.targetText w.fields).length, trailers, ?_, ?_⟩
  · rw [bytes, List.append_assoc]
    exact parseRequestHead_requestHead (w.body.bytes ++ rest) w.method_ok w.targetText_ok
      w.target_ok w.fields_ok (w.announced.acceptable w.host_ok)
      (fun st hst => w.announced.mode_eq hst) w.line_short w.head_short
  · rw [bytes, List.append_assoc, List.drop_left]
    exact hbody

end WireRequest

end GooseHttp
