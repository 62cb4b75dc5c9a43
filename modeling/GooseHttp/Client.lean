import GooseHttp.Parse.ChunkedRoundTrip
/-!
# A client's view of a response

A reader of responses by the message framing rules of HTTP/1.1: it finds the end of
a response from the method of the request, the status and the framing fields alone.
It is written against the protocol and shares nothing with the writer but the text
operations; what the writer sends is measured by what it reads (`readReply_head`).
-/

namespace GooseHttp

open Lib

inductive ReplyError
  | incomplete
  | malformed
  deriving DecidableEq, Repr

structure Reply where
  version : Text
  status : Nat
  reason : Text
  fields : List (HeaderName × Text)
  body : Bytes
  trailers : List (HeaderName × Text)
  deriving DecidableEq

inductive Framing
  | bodiless
  | sized (length : Nat)
  | chunked
  | untilClose
  deriving DecidableEq, Repr

/-- A client, by the field names it puts up with. -/
structure Client where
  validName : Text → Bool

namespace Client

def strict : Client := ⟨isToken⟩

/-- A client that only looks for the end of a response. -/
def lenient : Client := ⟨fun _ => true⟩

def readField (c : Client) (line : Text) : Except ReplyError (HeaderName × Text) :=
  match splitOnce 58 line with
  | none => .error .malformed
  | some (name, value) =>
      if c.validName name then .ok (.new name, trimOws value) else .error .malformed

/-- A number without sign, of any size. -/
def readNumber (radix : Nat) (text : Text) : Except ReplyError Nat :=
  if text = [] then .error .malformed
  else
    match toDigits radix text with
    | none => .error .malformed
    | some digits => .ok (numeralValue radix digits)

def readSize (line : Text) : Except ReplyError Nat :=
  match splitOnce 59 line with
  | none => readNumber 16 (trimOws line)
  | some (size, _) => readNumber 16 (trimOws size)

def grammar (c : Client) : ChunkGrammar UInt8 ReplyError (HeaderName × Text) where
  cr := CR
  lf := LF
  eof := .incomplete
  malformed := .malformed
  sizeOf := readSize
  fieldOf := c.readField

def readStatusLine (line : Text) : Except ReplyError (Text × Nat × Text) :=
  match splitOnce 32 line with
  | none => .error .malformed
  | some (version, rest) =>
      let (code, reason) := (splitOnce 32 rest).getD (rest, [])
      if (ascii "HTTP/").isPrefixOf version = false ∨ code.length ≠ 3 then .error .malformed
      else (readNumber 10 code).map fun status => (version, status, reason)

/-- All length fields, which must agree. -/
def readLength : List Text → Except ReplyError Nat
  | [] => .error .malformed
  | value :: values =>
      match readNumber 10 value with
      | .error e => .error e
      | .ok length =>
          if values.all fun value => readNumber 10 value = .ok length then .ok length
          else .error .malformed

def endsChunked (values : List Text) : Bool :=
  ((values.flatMap fun value => splitAll 44 value).getLast?).any fun coding =>
    eqIgnoreAsciiCase (trimOws coding) (ascii "chunked")

def framing (method : Method) (status : Nat) (fields : List (HeaderName × Text)) :
    Except ReplyError Framing :=
  if method = .head || (100 ≤ status && status ≤ 199) || status = 204 || status = 304 then
    .ok .bodiless
  else if method = .connect && 200 ≤ status && status ≤ 299 then .ok .bodiless
  else if fieldValues fields HeaderKeys.transferEncoding ≠ [] then
    if endsChunked (fieldValues fields HeaderKeys.transferEncoding) then .ok .chunked
    else .ok .untilClose
  else if fieldValues fields HeaderKeys.contentLength ≠ [] then
    (readLength (fieldValues fields HeaderKeys.contentLength)).map .sized
  else .ok .untilClose

def readContent (c : Client) (framing : Framing) (bytes : Bytes) :
    Except ReplyError (Decoded UInt8 (HeaderName × Text)) :=
  match framing with
  | .bodiless => .ok ⟨[], [], bytes⟩
  | .sized length =>
      if bytes.length < length then .error .incomplete
      else .ok ⟨bytes.take length, [], bytes.drop length⟩
  | .chunked => c.grammar.chunks bytes
  | .untilClose => .ok ⟨bytes, [], []⟩

/-- One response from the front of a stream, and what follows it. -/
def readReply (c : Client) (method : Method) (bytes : Bytes) :
    Except ReplyError (Reply × Bytes) := do
  let (line, bytes) ← c.grammar.takeLine bytes
  let (version, status, reason) ← readStatusLine line
  let head ← c.grammar.fields bytes
  let framing ← framing method status head.fields
  let content ← c.readContent framing head.rest
  return (⟨version, status, reason, head.fields, content.payload, content.fields⟩, content.rest)

/-! ## Numbers -/

theorem readNumber_formatRadix {radix n : Nat} (hone : 1 < radix) (hradix : radix ≤ 16) :
    readNumber radix (formatRadix radix n) = .ok n := by
  rw [readNumber, if_neg (formatRadix_ne_nil radix n), toDigits_formatRadix n hone hradix]
  simp

theorem readSize_formatRadix (n : Nat) : readSize (formatRadix 16 n) = .ok n := by
  have hgraphic : ∀ b ∈ formatRadix 16 n, isGraphic b = true :=
    isGraphic_formatRadix (by omega) (by omega)
  have hsemi : (59 : UInt8) ∉ formatRadix 16 n :=
    semicolon_not_mem (toDigits_formatRadix n (by omega) (by omega))
  rw [readSize, splitOnce_eq_none_iff.mpr hsemi, trimOws_graphic hgraphic]
  exact readNumber_formatRadix (by omega) (by omega)

/-! ## The status line -/

theorem length_toDecimal_status (status : StatusCode) :
    (toDecimal status.asU16).length = 3 := by
  have h : ∀ n < 600, 100 ≤ n → (toDecimal n).length = 3 := by decide +kernel
  exact h status.code (by have := status.upper; omega) status.lower

theorem isGraphic_display (version : HttpVersion) :
    ∀ b ∈ version.display, isGraphic b = true := by
  cases version with
  | http10 => decide +kernel
  | http11 => decide +kernel
  | other major minor =>
      intro b hb
      simp only [HttpVersion.display, List.mem_append] at hb
      rcases hb with ((hb | hb) | hb) | hb
      · revert b
        decide +kernel
      · exact isGraphic_formatRadix (by omega) (by omega) b hb
      · revert b
        decide +kernel
      · exact isGraphic_formatRadix (by omega) (by omega) b hb

theorem not_mem_of_graphic {s : Text} {b : UInt8} (hs : ∀ c ∈ s, isGraphic c = true)
    (hb : isGraphic b = false) : b ∉ s := by
  intro hmem
  rw [hs b hmem] at hb
  cases hb

theorem isPrefixOf_display (version : HttpVersion) :
    (ascii "HTTP/").isPrefixOf version.display = true := by
  rw [List.isPrefixOf_iff_prefix]
  cases version with
  | http10 => exact ⟨ascii "1.0", rfl⟩
  | http11 => exact ⟨ascii "1.1", rfl⟩
  | other major minor =>
      rw [HttpVersion.display, List.append_assoc, List.append_assoc]
      exact List.prefix_append _ _

/-- A status line without its end. -/
def statusText (version : HttpVersion) (status : StatusCode) (reason : Text) : Text :=
  version.display ++ 32 :: (toDecimal status.asU16 ++
    if reason = [] then [] else 32 :: reason)

theorem statusLine_eq (version : HttpVersion) (status : StatusCode) (reason : Text) :
    statusLine version status reason = statusText version status reason ++ CRLF := by
  rw [statusLine, statusText]
  split <;> simp [show ascii " " = [32] from rfl]

theorem readStatusLine_statusText (version : HttpVersion) (status : StatusCode)
    (reason : Text) :
    readStatusLine (statusText version status reason) =
      .ok (version.display, status.asU16, reason) := by
  have hdigits : ∀ b ∈ toDecimal status.asU16, isGraphic b = true :=
    isGraphic_formatRadix (by omega) (by omega)
  have hspace : (32 : UInt8) ∉ toDecimal status.asU16 := not_mem_of_graphic hdigits (by decide)
  have hnumber : readNumber 10 (toDecimal status.asU16) = .ok status.asU16 :=
    readNumber_formatRadix (by omega) (by omega)
  have hparts : (splitOnce 32 (toDecimal status.asU16 ++
      if reason = [] then [] else 32 :: reason)).getD
        (toDecimal status.asU16 ++ if reason = [] then [] else 32 :: reason, []) =
      (toDecimal status.asU16, reason) := by
    split
    · rename_i hnil
      rw [List.append_nil, splitOnce_eq_none_iff.mpr hspace, hnil]
      rfl
    · rw [splitOnce_append _ hspace]
      rfl
  rw [readStatusLine, statusText,
    splitOnce_append _ (not_mem_of_graphic (isGraphic_display version) (by decide))]
  simp only [hparts, length_toDecimal_status, hnumber, isPrefixOf_display]
  rfl

theorem cr_not_mem_statusText {version : HttpVersion} {status : StatusCode} {reason : Text}
    (hreason : CR ∉ reason) : CR ∉ statusText version status reason := by
  have hversion : CR ∉ version.display := not_mem_of_graphic (isGraphic_display version) (by decide)
  have hdigits : CR ∉ toDecimal status.asU16 :=
    not_mem_of_graphic (isGraphic_formatRadix (by omega) (by omega)) (by decide)
  have hspace : CR ≠ 32 := by decide
  rw [statusText]
  split <;> simp [hversion, hdigits, hspace, hreason]

/-! ## Field sections -/

theorem grammar_lineEnd (c : Client) : c.grammar.lineEnd = CRLF := rfl

def wireParts (l : HeaderName × Text) : Text × Text :=
  (splitOnce 58 (fieldText l.1.text l.2)).getD ([], [])

/-- A written field line as a client sees it. -/
def wireField (l : HeaderName × Text) : HeaderName × Text :=
  (.new (wireParts l).1, trimOws (wireParts l).2)

/-- A field that survives the wire as it is. -/
structure IsPlainField (l : HeaderName × Text) : Prop where
  name : isToken l.1.text = true
  noCr : CR ∉ l.2
  noLf : LF ∉ l.2
  trimmed : trimOws l.2 = l.2

instance (l : HeaderName × Text) : Decidable (IsPlainField l) :=
  decidable_of_iff (isToken l.1.text = true ∧ CR ∉ l.2 ∧ LF ∉ l.2 ∧ trimOws l.2 = l.2)
    ⟨fun h => ⟨h.1, h.2.1, h.2.2.1, h.2.2.2⟩, fun h => ⟨h.name, h.noCr, h.noLf, h.trimmed⟩⟩

theorem wireParts_of_token {l : HeaderName × Text} (hname : isToken l.1.text = true) :
    wireParts l = (l.1.text, 32 :: l.2) := by
  have hcolon : (58 : UInt8) ∉ l.1.text := not_mem_of_isToken hname (by decide)
  have htext : fieldText l.1.text l.2 = l.1.text ++ 58 :: 32 :: l.2 := by
    rw [fieldText, List.append_assoc]
    rfl
  rw [wireParts, htext, splitOnce_append _ hcolon]
  rfl

theorem IsPlainField.wireField_eq {l : HeaderName × Text} (h : IsPlainField l) :
    wireField l = l := by
  rw [wireField, wireParts_of_token h.name, HeaderName.new_text, trimOws_space h.trimmed]

theorem map_wireField {lines : List (HeaderName × Text)} (h : ∀ l ∈ lines, IsPlainField l) :
    lines.map wireField = lines := by
  rw [List.map_congr_left fun l hl => (h l hl).wireField_eq, List.map_id']

structure Reads (c : Client) (l : HeaderName × Text) : Prop where
  name : CR ∉ l.1.text
  value : CR ∉ l.2
  valid : c.validName (wireParts l).1 = true

theorem Reads.readField {c : Client} {l : HeaderName × Text} (h : c.Reads l) :
    c.readField (fieldText l.1.text l.2) = .ok (wireField l) := by
  have hcolon : (58 : UInt8) ∈ fieldText l.1.text l.2 := by
    have h58 : (58 : UInt8) ∈ ascii ": " := by decide
    simp [fieldText, h58]
  have hvalid := h.valid
  rw [Client.readField, wireField]
  rw [wireParts] at hvalid ⊢
  cases hsplit : splitOnce 58 (fieldText l.1.text l.2) with
  | none => exact absurd hcolon (splitOnce_eq_none_iff.mp hsplit)
  | some parts =>
      rw [hsplit] at hvalid
      exact if_pos hvalid

theorem IsPlainField.reads {c : Client} {l : HeaderName × Text} (h : IsPlainField l)
    (hc : ∀ name, isToken name = true → c.validName name = true) : c.Reads l where
  name := not_mem_of_isToken h.name (by decide)
  value := h.noCr
  valid := by
    rw [wireParts_of_token h.name]
    exact hc _ h.name

theorem fields_lines (c : Client) {lines : List (HeaderName × Text)} (rest : Bytes)
    (h : ∀ l ∈ lines, c.Reads l) :
    c.grammar.fields (lines.flatMap (fun l => fieldLine l.1.text l.2) ++ CRLF ++ rest) =
      .ok ⟨[], lines.map wireField, rest⟩ := by
  let texts := lines.map fun l => (fieldText l.1.text l.2, wireField l)
  have htexts : ∀ p ∈ texts, c.grammar.cr ∉ p.1 ∧ p.1 ≠ [] ∧ c.grammar.fieldOf p.1 = .ok p.2 := by
    intro p hp
    obtain ⟨l, hl, rfl⟩ := List.mem_map.mp hp
    have hreads := h l hl
    refine ⟨?_, fieldText_ne_nil _ _, hreads.readField⟩
    have hcolon : CR ∉ ascii ": " := by decide
    simp only [fieldText, List.mem_append, not_or]
    exact ⟨⟨hreads.name, hcolon⟩, hreads.value⟩
  have hencode := c.grammar.fields_encode rest htexts
  simpa [texts, ChunkGrammar.encodeFields, grammar_lineEnd, List.flatMap_map, List.map_map,
    Function.comp_def, fieldLine_eq, List.append_assoc] using hencode

/-! ## Bodies -/

theorem chunks_written (c : Client) {chunks : List Bytes} {trailers : Option Headers}
    (rest : Bytes) (h : ∀ l ∈ trailerLines trailers, c.Reads l) :
    c.grammar.chunks ((writeChunkedBody (chunks.map .ok) trailers).1 ++ rest) =
      .ok ⟨chunks.flatten, (trailerLines trailers).map wireField, rest⟩ := by
  have hsize : ∀ n, c.grammar.sizeOf (formatRadix 16 n) = .ok n := readSize_formatRadix
  have hcr : ∀ n, c.grammar.cr ∉ formatRadix 16 n := fun n =>
    not_mem_of_graphic (b := CR) (isGraphic_formatRadix (by omega) (by omega)) (by decide)
  have hpieces : ∀ p ∈ writtenChunks chunks,
      c.grammar.cr ∉ p.1 ∧ p.2 ≠ [] ∧ c.grammar.sizeOf p.1 = .ok p.2.length := by
    intro p hp
    obtain ⟨chunk, hchunk, rfl⟩ := List.mem_map.mp hp
    exact ⟨hcr _, by simpa using (List.mem_filter.mp hchunk).2, hsize _⟩
  have hencode := c.grammar.chunks_encode (trailerBlock trailers ++ rest) hpieces (hcr 0) (hsize 0)
  rw [grammar_lineEnd, trailerBlock_eq, c.fields_lines rest h, flatMap_writtenChunks] at hencode
  have hsame : chunkGrammar.encodeChunks (writtenChunks chunks) =
      c.grammar.encodeChunks (writtenChunks chunks) := rfl
  rw [writeChunkedBody_eq, trailerBlock_eq, hsame]
  simpa [List.append_assoc, Except.map, Decoded.prepend] using hencode

/-! ## Whole responses -/

/-- Behind a written head the client reads the body its framing announces. -/
theorem readReply_head (c : Client) (method : Method) {version : HttpVersion}
    {status : StatusCode} {reason : Text} {headers : Headers} (rest : Bytes)
    (hreason : CR ∉ reason) (hlines : ∀ l ∈ headers.lines, c.Reads l) :
    c.readReply method (headBytes version status reason headers ++ rest) =
      match framing method status.asU16 (headers.lines.map wireField) with
      | .error e => .error e
      | .ok framing => (c.readContent framing rest).map fun content =>
          (⟨version.display, status.asU16, reason, headers.lines.map wireField, content.payload,
            content.fields⟩, content.rest) := by
  have hline : c.grammar.takeLine (headBytes version status reason headers ++ rest) =
      .ok (statusText version status reason, appendHeaders headers ++ rest) := by
    have hcr : c.grammar.cr ∉ statusText version status reason := cr_not_mem_statusText hreason
    have h := c.grammar.takeLine_line (appendHeaders headers ++ rest) hcr
    rw [grammar_lineEnd] at h
    rw [headBytes, statusLine_eq, List.append_assoc]
    exact h
  have hfields : c.grammar.fields (appendHeaders headers ++ rest) =
      .ok ⟨[], headers.lines.map wireField, rest⟩ := c.fields_lines rest hlines
  rw [readReply, hline]
  simp only [bind, Except.bind, readStatusLine_statusText, hfields]
  cases framing method status.asU16 (headers.lines.map wireField) with
  | error e => rfl
  | ok framing =>
      dsimp only
      cases c.readContent framing rest <;> rfl

theorem readContent_length {c : Client} {framing : Framing} {bytes : Bytes}
    {content : Decoded UInt8 (HeaderName × Text)}
    (h : c.readContent framing bytes = .ok content) : content.rest.length ≤ bytes.length := by
  cases framing with
  | bodiless =>
      cases h
      exact Nat.le_refl _
  | sized length =>
      simp only [readContent] at h
      split at h
      · cases h
      · cases h
        simp
  | chunked => exact (c.grammar.chunks_length h).le
  | untilClose =>
      cases h
      simp

theorem readReply_length {c : Client} {method : Method} {bytes rest : Bytes} {reply : Reply}
    (h : c.readReply method bytes = .ok (reply, rest)) : rest.length < bytes.length := by
  simp only [readReply, bind, Except.bind] at h
  split at h
  · cases h
  · rename_i line hline
    have hlen := c.grammar.takeLine_length hline
    split at h
    · cases h
    · split at h
      · cases h
      · rename_i head hhead
        have hfields := c.grammar.fields_length hhead
        split at h
        · cases h
        · split at h
          · cases h
          · rename_i content hcontent
            have hcontentLen := readContent_length hcontent
            cases h
            omega

/-! ## Responses one after the other -/

/-- Read on to the final response, past interim ones; its bytes and what follows. -/
def finalLoop (c : Client) (method : Method) :
    RankedLoop Bytes (Except ReplyError (Bytes × Bytes)) where
  body bytes :=
    match c.readReply method bytes with
    | .error e => .done (.error e)
    | .ok (reply, rest) =>
        if reply.status < 200 then .next rest
        else .done (.ok (bytes.take (bytes.length - rest.length), rest))
  rank bytes := bytes.length
  rank_lt h := by
    split at h
    · cases h
    · rename_i reply rest hreply
      split at h
      · cases h
        exact readReply_length hreply
      · cases h

/-- The final responses to requests with these methods, and what is left of the stream. -/
def splitFinals (c : Client) : List Method → Bytes → Except ReplyError (List Bytes × Bytes)
  | [], bytes => .ok ([], bytes)
  | method :: methods, bytes =>
      match (c.finalLoop method).run bytes with
      | .error e => .error e
      | .ok (final, rest) =>
          (c.splitFinals methods rest).map fun split => (final :: split.1, split.2)

end Client

end GooseHttp
