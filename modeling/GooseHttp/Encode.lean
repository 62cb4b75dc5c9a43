import GooseHttp.Message
/-!
# Serialising responses

The response writer: status line, field lines and body.  `writeResponse` gives
the bytes that reach the wire, the response as the writer leaves it (its headers
edited, body and trailers taken) and whether it succeeded; bytes that were
written before an error stay written.
-/

namespace GooseHttp

open Lib

inductive ConnectionDirective
  | close
  | keepAlive
  deriving DecidableEq, Repr

inductive EncodeError
  | io (e : IoError)
  | conflictingLengthAndTransferEncoding
  deriving DecidableEq, Repr

/-- `write_continue`. -/
def continueBytes : Bytes := ascii "HTTP/1.1 100 Continue" ++ CRLFCRLF

def fieldLine (name value : Text) : Bytes := name ++ ascii ": " ++ value ++ CRLF

def appendHeaders (headers : Headers) : Bytes :=
  headers.lines.flatMap (fun p => fieldLine p.1.text p.2) ++ CRLF

/-! ## Header edits -/

def applyConnectionDirective (headers : Headers) : ConnectionDirective → Headers
  | .close => headers.insert HeaderKeys.connection (ascii "close")
  | .keepAlive => headers

/-- Informational, 204 and 304 responses. -/
def isBodiless (status : StatusCode) : Bool :=
  (100 ≤ status.asU16 && status.asU16 ≤ 199) || status.asU16 = 204 || status.asU16 = 304

def responseAllowsBody (status : StatusCode) (method : Method) : Bool :=
  !isBodiless status && method ≠ Method.head

def ensureChunkedEncoding (headers : Headers) : Headers :=
  match headers.get HeaderKeys.transferEncoding with
  | some value =>
      if (splitAll 44 value).any fun token => eqIgnoreAsciiCase (trim token) (ascii "chunked") then
        headers
      else headers.insert HeaderKeys.transferEncoding (ascii "chunked")
  | none => headers.insert HeaderKeys.transferEncoding (ascii "chunked")

/-- `Date`, then `Connection`. -/
def stampHeaders (now : Text) (headers : Headers) (directive : ConnectionDirective) : Headers :=
  let headers :=
    if headers.contains HeaderKeys.date then headers else headers.insert HeaderKeys.date now
  applyConnectionDirective headers directive

/-- The framing edits for a body of known length. -/
def frameKnownLength (headers : Headers) (status : StatusCode) (length : Text) : Headers :=
  let headers := headers.remove HeaderKeys.transferEncoding
  if isBodiless status then headers.remove HeaderKeys.contentLength
  else if headers.contains HeaderKeys.contentLength then headers
  else headers.insert HeaderKeys.contentLength length

/-- The framing edits for a response that must not have a body. -/
def frameBodiless (headers : Headers) (status : StatusCode) (method : Method) : Headers :=
  let headers := headers.remove HeaderKeys.transferEncoding
  if isBodiless status then headers.remove HeaderKeys.contentLength
  else if !headers.contains HeaderKeys.contentLength && method ≠ Method.head then
    headers.insert HeaderKeys.contentLength (ascii "0")
  else headers

/-- The length a response to HEAD is given before its body is dropped. -/
def announceLength (headers : Headers) (status : StatusCode) (method : Method)
    (body : ResponseBody) : Headers :=
  match body with
  | .full bytes =>
      if method = Method.head && !isBodiless status &&
          !headers.contains HeaderKeys.contentLength then
        headers.insert HeaderKeys.contentLength (toDecimal bytes.length)
      else headers
  | _ => headers

/-- The framing edits of `write_response`. -/
def frameHeaders (headers : Headers) (status : StatusCode) (method : Method)
    (body : ResponseBody) : Headers :=
  if !responseAllowsBody status method then
    frameBodiless (announceLength headers status method body) status method
  else
    match body with
    | .empty => frameKnownLength headers status (ascii "0")
    | .full bytes => frameKnownLength headers status (toDecimal bytes.length)
    | .stream _ => ensureChunkedEncoding (headers.remove HeaderKeys.contentLength)

/-! ## Bodies -/

/-- The loop of `write_chunked_body`. -/
def writeChunks : List (Except IoError Bytes) → Bytes × Except EncodeError Unit
  | [] => ([], .ok ())
  | .error e :: _ => ([], .error (.io e))
  | .ok chunk :: items =>
      if chunk = [] then writeChunks items
      else
        let rest := writeChunks items
        (formatRadix 16 chunk.length ++ CRLF ++ chunk ++ CRLF ++ rest.1, rest.2)

def trailerBlock : Option Headers → Bytes
  | some trailers => appendHeaders trailers
  | none => CRLF

def writeChunkedBody (items : List (Except IoError Bytes)) (trailers : Option Headers) :
    Bytes × Except EncodeError Unit :=
  match writeChunks items with
  | (bytes, .error e) => (bytes, .error e)
  | (bytes, .ok ()) => (bytes ++ ascii "0" ++ CRLF ++ trailerBlock trailers, .ok ())

/-! ## The writer -/

def statusLine (version : HttpVersion) (status : StatusCode) (reason : Text) : Bytes :=
  version.display ++ ascii " " ++ toDecimal status.asU16 ++
    (if reason = [] then [] else ascii " " ++ reason) ++ CRLF

/-- What `write_response` leaves behind. -/
structure Written where
  bytes : Bytes
  response : Response
  result : Except EncodeError Unit

/-- The body bytes and the outcome of sending them. -/
def writeBody (allowed : Bool) (body : ResponseBody) (trailers : Option Headers) :
    Bytes × Except EncodeError Unit :=
  if allowed then
    match body with
    | .empty => ([], .ok ())
    | .full bytes => (bytes, .ok ())
    | .stream items => writeChunkedBody items trailers
  else ([], .ok ())

def writeResponse (now : Text) (response : Response) (method : Method)
    (directive : ConnectionDirective) : Written :=
  let taken : Response := { response with body := .empty, trailers := none }
  if response.headers.contains HeaderKeys.contentLength &&
      response.headers.contains HeaderKeys.transferEncoding then
    ⟨[], taken, .error .conflictingLengthAndTransferEncoding⟩
  else
    let stamped := stampHeaders now response.headers directive
    let headers := frameHeaders stamped response.status method response.body
    let head := statusLine response.version response.status response.reasonPhrase ++
      appendHeaders headers
    let body := writeBody (responseAllowsBody response.status method) response.body
      response.trailers
    ⟨head ++ body.1, { taken with headers := headers }, body.2⟩

/-! ## What the writer does, by the shape of the response -/

def headBytes (version : HttpVersion) (status : StatusCode) (reason : Text)
    (headers : Headers) : Bytes := statusLine version status reason ++ appendHeaders headers

theorem writeResponse_of_framed {now : Text} {response : Response} {method : Method}
    {directive : ConnectionDirective}
    (h : (response.headers.contains HeaderKeys.contentLength &&
      response.headers.contains HeaderKeys.transferEncoding) = false) :
    writeResponse now response method directive =
      let headers := frameHeaders (stampHeaders now response.headers directive)
        response.status method response.body
      let body := writeBody (responseAllowsBody response.status method) response.body
        response.trailers
      ⟨headBytes response.version response.status response.reasonPhrase headers ++ body.1,
        { response with headers := headers, body := .empty, trailers := none }, body.2⟩ := by
  rw [writeResponse]
  simp only [h, Bool.false_eq_true, if_false]
  rfl

theorem writeResponse_of_conflict {now : Text} {response : Response} {method : Method}
    {directive : ConnectionDirective}
    (h : (response.headers.contains HeaderKeys.contentLength &&
      response.headers.contains HeaderKeys.transferEncoding) = true) :
    (writeResponse now response method directive).result =
      .error .conflictingLengthAndTransferEncoding ∧
    (writeResponse now response method directive).bytes = [] := by
  simp [writeResponse, h]

theorem not_conflict_of_uncoded {headers : Headers}
    (h : headers.contains HeaderKeys.transferEncoding = false) :
    (headers.contains HeaderKeys.contentLength &&
      headers.contains HeaderKeys.transferEncoding) = false := by
  rw [h, Bool.and_false]

theorem not_conflict_of_ok {now : Text} {response : Response} {method : Method}
    {directive : ConnectionDirective}
    (h : (writeResponse now response method directive).result = .ok ()) :
    (response.headers.contains HeaderKeys.contentLength &&
      response.headers.contains HeaderKeys.transferEncoding) = false := by
  by_contra hconflict
  rw [Bool.not_eq_false] at hconflict
  rw [(writeResponse_of_conflict hconflict).1] at h
  cases h

theorem writeChunks_ok {items : List (Except IoError Bytes)}
    (h : ∀ item ∈ items, ∃ bytes, item = .ok bytes) : (writeChunks items).2 = .ok () := by
  induction items with
  | nil => rfl
  | cons item items ih =>
      obtain ⟨bytes, rfl⟩ := h item (by simp)
      have ih := ih fun item hitem => h item (by simp [hitem])
      rw [writeChunks]
      split <;> exact ih

theorem writeBody_ok {response : Response} (allowed : Bool) (h : response.StreamsCleanly) :
    (writeBody allowed response.body response.trailers).2 = .ok () := by
  unfold writeBody
  split
  · split
    · rfl
    · rfl
    · rename_i items hbody
      rw [writeChunkedBody]
      have hok := writeChunks_ok (h items hbody)
      split
      · rename_i hchunks
        rw [hchunks] at hok
        cases hok
      · rfl
  · rfl

theorem writeResponse_result_ok {now : Text} {response : Response} {method : Method}
    {directive : ConnectionDirective} (hstream : response.StreamsCleanly)
    (h : (response.headers.contains HeaderKeys.contentLength &&
      response.headers.contains HeaderKeys.transferEncoding) = false) :
    (writeResponse now response method directive).result = .ok () := by
  rw [writeResponse_of_framed h]
  exact writeBody_ok _ hstream

/-! ## Fields the writer leaves alone -/

theorem getAll_frameKnownLength {headers : Headers} {status : StatusCode} {length : Text}
    {name : HeaderName} (hlength : name ≠ HeaderKeys.contentLength)
    (hcoding : name ≠ HeaderKeys.transferEncoding) :
    (frameKnownLength headers status length).getAll name = headers.getAll name := by
  simp only [frameKnownLength]
  split
  · rw [Headers.getAll_remove_of_ne _ hlength, Headers.getAll_remove_of_ne _ hcoding]
  · split
    · rw [Headers.getAll_remove_of_ne _ hcoding]
    · rw [Headers.getAll_insert_of_ne _ _ hlength, Headers.getAll_remove_of_ne _ hcoding]

theorem getAll_ensureChunkedEncoding {headers : Headers} {name : HeaderName}
    (hcoding : name ≠ HeaderKeys.transferEncoding) :
    (ensureChunkedEncoding headers).getAll name = headers.getAll name := by
  unfold ensureChunkedEncoding
  split
  · split
    · rfl
    · rw [Headers.getAll_insert_of_ne _ _ hcoding]
  · rw [Headers.getAll_insert_of_ne _ _ hcoding]

theorem getAll_frameBodiless {headers : Headers} {status : StatusCode} {method : Method}
    {name : HeaderName} (hlength : name ≠ HeaderKeys.contentLength)
    (hcoding : name ≠ HeaderKeys.transferEncoding) :
    (frameBodiless headers status method).getAll name = headers.getAll name := by
  simp only [frameBodiless]
  split
  · rw [Headers.getAll_remove_of_ne _ hlength, Headers.getAll_remove_of_ne _ hcoding]
  · split
    · rw [Headers.getAll_insert_of_ne _ _ hlength, Headers.getAll_remove_of_ne _ hcoding]
    · rw [Headers.getAll_remove_of_ne _ hcoding]

theorem getAll_announceLength {headers : Headers} {status : StatusCode} {method : Method}
    {body : ResponseBody} {name : HeaderName} (hlength : name ≠ HeaderKeys.contentLength) :
    (announceLength headers status method body).getAll name = headers.getAll name := by
  unfold announceLength
  split
  · split
    · rw [Headers.getAll_insert_of_ne _ _ hlength]
    · rfl
  · rfl

theorem getAll_frameHeaders {headers : Headers} {status : StatusCode} {method : Method}
    {body : ResponseBody} {name : HeaderName} (hlength : name ≠ HeaderKeys.contentLength)
    (hcoding : name ≠ HeaderKeys.transferEncoding) :
    (frameHeaders headers status method body).getAll name = headers.getAll name := by
  unfold frameHeaders
  split
  · rw [getAll_frameBodiless hlength hcoding, getAll_announceLength hlength]
  · split
    · exact getAll_frameKnownLength hlength hcoding
    · exact getAll_frameKnownLength hlength hcoding
    · rw [getAll_ensureChunkedEncoding hcoding, Headers.getAll_remove_of_ne _ hlength]

theorem getAll_stampHeaders {now : Text} {headers : Headers} {directive : ConnectionDirective}
    {name : HeaderName} (hdate : name ≠ HeaderKeys.date)
    (hconnection : name ≠ HeaderKeys.connection) :
    (stampHeaders now headers directive).getAll name = headers.getAll name := by
  have hdated : (if headers.contains HeaderKeys.date then headers
      else headers.insert HeaderKeys.date now).getAll name = headers.getAll name := by
    split
    · rfl
    · rw [Headers.getAll_insert_of_ne _ _ hdate]
  cases directive with
  | close => rw [stampHeaders, applyConnectionDirective,
      Headers.getAll_insert_of_ne _ _ hconnection, hdated]
  | keepAlive => rw [stampHeaders, applyConnectionDirective, hdated]

theorem contains_stampHeaders (now : Text) {headers : Headers} {name : HeaderName}
    (directive : ConnectionDirective) (hdate : name ≠ HeaderKeys.date)
    (hconnection : name ≠ HeaderKeys.connection) (habsent : headers.contains name = false) :
    (stampHeaders now headers directive).contains name = false := by
  rw [Headers.contains_eq_false_iff] at habsent ⊢
  rw [getAll_stampHeaders hdate hconnection, habsent]

theorem getAll_connection_stampHeaders (now : Text) (headers : Headers)
    (directive : ConnectionDirective) :
    (stampHeaders now headers directive).getAll HeaderKeys.connection =
      match directive with
      | .close => some [ascii "close"]
      | .keepAlive => headers.getAll HeaderKeys.connection := by
  have hne : HeaderKeys.connection ≠ HeaderKeys.date := by decide
  cases directive with
  | close => rw [stampHeaders, applyConnectionDirective, Headers.getAll_insert_self]
  | keepAlive =>
      simp only [stampHeaders, applyConnectionDirective]
      split
      · rfl
      · rw [Headers.getAll_insert_of_ne _ _ hne]

theorem writeResponse_headers {now : Text} {response : Response} {method : Method}
    {directive : ConnectionDirective}
    (h : (response.headers.contains HeaderKeys.contentLength &&
      response.headers.contains HeaderKeys.transferEncoding) = false) :
    (writeResponse now response method directive).response.headers =
      frameHeaders (stampHeaders now response.headers directive) response.status method
        response.body := by
  rw [writeResponse_of_framed h]

theorem writeResponse_bytes {now : Text} {response : Response} {method : Method}
    {directive : ConnectionDirective}
    (h : (response.headers.contains HeaderKeys.contentLength &&
      response.headers.contains HeaderKeys.transferEncoding) = false) :
    let written := writeResponse now response method directive
    written.bytes = headBytes written.response.version written.response.status
      written.response.reasonPhrase written.response.headers ++
        (writeBody (responseAllowsBody response.status method) response.body
          response.trailers).1 := by
  rw [writeResponse_of_framed h]
  rfl

/-! ## The framing fields -/

theorem contains_length_remove_coding (headers : Headers) :
    (headers.remove HeaderKeys.transferEncoding).contains HeaderKeys.contentLength =
      headers.contains HeaderKeys.contentLength := by
  rw [Bool.eq_iff_iff, ← Headers.values_ne_nil_iff, ← Headers.values_ne_nil_iff,
    Headers.values_remove, if_neg (by decide)]

theorem values_length_frameKnownLength (headers : Headers) (status : StatusCode)
    (length : Text) :
    (frameKnownLength headers status length).values HeaderKeys.contentLength =
      if isBodiless status then []
      else if headers.contains HeaderKeys.contentLength then
        headers.values HeaderKeys.contentLength
      else [length] := by
  have hne : HeaderKeys.transferEncoding ≠ HeaderKeys.contentLength := by decide
  simp only [frameKnownLength, contains_length_remove_coding]
  split
  · rw [Headers.values_remove, if_pos rfl]
  · split
    · rw [Headers.values_remove, if_neg hne]
    · rw [Headers.values_insert, if_pos rfl]

theorem values_coding_frameBodiless (headers : Headers) (status : StatusCode)
    (method : Method) :
    (frameBodiless headers status method).values HeaderKeys.transferEncoding = [] := by
  have hne : HeaderKeys.contentLength ≠ HeaderKeys.transferEncoding := by decide
  simp only [frameBodiless]
  split
  · rw [Headers.values_remove, if_neg hne, Headers.values_remove, if_pos rfl]
  · split
    · rw [Headers.values_insert, if_neg hne, Headers.values_remove, if_pos rfl]
    · rw [Headers.values_remove, if_pos rfl]

theorem values_length_frameBodiless (headers : Headers) (status : StatusCode)
    (method : Method) :
    (frameBodiless headers status method).values HeaderKeys.contentLength =
      if isBodiless status then []
      else if !headers.contains HeaderKeys.contentLength && method ≠ .head then [ascii "0"]
      else headers.values HeaderKeys.contentLength := by
  have hne : HeaderKeys.transferEncoding ≠ HeaderKeys.contentLength := by decide
  simp only [frameBodiless, contains_length_remove_coding]
  split
  · rw [Headers.values_remove, if_pos rfl]
  · split
    · rw [Headers.values_insert, if_pos rfl]
    · rw [Headers.values_remove, if_neg hne]

theorem values_coding_frameKnownLength (headers : Headers) (status : StatusCode)
    (length : Text) :
    (frameKnownLength headers status length).values HeaderKeys.transferEncoding = [] := by
  have hne : HeaderKeys.contentLength ≠ HeaderKeys.transferEncoding := by decide
  simp only [frameKnownLength]
  split
  · rw [Headers.values_remove, if_neg hne, Headers.values_remove, if_pos rfl]
  · split
    · rw [Headers.values_remove, if_pos rfl]
    · rw [Headers.values_insert, if_neg hne, Headers.values_remove, if_pos rfl]

theorem coded_frameHeaders_iff (headers : Headers) (status : StatusCode) (method : Method)
    (body : ResponseBody) :
    (frameHeaders headers status method body).values HeaderKeys.transferEncoding ≠ [] ↔
      responseAllowsBody status method = true ∧ ∃ items, body = .stream items := by
  unfold frameHeaders
  cases hallowed : responseAllowsBody status method with
  | false => simp [values_coding_frameBodiless]
  | true =>
      cases body with
      | empty => simp [values_coding_frameKnownLength]
      | full bytes => simp [values_coding_frameKnownLength]
      | stream items =>
          have hcoded : ∀ h : Headers,
              (ensureChunkedEncoding h).values HeaderKeys.transferEncoding ≠ [] := by
            intro h
            unfold ensureChunkedEncoding
            split
            · rename_i value hget
              split
              · intro hnil
                rw [Headers.get_eq_head?, hnil] at hget
                cases hget
              · simp [Headers.values_insert]
            · simp [Headers.values_insert]
          simp [hcoded]

/-! ## The lines of a written head -/

theorem forall_lines_stampHeaders {P : HeaderName × Text → Prop} {now : Text} {headers : Headers}
    (directive : ConnectionDirective) (hlines : ∀ l ∈ headers.lines, P l)
    (hdate : P (HeaderKeys.date, now)) (hclose : P (HeaderKeys.connection, ascii "close")) :
    ∀ l ∈ (stampHeaders now headers directive).lines, P l := by
  have hdated : ∀ l ∈ (if headers.contains HeaderKeys.date then headers
      else headers.insert HeaderKeys.date now).lines, P l := by
    split
    · exact hlines
    · exact Headers.forall_lines_insert hlines hdate
  cases directive with
  | close => exact Headers.forall_lines_insert hdated hclose
  | keepAlive => exact hdated

theorem forall_lines_frameBodiless {P : HeaderName × Text → Prop} {headers : Headers}
    (status : StatusCode) (method : Method) (hlines : ∀ l ∈ headers.lines, P l)
    (hzero : P (HeaderKeys.contentLength, ascii "0")) :
    ∀ l ∈ (frameBodiless headers status method).lines, P l := by
  have hremoved := Headers.forall_lines_remove HeaderKeys.transferEncoding hlines
  simp only [frameBodiless]
  split
  · exact Headers.forall_lines_remove _ hremoved
  · split
    · exact Headers.forall_lines_insert hremoved hzero
    · exact hremoved

theorem forall_lines_announceLength {P : HeaderName × Text → Prop} {headers : Headers}
    (status : StatusCode) (method : Method) (body : ResponseBody)
    (hlines : ∀ l ∈ headers.lines, P l)
    (hlength : ∀ n, P (HeaderKeys.contentLength, toDecimal n)) :
    ∀ l ∈ (announceLength headers status method body).lines, P l := by
  unfold announceLength
  split
  · split
    · exact Headers.forall_lines_insert hlines (hlength _)
    · exact hlines
  · exact hlines

theorem forall_lines_frameKnownLength {P : HeaderName × Text → Prop} {headers : Headers}
    (status : StatusCode) {length : Text} (hlines : ∀ l ∈ headers.lines, P l)
    (hlength : P (HeaderKeys.contentLength, length)) :
    ∀ l ∈ (frameKnownLength headers status length).lines, P l := by
  have hremoved := Headers.forall_lines_remove HeaderKeys.transferEncoding hlines
  simp only [frameKnownLength]
  split
  · exact Headers.forall_lines_remove _ hremoved
  · split
    · exact hremoved
    · exact Headers.forall_lines_insert hremoved hlength

theorem forall_lines_ensureChunkedEncoding {P : HeaderName × Text → Prop} {headers : Headers}
    (hlines : ∀ l ∈ headers.lines, P l)
    (hchunked : P (HeaderKeys.transferEncoding, ascii "chunked")) :
    ∀ l ∈ (ensureChunkedEncoding headers).lines, P l := by
  unfold ensureChunkedEncoding
  split
  · split
    · exact hlines
    · exact Headers.forall_lines_insert hlines hchunked
  · exact Headers.forall_lines_insert hlines hchunked

theorem forall_lines_frameHeaders {P : HeaderName × Text → Prop} {headers : Headers}
    (status : StatusCode) (method : Method) (body : ResponseBody)
    (hlines : ∀ l ∈ headers.lines, P l)
    (hlength : ∀ n, P (HeaderKeys.contentLength, toDecimal n))
    (hchunked : P (HeaderKeys.transferEncoding, ascii "chunked")) :
    ∀ l ∈ (frameHeaders headers status method body).lines, P l := by
  unfold frameHeaders
  split
  · exact forall_lines_frameBodiless status method
      (forall_lines_announceLength status method body hlines hlength) (hlength 0)
  · split
    · exact forall_lines_frameKnownLength status hlines (hlength 0)
    · exact forall_lines_frameKnownLength status hlines (hlength _)
    · exact forall_lines_ensureChunkedEncoding (Headers.forall_lines_remove _ hlines) hchunked

end GooseHttp
