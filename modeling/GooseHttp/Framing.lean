import GooseHttp.Client
/-!
# The framing of written responses

What the framing edits of the writer leave in the header section, and what a client
makes of it.  `lines_frameHeaders` covers the responses that leave framing to the
server: their section grows by the one field that announces the body.
-/

namespace GooseHttp

open Lib

/-! ## The framing field of the writer -/

def framingField (status : StatusCode) (method : Method) (body : ResponseBody) :
    Option (HeaderName × Text) :=
  if isBodiless status then none
  else
    match body with
    | .full bytes => some (HeaderKeys.contentLength, toDecimal bytes.length)
    | .empty =>
        if method = .head then none else some (HeaderKeys.contentLength, ascii "0")
    | .stream _ =>
        if method = .head then none else some (HeaderKeys.transferEncoding, ascii "chunked")

def announcedFraming (status : StatusCode) (method : Method) (body : ResponseBody) : Framing :=
  if responseAllowsBody status method then
    match body with
    | .empty => .sized 0
    | .full bytes => .sized bytes.length
    | .stream _ => .chunked
  else .bodiless

theorem responseAllowsBody_eq (status : StatusCode) (method : Method) :
    responseAllowsBody status method = (!isBodiless status && decide (method ≠ .head)) := rfl

theorem lines_frameHeaders {headers : Headers} (status : StatusCode) (method : Method)
    (body : ResponseBody) (hlength : headers.contains HeaderKeys.contentLength = false)
    (hcoding : headers.contains HeaderKeys.transferEncoding = false) :
    (frameHeaders headers status method body).lines =
      headers.lines ++ (framingField status method body).toList := by
  have hcodingGet : headers.get HeaderKeys.transferEncoding = none := by
    rw [Headers.get_eq_head?, (Headers.values_eq_nil_iff _ _).mpr hcoding]
    rfl
  unfold frameHeaders framingField
  rw [responseAllowsBody_eq]
  cases hstatus : isBodiless status with
  | true =>
      simp only [Bool.not_true, Bool.false_and, Bool.not_false, if_true]
      have hsame : announceLength headers status method body = headers := by
        unfold announceLength
        split <;> simp [hstatus]
      rw [hsame, frameBodiless, Headers.remove_absent _ hcoding]
      simp [hstatus, Headers.remove_absent _ hlength]
  | false =>
      by_cases hmethod : method = .head
      · subst hmethod
        cases body with
        | full bytes =>
            have hnew := headers.lines_insert_new (toDecimal bytes.length) hlength
            have hkeep : (headers.insert HeaderKeys.contentLength
                (toDecimal bytes.length)).contains HeaderKeys.transferEncoding = false := by
              rw [Headers.contains_eq_false_iff, Headers.getAll_insert_of_ne _ _ (by decide),
                ← Headers.contains_eq_false_iff]
              exact hcoding
            simp [announceLength, frameBodiless, hstatus, hlength, Headers.remove_absent _ hkeep,
              hnew]
        | empty => simp [announceLength, frameBodiless, hstatus, Headers.remove_absent _ hcoding]
        | stream items =>
            simp [announceLength, frameBodiless, hstatus, Headers.remove_absent _ hcoding]
      · cases body with
        | full bytes =>
            simp [hmethod, frameKnownLength, hstatus, Headers.remove_absent _ hcoding, hlength,
              headers.lines_insert_new _ hlength]
        | empty =>
            simp [hmethod, frameKnownLength, hstatus, Headers.remove_absent _ hcoding, hlength,
              headers.lines_insert_new _ hlength]
        | stream items =>
            simp [hmethod, ensureChunkedEncoding, Headers.remove_absent _ hlength, hcodingGet,
              headers.lines_insert_new _ hcoding]

theorem framingField_single (status : StatusCode) (method : Method) (body : ResponseBody) :
    fieldValues (framingField status method body).toList HeaderKeys.contentLength = [] ∨
      fieldValues (framingField status method body).toList HeaderKeys.transferEncoding = [] := by
  cases hfield : framingField status method body with
  | none => exact Or.inl rfl
  | some field =>
      by_cases hname : field.1 = HeaderKeys.contentLength
      · right
        rw [Option.toList_some, ← field.eta, fieldValues_cons_of_ne _ _ (by rw [hname]; decide)]
        rfl
      · exact Or.inl (by rw [Option.toList_some, ← field.eta, fieldValues_cons_of_ne _ _ hname]; rfl)

theorem frameHeaders_not_both {headers : Headers} (status : StatusCode) (method : Method)
    (body : ResponseBody) (hlength : headers.contains HeaderKeys.contentLength = false)
    (hcoding : headers.contains HeaderKeys.transferEncoding = false) :
    ((frameHeaders headers status method body).contains HeaderKeys.contentLength &&
      (frameHeaders headers status method body).contains HeaderKeys.transferEncoding) = false := by
  have hvalues : ∀ name, headers.contains name = false →
      (frameHeaders headers status method body).values name =
        fieldValues (framingField status method body).toList name := by
    intro name habsent
    rw [← Headers.fieldValues_lines, lines_frameHeaders status method body hlength hcoding,
      fieldValues_append, Headers.fieldValues_lines, (Headers.values_eq_nil_iff _ _).mpr habsent,
      List.nil_append]
  rcases framingField_single status method body with hnone | hnone
  · rw [← hvalues _ hlength, Headers.values_eq_nil_iff] at hnone
    rw [hnone, Bool.false_and]
  · rw [← hvalues _ hcoding, Headers.values_eq_nil_iff] at hnone
    rw [hnone, Bool.and_false]

/-! ## What a client makes of it -/

namespace Client

theorem framing_eq (method : Method) (status : StatusCode) (fields : List (HeaderName × Text)) :
    framing method status.asU16 fields =
      if !responseAllowsBody status method then .ok .bodiless
      else if method = .connect && 200 ≤ status.asU16 && status.asU16 ≤ 299 then .ok .bodiless
      else if fieldValues fields HeaderKeys.transferEncoding ≠ [] then
        if endsChunked (fieldValues fields HeaderKeys.transferEncoding) then .ok .chunked
        else .ok .untilClose
      else if fieldValues fields HeaderKeys.contentLength ≠ [] then
        (readLength (fieldValues fields HeaderKeys.contentLength)).map .sized
      else .ok .untilClose := by
  have hfirst : (method = .head || (100 ≤ status.asU16 && status.asU16 ≤ 199) ||
      status.asU16 = 204 || status.asU16 = 304) = !responseAllowsBody status method := by
    rw [responseAllowsBody_eq, isBodiless]
    by_cases hmethod : method = .head <;> simp [hmethod]
  rw [framing, hfirst]

theorem readLength_singleton (n : Nat) : readLength [toDecimal n] = .ok n := by
  have hnumber : readNumber 10 (toDecimal n) = .ok n :=
    readNumber_formatRadix (by omega) (by omega)
  rw [readLength, hnumber]
  rfl

theorem framing_bodiless {method : Method} {status : StatusCode}
    (fields : List (HeaderName × Text)) (hallowed : responseAllowsBody status method = false) :
    framing method status.asU16 fields = .ok .bodiless := by
  rw [framing_eq, hallowed]
  rfl

theorem framing_sized {method : Method} {status : StatusCode}
    {fields : List (HeaderName × Text)} {n : Nat}
    (hallowed : responseAllowsBody status method = true) (hconnect : method ≠ .connect)
    (hcoding : fieldValues fields HeaderKeys.transferEncoding = [])
    (hlength : fieldValues fields HeaderKeys.contentLength = [toDecimal n]) :
    framing method status.asU16 fields = .ok (.sized n) := by
  rw [framing_eq, hallowed, hcoding, hlength, readLength_singleton]
  simp [hconnect, Except.map]

theorem framing_chunked {method : Method} {status : StatusCode}
    {fields : List (HeaderName × Text)}
    (hallowed : responseAllowsBody status method = true) (hconnect : method ≠ .connect)
    (hcoding : fieldValues fields HeaderKeys.transferEncoding = [ascii "chunked"]) :
    framing method status.asU16 fields = .ok .chunked := by
  have hends : endsChunked [ascii "chunked"] = true := by decide
  rw [framing_eq, hallowed, hcoding, hends]
  simp [hconnect]

/-- The field the writer adds announces the body it sends. -/
theorem framing_announced {method : Method} {status : StatusCode} {body : ResponseBody}
    {fields : List (HeaderName × Text)} (hconnect : method ≠ .connect)
    (hlength : fieldValues fields HeaderKeys.contentLength = [])
    (hcoding : fieldValues fields HeaderKeys.transferEncoding = []) :
    framing method status.asU16 (fields ++ (framingField status method body).toList) =
      .ok (announcedFraming status method body) := by
  unfold announcedFraming
  cases hallowed : responseAllowsBody status method with
  | false => exact framing_bodiless _ hallowed
  | true =>
      have hboth := hallowed
      rw [responseAllowsBody_eq, Bool.and_eq_true, decide_eq_true_eq, Bool.not_eq_true'] at hboth
      obtain ⟨hstatus, hmethod⟩ := hboth
      have hsized : ∀ n, framing method status.asU16
          (fields ++ [(HeaderKeys.contentLength, toDecimal n)]) = .ok (.sized n) := by
        intro n
        refine framing_sized hallowed hconnect ?_ ?_
        · rw [fieldValues_append, hcoding, fieldValues_cons_of_ne _ _ (by decide)]
          rfl
        · rw [fieldValues_append, hlength, fieldValues_cons_self]
          rfl
      cases body with
      | empty =>
          simp only [framingField, hstatus, hmethod, Bool.false_eq_true, if_false, if_true,
            Option.toList_some]
          exact hsized 0
      | full bytes =>
          simp only [framingField, hstatus, Bool.false_eq_true, if_false, if_true,
            Option.toList_some]
          exact hsized bytes.length
      | stream items =>
          simp only [framingField, hstatus, hmethod, Bool.false_eq_true, if_false, if_true,
            Option.toList_some]
          apply framing_chunked hallowed hconnect
          rw [fieldValues_append, hcoding, fieldValues_cons_self]
          rfl

end Client

/-! ## What is sent of a body -/

/-- The chunks of a stream, up to its failures. -/
def streamChunks (items : List (Except IoError Bytes)) : List Bytes :=
  items.filterMap Except.toOption

theorem map_ok_streamChunks {items : List (Except IoError Bytes)}
    (h : ∀ item ∈ items, ∃ bytes, item = .ok bytes) : (streamChunks items).map .ok = items := by
  induction items with
  | nil => rfl
  | cons item items ih =>
      obtain ⟨bytes, rfl⟩ := h item (by simp)
      have ih := ih fun item hitem => h item (by simp [hitem])
      rw [streamChunks, List.filterMap_cons] at *
      simp only [Except.toOption, List.map_cons]
      exact congrArg _ ih

namespace Response

def sentBody (r : Response) (method : Method) : Bytes :=
  if responseAllowsBody r.status method then
    match r.body with
    | .empty => []
    | .full bytes => bytes
    | .stream items => (streamChunks items).flatten
  else []

def sentTrailers (r : Response) (method : Method) : List (HeaderName × Text) :=
  if responseAllowsBody r.status method then
    match r.body with
    | .stream _ => trailerLines r.trailers
    | _ => []
  else []

end Response

namespace Client

theorem readContent_written (c : Client) {response : Response} {method : Method} (rest : Bytes)
    (hstream : response.StreamsCleanly)
    (htrailers : ∀ l ∈ trailerLines response.trailers, c.Reads l) :
    c.readContent (announcedFraming response.status method response.body)
        ((writeBody (responseAllowsBody response.status method) response.body
          response.trailers).1 ++ rest) =
      .ok ⟨response.sentBody method, (response.sentTrailers method).map wireField, rest⟩ := by
  unfold announcedFraming writeBody Response.sentBody Response.sentTrailers
  cases responseAllowsBody response.status method with
  | false => rfl
  | true =>
      cases hbody : response.body with
      | empty => simp [readContent]
      | full bytes => simp [readContent]
      | stream items =>
          have hitems := map_ok_streamChunks (hstream items hbody)
          have hchunks : c.grammar.chunks
              ((writeChunkedBody ((streamChunks items).map .ok) response.trailers).1 ++ rest) =
              .ok ⟨(streamChunks items).flatten, (trailerLines response.trailers).map wireField,
                rest⟩ :=
            c.chunks_written rest htrailers
          rw [hitems] at hchunks
          simpa [readContent] using hchunks

/-- The framing fields a client sees when none of these lines is one. -/
def Silent (lines : List (HeaderName × Text)) : Prop :=
  ∀ l ∈ lines, (wireField l).1 ≠ HeaderKeys.contentLength ∧
    (wireField l).1 ≠ HeaderKeys.transferEncoding

theorem Silent.fieldValues_eq {lines : List (HeaderName × Text)} (h : Silent lines) :
    fieldValues (lines.map wireField) HeaderKeys.contentLength = [] ∧
      fieldValues (lines.map wireField) HeaderKeys.transferEncoding = [] := by
  constructor
  · simp only [fieldValues, List.map_eq_nil_iff, List.filter_eq_nil_iff, List.mem_map]
    rintro f ⟨l, hl, rfl⟩
    simpa using (h l hl).1
  · simp only [fieldValues, List.map_eq_nil_iff, List.filter_eq_nil_iff, List.mem_map]
    rintro f ⟨l, hl, rfl⟩
    simpa using (h l hl).2

theorem isPlainField_length (n : Nat) :
    IsPlainField (HeaderKeys.contentLength, toDecimal n) := by
  have hgraphic : ∀ b ∈ toDecimal n, isGraphic b = true :=
    isGraphic_formatRadix (by omega) (by omega)
  have hname : isToken HeaderKeys.contentLength.text = true := by decide
  exact ⟨hname, not_mem_of_graphic hgraphic (by decide), not_mem_of_graphic hgraphic (by decide),
    trimOws_graphic hgraphic⟩

theorem isPlainField_chunked : IsPlainField (HeaderKeys.transferEncoding, ascii "chunked") :=
  ⟨by decide, by decide, by decide, by decide⟩

theorem isPlainField_framingField {status : StatusCode} {method : Method}
    {body : ResponseBody} : ∀ l ∈ (framingField status method body).toList, IsPlainField l := by
  intro l hl
  rw [Option.mem_toList] at hl
  unfold framingField at hl
  split at hl
  · cases hl
  · split at hl
    · obtain rfl := Option.some.inj hl
      exact isPlainField_length _
    · split at hl
      · cases hl
      · obtain rfl := Option.some.inj hl
        exact isPlainField_length 0
    · split at hl
      · cases hl
      · obtain rfl := Option.some.inj hl
        exact isPlainField_chunked

/-- What a client reads of a response that leaves framing to the server: all of it, and
nothing of what follows. -/
theorem readReply_written (c : Client) (now : Text) {response : Response} {method : Method}
    (directive : ConnectionDirective) (rest : Bytes)
    (hc : ∀ name, isToken name = true → c.validName name = true)
    (hconnect : method ≠ .connect)
    (hlength : response.headers.contains HeaderKeys.contentLength = false)
    (hcoding : response.headers.contains HeaderKeys.transferEncoding = false)
    (hreason : CR ∉ response.reasonPhrase) (hstream : response.StreamsCleanly)
    (hlines : ∀ l ∈ (stampHeaders now response.headers directive).lines, c.Reads l)
    (hsilent : Silent (stampHeaders now response.headers directive).lines)
    (htrailers : ∀ l ∈ trailerLines response.trailers, c.Reads l) :
    c.readReply method ((writeResponse now response method directive).bytes ++ rest) =
      .ok (⟨response.version.display, response.status.asU16, response.reasonPhrase,
        (stampHeaders now response.headers directive).lines.map wireField ++
          (framingField response.status method response.body).toList,
        response.sentBody method, (response.sentTrailers method).map wireField⟩, rest) := by
  have hall := lines_frameHeaders response.status method response.body
    (contains_stampHeaders now directive (by decide) (by decide) hlength)
    (contains_stampHeaders now directive (by decide) (by decide) hcoding)
  have hplain : ∀ l ∈ (framingField response.status method response.body).toList,
      IsPlainField l := isPlainField_framingField
  have hfixed : (framingField response.status method response.body).toList.map wireField =
      (framingField response.status method response.body).toList := map_wireField hplain
  have hreads : ∀ l ∈ (frameHeaders (stampHeaders now response.headers directive)
      response.status method response.body).lines, c.Reads l := by
    intro l hl
    rw [hall, List.mem_append] at hl
    rcases hl with hl | hl
    · exact hlines l hl
    · exact (hplain l hl).reads hc
  obtain ⟨hlengthSeen, hcodingSeen⟩ := hsilent.fieldValues_eq
  rw [writeResponse_of_framed (by rw [hlength, Bool.false_and])]
  dsimp only
  rw [List.append_assoc, c.readReply_head method _ hreason hreads, hall, List.map_append, hfixed,
    framing_announced hconnect hlengthSeen hcodingSeen]
  dsimp only
  rw [c.readContent_written rest hstream htrailers]
  rfl

end Client

/-! ## A length set by the handler -/

theorem frameHeaders_of_length {headers : Headers} {status : StatusCode} {method : Method}
    (hallowed : responseAllowsBody status method = true)
    (hlength : headers.contains HeaderKeys.contentLength = true)
    (hcoding : headers.contains HeaderKeys.transferEncoding = false) :
    frameHeaders headers status method .empty = headers := by
  have hstatus : isBodiless status = false := by
    rw [responseAllowsBody_eq, Bool.and_eq_true, Bool.not_eq_true'] at hallowed
    exact hallowed.1
  unfold frameHeaders
  rw [hallowed]
  simp [frameKnownLength, hstatus, Headers.remove_absent _ hcoding, hlength]

theorem writeBody_sentBody {response : Response} {method : Method}
    (hallowed : responseAllowsBody response.status method = true)
    (hbody : ∀ items, response.body ≠ .stream items) :
    (writeBody (responseAllowsBody response.status method) response.body
      response.trailers).1 = response.sentBody method := by
  rw [Response.sentBody, hallowed]
  cases hcase : response.body with
  | empty => rfl
  | full bytes => rfl
  | stream items => exact absurd hcase (hbody items)

end GooseHttp
