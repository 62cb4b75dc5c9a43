import GooseHttp.Parse.Codings
import GooseHttp.SentHead
/-!
# The transfer coding of a streamed response

The writer keeps the codings of a handler when the first value of the field lists
`chunked`, at whatever place, and otherwise puts `chunked` in their stead.  Read back from
the wire by the parser of the server, what it sends is a chunked body only if `chunked` ends
the whole list.
-/

namespace GooseHttp

open Lib

/-- `parse_transfer_encoding` on the lines of the field, in order. -/
def readCodings : List Text → Except ParseError (List Text)
  | [] => .ok []
  | value :: values =>
      match parseTransferEncoding value with
      | .error e => .error e
      | .ok codings => (readCodings values).map (codings ++ ·)

/-- On the wire the codings of a response are read as a chunked body, `chunked` the last of
them and just once there, and these chunks are what follows the head. -/
structure Written.AnnouncesChunked (written : Written) (chunks : Bytes) : Prop where
  codings : ∃ codings, readCodings (written.values HeaderKeys.transferEncoding) = .ok codings ∧
    determineBodyMode none codings = .ok .chunked ∧ ChunkedOnlyLast codings
  content : written.content = some chunks

/-! ## Reading codings back -/

theorem readCodings_ok_iff {values codings : List Text} :
    readCodings values = .ok codings ↔
      (∀ value ∈ values, ∀ coding ∈ codingsOf value, isToken coding = true) ∧
        codings = (values.flatMap codingsOf).map asciiLowercase := by
  induction values generalizing codings with
  | nil =>
      constructor
      · rintro ⟨⟩
        exact ⟨List.forall_mem_nil _, rfl⟩
      · rintro ⟨-, rfl⟩
        rfl
  | cons value values ih =>
      rw [readCodings, List.forall_mem_cons, List.flatMap_cons, List.map_append]
      constructor
      · intro h
        split at h
        · cases h
        · rename_i front hfront
          obtain ⟨htokens, rfl⟩ := parseTransferEncoding_ok_iff.mp hfront
          cases hrest : readCodings values with
          | error e =>
              rw [hrest] at h
              cases h
          | ok back =>
              obtain ⟨hothers, rfl⟩ := ih.mp hrest
              rw [hrest] at h
              exact ⟨⟨htokens, hothers⟩, (Except.ok.inj h).symm⟩
      · rintro ⟨⟨htokens, hothers⟩, rfl⟩
        rw [parseTransferEncoding_ok_iff.mpr ⟨htokens, rfl⟩]
        dsimp only
        rw [ih.mpr ⟨hothers, rfl⟩]
        rfl

theorem determineBodyMode_none_iff {codings : List Text} :
    determineBodyMode none codings = .ok .chunked ↔ ChunkedOnlyLast codings := by
  rw [determineBodyMode_ok_iff]
  constructor
  · rintro (⟨-, hlast, -, -⟩ | ⟨-, length, hlength, -⟩ | ⟨-, -, hmode⟩)
    · exact hlast
    · cases hlength
    · cases hmode
  · intro hlast
    have hne : codings ≠ [] := by
      obtain ⟨front, last, rfl, -⟩ := hlast
      exact List.append_ne_nil_of_right_ne_nil front (List.cons_ne_nil last [])
    exact Or.inl ⟨hne, hlast, rfl, rfl⟩

theorem chunkedOnlyLast_map_lowercase_iff {codings : List Text} :
    ChunkedOnlyLast (codings.map asciiLowercase) ↔ ChunkedOnlyLast codings :=
  ⟨chunkedOnlyLast_lowercase, chunkedOnlyLast_map_lowercase⟩

/-- Lines are read as a chunked body if they list tokens and `chunked` ends the list that
they make together. -/
theorem readCodings_chunked_iff {values : List Text} :
    (∃ codings, readCodings values = .ok codings ∧
      determineBodyMode none codings = .ok .chunked ∧ ChunkedOnlyLast codings) ↔
    (∀ value ∈ values, ∀ coding ∈ codingsOf value, isToken coding = true) ∧
      ChunkedOnlyLast (values.flatMap codingsOf) := by
  simp only [readCodings_ok_iff, determineBodyMode_none_iff, and_self]
  constructor
  · rintro ⟨_, ⟨htokens, rfl⟩, hlast⟩
    exact ⟨htokens, chunkedOnlyLast_map_lowercase_iff.mp hlast⟩
  · rintro ⟨htokens, hlast⟩
    exact ⟨_, ⟨htokens, rfl⟩, chunkedOnlyLast_map_lowercase_iff.mpr hlast⟩

/-! ## What the writer makes of a handler's codings -/

section Streamed

variable {now : Text} {response : Response} {method : Method} {directive : ConnectionDirective}
  {items : List (Except IoError Bytes)}

theorem announcesChunked_iff_given
    (hallowed : responseAllowsBody response.status method = true)
    (hbody : response.body = .stream items)
    (hok : (writeResponse now response method directive).result = .ok ()) :
    (writeResponse now response method directive).AnnouncesChunked
        (writeChunkedBody items response.trailers).1 ↔
      cutOff (response.headTexts now method directive) = [] ∧
        (∀ value ∈ response.givenValues now method directive HeaderKeys.transferEncoding,
          ∀ coding ∈ codingsOf value, isToken coding = true) ∧
        ChunkedOnlyLast ((response.givenValues now method directive
          HeaderKeys.transferEncoding).flatMap codingsOf) := by
  have hcontent : (writeResponse now response method directive).content = _ :=
    content_writeResponse (not_conflict_of_ok hok)
  have hvalues : (writeResponse now response method directive).values
      HeaderKeys.transferEncoding =
        response.givenValues now method directive HeaderKeys.transferEncoding :=
    values_writeResponse (not_conflict_of_ok hok) _
  rw [hallowed, hbody] at hcontent
  have hwhole : (writeResponse now response method directive).content =
      some (writeChunkedBody items response.trailers).1 ↔
        cutOff (response.headTexts now method directive) = [] := by
    rw [hcontent, Option.some_inj]
    exact List.append_left_eq_self
  rw [← readCodings_chunked_iff, ← hvalues, ← hwhole, and_comm]
  exact ⟨fun h => ⟨h.codings, h.content⟩, fun h => ⟨h.1, h.2⟩⟩

/-- Where no text holds a line end, the codings on the wire are those of the handler if the
first value lists `chunked`, and else `chunked` alone. -/
theorem Response.StaysOnLines.codings (h : response.StaysOnLines) (hnow : ¬ CRLF <:+: now)
    (hallowed : responseAllowsBody response.status method = true)
    (hbody : response.body = .stream items) :
    (response.givenValues now method directive HeaderKeys.transferEncoding).map codingsOf =
      if listsChunked response.headers then
        (response.headers.values HeaderKeys.transferEncoding).map codingsOf
      else [[ascii "chunked"]] := by
  have htrim : codingsOf ∘ trimOws = codingsOf := funext splitAll_trimOws
  rw [h.givenValues hnow, values_coding_edited ⟨hallowed, items, hbody⟩, List.map_map, htrim]
  split
  · rfl
  · decide +kernel

end Streamed

/-- A streamed response announces its chunks if and only if its texts make no empty line and
the codings they name are tokens, `chunked` the last of all and just once among them.  Where
no text holds a line end, this asks something of the handler only if the first value lists
`chunked`: that `chunked` is the last of all codings, and just once among them. -/
theorem writeResponse_announcesChunked_iff (now : Text) {response : Response} {method : Method}
    (directive : ConnectionDirective) {items : List (Except IoError Bytes)}
    (hallowed : responseAllowsBody response.status method = true)
    (hbody : response.body = .stream items)
    (hok : (writeResponse now response method directive).result = .ok ()) :
    let announces := (writeResponse now response method directive).AnnouncesChunked
      (writeChunkedBody items response.trailers).1
    (announces ↔ cutOff (response.headTexts now method directive) = [] ∧
      (∀ value ∈ response.givenValues now method directive HeaderKeys.transferEncoding,
        ∀ coding ∈ codingsOf value, isToken coding = true) ∧
      ChunkedOnlyLast ((response.givenValues now method directive
        HeaderKeys.transferEncoding).flatMap codingsOf)) ∧
    (response.StaysOnLines → ¬ CRLF <:+: now →
      (announces ↔ (listsChunked response.headers = true →
        (∀ value ∈ response.headers.values HeaderKeys.transferEncoding,
          ∀ coding ∈ codingsOf value, isToken coding = true) ∧
        ChunkedOnlyLast ((response.headers.values HeaderKeys.transferEncoding).flatMap
          codingsOf)))) := by
  refine ⟨announcesChunked_iff_given hallowed hbody hok, fun hstays hnow => ?_⟩
  have hcut : cutOff (response.headTexts now method directive) = [] :=
    cutOff_eq_nil_iff.mpr (hstays.empty_not_mem hnow method directive)
  have hcodings : (response.givenValues now method directive
      HeaderKeys.transferEncoding).map codingsOf = _ := hstays.codings hnow hallowed hbody
  have htokens : ∀ values : List Text,
      (∀ value ∈ values, ∀ coding ∈ codingsOf value, isToken coding = true) ↔
        ∀ codings ∈ values.map codingsOf, ∀ coding ∈ codings, isToken coding = true := by
    intro values
    rw [List.forall_mem_map]
  rw [announcesChunked_iff_given hallowed hbody hok, List.flatMap_def, htokens, hcodings, htokens,
    List.flatMap_def]
  cases hlists : listsChunked response.headers with
  | true => simp [hcut]
  | false =>
      have hlast : ChunkedOnlyLast [ascii "chunked"] := ⟨[], _, rfl, by decide, by decide⟩
      have htoken : isToken (ascii "chunked") = true := by decide
      simp [hcut, hlast, htoken]

def streamedCoding (value : Text) : Response :=
  { Response.new .OK with
    headers := Headers.empty.insert HeaderKeys.transferEncoding value
    body := .stream [.ok (ascii "a")] }

theorem writeResponse_announcesChunked_iff_compressed :
    (writeResponse (Env.atEpoch.now 0).text (streamedCoding (ascii "gzip , Chunked")) .get
      .close).AnnouncesChunked (writeChunkedBody [.ok (ascii "a")] none).1 :=
  (writeResponse_announcesChunked_iff (Env.atEpoch.now 0).text .close rfl rfl rfl).1.mpr
    ⟨by decide +kernel, by decide +kernel,
      [ascii "gzip"], ascii "Chunked", by decide +kernel, by decide, by decide⟩

/-- A list with `chunked` in front is kept, and the parser does not take it. -/
theorem writeResponse_chunkedFirst :
    (∀ value ∈ (streamedCoding (ascii "chunked, gzip")).headers.values
      HeaderKeys.transferEncoding, IsCodingList value) ∧
    (streamedCoding (ascii "chunked, gzip")).headers.contains HeaderKeys.contentLength = false ∧
    responseAllowsBody (streamedCoding (ascii "chunked, gzip")).status .get = true ∧
    let written := writeResponse (Env.atEpoch.now 0).text (streamedCoding (ascii "chunked, gzip"))
      .get .close
    written.result = .ok () ∧
      ¬ written.AnnouncesChunked (writeChunkedBody [.ok (ascii "a")] none).1 := by
  refine ⟨by decide +kernel, by decide, rfl, rfl, ?_⟩
  rintro ⟨⟨codings, hread, hmode, -⟩, -⟩
  have hlines : readCodings ((writeResponse (Env.atEpoch.now 0).text
      (streamedCoding (ascii "chunked, gzip")) .get .close).values
        HeaderKeys.transferEncoding) = .ok [ascii "chunked", ascii "gzip"] := by decide +kernel
  rw [hlines] at hread
  rw [← Except.ok.inj hread] at hmode
  exact absurd hmode (by decide)

end GooseHttp
