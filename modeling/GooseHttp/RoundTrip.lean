import GooseHttp.Framing
import GooseHttp.Precondition
/-!
# Responses read back

A response that leaves framing to the server survives the wire: whatever its status
and body and whatever the method of the request, a client that insists on the grammar
reads the same response and stops exactly where it ends.
-/

namespace GooseHttp

open Lib Client

/-- The fields of a response behind its `Date` and `Connection` edits. -/
def stampedFields (now : Text) (fields : List (HeaderName × List Text))
    (directive : ConnectionDirective) : List (HeaderName × List Text) :=
  let fields :=
    if (Multimap.find HeaderKeys.date fields).isSome then fields
    else fields ++ [(HeaderKeys.date, [now])]
  match directive with
  | .close => Multimap.setValues HeaderKeys.connection [ascii "close"] fields
  | .keepAlive => fields

theorem iter_stampHeaders (now : Text) (headers : Headers) (directive : ConnectionDirective) :
    (stampHeaders now headers directive).iter = stampedFields now headers.iter directive := by
  have hdated : (if headers.contains HeaderKeys.date then headers
      else headers.insert HeaderKeys.date now).iter =
        if (Multimap.find HeaderKeys.date headers.iter).isSome then headers.iter
        else headers.iter ++ [(HeaderKeys.date, [now])] := by
    rw [Headers.find_iter]
    split
    · rename_i hdate
      exact (if_pos hdate).symm
    · rename_i hdate
      have hnone : Multimap.find HeaderKeys.date headers.iter = none := by
        rw [Headers.find_iter, ← Headers.contains_eq_false_iff]
        simpa using hdate
      rw [Headers.iter_insert, Multimap.setValues_of_find_none hnone]
      exact (if_neg hdate).symm
  cases directive with
  | close =>
      rw [stampHeaders, applyConnectionDirective, Headers.iter_insert, hdated]
      rfl
  | keepAlive => exact hdated

theorem cr_not_mem_reasonPhrase {response : Response}
    (h : ∀ reason, response.reason = some reason → CR ∉ reason) :
    CR ∉ response.reasonPhrase := by
  rw [Response.reasonPhrase]
  cases hreason : response.reason with
  | some reason => exact h reason hreason
  | none =>
      cases hcanonical : response.status.canonicalReason with
      | some reason => exact (StatusCode.canonicalReason_clean hcanonical).1
      | none => exact List.not_mem_nil

theorem ImfFixdate.isPlainField (now : ImfFixdate) :
    IsPlainField (HeaderKeys.date, now.text) := by
  have hname : isToken HeaderKeys.date.text = true := by decide
  exact ⟨hname, now.noCr, now.noLf, now.trimmed⟩

theorem isPlainField_close : IsPlainField (HeaderKeys.connection, ascii "close") :=
  ⟨by decide, by decide, by decide, by decide⟩

/-- Every response that leaves framing to the server is written, and reads back as the
same status, the handler's fields with their `Date` and `Connection` edits, at most one
framing field and the body, to the last byte and not one more. -/
theorem readReply_writeResponse (now : ImfFixdate) (response : Response) (method : Method)
    (directive : ConnectionDirective) (rest : Bytes) (hversion : response.version = .http11)
    (hconnect : method ≠ .connect)
    (hlength : response.headers.contains HeaderKeys.contentLength = false)
    (hcoding : response.headers.contains HeaderKeys.transferEncoding = false)
    (hfields : ∀ l ∈ response.headers.lines, IsPlainField l)
    (htrailers : ∀ l ∈ trailerLines response.trailers, IsPlainField l)
    (hreason : ∀ reason, response.reason = some reason → CR ∉ reason)
    (hstream : response.StreamsCleanly) :
    let written := writeResponse now.text response method directive
    written.result = .ok () ∧
      (written.response.headers.contains HeaderKeys.contentLength &&
        written.response.headers.contains HeaderKeys.transferEncoding) = false ∧
      strict.readReply method (written.bytes ++ rest) =
        .ok (⟨ascii "HTTP/1.1", response.status.asU16, response.reasonPhrase,
          Multimap.lines (stampedFields now.text response.headers.iter directive) ++
            (framingField response.status method response.body).toList,
          response.sentBody method, response.sentTrailers method⟩, rest) := by
  have htoken : ∀ name, isToken name = true → strict.validName name = true := fun _ h => h
  have hplain : ∀ l ∈ (stampHeaders now.text response.headers directive).lines, IsPlainField l :=
    forall_lines_stampHeaders directive hfields now.isPlainField isPlainField_close
  have hstampedLength := contains_stampHeaders now.text directive (by decide) (by decide) hlength
  have hstampedCoding := contains_stampHeaders now.text directive (by decide) (by decide) hcoding
  have hsilent : Silent (stampHeaders now.text response.headers directive).lines := by
    intro l hl
    rw [(hplain l hl).wireField_eq]
    exact ⟨Headers.ne_of_mem_lines hl hstampedLength, Headers.ne_of_mem_lines hl hstampedCoding⟩
  have hsent : ∀ l ∈ response.sentTrailers method, IsPlainField l := by
    intro l hl
    unfold Response.sentTrailers at hl
    split at hl
    · split at hl
      · exact htrailers l hl
      · cases hl
    · cases hl
  have hframed : (response.headers.contains HeaderKeys.contentLength &&
      response.headers.contains HeaderKeys.transferEncoding) = false := by
    rw [hlength, Bool.false_and]
  refine ⟨writeResponse_result_ok hstream hframed, ?_, ?_⟩
  · rw [writeResponse_headers hframed]
    exact frameHeaders_not_both response.status method response.body hstampedLength hstampedCoding
  rw [strict.readReply_written now.text directive rest htoken hconnect hlength hcoding
    (cr_not_mem_reasonPhrase hreason) hstream (fun l hl => (hplain l hl).reads htoken) hsilent
    (fun l hl => (htrailers l hl).reads htoken), map_wireField hplain, map_wireField hsent,
    hversion, Headers.lines, iter_stampHeaders]
  rfl

def streamedResponse : Response :=
  { Response.new .OK with
    headers := Headers.empty.insert (.new (ascii "X-Kind")) (ascii "demo")
    body := .stream [.ok (ascii "ab"), .ok [], .ok (ascii "c")]
    trailers := some (Headers.empty.insert (.new (ascii "X-Sum")) (ascii "1")) }

theorem streamedResponse_streamsCleanly : streamedResponse.StreamsCleanly := by
  rintro _ ⟨⟩ item hitem
  simp only [List.mem_cons, List.not_mem_nil, or_false] at hitem
  rcases hitem with rfl | rfl | rfl <;> exact ⟨_, rfl⟩

theorem readReply_streamedResponse :
    ∃ reply, strict.readReply .get ((writeResponse (Env.atEpoch.now 0).text streamedResponse .get
        .close).bytes ++ ascii "HTTP/1.1") = .ok (reply, ascii "HTTP/1.1") ∧
      reply.body = ascii "abc" :=
  ⟨_, (readReply_writeResponse (Env.atEpoch.now 0) streamedResponse .get .close (ascii "HTTP/1.1")
    rfl (by decide) (by decide) (by decide) (by decide +kernel) (by decide +kernel)
    (fun _ h => by cases h) streamedResponse_streamsCleanly).2.2, by decide⟩

end GooseHttp
