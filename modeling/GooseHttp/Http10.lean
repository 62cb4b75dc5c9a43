import GooseHttp.Safety
import GooseHttp.SentHead
/-!
# Clients of HTTP/1.0

What a connection writes for a request of HTTP/1.0.  Such a request is the last of its
connection.  The loop knows the version of the request, but neither the decision about
`100 Continue` nor the writer is told: a client that expects a `100 Continue` is sent
one, and a streamed body is sent in chunks.  What the client reads is taken off the wire,
where the texts of a handler can make lines of their own.
-/

namespace GooseHttp

open Lib Client

variable {σ : Type}

/-- The bytes a stream gives until it fails. -/
def streamedBytes : List (Except IoError Bytes) → Bytes
  | [] => []
  | .error _ :: _ => []
  | .ok bytes :: items => bytes ++ streamedBytes items

def Response.content (r : Response) : Bytes :=
  match r.body with
  | .empty => []
  | .full bytes => bytes
  | .stream items => streamedBytes items

/-- On the wire a final response without transfer coding, whose body is absent where the
method or the status rules it out and else is the content as it is, with every length that
is announced its own. -/
structure Written.IsPlain (w : Written) (method : Method) (content : Bytes) : Prop where
  final : 200 ≤ w.response.status.asU16
  uncoded : w.values HeaderKeys.transferEncoding = []
  body : w.content = some (if responseAllowsBody w.response.status method then content else [])
  delimited : responseAllowsBody w.response.status method = true →
    ∀ value ∈ w.values HeaderKeys.contentLength, readNumber 10 value = .ok content.length

def Event.IsHttp10 : Event → Prop
  | .continued => False
  | .exchanged x => x.written.IsPlain x.request.method x.response.content
  | .refused _ w => ∃ content, w.IsPlain .get content
  | _ => True

/-- A response that HTTP/1.0 can read: final, not streamed, and no text of it makes an empty
line, a transfer coding or, where it has a body, a wrong length. -/
structure SuitsHttp10 (r : Response) (now : Text) (method : Method)
    (directive : ConnectionDirective) : Prop where
  final : 200 ≤ r.status.asU16
  plain : ¬ r.IsStreamed method
  whole : [] ∉ linesOf (r.headTexts now method directive)
  uncoded : r.givenValues now method directive HeaderKeys.transferEncoding = []
  lengths : responseAllowsBody r.status method = true →
    ∀ value ∈ r.givenValues now method directive HeaderKeys.contentLength,
      readNumber 10 value = .ok r.content.length

/-! ## The responses -/

theorem length_writeChunks (items : List (Except IoError Bytes)) :
    (streamedBytes items).length ≤ (writeChunks items).1.length := by
  induction items with
  | nil => exact Nat.le_refl _
  | cons item items ih =>
      cases item with
      | error e => exact Nat.le_refl _
      | ok chunk =>
          rw [streamedBytes, writeChunks]
          split
          · rename_i hnil
            rw [hnil]
            exact ih
          · simp only [List.length_append]
            omega

theorem length_writeChunkedBody (items : List (Except IoError Bytes))
    (trailers : Option Headers) :
    (streamedBytes items).length ≤ (writeChunkedBody items trailers).1.length := by
  have hchunks := length_writeChunks items
  unfold writeChunkedBody
  split
  · rename_i bytes e hwritten
    rwa [hwritten] at hchunks
  · rename_i bytes hwritten
    rw [hwritten] at hchunks
    simp only [List.length_append] at hchunks ⊢
    omega

section Streamed

variable {now : Text} {response : Response} {method : Method} {directive : ConnectionDirective}

/-- A streamed body is announced by a coding, unless the head ends in front of it. -/
theorem coded_of_streamed (hcoding : response.headers.contains HeaderKeys.transferEncoding = false)
    (hstream : response.IsStreamed method)
    (hwhole : [] ∉ linesOf (response.headTexts now method directive)) :
    response.givenValues now method directive HeaderKeys.transferEncoding ≠ [] := by
  have hlists : listsChunked response.headers = false := by
    rw [listsChunked, Headers.get_eq_head?, (Headers.values_eq_nil_iff _ _).mpr hcoding]
    rfl
  have hnone : Multimap.find HeaderKeys.transferEncoding ((stampHeaders now response.headers
      directive).remove HeaderKeys.contentLength).iter = none := by
    rw [Headers.find_iter, Headers.getAll_remove_of_ne _ (by decide),
      getAll_stampHeaders (by decide) (by decide), ← Headers.contains_eq_false_iff]
    exact hcoding
  have hframed : framedFields response.status method response.body
      (stampedFields now response.headers.iter directive) =
        ((stampHeaders now response.headers directive).remove HeaderKeys.contentLength).iter ++
          [(HeaderKeys.transferEncoding, [ascii "chunked"])] := by
    rw [← iter_stampHeaders, ← iter_frameHeaders, frameHeaders_streamed hstream,
      ensureChunkedEncoding_eq, listsChunked_edited, hlists, if_neg (by decide),
      Headers.iter_insert, Multimap.setValues_of_find_none hnone]
  have hplain : ∀ l ∈ Multimap.lines [(HeaderKeys.transferEncoding, [ascii "chunked"])],
      IsPlainField l := by
    intro l hl
    obtain rfl := List.mem_singleton.mp hl
    exact isPlainField_chunked
  rw [Response.givenValues, (headTexts_added hframed hplain).2 hwhole]
  simp

theorem writeBody_content (hplain : ¬ response.IsStreamed method) :
    (writeBody (responseAllowsBody response.status method) response.body
      response.trailers).1 =
        if responseAllowsBody response.status method then response.content else [] := by
  cases hallowed : responseAllowsBody response.status method with
  | false => rfl
  | true =>
      rw [if_pos rfl, Response.content]
      cases hbody : response.body with
      | empty => rfl
      | full bytes => rfl
      | stream items => exact absurd ⟨hallowed, items, hbody⟩ hplain

/-- A written response can be read if and only if it suits HTTP/1.0. -/
theorem writeResponse_isPlain_iff
    (hcoding : response.headers.contains HeaderKeys.transferEncoding = false) :
    (writeResponse now response method directive).IsPlain method response.content ↔
      SuitsHttp10 response now method directive := by
  have hframed := not_conflict_of_uncoded hcoding
  have hstatus : (writeResponse now response method directive).response.status =
      response.status := by
    rw [writeResponse_of_framed hframed]
  have hcontent : (writeResponse now response method directive).content = _ :=
    content_writeResponse hframed
  have hvalues : ∀ name, (writeResponse now response method directive).values name =
      response.givenValues now method directive name := values_writeResponse hframed
  constructor
  · rintro ⟨hfinal, huncoded, hbody, hlengths⟩
    rw [hvalues] at huncoded hlengths
    rw [hstatus] at hfinal hbody hlengths
    rw [hcontent, Option.some_inj] at hbody
    have hplain : ¬ response.IsStreamed method := by
      intro hstream
      obtain ⟨hallowed, items, hitems⟩ := hstream
      have hcut : cutOff (response.headTexts now method directive) ≠ [] := fun hnil =>
        coded_of_streamed hcoding ⟨hallowed, items, hitems⟩ (cutOff_eq_nil_iff.mp hnil) huncoded
      -- chunks are no shorter than what they carry, so nothing fits in front of them
      rw [hallowed, if_pos rfl, Response.content, hitems] at hbody
      have hlength := congrArg List.length hbody
      have hchunks := length_writeChunkedBody items response.trailers
      have hpos := List.length_pos_iff.mpr hcut
      rw [List.length_append] at hlength
      change _ + (writeChunkedBody items response.trailers).1.length =
        (streamedBytes items).length at hlength
      omega
    rw [writeBody_content hplain, List.append_left_eq_self, cutOff_eq_nil_iff] at hbody
    exact ⟨hfinal, hplain, hbody, huncoded, hlengths⟩
  · rintro ⟨hfinal, hplain, hwhole, huncoded, hlengths⟩
    refine ⟨by rwa [hstatus], by rwa [hvalues], ?_, ?_⟩
    · rw [hcontent, hstatus, writeBody_content hplain, cutOff_eq_nil_iff.mpr hwhole,
        List.nil_append]
    · rw [hstatus, hvalues]
      exact hlengths

end Streamed

/-! ## Responses without line ends -/

/-- A response that HTTP/1.0 can read as far as its fields tell: final, not streamed, and
where it has a body, with no length of the handler's but that of the body. -/
structure Response.FitsHttp10 (r : Response) (method : Method) : Prop where
  final : 200 ≤ r.status.asU16
  plain : ¬ r.IsStreamed method
  lengths : responseAllowsBody r.status method = true →
    ∀ value ∈ r.headers.values HeaderKeys.contentLength,
      readNumber 10 (trimOws value) = .ok r.content.length

theorem values_length_edited {now : Text} {r : Response} {method : Method}
    {directive : ConnectionDirective} (hallowed : responseAllowsBody r.status method = true)
    (hstream : ¬ r.IsStreamed method) :
    (frameHeaders (stampHeaders now r.headers directive) r.status method r.body).values
        HeaderKeys.contentLength =
      if r.headers.contains HeaderKeys.contentLength then
        r.headers.values HeaderKeys.contentLength
      else [toDecimal r.content.length] := by
  have hbodiless : isBodiless r.status = false := by
    rw [responseAllowsBody_eq, Bool.and_eq_true, Bool.not_eq_true'] at hallowed
    exact hallowed.1
  have hstamped : (stampHeaders now r.headers directive).values HeaderKeys.contentLength =
      r.headers.values HeaderKeys.contentLength := by
    rw [Headers.values, getAll_stampHeaders (by decide) (by decide), Headers.values]
  have hcontains : (stampHeaders now r.headers directive).contains HeaderKeys.contentLength =
      r.headers.contains HeaderKeys.contentLength := by
    rw [Bool.eq_iff_iff, ← Headers.values_ne_nil_iff, ← Headers.values_ne_nil_iff, hstamped]
  unfold frameHeaders
  rw [hallowed, Bool.not_true, if_neg (by decide), Response.content]
  cases hbody : r.body with
  | empty =>
      dsimp only
      rw [values_length_frameKnownLength, hbodiless, hcontains, hstamped]
      rfl
  | full bytes =>
      dsimp only
      rw [values_length_frameKnownLength, hbodiless, hcontains, hstamped]
      rfl
  | stream items => exact absurd ⟨hallowed, items, hbody⟩ hstream

theorem readNumber_length (n : Nat) : readNumber 10 (trimOws (toDecimal n)) = .ok n := by
  rw [(isPlainField_length n).trimmed]
  exact readNumber_formatRadix (by omega) (by omega)

/-- Where no text holds a line end, a response suits HTTP/1.0 if its fields tell so. -/
theorem Response.StaysOnLines.suits_iff {r : Response} {now : Text} (h : r.StaysOnLines)
    (hnow : ¬ CRLF <:+: now) (method : Method) (directive : ConnectionDirective) :
    SuitsHttp10 r now method directive ↔ r.FitsHttp10 method := by
  have hlengths : ¬ r.IsStreamed method → responseAllowsBody r.status method = true →
      ((∀ value ∈ r.givenValues now method directive HeaderKeys.contentLength,
        readNumber 10 value = .ok r.content.length) ↔
      ∀ value ∈ r.headers.values HeaderKeys.contentLength,
        readNumber 10 (trimOws value) = .ok r.content.length) := by
    intro hplain hallowed
    rw [h.givenValues hnow, values_length_edited hallowed hplain, List.forall_mem_map]
    split
    · rfl
    · rename_i hnone
      rw [Bool.not_eq_true] at hnone
      rw [(Headers.values_eq_nil_iff _ _).mpr hnone]
      simp [readNumber_length]
  constructor
  · rintro ⟨hfinal, hplain, -, -, hgiven⟩
    exact ⟨hfinal, hplain, fun hallowed => (hlengths hplain hallowed).mp (hgiven hallowed)⟩
  · rintro ⟨hfinal, hplain, hstored⟩
    refine ⟨hfinal, hplain, h.empty_not_mem hnow method directive, ?_,
      fun hallowed => (hlengths hplain hallowed).mpr (hstored hallowed)⟩
    rw [h.givenValues hnow, List.map_eq_nil_iff]
    by_contra hcoded
    exact hplain ((coded_frameHeaders_iff _ _ _ _).mp hcoded)

theorem contains_coding_prepare (env : Env) (request : Request) {answer : Response}
    (h : answer.headers.contains HeaderKeys.transferEncoding = false) :
    (prepare env request answer).headers.contains HeaderKeys.transferEncoding = false := by
  rcases prepare_cases env request answer with hp | ⟨status, -, hp⟩
  · rw [hp]
    exact h
  · rw [hp, Headers.contains_eq_false_iff]
    exact getAll_replaceByStatus_framing answer status (Or.inr rfl)

theorem errorResponse_suits (now : ImfFixdate) {status : StatusCode} (message : Text)
    (hstatus : status = .BAD_REQUEST ∨ status = .REQUEST_TIMEOUT) :
    SuitsHttp10 (errorResponse status message) now.text .get .close := by
  have hbodiless : isBodiless status = false := by
    rcases hstatus with rfl | rfl <;> decide
  have hframed : framedFields (errorResponse status message).status .get
      (errorResponse status message).body
      (stampedFields now.text (errorResponse status message).headers.iter .close) = [] ++
        [(HeaderKeys.contentType, [ascii "text/plain; charset=utf-8"]),
          (HeaderKeys.date, [now.text]), (HeaderKeys.connection, [ascii "close"]),
          (HeaderKeys.contentLength, [toDecimal message.length])] := by
    rcases hstatus with rfl | rfl <;> rfl
  have hplain : ∀ l ∈ Multimap.lines
      [(HeaderKeys.contentType, [ascii "text/plain; charset=utf-8"]),
        (HeaderKeys.date, [now.text]), (HeaderKeys.connection, [ascii "close"]),
        (HeaderKeys.contentLength, [toDecimal message.length])], IsPlainField l := by
    have htype : IsPlainField (HeaderKeys.contentType, ascii "text/plain; charset=utf-8") := by
      decide +kernel
    have hclose : IsPlainField (HeaderKeys.connection, ascii "close") := by decide +kernel
    simp [htype, hclose, now.isPlainField, isPlainField_length]
  have hline : splitPair CR LF (statusText (errorResponse status message).version
      (errorResponse status message).status (errorResponse status message).reasonPhrase) =
        [_] ∧ _ := splitPair_statusText (cr_not_mem_reasonPhrase fun _ h => by cases h)
  obtain ⟨hempty, hshown⟩ := headTexts_added hframed hplain
  have hwhole : [] ∉ linesOf ((errorResponse status message).headTexts now.text .get .close) := by
    rw [hempty, linesOf_cons, hline.1]
    exact fun hmem => hline.2 (List.mem_singleton.mp hmem).symm
  have hvalues : ∀ name, (errorResponse status message).givenValues now.text .get .close name =
      fieldValues (Multimap.lines
        [(HeaderKeys.contentType, [ascii "text/plain; charset=utf-8"]),
          (HeaderKeys.date, [now.text]), (HeaderKeys.connection, [ascii "close"]),
          (HeaderKeys.contentLength, [toDecimal message.length])]) name := by
    intro name
    rw [Response.givenValues, hshown hwhole, hline.1]
    rfl
  refine ⟨?_, ?_, hwhole, ?_, fun _ value hvalue => ?_⟩
  · show 200 ≤ status.asU16
    rcases hstatus with rfl | rfl <;> decide
  · rintro ⟨-, items, hitems⟩
    cases hitems
  · rw [hvalues]
    rfl
  · rw [hvalues] at hvalue
    obtain rfl : value = toDecimal message.length := List.mem_singleton.mp hvalue
    exact readNumber_formatRadix (by omega) (by omega)

/-! ## The rounds -/

theorem headEvents_isHttp10 (request : Request) (mode : BodyMode) :
    (∀ e ∈ headEvents request mode, e.IsHttp10) ↔ request.expect100Continue = false := by
  rw [headEvents]
  cases request.expect100Continue <;> simp [Event.IsHttp10]

theorem afterHead_error_refused (env : Env) (handler : Handler σ) (p : Progress σ)
    (request : Request) (mode : BodyMode) (x : Interrupt) :
    ∃ outcome status message, ∃ now : ImfFixdate,
      afterHead env handler p request mode (.error x) = .done outcome ∧
      (status = .BAD_REQUEST ∨ status = .REQUEST_TIMEOUT) ∧
      outcome.progress.trace = p.trace ++ (headEvents request mode ++
        [.bodyFailed x,
          .refused status (writeResponse now.text (errorResponse status message) .get .close)]) := by
  cases x with
  | error e =>
      refine ⟨_, .BAD_REQUEST, ascii "Malformed request body",
        env.now p.responses, rfl, Or.inl rfl, ?_⟩
      simp [refuse, Progress.log]
  | elapsed =>
      refine ⟨_, .REQUEST_TIMEOUT, ascii "Request body timeout",
        env.now p.responses, rfl, Or.inr rfl, ?_⟩
      simp [refuse, Progress.log]

namespace Connection

def AnswerSuits (env : Env) (handler : Handler σ) (p : Progress σ) (request : Request) : Prop :=
  SuitsHttp10 (prepare env request (handler { request with body := .empty } p.handlerState).1)
    (env.now p.responses).text request.method .close

/-- Nothing about an accepted request calls for HTTP/1.1: it expects no `100 Continue`,
and if its body arrives, the response to it suits HTTP/1.0. -/
def AvoidsHttp11 (env : Env) (handler : Handler σ) (c : Connection σ) (request : Request)
    (mode : BodyMode) (consumed : Nat) : Prop :=
  request.expect100Continue = false ∧
    ∀ payload input, readBody mode (c.input.advance consumed) = (.ok payload, input) →
      AnswerSuits env handler c.progress { request with payload := payload }

/-- The same where no text of the handler holds a line end. -/
def KeepsToHttp10 (env : Env) (handler : Handler σ) (c : Connection σ) (request : Request)
    (mode : BodyMode) (consumed : Nat) : Prop :=
  request.expect100Continue = false ∧
    ∀ payload input, readBody mode (c.input.advance consumed) = (.ok payload, input) →
      (prepare env { request with payload := payload }
        (handler { request with payload := payload, body := .empty }
          c.progress.handlerState).1).FitsHttp10 request.method

theorem avoidsHttp11_iff (env : Env) {handler : Handler σ} (c : Connection σ)
    (request : Request) (mode : BodyMode) (consumed : Nat)
    (hstays : ∀ request s, (handler request s).1.StaysOnLines) :
    c.AvoidsHttp11 env handler request mode consumed ↔
      c.KeepsToHttp10 env handler request mode consumed := by
  have hnow : ¬ CRLF <:+: (env.now c.progress.responses).text :=
    not_crlf_infix_of_not_mem (env.now c.progress.responses).isPlainField.noCr
  have hsuits : ∀ payload, AnswerSuits env handler c.progress { request with payload := payload } ↔
      _ := fun payload => ((hstays _ _).prepare env _).suits_iff hnow request.method .close
  simp only [AvoidsHttp11, KeepsToHttp10, hsuits]

theorem serve_isPlain_iff (env : Env) {handler : Handler σ} (p : Progress σ) {request : Request}
    (hversion : request.version = .http10)
    (hcoding : (handler { request with body := .empty } p.handlerState).1.headers.contains
      HeaderKeys.transferEncoding = false) :
    (Event.exchanged (serve env handler p.responses p.handlerState request).1).IsHttp10 ↔
      AnswerSuits env handler p request := by
  have hclose : directiveFor request (prepare env request
      (handler { request with body := .empty } p.handlerState).1) = .close :=
    if_pos (by simp [hversion])
  have hwritten := serve_written env handler p.responses p.handlerState request
  dsimp only at hwritten
  rw [hclose] at hwritten
  rw [Event.IsHttp10, hwritten]
  exact writeResponse_isPlain_iff (contains_coding_prepare env request hcoding)

theorem round_http10 (env : Env) {handler : Handler σ} {c : Connection σ} {request : Request}
    {mode : BodyMode} {consumed : Nat}
    (hparse : parseRequestHead c.input.buffer = .ok (request, mode, consumed))
    (hversion : request.version = .http10)
    (hcoding : ∀ request s,
      (handler request s).1.headers.contains HeaderKeys.transferEncoding = false) :
    ∃ outcome events, c.round env handler = .done outcome ∧
      outcome.progress.trace = c.progress.trace ++ events ∧
      ((∀ e ∈ events, e.IsHttp10) ↔ c.AvoidsHttp11 env handler request mode consumed) := by
  obtain ⟨body, input, hbody⟩ : ∃ body input,
      readBody mode (c.input.advance consumed) = (body, input) := ⟨_, _, rfl⟩
  rw [round_of_parse hparse hbody, AvoidsHttp11, hbody]
  cases body with
  | error x =>
      obtain ⟨outcome, status, message, now, hafter, hstatus, htrace⟩ :=
        afterHead_error_refused env handler c.progress request mode x
      rw [hafter]
      refine ⟨outcome, _, rfl, htrace, ?_⟩
      have hcoding : (errorResponse status message).headers.contains
          HeaderKeys.transferEncoding = false := by
        simp only [errorResponse]
        decide
      have hplain : ∃ content, (writeResponse now.text (errorResponse status message) .get
          .close).IsPlain .get content :=
        ⟨_, (writeResponse_isPlain_iff hcoding).mpr (errorResponse_suits now message hstatus)⟩
      rw [List.forall_mem_append, headEvents_isHttp10]
      simp [hplain, Event.IsHttp10]
  | ok payload =>
      have hafter := afterHead_ok env handler c.progress request mode payload
      have hclose : (serve env handler c.progress.responses c.progress.handlerState
          { request with payload := payload }).1.directive = .close :=
        if_pos (by simp [hversion])
      have hserved : _ ↔ AnswerSuits env handler c.progress { request with payload := payload } :=
        serve_isPlain_iff env c.progress hversion (hcoding _ _)
      have hevents : (∀ e ∈ exchangeEvents request mode (serve env handler c.progress.responses
          c.progress.handlerState { request with payload := payload }).1, e.IsHttp10) ↔
          request.expect100Continue = false ∧
            AnswerSuits env handler c.progress { request with payload := payload } := by
        rw [exchangeEvents, List.forall_mem_append, headEvents_isHttp10, ← hserved]
        simp [Event.IsHttp10]
      have hpayload : (∀ payload' input',
          ((Except.ok payload : Except Interrupt Bytes), input) = (.ok payload', input') →
            AnswerSuits env handler c.progress { request with payload := payload' }) ↔
          AnswerSuits env handler c.progress { request with payload := payload } := by
        constructor
        · exact fun h => h _ _ rfl
        · rintro h payload' input' ⟨⟩
          exact h
      rw [hpayload]
      generalize afterHead env handler c.progress request mode (.ok payload) = flow at hafter
      cases hafter with
      | keepsOpen hopen =>
          have hkeep := hopen.1
          rw [hclose] at hkeep
          cases hkeep
      | closes hdirective hresult => exact ⟨_, _, rfl, rfl, hevents⟩
      | rejected e hresult => exact ⟨_, _, rfl, rfl, hevents⟩

/-- A run that accepts a request of HTTP/1.0 ends with it.  What it writes for this
request is one final response that HTTP/1.0 can read, if and only if nothing about the
request and the handler's response calls for HTTP/1.1.  Where no text of the handler holds
a line end, the fields of the response tell. -/
theorem run_http10_iff (env : Env) (handler : Handler σ) (input : Input) (s : σ)
    {c : Connection σ} {request : Request} {mode : BodyMode} {consumed : Nat}
    (hreach : (loop env handler).Reaches ⟨input, .start s⟩ c)
    (hparse : parseRequestHead c.input.buffer = .ok (request, mode, consumed))
    (hversion : request.version = .http10)
    (hcoding : ∀ request s,
      (handler request s).1.headers.contains HeaderKeys.transferEncoding = false) :
    c.round env handler = .done (run env handler input s) ∧
    ∃ events, (run env handler input s).progress.trace = c.progress.trace ++ events ∧
      ((∀ e ∈ events, e.IsHttp10) ↔ c.AvoidsHttp11 env handler request mode consumed) ∧
      ((∀ request s, (handler request s).1.StaysOnLines) →
        ((∀ e ∈ events, e.IsHttp10) ↔
          c.KeepsToHttp10 env handler request mode consumed)) := by
  obtain ⟨outcome, events, hround, htrace, hiff⟩ := round_http10 env hparse hversion hcoding
  have hrun : run env handler input s = outcome :=
    hreach.run_eq.trans ((loop env handler).run_done hround)
  rw [hrun]
  exact ⟨hround, events, htrace, hiff, fun hstays =>
    hiff.trans (avoidsHttp11_iff env c request mode consumed hstays)⟩

def streamed : Response :=
  { Response.new .OK with body := .stream [.ok (ascii "hi")] }

def expectingHttp10 : Input :=
  ⟨ascii "GET / HTTP/1.0\r\nHost: a\r\nExpect: 100-continue\r\n\r\n", []⟩

/-- A client of HTTP/1.0 is sent `100 Continue` and chunks. -/
theorem run_streamedToHttp10 :
    ∃ x, (run .atEpoch (.always streamed) expectingHttp10 ()).progress.exchanges = [x] ∧
      x.request.version = .http10 ∧
      x.answer.headers.contains HeaderKeys.transferEncoding = false ∧
      continueBytes <+: (run .atEpoch (.always streamed) expectingHttp10 ()).progress.written ∧
      ¬ x.written.IsPlain x.request.method x.response.content := by
  have hcheck : (match (run .atEpoch (.always streamed) expectingHttp10 ()).progress.exchanges with
      | [x] => decide (x.request.version = .http10 ∧
          x.answer.headers.contains HeaderKeys.transferEncoding = false ∧
          x.written.values HeaderKeys.transferEncoding ≠ [])
      | _ => false) = true := by decide +kernel
  have hcontinued : continueBytes.isPrefixOf
      (run .atEpoch (.always streamed) expectingHttp10 ()).progress.written = true := by
    decide +kernel
  split at hcheck
  · rename_i x hx
    obtain ⟨hversion, hcoding, hcoded⟩ := of_decide_eq_true hcheck
    exact ⟨x, hx, hversion, hcoding, List.isPrefixOf_iff_prefix.mp hcontinued,
      fun hplain => hcoded hplain.uncoded⟩
  · cases hcheck

def keptHttp10 : Input :=
  ⟨ascii "GET / HTTP/1.0\r\nHost: a\r\nConnection: keep-alive\r\n\r\n", []⟩

/-- Two bytes with their length, and a field with a line end inside. -/
def sizedAnswer : Response :=
  { Response.new .OK with
    headers := (Headers.empty.insert HeaderKeys.contentLength (ascii "2")).insert
      (.new (ascii "X")) (ascii "a\r\nb: c")
    body := .full (ascii "hi") }

theorem run_http10_iff_keepAlive :
    ∃ (c : Connection Unit) (events : List Event),
      c.round .atEpoch (.always sizedAnswer) =
        .done (run .atEpoch (.always sizedAnswer) keptHttp10 ()) ∧
      (run .atEpoch (.always sizedAnswer) keptHttp10 ()).progress.trace =
        c.progress.trace ++ events ∧
      ∀ e ∈ events, e.IsHttp10 := by
  have hcheck : (match parseRequestHead keptHttp10.buffer with
      | .ok (request, mode, _) =>
          let values := sizedAnswer.givenValues (Env.atEpoch.now 0).text request.method .close
          decide (mode = .none ∧ request.version = .http10 ∧ request.expect100Continue = false ∧
            Replaced .atEpoch { request with payload := [] } sizedAnswer = false ∧
            [] ∉ linesOf (sizedAnswer.headTexts (Env.atEpoch.now 0).text request.method .close) ∧
            values HeaderKeys.transferEncoding = [] ∧
            ∀ value ∈ values HeaderKeys.contentLength, readNumber 10 value = .ok 2)
      | .error _ => false) = true := by decide +kernel
  split at hcheck
  · rename_i request mode consumed hparse
    obtain ⟨rfl, hversion, hexpect, hkept, hwhole, hcodings, hlengths⟩ :=
      of_decide_eq_true hcheck
    have hcoding : sizedAnswer.headers.contains HeaderKeys.transferEncoding = false := by decide
    obtain ⟨hround, events, htrace, hiff, -⟩ := run_http10_iff .atEpoch (.always sizedAnswer)
      keptHttp10 () .start hparse hversion fun _ _ => hcoding
    have hplain : ¬ sizedAnswer.IsStreamed request.method := by
      rintro ⟨-, items, hitems⟩
      cases hitems
    have hsuits : SuitsHttp10 sizedAnswer (Env.atEpoch.now 0).text request.method .close :=
      ⟨by decide, hplain, hwhole, hcodings, fun _ => hlengths⟩
    refine ⟨_, events, hround, htrace, hiff.mpr ⟨hexpect, ?_⟩⟩
    rintro payload input ⟨⟩
    show SuitsHttp10 (prepare .atEpoch { request with payload := [] } sizedAnswer) _ _ _
    rw [prepare_of_not_replaced hkept]
    exact hsuits
  · cases hcheck

end Connection

end GooseHttp
