import GooseHttp.Encode
import GooseHttp.Parse.Decode
import GooseHttp.Precondition
/-!
# The connection loop

`Connection::run` as a ranked loop over what is left to read and what has been
done.  `Progress` records the run as a trace of events, from which the handler
calls and the bytes on the wire are read off; `serve` is the way from a decoded
request to its written response.  `round_case` says once what a round can do.
-/

namespace GooseHttp

open Lib

variable {σ : Type}

inductive TimeoutKind
  | header
  | body
  | idle
  deriving DecidableEq, Repr

inductive ConnectionError
  | io (e : IoError)
  | encode (e : EncodeError)
  | body (e : BodyError)
  | parse (e : ParseError)
  | timeout (kind : TimeoutKind)
  deriving DecidableEq, Repr

/-! ## Persistence -/

def containsToken (value token : Text) : Bool :=
  (splitAll 44 value).any fun part => eqIgnoreAsciiCase (trim part) token

def shouldCloseAfterRequest (version : HttpVersion) (headers : Headers) : Bool :=
  match version with
  | .http11 =>
      (headers.get HeaderKeys.connection).any fun value => containsToken value (ascii "close")
  | .http10 =>
      !(headers.get HeaderKeys.connection).any fun value =>
        containsToken value (ascii "keep-alive")
  | .other _ _ => true

def responseRequestsClose (response : Response) : Bool :=
  (response.headers.get HeaderKeys.connection).any fun value =>
    containsToken value (ascii "close")

/-! ## Events -/

/-- One request from the handler call to the written response. -/
structure Exchange where
  /-- The request the handler is called with. -/
  request : Request
  /-- What the handler returns. -/
  answer : Response
  /-- What the writer is given. -/
  response : Response
  directive : ConnectionDirective
  written : Written

inductive Event
  | accepted (request : Request) (mode : BodyMode)
  | continued
  | decoded (payload : Bytes)
  | bodyFailed (interrupt : Interrupt)
  | exchanged (x : Exchange)
  | headFault (fault : ReadFault)
  | refused (status : StatusCode) (written : Written)

def Event.bytes : Event → Bytes
  | .continued => continueBytes
  | .exchanged x => x.written.bytes
  | .refused _ written => written.bytes
  | _ => []

def Event.exchange? : Event → Option Exchange
  | .exchanged x => some x
  | _ => none

structure Progress (σ : Type) where
  handlerState : σ
  processedRequests : Bool
  /-- How many responses were written; the clock is read once for each. -/
  responses : Nat
  trace : List Event

namespace Progress

def start (s : σ) : Progress σ := ⟨s, false, 0, []⟩

def log (p : Progress σ) (events : List Event) : Progress σ :=
  { p with trace := p.trace ++ events }

def written (p : Progress σ) : Bytes := p.trace.flatMap Event.bytes

def exchanges (p : Progress σ) : List Exchange := p.trace.filterMap Event.exchange?

def calls (p : Progress σ) : List Request := p.exchanges.map Exchange.request

end Progress

structure Outcome (σ : Type) where
  progress : Progress σ
  result : Except ConnectionError Unit

/-! ## Answering -/

/-- The response of `respond_with_error`. -/
def errorResponse (status : StatusCode) (message : Text) : Response :=
  { Response.new status with
    headers := Headers.empty.insert HeaderKeys.contentType (ascii "text/plain; charset=utf-8")
    body := .full message }

/-- `respond_with_error`, and the error the caller returns behind it. -/
def refuse (env : Env) (p : Progress σ) (status : StatusCode) (message : Text)
    (e : ConnectionError) : Outcome σ :=
  let written := writeResponse (env.now p.responses).text (errorResponse status message) .get
    .close
  ⟨{ p with
      responses := p.responses + 1
      trace := p.trace ++ [.refused status written] },
    match written.result with
    | .ok () => .error e
    | .error encodeError => .error (.encode encodeError)⟩

/-- The response given to the writer for what a handler returned. -/
def prepare (env : Env) (request : Request) (answer : Response) : Response :=
  if answer.status.asU16 < 400 then applyRequestPreconditions env request answer else answer

/-- A prepared response is the handler's, or what a precondition puts in its place. -/
theorem prepare_cases (env : Env) (request : Request) (answer : Response) :
    prepare env request answer = answer ∨
    ∃ status, (status = .NOT_MODIFIED ∨ status = .PRECONDITION_FAILED) ∧
      prepare env request answer = replaceByStatus answer status := by
  unfold prepare
  split
  · exact applyRequestPreconditions_cases env request answer
  · exact Or.inl rfl

def Replaced (env : Env) (request : Request) (answer : Response) : Bool :=
  answer.status.asU16 < 400 && (preconditionDecision env request answer).isSome

theorem prepare_of_not_replaced {env : Env} {request : Request} {answer : Response}
    (h : Replaced env request answer = false) : prepare env request answer = answer := by
  unfold prepare applyRequestPreconditions
  cases hdecision : preconditionDecision env request answer with
  | none => simp
  | some status =>
      rw [Replaced, hdecision, Option.isSome_some, Bool.and_true, decide_eq_false_iff_not] at h
      rw [if_neg h]

theorem prepare_of_replaced {env : Env} {request : Request} {answer : Response}
    (h : Replaced env request answer = true) :
    ∃ status, (status = .NOT_MODIFIED ∨ status = .PRECONDITION_FAILED) ∧
      prepare env request answer = replaceByStatus answer status := by
  rw [Replaced, Bool.and_eq_true, decide_eq_true_eq, Option.isSome_iff_exists] at h
  obtain ⟨hstatus, status, hdecision⟩ := h
  exact ⟨status, preconditionDecision_cases hdecision,
    by rw [prepare, if_pos hstatus, applyRequestPreconditions, hdecision]⟩

theorem prepare_streamsCleanly {env : Env} {request : Request} {answer : Response}
    (h : answer.StreamsCleanly) : (prepare env request answer).StreamsCleanly := by
  rcases prepare_cases env request answer with hp | ⟨status, -, hp⟩
  · rw [hp]
    exact h
  · intro items hitems
    rw [hp] at hitems
    cases hitems

theorem prepare_not_conflict {env : Env} {request : Request} {answer : Response}
    (h : (answer.headers.contains HeaderKeys.contentLength &&
      answer.headers.contains HeaderKeys.transferEncoding) = false) :
    ((prepare env request answer).headers.contains HeaderKeys.contentLength &&
      (prepare env request answer).headers.contains HeaderKeys.transferEncoding) = false := by
  rcases prepare_cases env request answer with hp | ⟨status, -, hp⟩
  · rw [hp]
    exact h
  · have hnone := getAll_replaceByStatus_framing answer status (Or.inl rfl)
    rw [hp, (Headers.contains_eq_false_iff _ _).mpr hnone, Bool.false_and]

/-- The directive for a response; only HTTP/1.1 connections are kept open. -/
def directiveFor (request : Request) (response : Response) : ConnectionDirective :=
  if request.version ≠ .http11 then .close
  else if shouldCloseAfterRequest request.version request.headers ||
      responseRequestsClose response then .close
  else .keepAlive

/-- From the decoded request to the written response. -/
def serve (env : Env) (handler : Handler σ) (responses : Nat) (s : σ) (request : Request) :
    Exchange × σ :=
  let called : Request := { request with body := .empty }
  let (answer, s) := handler called s
  let response := prepare env request answer
  let directive := directiveFor request response
  (⟨called, answer, response, directive,
    writeResponse (env.now responses).text response request.method directive⟩, s)

theorem serve_written (env : Env) (handler : Handler σ) (n : Nat) (s : σ) (request : Request) :
    (serve env handler n s request).1.written =
      let response := prepare env request (handler { request with body := .empty } s).1
      writeResponse (env.now n).text response request.method (directiveFor request response) := rfl

def headEvents (request : Request) (mode : BodyMode) : List Event :=
  .accepted request mode :: if request.expect100Continue then [.continued] else []

/-- What follows an accepted head, by what reading the body gave. -/
def afterHead (env : Env) (handler : Handler σ) (p : Progress σ) (request : Request)
    (mode : BodyMode) (body : Except Interrupt Bytes) : Flow (Progress σ) (Outcome σ) :=
  let p := p.log (headEvents request mode)
  match body with
  | .error (.error e) =>
      .done (refuse env (p.log [.bodyFailed (.error e)]) .BAD_REQUEST
        (ascii "Malformed request body") (.body e))
  | .error .elapsed =>
      .done (refuse env (p.log [.bodyFailed .elapsed]) .REQUEST_TIMEOUT
        (ascii "Request body timeout") (.timeout .body))
  | .ok payload =>
      let (x, s) := serve env handler p.responses p.handlerState
        { request with payload := payload }
      let p : Progress σ :=
        { p with
          handlerState := s
          responses := p.responses + 1
          trace := p.trace ++ [.decoded payload, .exchanged x] }
      match x.written.result with
      | .error e => .done ⟨p, .error (.encode e)⟩
      | .ok () =>
          let p : Progress σ := { p with processedRequests := true }
          match x.directive with
          | .close => .done ⟨p, .ok ()⟩
          | .keepAlive => .next p

/-! ## The loop -/

structure Connection (σ : Type) where
  input : Input
  progress : Progress σ

/-- The body of a request, read inside its timeout; no reader is made where there is
no body. -/
def readBody (mode : BodyMode) (input : Input) : Except Interrupt Bytes × Input :=
  match mode with
  | .none => (.ok [], input)
  | mode =>
      let (body, reader) := (bodyReader mode input).collect
      (body, reader.input)

namespace Connection

/-- One round of the loop of `Connection::run`. -/
def round (env : Env) (handler : Handler σ) (c : Connection σ) :
    Flow (Connection σ) (Outcome σ) :=
  if incompleteHeadExceedsLimit c.input.buffer then
    .done (refuse env c.progress .BAD_REQUEST (ascii "Bad Request") (.parse .headerTooLarge))
  else if needsMoreHead c.input.buffer then
    let kind : TimeoutKind :=
      if c.input.buffer = [] && c.progress.processedRequests then .idle else .header
    match c.input.readBuf with
    | (.error .eof, input) =>
        let p := c.progress.log [.headFault .eof]
        if input.buffer = [] then .done ⟨p, .ok ()⟩
        else .done (refuse env p .BAD_REQUEST (ascii "Bad Request") (.parse .incomplete))
    | (.error (.error e), _) =>
        .done ⟨c.progress.log [.headFault (.error e)], .error (.io e)⟩
    | (.error .timeout, _) =>
        .done (refuse env (c.progress.log [.headFault .timeout]) .REQUEST_TIMEOUT
          (ascii "Request timeout") (.timeout kind))
    | (.ok (), input) =>
        if incompleteHeadExceedsLimit input.buffer then
          .done (refuse env c.progress .BAD_REQUEST (ascii "Bad Request")
            (.parse .headerTooLarge))
        else .next { c with input := input }
  else
    match parseRequestHead c.input.buffer with
    | .error e =>
        .done (refuse env c.progress .BAD_REQUEST (ascii "Bad Request") (.parse e))
    | .ok (request, mode, consumed) =>
        let (body, input) := readBody mode (c.input.advance consumed)
        match afterHead env handler c.progress request mode body with
        | .done outcome => .done outcome
        | .next p => .next ⟨input, p⟩

def Takes (c : Connection σ) (request : Request) : Prop :=
  ∃ head mode consumed payload input,
    parseRequestHead c.input.buffer = .ok (head, mode, consumed) ∧
    readBody mode (c.input.advance consumed) = (.ok payload, input) ∧
    request = { head with payload := payload }

/-- The round ahead accepts this request and answers it with `x`. -/
def Answers (env : Env) (handler : Handler σ) (c : Connection σ) (request : Request)
    (x : Exchange) : Prop :=
  c.Takes request ∧
    x = (serve env handler c.progress.responses c.progress.handlerState request).1

def progressAfter : Flow (Connection σ) (Outcome σ) → Progress σ
  | .next c => c.progress
  | .done outcome => outcome.progress

inductive RoundCase (env : Env) (handler : Handler σ) (c : Connection σ) :
    Flow (Connection σ) (Outcome σ) → Prop
  | tooLarge (input : Input) (hall : input.all = c.input.all)
      (h : incompleteHeadExceedsLimit input.buffer = true) :
      RoundCase env handler c (.done (refuse env c.progress .BAD_REQUEST (ascii "Bad Request")
        (.parse .headerTooLarge)))
  | closed (hall : c.input.all = []) :
      RoundCase env handler c (.done ⟨c.progress.log [.headFault .eof], .ok ()⟩)
  | incomplete (hne : c.input.all ≠ []) (hend : findHeadersEnd c.input.all = none)
      (hsize : c.input.all.length ≤ HEADER_LIMIT) :
      RoundCase env handler c (.done (refuse env (c.progress.log [.headFault .eof]) .BAD_REQUEST
        (ascii "Bad Request") (.parse .incomplete)))
  | readError (e : IoError) (hclean : ¬ c.input.Clean) :
      RoundCase env handler c
        (.done ⟨c.progress.log [.headFault (.error e)], .error (.io e)⟩)
  | readTimeout (kind : TimeoutKind) (hclean : ¬ c.input.Clean) :
      RoundCase env handler c (.done (refuse env (c.progress.log [.headFault .timeout])
        .REQUEST_TIMEOUT (ascii "Request timeout") (.timeout kind)))
  | more (input : Input) (hread : c.input.readBuf = (.ok (), input)) :
      RoundCase env handler c (.next ⟨input, c.progress⟩)
  | badHead (e : ParseError) (n : Nat) (hend : findHeadersEnd c.input.buffer = some n)
      (hparse : parseRequestHead c.input.all = .error e) :
      RoundCase env handler c (.done (refuse env c.progress .BAD_REQUEST (ascii "Bad Request")
        (.parse e)))
  | request (request : Request) (mode : BodyMode) (consumed : Nat) (body : Except Interrupt Bytes)
      (input : Input) (hparse : parseRequestHead c.input.buffer = .ok (request, mode, consumed))
      (hbody : readBody mode (c.input.advance consumed) = (body, input)) :
      RoundCase env handler c
        (match afterHead env handler c.progress request mode body with
        | .done outcome => .done outcome
        | .next p => .next ⟨input, p⟩)

theorem not_clean_of_fault {i i' : Input} {fault : ReadFault}
    (h : i.readBuf = (.error fault, i')) (hfault : fault ≠ .eof) : ¬ i.Clean :=
  fun hclean => hfault ((Input.readBuf_error h).settled hclean)

theorem round_case (env : Env) (handler : Handler σ) (c : Connection σ) :
    RoundCase env handler c (c.round env handler) := by
  unfold round
  split
  · rename_i hlarge
    exact .tooLarge c.input rfl hlarge
  · rename_i hsmall
    split
    · rename_i hmore
      have hend : findHeadersEnd c.input.buffer = none := by
        simpa [needsMoreHead] using hmore
      dsimp only
      split
      · rename_i input hread
        have hnil := (Input.readBuf_error hread).eof rfl
        have hbuffer : input.buffer = c.input.buffer := by
          unfold Input.readBuf at hread
          rw [hnil] at hread
          cases hread
          rfl
        have hall := Input.all_of_incoming_nil hnil
        rw [hbuffer]
        split
        · rename_i hempty
          exact .closed (by rw [hall, hempty])
        · rename_i hne
          refine .incomplete (by rwa [hall]) (by rw [hall, hend]) ?_
          simpa [incompleteHeadExceedsLimit, hend, hall] using hsmall
      · rename_i e input hread
        exact .readError e (not_clean_of_fault hread (by simp))
      · rename_i input hread
        exact .readTimeout _ (not_clean_of_fault hread (by simp))
      · rename_i input hread
        split
        · rename_i hlarge
          exact .tooLarge input (Input.readBuf_ok hread).1 hlarge
        · exact .more input hread
    · rename_i hmore
      obtain ⟨n, hend⟩ : ∃ n, findHeadersEnd c.input.buffer = some n := by
        rw [← Option.isSome_iff_exists]
        simpa [needsMoreHead, Option.isSome_iff_ne_none] using hmore
      split
      · rename_i e hparse
        apply RoundCase.badHead e n hend
        rw [Input.all, parseRequestHead_append _ hend]
        exact hparse
      · rename_i request mode consumed hparse
        exact .request request mode consumed _ _ hparse rfl

theorem round_of_parse {env : Env} {handler : Handler σ} {c : Connection σ}
    {request : Request} {mode : BodyMode} {consumed : Nat} {body : Except Interrupt Bytes}
    {input : Input}
    (hparse : parseRequestHead c.input.buffer = .ok (request, mode, consumed))
    (hbody : readBody mode (c.input.advance consumed) = (body, input)) :
    c.round env handler =
      match afterHead env handler c.progress request mode body with
      | .done outcome => .done outcome
      | .next p => .next ⟨input, p⟩ := by
  have hend := (parseRequestHead_ok hparse).1
  unfold round
  rw [if_neg (by simp [incompleteHeadExceedsLimit, hend]), if_neg (by simp [needsMoreHead, hend])]
  simp only [hparse, hbody]

theorem readBody_size (mode : BodyMode) (input : Input) :
    (readBody mode input).2.size ≤ input.size := by
  have h := (bodyReader mode input).collect_size
  rw [bodyReader_input] at h
  cases mode with
  | none => exact Nat.le_refl _
  | fixed length => exact h
  | chunked => exact h

theorem round_size {env : Env} {handler : Handler σ} {c c' : Connection σ}
    (h : c.round env handler = .next c') : c'.input.size < c.input.size := by
  have hcase := round_case env handler c
  rw [h] at hcase
  generalize hflow : (Flow.next c' : Flow (Connection σ) (Outcome σ)) = flow at hcase
  cases hcase with
  | more input hread =>
      cases hflow
      exact Input.size_readBuf hread
  | request request mode consumed body input hparse hbody =>
      have hle := readBody_size mode (c.input.advance consumed)
      rw [hbody] at hle
      obtain ⟨hfour, hlen⟩ := findHeadersEnd_le (parseRequestHead_ok hparse).1
      have hsize := c.input.size_advance hlen
      split at hflow
      · cases hflow
      · cases hflow
        dsimp only at hle ⊢
        omega
  | _ => cases hflow

def loop (env : Env) (handler : Handler σ) : RankedLoop (Connection σ) (Outcome σ) where
  body := round env handler
  rank c := c.input.size
  rank_lt := round_size

/-- `Connection::run`, on a connection that has done nothing yet. -/
def run (env : Env) (handler : Handler σ) (input : Input) (s : σ) : Outcome σ :=
  (loop env handler).run ⟨input, .start s⟩

end Connection

end GooseHttp
