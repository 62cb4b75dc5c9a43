import GooseHttp.History
import GooseHttp.Lib.Sink
/-!
# A socket whose writes may fail

`Connection::run` over a socket whose write half takes some number of bytes and then fails:
every `write_all` of the response writer and of the loop is made on a sink, and the first
that fails ends the run.  What the writer does on a wire is to write what it writes without
one, as far as the wire takes it.
-/

namespace GooseHttp

open Lib

variable {σ : Type}

abbrev Wire := Sink UInt8 IoError

/-! ## The writer on a wire -/

/-- `EncodeError::Io`, by `?`. -/
def ioResult (r : Except IoError Unit × Wire) : Except EncodeError Unit × Wire :=
  (r.1.mapError .io, r.2)

def sendChunks (w : Wire) : List (Except IoError Bytes) → Except EncodeError Unit × Wire
  | [] => (.ok (), w)
  | .error e :: _ => (.error (.io e), w)
  | .ok chunk :: items =>
      if chunk = [] then sendChunks w items
      else
        match ioResult (w.writeEach [formatRadix 16 chunk.length ++ CRLF, chunk, CRLF]) with
        | (.ok (), w) => sendChunks w items
        | (.error e, w) => (.error e, w)

def sendChunkedBody (w : Wire) (items : List (Except IoError Bytes))
    (trailers : Option Headers) : Except EncodeError Unit × Wire :=
  match sendChunks w items with
  | (.ok (), w) => ioResult (w.writeEach [ascii "0" ++ CRLF, trailerBlock trailers])
  | (.error e, w) => (.error e, w)

def sendBody (w : Wire) (allowed : Bool) (body : ResponseBody) (trailers : Option Headers) :
    Except EncodeError Unit × Wire :=
  if allowed then
    match body with
    | .empty => (.ok (), w)
    | .full bytes => ioResult (w.writeAll bytes)
    | .stream items => sendChunkedBody w items trailers
  else (.ok (), w)

def sendResponse (w : Wire) (now : Text) (response : Response) (method : Method)
    (directive : ConnectionDirective) : Except EncodeError Unit × Wire :=
  if response.headers.contains HeaderKeys.contentLength &&
      response.headers.contains HeaderKeys.transferEncoding then
    (.error .conflictingLengthAndTransferEncoding, w)
  else
    let headers := frameHeaders (stampHeaders now response.headers directive) response.status
      method response.body
    match ioResult (w.writeAll (statusLine response.version response.status
      response.reasonPhrase ++ appendHeaders headers)) with
    | (.ok (), w) =>
        sendBody w (responseAllowsBody response.status method) response.body response.trailers
    | (.error e, w) => (.error e, w)

/-- `write_continue`, for a request that asks for it. -/
def sendContinue (w : Wire) (request : Request) : Except EncodeError Unit × Wire :=
  if request.expect100Continue then ioResult (w.writeAll continueBytes) else (.ok (), w)

/-! ## Cutting what is written -/

/-- Write these bytes and give this result, unless the wire fails. -/
def send (w : Wire) (bytes : Bytes) (result : Except EncodeError Unit) :
    Except EncodeError Unit × Wire :=
  match ioResult (w.writeAll bytes) with
  | (.ok (), w) => (result, w)
  | (.error e, w) => (.error e, w)

theorem send_ok (w : Wire) (bytes : Bytes) : send w bytes (.ok ()) = ioResult (w.writeAll bytes) := by
  rw [send, ioResult]
  rcases w.writeAll bytes with ⟨_ | _, w'⟩ <;> rfl

@[simp] theorem send_nil (w : Wire) (result : Except EncodeError Unit) :
    send w [] result = (result, w) := by
  rw [send, ioResult, Sink.writeAll_nil]
  rfl

theorem send_append (w : Wire) (xs ys : Bytes) (result : Except EncodeError Unit) :
    send w (xs ++ ys) result =
      match ioResult (w.writeAll xs) with
      | (.ok (), w) => send w ys result
      | (.error e, w) => (.error e, w) := by
  rw [send, ioResult, ioResult, Sink.writeAll_append]
  rcases w.writeAll xs with ⟨_ | _, w'⟩ <;> rfl

theorem send_fits {w : Wire} {bytes : Bytes} (result : Except EncodeError Unit)
    (h : bytes.length ≤ w.room) :
    send w bytes result =
      (result, ⟨w.taken ++ bytes, w.room - bytes.length, w.fault⟩) := by
  rw [send, ioResult, Sink.writeAll_fits h]
  rfl

theorem send_fails {w : Wire} {bytes : Bytes} (result : Except EncodeError Unit)
    (h : w.room < bytes.length) :
    send w bytes result =
      (.error (.io w.fault), ⟨w.taken ++ bytes.take w.room, 0, w.fault⟩) := by
  rw [send, ioResult, Sink.writeAll_fails h]
  rfl

theorem sendChunks_eq (w : Wire) (items : List (Except IoError Bytes)) :
    sendChunks w items = send w (writeChunks items).1 (writeChunks items).2 := by
  induction items generalizing w with
  | nil => rw [writeChunks, send_nil, sendChunks]
  | cons item items ih =>
      cases item with
      | error e => rw [writeChunks, send_nil, sendChunks]
      | ok chunk =>
          rw [sendChunks, writeChunks]
          by_cases hempty : chunk = []
          · rw [if_pos hempty, if_pos hempty, ih]
          · rw [if_neg hempty, if_neg hempty]
            dsimp only
            rw [send_append, Sink.writeEach_eq]
            simp only [List.flatten_cons, List.flatten_nil, List.append_nil, List.append_assoc,
              ih]

theorem sendChunkedBody_eq (w : Wire) (items : List (Except IoError Bytes))
    (trailers : Option Headers) :
    sendChunkedBody w items trailers =
      send w (writeChunkedBody items trailers).1 (writeChunkedBody items trailers).2 := by
  rw [sendChunkedBody, sendChunks_eq, writeChunkedBody]
  rcases writeChunks items with ⟨bytes, _ | _⟩
  · rw [send]
    rcases ioResult (w.writeAll bytes) with ⟨_ | _, w'⟩ <;> rfl
  · dsimp only
    rw [send_ok, List.append_assoc, List.append_assoc, send_append]
    rcases ioResult (w.writeAll bytes) with ⟨_ | _, w'⟩
    · rfl
    · dsimp only
      rw [send_ok, Sink.writeEach_eq]
      simp [List.append_assoc]

theorem sendBody_eq (w : Wire) (allowed : Bool) (body : ResponseBody)
    (trailers : Option Headers) :
    sendBody w allowed body trailers =
      send w (writeBody allowed body trailers).1 (writeBody allowed body trailers).2 := by
  cases allowed with
  | false => exact (send_nil w _).symm
  | true =>
      cases body with
      | empty => exact (send_nil w _).symm
      | full bytes => exact (send_ok w bytes).symm
      | stream items => exact sendChunkedBody_eq w items trailers

/-- On a wire the writer sends what it writes, up to where the wire fails. -/
theorem sendResponse_eq (w : Wire) (now : Text) (response : Response) (method : Method)
    (directive : ConnectionDirective) :
    sendResponse w now response method directive =
      send w (writeResponse now response method directive).bytes
        (writeResponse now response method directive).result := by
  rw [sendResponse, writeResponse]
  split
  · exact (send_nil w _).symm
  · dsimp only
    rw [send_append]
    simp only [sendBody_eq]

/-- What goes out between an accepted head and its body. -/
def interim (request : Request) : Bytes := if request.expect100Continue then continueBytes else []

theorem sendContinue_eq (w : Wire) (request : Request) :
    sendContinue w request = ioResult (w.writeAll (interim request)) := by
  rw [sendContinue, interim]
  split
  · rfl
  · rw [Sink.writeAll_nil]
    rfl

/-! ## The loop on a wire -/

structure Delivery (σ : Type) where
  handlerState : σ
  processedRequests : Bool
  responses : Nat
  calls : List Request
  wire : Wire

structure Delivered (σ : Type) where
  delivery : Delivery σ
  result : Except ConnectionError Unit

namespace Delivery

def start (s : σ) (wire : Wire) : Delivery σ := ⟨s, false, 0, [], wire⟩

def refuse (env : Env) (d : Delivery σ) (status : StatusCode) (message : Text)
    (e : ConnectionError) : Delivered σ :=
  let (result, wire) := sendResponse d.wire (env.now d.responses).text
    (errorResponse status message) .get .close
  ⟨{ d with responses := d.responses + 1, wire := wire },
    match result with
    | .ok () => .error e
    | .error encodeError => .error (.encode encodeError)⟩

def answer (env : Env) (handler : Handler σ) (d : Delivery σ) (request : Request) :
    Flow (Delivery σ) (Delivered σ) :=
  let called : Request := { request with body := .empty }
  let (answer, s) := handler called d.handlerState
  let response := prepare env request answer
  let directive := directiveFor request response
  let (result, wire) := sendResponse d.wire (env.now d.responses).text response request.method
    directive
  let d : Delivery σ :=
    { d with
      handlerState := s
      responses := d.responses + 1
      calls := d.calls ++ [called]
      wire := wire }
  match result with
  | .error e => .done ⟨d, .error (.encode e)⟩
  | .ok () =>
      let d : Delivery σ := { d with processedRequests := true }
      match directive with
      | .close => .done ⟨d, .ok ()⟩
      | .keepAlive => .next d

def afterHead (env : Env) (handler : Handler σ) (d : Delivery σ) (request : Request)
    (body : Except Interrupt Bytes) : Flow (Delivery σ) (Delivered σ) :=
  match sendContinue d.wire request with
  | (.error e, wire) => .done ⟨{ d with wire := wire }, .error (.encode e)⟩
  | (.ok (), wire) =>
      let d : Delivery σ := { d with wire := wire }
      match body with
      | .error (.error e) =>
          .done (d.refuse env .BAD_REQUEST (ascii "Malformed request body") (.body e))
      | .error .elapsed =>
          .done (d.refuse env .REQUEST_TIMEOUT (ascii "Request body timeout") (.timeout .body))
      | .ok payload => d.answer env handler { request with payload := payload }

end Delivery

/-- A connection whose writes go to a wire. -/
structure Link (σ : Type) where
  input : Input
  delivery : Delivery σ

namespace Link

def round (env : Env) (handler : Handler σ) (l : Link σ) : Flow (Link σ) (Delivered σ) :=
  if incompleteHeadExceedsLimit l.input.buffer then
    .done (l.delivery.refuse env .BAD_REQUEST (ascii "Bad Request") (.parse .headerTooLarge))
  else if needsMoreHead l.input.buffer then
    let kind : TimeoutKind :=
      if l.input.buffer = [] && l.delivery.processedRequests then .idle else .header
    match l.input.readBuf with
    | (.error .eof, input) =>
        if input.buffer = [] then .done ⟨l.delivery, .ok ()⟩
        else
          .done (l.delivery.refuse env .BAD_REQUEST (ascii "Bad Request") (.parse .incomplete))
    | (.error (.error e), _) => .done ⟨l.delivery, .error (.io e)⟩
    | (.error .timeout, _) =>
        .done (l.delivery.refuse env .REQUEST_TIMEOUT (ascii "Request timeout") (.timeout kind))
    | (.ok (), input) =>
        if incompleteHeadExceedsLimit input.buffer then
          .done (l.delivery.refuse env .BAD_REQUEST (ascii "Bad Request")
            (.parse .headerTooLarge))
        else .next { l with input := input }
  else
    match parseRequestHead l.input.buffer with
    | .error e =>
        .done (l.delivery.refuse env .BAD_REQUEST (ascii "Bad Request") (.parse e))
    | .ok (request, mode, consumed) =>
        let (body, input) := readBody mode (l.input.advance consumed)
        match l.delivery.afterHead env handler request body with
        | .done delivered => .done delivered
        | .next d => .next ⟨input, d⟩

theorem round_size {env : Env} {handler : Handler σ} {l l' : Link σ}
    (h : l.round env handler = .next l') : l'.input.size < l.input.size := by
  unfold round at h
  split at h
  · cases h
  · split at h
    · dsimp only at h
      split at h
      · split at h <;> cases h
      · cases h
      · cases h
      · rename_i input hread
        split at h
        · cases h
        · cases h
          exact Input.size_readBuf hread
    · split at h
      · cases h
      · rename_i request mode consumed hparse
        have hread := Connection.readBody_size mode (l.input.advance consumed)
        obtain ⟨hfour, hlen⟩ := findHeadersEnd_le (parseRequestHead_ok hparse).1
        have hadvance := l.input.size_advance hlen
        dsimp only at h
        split at h
        · cases h
        · cases h
          dsimp only
          omega

def loop (env : Env) (handler : Handler σ) : RankedLoop (Link σ) (Delivered σ) where
  body := round env handler
  rank l := l.input.size
  rank_lt := round_size

/-- `Connection::run` over a socket that takes `room` bytes and then fails. -/
def run (env : Env) (handler : Handler σ) (input : Input) (s : σ) (room : Nat)
    (fault : IoError) : Delivered σ :=
  (loop env handler).run ⟨input, .start s ⟨[], room, fault⟩⟩

end Link

end GooseHttp
