import GooseHttp.Pipeline
/-!
# What a connection may do under faults

`Orderly` is the discipline of a connection, said of the stream it is sent: complete
requests are answered one after the other, and then the connection ends in one of a
few ways, with at most one error response and nothing behind it.  Every run keeps it
unless a read error falls into a request body, which the loop answers like a
malformed body.
-/

namespace GooseHttp

open Lib

variable {σ : Type}

/-! ## The discipline -/

def IsClosingError (event : Event) : Prop :=
  ∃ status written reason body, event = .refused status written ∧
    400 ≤ status.asU16 ∧ status.asU16 ≤ 499 ∧ written.result = .ok () ∧
    written.bytes = headBytes .http11 status reason written.response.headers ++ body ∧
    written.response.headers.values HeaderKeys.connection = [ascii "close"]

def Event.isReadError : Event → Bool
  | .headFault (.error _) => true
  | .bodyFailed (.error (.io _)) => true
  | _ => false

/-- The events of a connection that is sent `bytes`, with the handler in state `s` and
`n` responses written. -/
inductive Orderly (env : Env) (handler : Handler σ) : Bytes → Nat → σ → List Event → Prop
  | silent {bytes : Bytes} {n : Nat} {s : σ} (fault : ReadFault) (h : fault ≠ .timeout) :
      Orderly env handler bytes n s [.headFault fault]
  | refusal {bytes : Bytes} {n : Nat} {s : σ} {e : Event} (h : IsClosingError e) :
      Orderly env handler bytes n s [e]
  | faultRefusal {bytes : Bytes} {n : Nat} {s : σ} {e : Event} (fault : ReadFault)
      (hfault : fault = .eof ∨ fault = .timeout) (h : IsClosingError e) :
      Orderly env handler bytes n s [.headFault fault, e]
  | bodyError {bytes : Bytes} {n : Nat} {s : σ} {request : Request} {mode : BodyMode}
      {consumed : Nat} (e : IoError)
      (hparse : parseRequestHead bytes = .ok (request, mode, consumed)) :
      Orderly env handler bytes n s
        (headEvents request mode ++ [.bodyFailed (.error (.io e))])
  | bodyRefusal {bytes : Bytes} {n : Nat} {s : σ} {request : Request} {mode : BodyMode}
      {consumed : Nat} {e : Event} (x : Interrupt)
      (hparse : parseRequestHead bytes = .ok (request, mode, consumed))
      (hx : (Event.bodyFailed x).isReadError = false) (h : IsClosingError e) :
      Orderly env handler bytes n s (headEvents request mode ++ [.bodyFailed x, e])
  | last {bytes : Bytes} {n : Nat} {s : σ} {request : Request} {mode : BodyMode}
      {consumed : Nat} {result : BodyResult}
      (hparse : parseRequestHead bytes = .ok (request, mode, consumed))
      (hbody : decodeBody mode (bytes.drop consumed) = .ok result)
      (hclose : (serve env handler n s
        { request with payload := result.payload }).1.directive = .close) :
      Orderly env handler bytes n s (exchangeEvents request mode
        (serve env handler n s { request with payload := result.payload }).1)
  | next {bytes : Bytes} {n : Nat} {s : σ} {request : Request} {mode : BodyMode}
      {consumed : Nat} {result : BodyResult} {events : List Event}
      (hparse : parseRequestHead bytes = .ok (request, mode, consumed))
      (hbody : decodeBody mode (bytes.drop consumed) = .ok result)
      (hkeep : (serve env handler n s
        { request with payload := result.payload }).1.directive = .keepAlive)
      (hrest : Orderly env handler result.rest (n + 1)
        (serve env handler n s { request with payload := result.payload }).2 events) :
      Orderly env handler bytes n s (exchangeEvents request mode
        (serve env handler n s { request with payload := result.payload }).1 ++ events)

def afterReadError : List Event → List Event
  | [] => []
  | e :: events => if e.isReadError then events else afterReadError events

theorem afterReadError_append {events : List Event} (more : List Event)
    (h : ∀ e ∈ events, e.isReadError = false) :
    afterReadError (events ++ more) = afterReadError more := by
  induction events with
  | nil => rfl
  | cons e events ih =>
      rw [List.cons_append, afterReadError, h e (by simp), if_neg (by simp)]
      exact ih fun e' he => h e' (by simp [he])

theorem headEvents_no_readError (request : Request) (mode : BodyMode) :
    ∀ e ∈ headEvents request mode, e.isReadError = false := by
  intro e he
  rw [headEvents] at he
  rcases List.mem_cons.mp he with rfl | he
  · rfl
  · split at he
    · rw [List.mem_singleton.mp he]
      rfl
    · cases he

theorem exchangeEvents_no_readError (request : Request) (mode : BodyMode) (x : Exchange) :
    ∀ e ∈ exchangeEvents request mode x, e.isReadError = false := by
  intro e he
  rcases List.mem_append.mp he with he | he
  · exact headEvents_no_readError request mode e he
  · rcases List.mem_cons.mp he with rfl | he
    · rfl
    · rw [List.mem_singleton.mp he]
      rfl

theorem IsClosingError.no_readError {e : Event} (h : IsClosingError e) :
    e.isReadError = false := by
  obtain ⟨status, written, reason, body, rfl, -⟩ := h
  rfl

theorem Orderly.afterReadError_eq {env : Env} {handler : Handler σ} {bytes : Bytes} {n : Nat}
    {s : σ} {events : List Event} (h : Orderly env handler bytes n s events) :
    afterReadError events = [] := by
  induction h with
  | silent fault hfault => cases fault <;> rfl
  | refusal he => simp [afterReadError, he.no_readError]
  | faultRefusal fault hfault he =>
      have hquiet : (Event.headFault fault).isReadError = false := by
        rcases hfault with rfl | rfl <;> rfl
      simp [afterReadError, hquiet, he.no_readError]
  | @bodyError bytes n s request mode consumed e hparse =>
      rw [afterReadError_append _ (headEvents_no_readError request mode)]
      rfl
  | @bodyRefusal bytes n s request mode consumed e x hparse hx he =>
      rw [afterReadError_append _ (headEvents_no_readError request mode)]
      simp [afterReadError, hx, he.no_readError]
  | @last bytes n s request mode consumed result hparse hbody hclose =>
      have happend := afterReadError_append []
        (exchangeEvents_no_readError request mode
          (serve env handler n s { request with payload := result.payload }).1)
      rwa [List.append_nil] at happend
  | next hparse hbody hkeep hrest ih =>
      rw [afterReadError_append _ (exchangeEvents_no_readError _ _ _)]
      exact ih

/-! ## The error responses of the server -/

theorem refuse_closing (env : Env) (p : Progress σ) {status : StatusCode} (message : Text)
    (e : ConnectionError) (hstatus : status = .BAD_REQUEST ∨ status = .REQUEST_TIMEOUT) :
    ∃ event, IsClosingError event ∧
      (refuse env p status message e).progress.trace = p.trace ++ [event] ∧
      (refuse env p status message e).result = .error e := by
  have hconflict : ((errorResponse status message).headers.contains HeaderKeys.contentLength &&
      (errorResponse status message).headers.contains HeaderKeys.transferEncoding) = false := by
    simp only [errorResponse]
    decide
  have hresult : (writeResponse (env.now p.responses).text (errorResponse status message) .get
      .close).result = .ok () :=
    writeResponse_result_ok (fun items hitems => by cases hitems) hconflict
  have hrange : 400 ≤ status.asU16 ∧ status.asU16 ≤ 499 := by
    rcases hstatus with rfl | rfl <;> decide
  refine ⟨_, ⟨status, writeResponse (env.now p.responses).text (errorResponse status message)
    .get .close, (errorResponse status message).reasonPhrase,
    (writeBody (responseAllowsBody status .get) (.full message) none).1, rfl, hrange.1, hrange.2,
    hresult, ?_, ?_⟩, rfl, ?_⟩
  · rw [writeResponse_of_framed hconflict]
    rfl
  · rw [writeResponse_headers hconflict, Headers.values,
      getAll_frameHeaders (by decide) (by decide), getAll_connection_stampHeaders]
    rfl
  · simp only [refuse, hresult]

/-! ## What follows an accepted head -/

theorem afterHead_error_cases (env : Env) (handler : Handler σ) (p : Progress σ)
    (request : Request) (mode : BodyMode) (x : Interrupt) :
    ∃ outcome event, afterHead env handler p request mode (.error x) = .done outcome ∧
      IsClosingError event ∧
      outcome.progress.trace = p.trace ++ (headEvents request mode ++ [.bodyFailed x, event]) := by
  cases x with
  | error e =>
      obtain ⟨event, hevent, htrace, -⟩ := refuse_closing env
        ((p.log (headEvents request mode)).log [.bodyFailed (.error e)])
        (ascii "Malformed request body") (.body e) (Or.inl rfl)
      refine ⟨_, event, rfl, hevent, ?_⟩
      rw [htrace]
      simp [Progress.log]
  | elapsed =>
      obtain ⟨event, hevent, htrace, -⟩ := refuse_closing env
        ((p.log (headEvents request mode)).log [.bodyFailed .elapsed])
        (ascii "Request body timeout") (.timeout .body) (Or.inr rfl)
      refine ⟨_, event, rfl, hevent, ?_⟩
      rw [htrace]
      simp [Progress.log]

/-! ## Runs -/

/-- The round ahead is the one that goes wrong: a complete head is buffered, and the
body it announces runs into a read error. -/
def Connection.BodyReadError (c : Connection σ) : Prop :=
  ∃ request mode consumed e input,
    parseRequestHead c.input.buffer = .ok (request, mode, consumed) ∧
      readBody mode (c.input.advance consumed) = (.error (.error (.io e)), input)

namespace Connection

theorem parse_all {c : Connection σ} {request : Request} {mode : BodyMode} {consumed : Nat}
    (h : parseRequestHead c.input.buffer = .ok (request, mode, consumed)) :
    parseRequestHead c.input.all = .ok (request, mode, consumed) ∧
      (c.input.advance consumed).all = c.input.all.drop consumed := by
  have hend := (parseRequestHead_ok h).1
  refine ⟨?_, Input.all_advance _ (findHeadersEnd_le hend).2⟩
  rw [Input.all, parseRequestHead_append _ hend, h]

theorem round_next_cases {env : Env} {handler : Handler σ} {c c' : Connection σ}
    (h : c.round env handler = .next c') :
    (c'.input.all = c.input.all ∧ c'.progress = c.progress) ∨
    ∃ request mode consumed result,
      parseRequestHead c.input.all = .ok (request, mode, consumed) ∧
      decodeBody mode (c.input.all.drop consumed) = .ok result ∧
      c'.input.all = result.rest ∧
      (serve env handler c.progress.responses c.progress.handlerState
        { request with payload := result.payload }).1.KeepsOpen ∧
      c'.progress = c.progress.exchange request mode
        (serve env handler c.progress.responses c.progress.handlerState
          { request with payload := result.payload }) := by
  have hcase := c.round_case env handler
  rw [h] at hcase
  generalize hflow : (Flow.next c' : Flow (Connection σ) (Outcome σ)) = flow at hcase
  cases hcase with
  | more input hread =>
      cases hflow
      exact Or.inl ⟨(Input.readBuf_ok hread).1, rfl⟩
  | request request mode consumed body input hparse hbody =>
      obtain ⟨hparse', hdrop⟩ := parse_all hparse
      cases body with
      | error x =>
          obtain ⟨outcome, event, hafter, -⟩ :=
            afterHead_error_cases env handler c.progress request mode x
          rw [hafter] at hflow
          cases hflow
      | ok payload =>
          obtain ⟨result, hdecode, rfl, hrest⟩ := readBody_ok hbody
          have hafter := afterHead_ok env handler c.progress request mode result.payload
          generalize afterHead env handler c.progress request mode (.ok result.payload) = flow'
            at hflow hafter
          cases hafter with
          | keepsOpen hopen =>
              cases hflow
              exact Or.inr ⟨request, mode, consumed, result, hparse', hdrop ▸ hdecode,
                hrest.symm, hopen, rfl⟩
          | _ => cases hflow
  | _ => cases hflow

theorem round_done_cases {env : Env} {handler : Handler σ} {c : Connection σ}
    {outcome : Outcome σ} (h : c.round env handler = .done outcome) :
    ∃ events, outcome.progress.trace = c.progress.trace ++ events ∧
      ((∀ x ∈ events.filterMap Event.exchange?, x.written.result = .ok ()) →
        ¬ c.BodyReadError → Orderly env handler c.input.all c.progress.responses
          c.progress.handlerState events) := by
  have hcase := c.round_case env handler
  rw [h] at hcase
  generalize hflow : (Flow.done outcome : Flow (Connection σ) (Outcome σ)) = flow at hcase
  cases hcase with
  | tooLarge input hall hlarge =>
      obtain ⟨event, hevent, htrace, -⟩ := refuse_closing env c.progress (ascii "Bad Request")
        (.parse .headerTooLarge) (Or.inl rfl)
      cases hflow
      exact ⟨[event], htrace, fun _ _ => .refusal hevent⟩
  | closed hall =>
      cases hflow
      exact ⟨[.headFault .eof], rfl, fun _ _ => .silent .eof (by simp)⟩
  | incomplete hne hend hsize =>
      obtain ⟨event, hevent, htrace, -⟩ := refuse_closing env (c.progress.log [.headFault .eof])
        (ascii "Bad Request") (.parse .incomplete) (Or.inl rfl)
      cases hflow
      refine ⟨[.headFault .eof, event], ?_, fun _ _ => .faultRefusal .eof (Or.inl rfl) hevent⟩
      rw [htrace]
      simp [Progress.log]
  | readError e hdirty =>
      cases hflow
      exact ⟨[.headFault (.error e)], rfl, fun _ _ => .silent (.error e) (by simp)⟩
  | readTimeout kind hdirty =>
      obtain ⟨event, hevent, htrace, -⟩ := refuse_closing env
        (c.progress.log [.headFault .timeout]) (ascii "Request timeout") (.timeout kind)
        (Or.inr rfl)
      cases hflow
      refine ⟨[.headFault .timeout, event], ?_,
        fun _ _ => .faultRefusal .timeout (Or.inr rfl) hevent⟩
      rw [htrace]
      simp [Progress.log]
  | more input hread => cases hflow
  | badHead e n hend hparse =>
      obtain ⟨event, hevent, htrace, -⟩ := refuse_closing env c.progress (ascii "Bad Request")
        (.parse e) (Or.inl rfl)
      cases hflow
      exact ⟨[event], htrace, fun _ _ => .refusal hevent⟩
  | request request mode consumed body input hparse hbody =>
      obtain ⟨hparse', hdrop⟩ := parse_all hparse
      cases body with
      | error x =>
          obtain ⟨outcome', event, hafter, hevent, htrace⟩ :=
            afterHead_error_cases env handler c.progress request mode x
          rw [hafter] at hflow
          cases hflow
          refine ⟨_, htrace, fun _ hquiet => .bodyRefusal x hparse' ?_ hevent⟩
          cases x with
          | elapsed => rfl
          | error e =>
              cases e with
              | io e =>
                  exact absurd ⟨request, mode, consumed, e, input, hparse, hbody⟩ hquiet
              | _ => rfl
      | ok payload =>
          obtain ⟨result, hdecode, rfl, hrest⟩ := readBody_ok hbody
          have hafter := afterHead_ok env handler c.progress request mode result.payload
          generalize afterHead env handler c.progress request mode (.ok result.payload) = flow'
            at hflow hafter
          cases hafter with
          | keepsOpen hopen => cases hflow
          | closes hdirective hresult =>
              cases hflow
              exact ⟨_, rfl, fun _ _ => .last hparse' (hdrop ▸ hdecode) hdirective⟩
          | rejected e hresult =>
              cases hflow
              refine ⟨_, rfl, fun haccepted _ => ?_⟩
              have := haccepted _ (by rw [exchange_exchanges]; exact List.mem_singleton_self _)
              rw [hresult] at this
              cases this

/-- A run from any state keeps the discipline as long as no round ahead goes wrong. -/
theorem run_orderly (env : Env) (handler : Handler σ) (c : Connection σ) :
    ∃ events, ((loop env handler).run c).progress.trace = c.progress.trace ++ events ∧
      ((∀ x ∈ events.filterMap Event.exchange?, x.written.result = .ok ()) →
        (∀ t, (loop env handler).Reaches c t → ¬ t.BodyReadError) →
          Orderly env handler c.input.all c.progress.responses c.progress.handlerState
            events) := by
  refine (loop env handler).run_induction (motive := fun c outcome =>
    ∃ events, outcome.progress.trace = c.progress.trace ++ events ∧
      ((∀ x ∈ events.filterMap Event.exchange?, x.written.result = .ok ()) →
        (∀ t, (loop env handler).Reaches c t → ¬ t.BodyReadError) →
          Orderly env handler c.input.all c.progress.responses c.progress.handlerState
            events)) ?_ ?_ c
  · intro c outcome hdone
    obtain ⟨events, htrace, horderly⟩ := round_done_cases hdone
    exact ⟨events, htrace, fun haccepted hquiet => horderly haccepted (hquiet c .start)⟩
  · rintro c c' hnext ⟨events, htrace, horderly⟩
    have hreach : (∀ t, (loop env handler).Reaches c t → ¬ t.BodyReadError) →
        ∀ t, (loop env handler).Reaches c' t → ¬ t.BodyReadError :=
      fun hquiet t ht => hquiet t (ht.head hnext)
    rcases round_next_cases hnext with ⟨hall, hprogress⟩ |
      ⟨request, mode, consumed, result, hparse, hbody, hrest, hkeeps, hprogress⟩
    · rw [hall, hprogress] at horderly
      exact ⟨events, hprogress ▸ htrace,
        fun haccepted hquiet => horderly haccepted (hreach hquiet)⟩
    · rw [hprogress] at horderly htrace
      refine ⟨_, htrace.trans (List.append_assoc ..), fun haccepted hquiet => ?_⟩
      refine .next hparse hbody hkeeps.1 ?_
      rw [hrest] at horderly
      refine horderly (fun x hx => haccepted x ?_) (hreach hquiet)
      rw [List.filterMap_append]
      exact List.mem_append_right _ hx

theorem reaches_no_readError {env : Env} {handler : Handler σ} {c t : Connection σ}
    (h : (loop env handler).Reaches c t) :
    ∃ events, t.progress.trace = c.progress.trace ++ events ∧
      ∀ e ∈ events, e.isReadError = false := by
  induction h with
  | start => exact ⟨[], by simp, by simp⟩
  | @round t u _ hnext ih =>
      obtain ⟨events, htrace, hquiet⟩ := ih
      rcases round_next_cases hnext with ⟨-, hprogress⟩ |
        ⟨request, mode, consumed, result, -, -, -, -, hprogress⟩
      · exact ⟨events, hprogress ▸ htrace, hquiet⟩
      · have hu := congrArg Progress.trace hprogress
        rw [Progress.exchange, htrace, List.append_assoc] at hu
        refine ⟨_, hu, fun e he => ?_⟩
        rcases List.mem_append.mp he with he | he
        · exact hquiet e he
        · exact exchangeEvents_no_readError _ _ _ e he

/-- A read error inside a body is followed by a response. -/
theorem afterReadError_ne_nil {env : Env} {handler : Handler σ} {c t : Connection σ}
    (hstart : c.progress.trace = []) (hreach : (loop env handler).Reaches c t)
    (herror : t.BodyReadError) :
    afterReadError ((loop env handler).run c).progress.trace ≠ [] := by
  obtain ⟨events, htrace, hquiet⟩ := reaches_no_readError hreach
  obtain ⟨request, mode, consumed, e, input, hparse, hbody⟩ := herror
  obtain ⟨outcome, event, hafter, -, hend⟩ :=
    afterHead_error_cases env handler t.progress request mode (.error (.io e))
  have hround : t.round env handler = .done outcome := by
    rw [round_of_parse hparse hbody, hafter]
  rw [hreach.run_eq, (loop env handler).run_done hround, hend, htrace, hstart, List.nil_append,
    afterReadError_append _ hquiet, afterReadError_append _ (headEvents_no_readError _ _)]
  simp [afterReadError, Event.isReadError]

/-- Every run, whatever bytes and faults it meets, answers complete requests in order,
ends with at most one closing error response and is silent after a read error, if and only
if no read error falls into a request body. -/
theorem run_orderly_iff (env : Env) (handler : Handler σ) (input : Input) (s : σ)
    (haccepted : ∀ x ∈ (run env handler input s).progress.exchanges,
      x.written.result = .ok ()) :
    Orderly env handler input.all 0 s (run env handler input s).progress.trace ↔
      ∀ t, (loop env handler).Reaches ⟨input, .start s⟩ t → ¬ t.BodyReadError := by
  constructor
  · intro horderly t hreach herror
    exact afterReadError_ne_nil rfl hreach herror horderly.afterReadError_eq
  · intro hquiet
    obtain ⟨events, htrace, horderly⟩ := run_orderly env handler ⟨input, .start s⟩
    have htrace : (run env handler input s).progress.trace = events := htrace
    rw [Progress.exchanges, htrace] at haccepted
    rw [htrace]
    exact horderly haccepted hquiet

/-- A request whose body of one byte cannot be read for want of memory; the socket still takes
writes. -/
def failedReadInBody : Input :=
  ⟨ascii "POST / HTTP/1.1\r\nHost: a\r\nContent-Length: 1\r\n\r\n", [.error ⟨12⟩]⟩

/-- The failed read is answered with `400`. -/
theorem run_failedReadInBody_not_orderly :
    (∀ x ∈ (run .atEpoch (.always (.new .OK)) failedReadInBody ()).progress.exchanges,
      x.written.result = .ok ()) ∧
    afterReadError (run .atEpoch (.always (.new .OK)) failedReadInBody ()).progress.trace ≠ [] ∧
    ¬ Orderly .atEpoch (.always (.new .OK)) failedReadInBody.all 0 ()
      (run .atEpoch (.always (.new .OK)) failedReadInBody ()).progress.trace := by
  have hbehind : (afterReadError
      (run .atEpoch (.always (.new .OK)) failedReadInBody ()).progress.trace).isEmpty = false := by
    decide +kernel
  have hne : afterReadError
      (run .atEpoch (.always (.new .OK)) failedReadInBody ()).progress.trace ≠ [] := by
    intro hnil
    rw [hnil] at hbehind
    cases hbehind
  exact ⟨by decide +kernel, hne, fun horderly => hne horderly.afterReadError_eq⟩

/-- A request answered, and a reset before the next one. -/
theorem run_orderly_iff_resetBetween :
    let input : Input := ⟨ascii "GET / HTTP/1.1\r\nHost: a\r\n\r\n", [.error ⟨104⟩]⟩
    Orderly .atEpoch (.always (.new .OK)) input.all 0 ()
      (run .atEpoch (.always (.new .OK)) input ()).progress.trace ↔
      ∀ t, (loop .atEpoch (.always (.new .OK))).Reaches ⟨input, .start ()⟩ t →
        ¬ t.BodyReadError :=
  run_orderly_iff .atEpoch (.always (.new .OK)) _ () (by decide +kernel)

end Connection

end GooseHttp
