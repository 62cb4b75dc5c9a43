import GooseHttp.Parse.WireRequest
import GooseHttp.Session
/-!
# Pipelined requests

Several requests on one stream.  `Pipelined` says that a stream is made of complete
requests, `serveAll` answers them one after the other, and `session_pipelined` says
that a connection does just that as long as nobody asks to close: the invariant of the
induction is that after each request the stream holds exactly the rest.
-/

namespace GooseHttp

open Lib

variable {σ : Type}

/-! ## Answering a list of requests -/

def serveAll (env : Env) (handler : Handler σ) : Nat → σ → List Request → List Exchange × σ
  | _, s, [] => ([], s)
  | n, s, request :: requests =>
      let (x, s) := serve env handler n s request
      let (xs, s) := serveAll env handler (n + 1) s requests
      (x :: xs, s)

def Exchange.bytes (x : Exchange) : Bytes :=
  (if x.request.expect100Continue then continueBytes else []) ++ x.written.bytes

@[simp] theorem serve_request (env : Env) (handler : Handler σ) (n : Nat) (s : σ)
    (request : Request) :
    (serve env handler n s request).1.request = { request with body := .empty } := rfl

theorem serveAll_cons (env : Env) (handler : Handler σ) (n : Nat) (s : σ) (request : Request)
    (requests : List Request) :
    (serveAll env handler n s (request :: requests)).1 =
      (serve env handler n s request).1 ::
        (serveAll env handler (n + 1) (serve env handler n s request).2 requests).1 := rfl

theorem serveAll_requests (env : Env) (handler : Handler σ) (n : Nat) (s : σ)
    (requests : List Request) :
    (serveAll env handler n s requests).1.map Exchange.request =
      requests.map fun r => { r with body := .empty } := by
  induction requests generalizing n s with
  | nil => rfl
  | cons request requests ih =>
      rw [serveAll, List.map_cons, List.map_cons, serve_request, ih]

def Exchange.KeepsOpen (x : Exchange) : Prop :=
  x.directive = .keepAlive ∧ x.written.result = .ok ()

def exchangeEvents (request : Request) (mode : BodyMode) (x : Exchange) : List Event :=
  headEvents request mode ++ [.decoded x.request.payload, .exchanged x]

def Progress.exchange (p : Progress σ) (request : Request) (mode : BodyMode)
    (served : Exchange × σ) : Progress σ where
  handlerState := served.2
  processedRequests := true
  responses := p.responses + 1
  trace := p.trace ++ exchangeEvents request mode served.1

inductive AnsweredCase (p : Progress σ) (request : Request) (mode : BodyMode)
    (served : Exchange × σ) : Flow (Progress σ) (Outcome σ) → Prop
  | keepsOpen (hopen : served.1.KeepsOpen) :
      AnsweredCase p request mode served (.next (p.exchange request mode served))
  | closes (hdirective : served.1.directive = .close) (hresult : served.1.written.result = .ok ()) :
      AnsweredCase p request mode served (.done ⟨p.exchange request mode served, .ok ()⟩)
  | rejected (e : EncodeError) (hresult : served.1.written.result = .error e) :
      AnsweredCase p request mode served
        (.done ⟨{ p.exchange request mode served with processedRequests := p.processedRequests },
          .error (.encode e)⟩)

theorem afterHead_ok (env : Env) (handler : Handler σ) (p : Progress σ) (request : Request)
    (mode : BodyMode) (payload : Bytes) :
    AnsweredCase p request mode
      (serve env handler p.responses p.handlerState { request with payload := payload })
      (afterHead env handler p request mode (.ok payload)) := by
  simp only [afterHead, Progress.log, List.append_assoc]
  cases hresult : (serve env handler p.responses p.handlerState
      { request with payload := payload }).1.written.result with
  | error e => exact .rejected e hresult
  | ok u =>
      cases hdirective : (serve env handler p.responses p.handlerState
          { request with payload := payload }).1.directive with
      | close => exact .closes hdirective hresult
      | keepAlive => exact .keepsOpen ⟨hdirective, hresult⟩

theorem afterHead_keepsOpen {env : Env} {handler : Handler σ} {p : Progress σ}
    {request : Request} (mode : BodyMode) (payload : Bytes)
    (h : (serve env handler p.responses p.handlerState
      { request with payload := payload }).1.KeepsOpen) :
    afterHead env handler p request mode (.ok payload) =
      .next (p.exchange request mode
        (serve env handler p.responses p.handlerState { request with payload := payload })) := by
  have hafter := afterHead_ok env handler p request mode payload
  generalize afterHead env handler p request mode (.ok payload) = flow at hafter ⊢
  cases hafter with
  | keepsOpen hopen => rfl
  | closes hdirective hresult =>
      rw [h.1] at hdirective
      cases hdirective
  | rejected e hresult =>
      rw [h.2] at hresult
      cases hresult

theorem exchange_bytes (request : Request) (mode : BodyMode) (x : Exchange)
    (h : x.request.headers = request.headers) :
    (exchangeEvents request mode x).flatMap Event.bytes = x.bytes := by
  have hexpect : x.request.expect100Continue = request.expect100Continue := by
    simp [Request.expect100Continue, Request.header, h]
  rw [Exchange.bytes, hexpect]
  cases hc : request.expect100Continue <;> simp [exchangeEvents, headEvents, Event.bytes, hc]

theorem exchange_exchanges (request : Request) (mode : BodyMode) (x : Exchange) :
    (exchangeEvents request mode x).filterMap Event.exchange? = [x] := by
  rw [exchangeEvents, headEvents]
  cases request.expect100Continue <;> rfl

theorem Connection.Answers.trace {env : Env} {handler : Handler σ} {c : Connection σ}
    {request : Request} {x : Exchange} (h : c.Answers env handler request x) :
    ∃ head mode, (progressAfter (c.round env handler)).trace =
      c.progress.trace ++ exchangeEvents head mode x := by
  obtain ⟨⟨head, mode, consumed, payload, input, hparse, hbody, rfl⟩, rfl⟩ := h
  have hafter := afterHead_ok env handler c.progress head mode payload
  refine ⟨head, mode, ?_⟩
  rw [round_of_parse hparse hbody]
  generalize afterHead env handler c.progress head mode (.ok payload) = flow at hafter
  cases hafter <;> rfl

/-! ## Streams of complete requests -/

/-- The stream holds the given requests, each with its whole body, and nothing else. -/
inductive Pipelined : Bytes → List Request → Prop
  | nil : Pipelined [] []
  | cons {bytes : Bytes} {request : Request} {mode : BodyMode} {consumed : Nat}
      {result : BodyResult} {requests : List Request}
      (hparse : parseRequestHead bytes = .ok (request, mode, consumed))
      (hbody : decodeBody mode (bytes.drop consumed) = .ok result)
      (hrest : Pipelined result.rest requests) :
      Pipelined bytes ({ request with payload := result.payload } :: requests)

theorem session_pipelined (env : Env) (handler : Handler σ) {bytes : Bytes}
    {requests : List Request} (h : Pipelined bytes requests) (p : Progress σ)
    (hopen : ∀ x ∈ (serveAll env handler p.responses p.handlerState requests).1, x.KeepsOpen) :
    ∃ q : Progress σ, (Session.loop env handler).run ⟨bytes, p⟩ = ⟨q, .ok ()⟩ ∧
      q.exchanges =
        p.exchanges ++ (serveAll env handler p.responses p.handlerState requests).1 ∧
      q.written = p.written ++
        (serveAll env handler p.responses p.handlerState requests).1.flatMap Exchange.bytes ∧
      q.handlerState = (serveAll env handler p.responses p.handlerState requests).2 := by
  induction h generalizing p with
  | nil =>
      refine ⟨p.log [.headFault .eof], ?_, ?_, ?_, rfl⟩
      · exact (Session.loop env handler).run_done rfl
      · simp [Progress.exchanges, Progress.log, Event.exchange?, serveAll]
      · simp [Progress.written, Progress.log, Event.bytes, serveAll]
  | @cons bytes request mode consumed result requests hparse hbody hrest ih =>
      have hfirst := hopen _ (List.mem_cons_self ..)
      let served := serve env handler p.responses p.handlerState
        { request with payload := result.payload }
      have hround : (Session.loop env handler).body ⟨bytes, p⟩ =
          .next ⟨result.rest, p.exchange request mode served⟩ := by
        show Session.round env handler ⟨bytes, p⟩ = _
        rw [Session.round_of_request env handler hparse hbody,
          afterHead_keepsOpen mode result.payload hfirst]
      obtain ⟨q, hrun, hexchanges, hwritten, hstate⟩ := ih (p.exchange request mode served)
        fun x hx => hopen x (List.mem_cons_of_mem _ hx)
      refine ⟨q, ((Session.loop env handler).run_next hround).trans hrun, ?_, ?_, hstate⟩
      · rw [hexchanges, Progress.exchanges, Progress.exchange, List.filterMap_append,
          exchange_exchanges, List.append_assoc]
        rfl
      · rw [hwritten, Progress.written, Progress.exchange, List.flatMap_append,
          exchange_bytes request mode served.1 rfl, List.append_assoc]
        rfl

/-- A run over a stream of complete requests, if every exchange leaves the connection open. -/
theorem run_serveAll (env : Env) (handler : Handler σ) (s : σ) {input : Input}
    {requests : List Request} (hclean : input.Clean) (hinput : Pipelined input.all requests)
    (hopen : ∀ x ∈ (serveAll env handler 0 s requests).1, x.KeepsOpen) :
    let outcome := Connection.run env handler input s
    outcome.result = .ok () ∧
      outcome.progress.exchanges = (serveAll env handler 0 s requests).1 ∧
      outcome.progress.written = outcome.progress.exchanges.flatMap Exchange.bytes ∧
      outcome.progress.handlerState = (serveAll env handler 0 s requests).2 := by
  intro outcome
  obtain ⟨q, hrun, hexchanges, hwritten, hstate⟩ :=
    session_pipelined env handler hinput (.start s) hopen
  have houtcome : outcome = ⟨q, .ok ()⟩ := by
    rw [← hrun]
    exact run_eq_session env handler s hclean
  rw [houtcome]
  refine ⟨rfl, hexchanges, ?_, hstate⟩
  rw [hexchanges]
  exact hwritten

theorem serveAll_methods (env : Env) (handler : Handler σ) (n : Nat) (s : σ)
    (requests : List Request) :
    (serveAll env handler n s requests).1.map (fun x => x.request.method) =
      requests.map Request.method := by
  have hsent := congrArg (List.map Request.method) (serveAll_requests env handler n s requests)
  rw [List.map_map, List.map_map] at hsent
  exact hsent

/-! ## Nobody asks to close -/

theorem values_connection_prepare (env : Env) (request : Request) (answer : Response) :
    (prepare env request answer).headers.values HeaderKeys.connection =
      answer.headers.values HeaderKeys.connection := by
  unfold prepare
  split
  · rw [Headers.values, getAll_applyRequestPreconditions _ _ _ (by decide) (by decide)
      (by decide), Headers.values]
  · rfl

theorem responseRequestsClose_prepare (env : Env) (request : Request) (answer : Response) :
    responseRequestsClose (prepare env request answer) = responseRequestsClose answer := by
  simp only [responseRequestsClose, Headers.get_eq_head?, values_connection_prepare]

theorem directiveFor_keepAlive {request : Request} {response : Response}
    (hversion : request.version = .http11)
    (hrequest : shouldCloseAfterRequest request.version request.headers = false)
    (hresponse : responseRequestsClose response = false) :
    directiveFor request response = .keepAlive := by
  rw [directiveFor, hrequest, hresponse, if_neg (by simp [hversion])]
  rfl

theorem serve_directive (env : Env) (handler : Handler σ) (n : Nat) (s : σ)
    (request : Request) :
    (serve env handler n s request).1.directive =
      directiveFor request (prepare env request (serve env handler n s request).1.answer) := rfl

def NoClose (fields : List (HeaderName × Text)) : Prop :=
  ∀ value ∈ fieldValues fields HeaderKeys.connection, containsToken value (ascii "close") = false

theorem shouldClose_of_noClose {headers : Headers} {fields : List (HeaderName × Text)}
    (hvalues : headers.values HeaderKeys.connection = fieldValues fields HeaderKeys.connection)
    (h : NoClose fields) : shouldCloseAfterRequest .http11 headers = false := by
  rw [shouldCloseAfterRequest, Headers.get_eq_head?, hvalues]
  cases hv : fieldValues fields HeaderKeys.connection with
  | nil => rfl
  | cons value values => exact h value (by simp [hv])

theorem serveAll_keepsOpen (env : Env) (handler : Handler σ) (n : Nat) (s : σ)
    {requests : List Request}
    (hrequests : ∀ r ∈ requests, r.version = .http11 ∧
      shouldCloseAfterRequest r.version r.headers = false)
    (hexchanges : ∀ x ∈ (serveAll env handler n s requests).1,
      responseRequestsClose x.answer = false ∧ x.written.result = .ok ()) :
    ∀ x ∈ (serveAll env handler n s requests).1, x.KeepsOpen := by
  induction requests generalizing n s with
  | nil =>
      intro x hx
      cases hx
  | cons request requests ih =>
      intro x hx
      rw [serveAll_cons, List.mem_cons] at hx
      rw [serveAll_cons, List.forall_mem_cons] at hexchanges
      rcases hx with hx | hx
      · obtain ⟨hversion, hclose⟩ := hrequests request (by simp)
        obtain ⟨hanswer, hresult⟩ := hexchanges.1
        rw [hx]
        refine ⟨?_, hresult⟩
        rw [serve_directive]
        exact directiveFor_keepAlive hversion hclose
          ((responseRequestsClose_prepare env request _).trans hanswer)
      · exact ih _ _ (fun r hr => hrequests r (by simp [hr])) hexchanges.2 x hx

/-! ## Pipelined requests as they were sent -/

theorem pipelined_bytes (wires : List WireRequest) :
    Pipelined (wires.flatMap WireRequest.bytes) (wires.map WireRequest.request) := by
  induction wires with
  | nil => exact .nil
  | cons w wires ih =>
      obtain ⟨consumed, trailers, hparse, hbody⟩ :=
        w.parse_bytes (wires.flatMap WireRequest.bytes)
      rw [List.flatMap_cons, List.map_cons]
      exact .cons hparse hbody ih

theorem WireRequest.takes (w : WireRequest) (rest : Bytes) (p : Progress σ) :
    Connection.Takes ⟨⟨w.bytes ++ rest, []⟩, p⟩ w.request := by
  obtain ⟨consumed, trailers, hparse, hdecode⟩ := w.parse_bytes rest
  have hlen := (findHeadersEnd_le (parseRequestHead_ok hparse).1).2
  have hclean : ((⟨w.bytes ++ rest, []⟩ : Input).advance consumed).Clean := by
    intro e he
    cases he
  have hall : ((⟨w.bytes ++ rest, []⟩ : Input).advance consumed).all =
      (w.bytes ++ rest).drop consumed := List.append_nil _
  cases hbody : readBody w.body.mode ((⟨w.bytes ++ rest, []⟩ : Input).advance consumed) with
  | mk body input =>
      rcases readBody_clean hclean hbody with ⟨e, -, herror⟩ | ⟨result, rfl, hok, -⟩
      · rw [hall, hdecode] at herror
        cases herror
      · rw [hall, hdecode] at hok
        cases hok
        exact ⟨_, _, consumed, _, input, hparse, hbody, rfl⟩

/-- A pipeline of well-formed requests, cut into reads in any way, is answered request
by request: the handler is called once for each, in order and with what was sent, and the
wire carries the encoded responses in order, each behind its `100 Continue` if expected. -/
theorem run_pipelined (env : Env) (handler : Handler σ) (s : σ) (wires : List WireRequest)
    (input : Input) (hclean : input.Clean)
    (hinput : input.all = wires.flatMap WireRequest.bytes)
    (hwires : ∀ w ∈ wires, NoClose (w.fields.map namedField))
    (hresponses : ∀ x ∈ (serveAll env handler 0 s (wires.map WireRequest.request)).1,
      responseRequestsClose x.answer = false ∧ x.written.result = .ok ()) :
    let outcome := Connection.run env handler input s
    let exchanges := (serveAll env handler 0 s (wires.map WireRequest.request)).1
    outcome.progress.calls = wires.map (fun w => { w.request with body := .empty }) ∧
      outcome.progress.exchanges = exchanges ∧
      outcome.progress.written = exchanges.flatMap Exchange.bytes ∧
      outcome.result = .ok () := by
  have hrequests : ∀ r ∈ wires.map WireRequest.request, r.version = .http11 ∧
      shouldCloseAfterRequest r.version r.headers = false := by
    intro r hr
    obtain ⟨w, hw, rfl⟩ := List.mem_map.mp hr
    refine ⟨rfl, shouldClose_of_noClose ?_ (hwires w hw)⟩
    rw [WireRequest.request, Headers.values_appendAll, Headers.values_empty, List.nil_append]
  have hopen := serveAll_keepsOpen env handler 0 s hrequests hresponses
  obtain ⟨q, hrun, hexchanges, hwritten, -⟩ :=
    session_pipelined env handler (pipelined_bytes wires) (.start s) hopen
  dsimp only
  rw [run_eq_session env handler s hclean, hinput, session, hrun]
  refine ⟨?_, hexchanges, hwritten, rfl⟩
  rw [Progress.calls, hexchanges]
  simp only [Progress.exchanges, Progress.start, List.filterMap_nil, List.nil_append]
  rw [serveAll_requests, List.map_map]
  rfl

def wireGet : WireRequest where
  methodToken := ascii "GET"
  targetText := ascii "/"
  fields := [(ascii "Host", ascii "a")]
  body := .none
  method := .get
  target := .origin (ascii "/")
  method_ok := by decide
  targetText_ok := ⟨by decide, by decide +kernel, by decide⟩
  target_ok := by decide +kernel
  fields_ok := fun f hf => by
    obtain rfl := List.mem_singleton.mp hf
    exact ⟨by decide, by decide, by decide⟩
  host_ok := ⟨ascii "a", by decide, by decide⟩
  announced := ⟨by decide, by decide⟩
  line_short := by decide
  head_short := by decide

/-- A request that waits for `100 Continue` and sends a body of one chunk. -/
def wirePost : WireRequest where
  methodToken := ascii "POST"
  targetText := ascii "/items"
  fields := [(ascii "Host", ascii "a"), (ascii "Transfer-Encoding", ascii "chunked"),
    (ascii "Expect", ascii "100-continue")]
  body := .chunked
    { chunks := [⟨⟨ascii "2", ascii ";x=y", [2], by decide, by decide, by decide,
        Or.inr ⟨_, rfl⟩, by decide, by decide⟩, ascii "hi", by decide, by decide⟩]
      last := ⟨ascii "0", [], [0], by decide, by decide, by decide, Or.inl rfl, by decide,
        by decide⟩
      last_zero := by decide
      trailers := []
      trailers_ok := by simp }
  method := .post
  target := .origin (ascii "/items")
  method_ok := by decide
  targetText_ok := ⟨by decide, by decide +kernel, by decide⟩
  target_ok := by decide +kernel
  fields_ok := by
    intro f hf
    simp only [List.mem_cons, List.not_mem_nil, or_false] at hf
    rcases hf with rfl | rfl | rfl <;> exact ⟨by decide, by decide, by decide⟩
  host_ok := ⟨ascii "a", by decide, by decide⟩
  announced := ⟨by decide, by decide, [], ascii "chunked", by decide, by decide, by simp⟩
  line_short := by decide
  head_short := by decide

/-- The two requests on one stream, cut inside the first request line. -/
theorem run_pipelined_two :
    (Connection.run .atEpoch (.always (.new .OK))
      ⟨ascii "GET", [.data 32 (((wireGet.bytes ++ wirePost.bytes).drop 4))]⟩ ()).progress.calls =
        [wireGet.request, { wirePost.request with body := .empty }] :=
  (run_pipelined .atEpoch (.always (.new .OK)) () [wireGet, wirePost]
    ⟨ascii "GET", [.data 32 (((wireGet.bytes ++ wirePost.bytes).drop 4))]⟩ (by decide)
    (by decide +kernel) (by unfold NoClose; decide +kernel) (by decide +kernel)).1

end GooseHttp
