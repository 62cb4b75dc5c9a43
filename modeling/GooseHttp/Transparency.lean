import GooseHttp.History
import GooseHttp.Parse.AcceptedHead
/-!
# What a connection does not show

A connection answers the requests its stream holds and nothing about the stream besides.  How
the requests were written down makes no difference (`run_reencoded`), and neither does it that
they share a connection: each is answered as on a connection of its own, up to the first
response that closes (`run_separate`).  Both rest on `session_carries`, which takes the
requests off the front of a stream.
-/

namespace GooseHttp

open Lib

variable {σ : Type}

/-! ## Requests on the front of a stream -/

def Body.mode : Body → BodyMode
  | .empty => .none
  | .fixed length => .fixed length
  | .chunked => .chunked

@[simp] theorem BodyMode.mode_toBody (mode : BodyMode) : mode.toBody.mode = mode := by
  cases mode <;> rfl

def Request.head (r : Request) : Request := { r with payload := [] }

/-- The stream begins with the given requests, each with its whole body, and goes on with
`rest`. -/
inductive Carries (rest : Bytes) : Bytes → List Request → Prop
  | nil : Carries rest rest []
  | cons {bytes : Bytes} {request : Request} {mode : BodyMode} {consumed : Nat}
      {result : BodyResult} {requests : List Request}
      (hparse : parseRequestHead bytes = .ok (request, mode, consumed))
      (hbody : decodeBody mode (bytes.drop consumed) = .ok result)
      (hrest : Carries rest result.rest requests) :
      Carries rest bytes ({ request with payload := result.payload } :: requests)

theorem Pipelined.carries {bytes : Bytes} {requests : List Request}
    (h : Pipelined bytes requests) : Carries [] bytes requests := by
  induction h with
  | nil => exact .nil
  | cons hparse hbody _ ih => exact .cons hparse hbody ih

theorem WireRequest.carries (wires : List WireRequest) (rest : Bytes) :
    Carries rest (wires.flatMap WireRequest.bytes ++ rest) (wires.map WireRequest.request) := by
  induction wires with
  | nil => exact .nil
  | cons w wires ih =>
      obtain ⟨consumed, trailers, hparse, hbody⟩ :=
        w.parse_bytes (wires.flatMap WireRequest.bytes ++ rest)
      rw [List.flatMap_cons, List.append_assoc]
      exact .cons hparse hbody ih

theorem head_of_parse {bytes : Bytes} (payload : Bytes) {request : Request} {mode : BodyMode}
    {consumed : Nat} (h : parseRequestHead bytes = .ok (request, mode, consumed)) :
    Request.head { request with payload := payload } = request ∧ request.body.mode = mode := by
  obtain ⟨line, lines, fields, rest, -, -, -, hhead⟩ := parseRequestHead_ok_iff.mp h
  refine ⟨?_, ?_⟩
  · rw [Request.head, ← hhead.payload]
  · rw [hhead.body, BodyMode.mode_toBody]

def answerAll (env : Env) (handler : Handler σ) :
    Progress σ → List Request → Flow (Progress σ) (Outcome σ)
  | p, [] => .next p
  | p, request :: requests =>
      match afterHead env handler p request.head request.body.mode (.ok request.payload) with
      | .done outcome => .done outcome
      | .next p => answerAll env handler p requests

/-- A stream is answered by the requests on its front, and then as what follows them. -/
theorem session_carries (env : Env) (handler : Handler σ) {rest bytes : Bytes}
    {requests : List Request} (h : Carries rest bytes requests) (p : Progress σ) :
    (Session.loop env handler).run ⟨bytes, p⟩ =
      match answerAll env handler p requests with
      | .done outcome => outcome
      | .next q => (Session.loop env handler).run ⟨rest, q⟩ := by
  induction h generalizing p with
  | nil => rfl
  | @cons bytes request mode consumed result requests hparse hbody hrest ih =>
      obtain ⟨hhead, hmode⟩ := head_of_parse result.payload hparse
      have hround : (Session.loop env handler).body ⟨bytes, p⟩ =
          match afterHead env handler p request mode (.ok result.payload) with
          | .done outcome => .done outcome
          | .next q => .next ⟨result.rest, q⟩ :=
        Session.round_of_request env handler hparse hbody
      rw [answerAll, hhead]
      dsimp only
      rw [hmode]
      cases hafter : afterHead env handler p request mode (.ok result.payload) with
      | done outcome =>
          rw [hafter] at hround
          exact (Session.loop env handler).run_done hround
      | next q =>
          rw [hafter] at hround
          exact ((Session.loop env handler).run_next hround).trans (ih q)

/-- Two streams of which the fronts hold the same requests, in whatever writing, and that go
on alike are answered alike: with the same handler calls, the same bytes and the same end.
Neither how a body was cut into chunks nor chunk extensions, trailers, the letter case of
field names or optional white space can be told from what the connection does. -/
theorem run_reencoded (env : Env) (handler : Handler σ) (s : σ) {input input' : Input}
    {requests : List Request} {rest : Bytes} (hclean : input.Clean) (hclean' : input'.Clean)
    (h : Carries rest input.all requests) (h' : Carries rest input'.all requests) :
    Connection.run env handler input s = Connection.run env handler input' s := by
  rw [run_eq_session env handler s hclean, run_eq_session env handler s hclean', session,
    session, session_carries env handler h, session_carries env handler h']

/-- The request of `wirePost` with its names in lower case, its body cut differently and a
trailer behind it. -/
def wirePostAgain : WireRequest :=
  { wirePost with
    fields := [(ascii "host", ascii "a"), (ascii "transfer-encoding", ascii "chunked"),
      (ascii "expect", ascii "100-continue")]
    body := .chunked
      { chunks := [⟨⟨ascii "1", ascii ";a", [1], by decide, by decide, by decide,
            Or.inr ⟨_, rfl⟩, by decide, by decide⟩, ascii "h", by decide, by decide⟩,
          ⟨⟨ascii "01", ascii ";b=c", [0, 1], by decide, by decide, by decide,
            Or.inr ⟨_, rfl⟩, by decide, by decide⟩, ascii "i", by decide, by decide⟩]
        last := ⟨ascii "00", ascii ";d", [0, 0], by decide, by decide, by decide,
          Or.inr ⟨_, rfl⟩, by decide, by decide⟩
        last_zero := by decide
        trailers := [(ascii "Checked", ascii "yes")]
        trailers_ok := by
          intro f hf
          rw [List.mem_singleton.mp hf]
          exact ⟨by decide, by decide⟩ }
    fields_ok := by
      intro f hf
      simp only [List.mem_cons, List.not_mem_nil, or_false] at hf
      rcases hf with rfl | rfl | rfl <;> exact ⟨by decide, by decide, by decide⟩
    host_ok := ⟨ascii "a", by decide, by decide⟩
    announced := ⟨by decide, by decide, [], ascii "chunked", by decide, by decide, by simp⟩
    head_short := by decide }

/-- Both in front of the beginning of another request. -/
theorem run_reencoded_again :
    wirePost.bytes ≠ wirePostAgain.bytes ∧
      Connection.run .atEpoch (.always (.new .OK)) ⟨wirePost.bytes ++ ascii "GET", []⟩ () =
        Connection.run .atEpoch (.always (.new .OK))
          ⟨wirePostAgain.bytes ++ ascii "GET", []⟩ () := by
  have hsame : wirePostAgain.request = wirePost.request := by
    have hfields : wirePostAgain.fields.map namedField = wirePost.fields.map namedField := by
      decide +kernel
    have hpayload : wirePostAgain.body.payload = wirePost.body.payload := by decide
    rw [WireRequest.request, WireRequest.request, hfields, hpayload]
    rfl
  have hone : ∀ w : WireRequest,
      Carries (ascii "GET") (Input.all ⟨w.bytes ++ ascii "GET", []⟩) [w.request] := by
    intro w
    have hcarries := WireRequest.carries [w] (ascii "GET")
    rw [List.flatMap_singleton] at hcarries
    rwa [Input.all_of_incoming_nil rfl]
  exact ⟨by decide +kernel, run_reencoded .atEpoch (.always (.new .OK)) () (by decide) (by decide)
    (hone wirePost) (hsame ▸ hone wirePostAgain)⟩

/-! ## One connection for each request -/

/-- The clock of a connection that is opened after `n` responses. -/
def Env.later (env : Env) (n : Nat) : Env := { env with now := fun k => env.now (n + k) }

/-- Connections opened one after the other, each when the one before has ended. -/
def runEach (env : Env) (handler : Handler σ) : Nat → σ → List Input → List (Outcome σ)
  | _, _, [] => []
  | n, s, input :: inputs =>
      let outcome := Connection.run (env.later n) handler input s
      outcome ::
        runEach env handler (n + outcome.progress.responses) outcome.progress.handlerState inputs

instance (x : Exchange) : Decidable x.KeepsOpen :=
  inferInstanceAs (Decidable (x.directive = .keepAlive ∧ x.written.result = .ok ()))

def Outcome.KeepsOpen (o : Outcome σ) : Prop := ∀ x ∈ o.progress.exchanges, x.KeepsOpen

instance (o : Outcome σ) : Decidable o.KeepsOpen :=
  inferInstanceAs (Decidable (∀ x ∈ o.progress.exchanges, x.KeepsOpen))

def throughClose : List (Outcome σ) → List (Outcome σ)
  | [] => []
  | o :: os => if o.KeepsOpen then o :: throughClose os else [o]

def Exchange.result (x : Exchange) : Except ConnectionError Unit :=
  x.written.result.mapError .encode

/-- The outcome goes on from this point of a connection by just this exchange. -/
structure Outcome.Adds (o : Outcome σ) (p : Progress σ) (served : Exchange × σ) : Prop where
  exchanges : o.progress.exchanges = p.exchanges ++ [served.1]
  written : o.progress.written = p.written ++ served.1.bytes
  state : o.progress.handlerState = served.2
  responses : o.progress.responses = p.responses + 1
  result : o.result = served.1.result

def closing : Flow (Progress σ) (Outcome σ) → Outcome σ
  | .done outcome => outcome
  | .next p => ⟨p.log [.headFault .eof], .ok ()⟩

theorem adds_exchange (p : Progress σ) {request : Request} (mode : BodyMode)
    {served : Exchange × σ} (hcalled : served.1.request.headers = request.headers)
    {o : Outcome σ} (hprogress : o.progress.trace = (p.exchange request mode served).trace ∨
      o.progress.trace = (p.exchange request mode served).trace ++ [.headFault .eof])
    (hstate : o.progress.handlerState = served.2)
    (hresponses : o.progress.responses = p.responses + 1)
    (hresult : o.result = served.1.result) : o.Adds p served where
  exchanges := by
    have hexchanges := exchanges_exchange p request mode served
    rcases hprogress with htrace | htrace
    · rw [Progress.exchanges, htrace]
      exact hexchanges
    · rw [Progress.exchanges, htrace, List.filterMap_append]
      exact (List.append_nil _).trans hexchanges
  written := by
    have hwritten := written_exchange p request mode served hcalled
    rcases hprogress with htrace | htrace
    · rw [Progress.written, htrace]
      exact hwritten
    · rw [Progress.written, htrace, List.flatMap_append]
      exact (List.append_nil _).trans hwritten
  state := hstate
  responses := hresponses
  result := hresult

theorem answer_cases (env : Env) (handler : Handler σ) (p : Progress σ) (request : Request) :
    let served := serve env handler p.responses p.handlerState request
    let flow := afterHead env handler p request.head request.body.mode (.ok request.payload)
    (closing flow).Adds p served ∧
      (served.1.KeepsOpen → flow = .next (p.exchange request.head request.body.mode served)) ∧
      (¬ served.1.KeepsOpen → ∃ o, flow = .done o) := by
  intro served flow
  have hcase : AnsweredCase p request.head request.body.mode served flow :=
    afterHead_ok env handler p request.head request.body.mode request.payload
  have hcalled : served.1.request.headers = request.head.headers := rfl
  generalize flow = flow at hcase
  cases hcase with
  | keepsOpen hopen =>
      refine ⟨adds_exchange p request.body.mode hcalled (.inr rfl) rfl rfl ?_, fun _ => rfl,
        fun hclose => absurd hopen hclose⟩
      rw [Exchange.result, hopen.2]
      rfl
  | closes hdirective hresult =>
      refine ⟨adds_exchange p request.body.mode hcalled (.inl rfl) rfl rfl ?_, fun hopen => ?_,
        fun _ => ⟨_, rfl⟩⟩
      · rw [Exchange.result, hresult]
        rfl
      · rw [hopen.1] at hdirective
        cases hdirective
  | rejected e hresult =>
      refine ⟨adds_exchange p request.body.mode hcalled (.inl rfl) rfl rfl ?_, fun hopen => ?_,
        fun _ => ⟨_, rfl⟩⟩
      · rw [Exchange.result, hresult]
        rfl
      · rw [hopen.2] at hresult
        cases hresult

theorem session_pipelined_closing (env : Env) (handler : Handler σ) {bytes : Bytes}
    {requests : List Request} (h : Pipelined bytes requests) (p : Progress σ) :
    (Session.loop env handler).run ⟨bytes, p⟩ = closing (answerAll env handler p requests) := by
  rw [session_carries env handler h.carries]
  cases answerAll env handler p requests with
  | done outcome => rfl
  | next q => exact (Session.loop env handler).run_done rfl

theorem run_one (env : Env) (handler : Handler σ) (n : Nat) (s : σ) {input : Input}
    {request : Request} (hclean : input.Clean) (hinput : Pipelined input.all [request]) :
    (Connection.run (env.later n) handler input s).Adds (.start s)
      (serve env handler n s request) := by
  have hadds := (answer_cases (env.later n) handler (.start s) request).1
  rw [run_eq_session _ handler s hclean, session, session_pipelined_closing _ handler hinput,
    answerAll]
  cases hflow : afterHead (env.later n) handler (.start s) request.head request.body.mode
    (.ok request.payload) <;> rw [hflow] at hadds <;> exact hadds

theorem getLast_map_cons {α β : Type} (f : α → β) (b : β) (a : α) (as : List α) :
    (((a :: as).getLast?).map f).getD b = ((as.getLast?).map f).getD (f a) := by
  rw [List.getLast?_cons]
  cases as.getLast? <;> rfl

theorem answerAll_separate (env : Env) (handler : Handler σ) {parts : List (Input × Request)}
    (hparts : ∀ part ∈ parts, part.1.Clean ∧ Pipelined part.1.all [part.2]) (p : Progress σ) :
    let one := closing (answerAll env handler p (parts.map Prod.snd))
    let each := throughClose
      (runEach env handler p.responses p.handlerState (parts.map Prod.fst))
    one.progress.exchanges = p.exchanges ++ each.flatMap (fun o => o.progress.exchanges) ∧
      one.progress.written = p.written ++ each.flatMap (fun o => o.progress.written) ∧
      one.progress.handlerState =
        (each.getLast?.map fun o => o.progress.handlerState).getD p.handlerState ∧
      one.result = (each.getLast?.map Outcome.result).getD (.ok ()) := by
  induction parts generalizing p with
  | nil =>
      refine ⟨?_, ?_, rfl, rfl⟩
      · simp [answerAll, closing, runEach, throughClose, Progress.exchanges, Progress.log,
          Event.exchange?]
      · simp [answerAll, closing, runEach, throughClose, Progress.written, Progress.log,
          Event.bytes]
  | cons part parts ih =>
      obtain ⟨⟨hclean, hinput⟩, hparts⟩ := List.forall_mem_cons.mp hparts
      obtain ⟨hadds, hopens, hcloses⟩ := answer_cases env handler p part.2
      have hone := run_one env handler p.responses p.handlerState hclean hinput
      have hfirst : (Connection.run (env.later p.responses) handler part.1
          p.handlerState).progress.exchanges =
            [(serve env handler p.responses p.handlerState part.2).1] := hone.exchanges
      have hbytes : (Connection.run (env.later p.responses) handler part.1
          p.handlerState).progress.written =
            (serve env handler p.responses p.handlerState part.2).1.bytes := hone.written
      rw [List.map_cons, List.map_cons, answerAll, runEach]
      dsimp only
      rw [hone.state, hone.responses, throughClose]
      by_cases hopen : (serve env handler p.responses p.handlerState part.2).1.KeepsOpen
      · have hkeeps : (Connection.run (env.later p.responses) handler part.1
            p.handlerState).KeepsOpen := by
          rw [Outcome.KeepsOpen, hfirst]
          exact List.forall_mem_singleton.mpr hopen
        obtain ⟨hexchanges, hwritten, hstate, hresult⟩ := ih hparts (p.exchange part.2.head
          part.2.body.mode (serve env handler p.responses p.handlerState part.2))
        rw [exchanges_exchange] at hexchanges
        have hbefore : (p.exchange part.2.head part.2.body.mode
            (serve env handler p.responses p.handlerState part.2)).written =
              p.written ++ (serve env handler p.responses p.handlerState part.2).1.bytes :=
          written_exchange p _ _ _ rfl
        rw [hbefore] at hwritten
        rw [hopens hopen, if_pos hkeeps, List.flatMap_cons, List.flatMap_cons, hfirst, hbytes,
          ← List.append_assoc, ← List.append_assoc, getLast_map_cons, getLast_map_cons,
          hone.state, hone.result, Exchange.result, hopen.2]
        exact ⟨hexchanges, hwritten, hstate, hresult⟩
      · have hcloses' : ¬ (Connection.run (env.later p.responses) handler part.1
            p.handlerState).KeepsOpen := by
          rw [Outcome.KeepsOpen, hfirst, List.forall_mem_singleton]
          exact hopen
        obtain ⟨o, hflow⟩ := hcloses hopen
        rw [hflow] at hadds
        rw [hflow, if_neg hcloses', List.flatMap_singleton, List.flatMap_singleton, hfirst, hbytes,
          List.getLast?_singleton]
        exact ⟨hadds.exchanges, hadds.written, hadds.state.trans hone.state.symm,
          hadds.result.trans hone.result.symm⟩

/-- A client may send its requests down one connection or each down one of its own, after the
one before has been answered: up to the first response that closes its connection, the
handler is called alike and ends in the same state, the responses are the same bytes, and
the run ends alike.  Requests behind that response are not handled on the one connection. -/
theorem run_separate (env : Env) (handler : Handler σ) (s : σ) {input : Input}
    {parts : List (Input × Request)} (hclean : input.Clean)
    (hinput : Pipelined input.all (parts.map Prod.snd))
    (hparts : ∀ part ∈ parts, part.1.Clean ∧ Pipelined part.1.all [part.2]) :
    let one := Connection.run env handler input s
    let each := throughClose (runEach env handler 0 s (parts.map Prod.fst))
    one.progress.exchanges = each.flatMap (fun o => o.progress.exchanges) ∧
      one.progress.written = each.flatMap (fun o => o.progress.written) ∧
      one.progress.handlerState = (each.getLast?.map fun o => o.progress.handlerState).getD s ∧
      one.result = (each.getLast?.map Outcome.result).getD (.ok ()) := by
  intro one each
  have hone : one = closing (answerAll env handler (.start s) (parts.map Prod.snd)) :=
    (run_eq_session env handler s hclean).trans (session_pipelined_closing env handler hinput _)
  rw [hone]
  exact answerAll_separate env handler hparts (.start s)

/-- Two requests, of which the second has a body. -/
theorem run_separate_two :
    (Connection.run .atEpoch (.always (.new .OK)) ⟨wireGet.bytes ++ wirePost.bytes, []⟩
        ()).progress.written =
      (throughClose (runEach .atEpoch (.always (.new .OK)) 0 ()
        [⟨wireGet.bytes, []⟩, ⟨wirePost.bytes, []⟩])).flatMap fun o => o.progress.written := by
  have hpipelined : ∀ bytes requests, Pipelined bytes requests →
      Pipelined (Input.all ⟨bytes, []⟩) requests := by
    intro bytes requests h
    rwa [Input.all_of_incoming_nil rfl]
  have hone : ∀ w : WireRequest, Pipelined (Input.all ⟨w.bytes, []⟩) [w.request] := by
    intro w
    have hbytes := pipelined_bytes [w]
    rw [List.flatMap_singleton] at hbytes
    exact hpipelined _ _ hbytes
  have hboth : Pipelined (Input.all ⟨wireGet.bytes ++ wirePost.bytes, []⟩)
      ([((⟨wireGet.bytes, []⟩ : Input), wireGet.request),
        (⟨wirePost.bytes, []⟩, wirePost.request)].map Prod.snd) := by
    have hbytes := pipelined_bytes [wireGet, wirePost]
    rw [List.flatMap_cons, List.flatMap_singleton] at hbytes
    exact hpipelined _ _ hbytes
  refine (run_separate .atEpoch (.always (.new .OK)) () (by decide) hboth ?_).2.1
  intro part hpart
  simp only [List.mem_cons, List.not_mem_nil, or_false] at hpart
  rcases hpart with rfl | rfl <;> exact ⟨List.forall_mem_nil _, hone _⟩

end GooseHttp
