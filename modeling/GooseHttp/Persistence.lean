import GooseHttp.Pipeline
import GooseHttp.SentHead
import GooseHttp.Trim
/-!
# Persistent connections

When a connection goes on after a response, against the `Connection` fields of the
two messages and what the head on the wire says.  The loop looks at the first `Connection`
value of each message only, so it follows a `close` that is listed further down only if
one of the two first values lists it too; and a text with a line end inside can put a
`Connection` line, or the end of the head, on the wire that the loop knows nothing of.
-/

namespace GooseHttp

open Lib

variable {σ : Type}

/-- Some value is a list with the token `close` in it. -/
def ListsClose (values : List Text) : Prop :=
  ∃ value ∈ values, ∃ element ∈ splitAll 44 value,
    eqIgnoreAsciiCase (trimOws element) (ascii "close") = true

instance (values : List Text) : Decidable (ListsClose values) :=
  inferInstanceAs (Decidable (∃ value ∈ values, _))

/-- The first value asks to close, as the loop reads it. -/
def ListsCloseFirst (values : List Text) : Prop :=
  ∃ value, values.head? = some value ∧ containsToken value (ascii "close") = true

instance (values : List Text) : Decidable (ListsCloseFirst values) :=
  decidable_of_iff ((values.head?.any fun value => containsToken value (ascii "close")) = true)
    (Option.any_eq_true _ _)

theorem get_any_close (headers : Headers) :
    ((headers.get HeaderKeys.connection).any fun value => containsToken value (ascii "close"))
      = true ↔ ListsCloseFirst (headers.values HeaderKeys.connection) := by
  rw [Headers.get_eq_head?, Option.any_eq_true, ListsCloseFirst]

theorem responseRequestsClose_iff (response : Response) :
    responseRequestsClose response = true ↔
      ListsCloseFirst (response.headers.values HeaderKeys.connection) :=
  get_any_close response.headers

theorem directiveFor_http11 {request : Request} {response : Response}
    (hversion : request.version = .http11) :
    directiveFor request response = .close ↔
      ListsCloseFirst (request.headers.values HeaderKeys.connection) ∨
        ListsCloseFirst (response.headers.values HeaderKeys.connection) := by
  rw [← responseRequestsClose_iff, ← get_any_close, ← Bool.or_eq_true, directiveFor,
    if_neg (by simp [hversion]), hversion]
  show (if (_ || _) = true then ConnectionDirective.close else .keepAlive) = .close ↔ _
  split
  · rename_i h
    exact iff_of_true rfl h
  · rename_i h
    exact iff_of_false (by simp) h

theorem directiveFor_other {request : Request} {response : Response}
    (hversion : request.version ≠ .http11) : directiveFor request response = .close :=
  if_pos hversion

/-! ## One exchange of a connection -/

namespace Connection

/-- The round ahead accepts a request and answers it with `x`, whose response is
encoded successfully. -/
def Serves (env : Env) (handler : Handler σ) (c : Connection σ) (x : Exchange) : Prop :=
  (∃ request, c.Answers env handler request x) ∧ x.written.result = .ok ()

def Stops (env : Env) (handler : Handler σ) (c : Connection σ) : Prop :=
  ∃ outcome, c.round env handler = .done outcome

theorem Serves.stops_iff {env : Env} {handler : Handler σ} {c : Connection σ} {x : Exchange}
    (h : c.Serves env handler x) : c.Stops env handler ↔ x.directive = .close := by
  obtain ⟨⟨_, ⟨head, mode, consumed, payload, input, hparse, hbody, rfl⟩, rfl⟩, hresult⟩ := h
  have hafter := afterHead_ok env handler c.progress head mode payload
  rw [Stops, round_of_parse hparse hbody]
  generalize afterHead env handler c.progress head mode (.ok payload) = flow at hafter
  cases hafter with
  | keepsOpen hopen => simp [hopen.1]
  | closes hdirective _ => simp [hdirective]
  | rejected e hrejected =>
      rw [hresult] at hrejected
      cases hrejected

/-- What the response that the writer is given says about the connection, when it is sent
with this directive. -/
def sentConnection (env : Env) (c : Connection σ) (x : Exchange)
    (directive : ConnectionDirective) : List Text :=
  (prepare env x.request x.answer).givenValues (env.now c.progress.responses).text
    x.request.method directive HeaderKeys.connection

theorem Serves.values_connection {env : Env} {handler : Handler σ} {c : Connection σ}
    {x : Exchange} (h : c.Serves env handler x) :
    x.written.values HeaderKeys.connection = c.sentConnection env x x.directive := by
  obtain ⟨⟨request, -, rfl⟩, hresult⟩ := h
  exact values_writeResponse (not_conflict_of_ok hresult) _

/-- The decision of the run, the fields of both messages and the head on the wire agree. -/
structure Agrees (env : Env) (handler : Handler σ) (c : Connection σ) (x : Exchange) : Prop where
  stops : c.Stops env handler ↔
    ListsClose (x.request.headers.values HeaderKeys.connection) ∨
      ListsClose (x.answer.headers.values HeaderKeys.connection)
  announced : ListsClose (x.written.values HeaderKeys.connection) ↔ c.Stops env handler

def AsksClose (x : Exchange) : Prop :=
  ListsCloseFirst (x.request.headers.values HeaderKeys.connection) ∨
    ListsCloseFirst (x.answer.headers.values HeaderKeys.connection)

instance (x : Exchange) : Decidable (AsksClose x) := inferInstanceAs (Decidable (_ ∨ _))

theorem Serves.directive_iff {env : Env} {handler : Handler σ} {c : Connection σ}
    {x : Exchange} (h : c.Serves env handler x) (hversion : x.request.version = .http11) :
    x.directive = .close ↔ AsksClose x := by
  obtain ⟨⟨request, -, rfl⟩, -⟩ := h
  have hversion' : request.version = .http11 := hversion
  rw [serve_directive, directiveFor_http11 hversion', values_connection_prepare]
  rfl

theorem Serves.agrees_iff {env : Env} {handler : Handler σ} {c : Connection σ} {x : Exchange}
    (h : c.Serves env handler x) (hversion : x.request.version = .http11) :
    c.Agrees env handler x ↔
      (AsksClose x ↔ ListsClose (x.request.headers.values HeaderKeys.connection) ∨
        ListsClose (x.answer.headers.values HeaderKeys.connection)) ∧
      (AsksClose x → ListsClose (c.sentConnection env x .close)) ∧
      (¬ AsksClose x → ¬ ListsClose (c.sentConnection env x .keepAlive)) := by
  have hstops := h.stops_iff.trans (h.directive_iff hversion)
  have hsent : (AsksClose x → ListsClose (c.sentConnection env x .close)) ∧
      (¬ AsksClose x → ¬ ListsClose (c.sentConnection env x .keepAlive)) ↔
      (ListsClose (x.written.values HeaderKeys.connection) ↔ AsksClose x) := by
    rw [h.values_connection]
    by_cases hclose : AsksClose x
    · rw [(h.directive_iff hversion).mpr hclose]
      simp [hclose]
    · have hkeep : x.directive = .keepAlive := by
        cases hdirective : x.directive with
        | close => exact absurd ((h.directive_iff hversion).mp hdirective) hclose
        | keepAlive => rfl
      rw [hkeep]
      simp [hclose]
  rw [hsent, ← hstops]
  exact ⟨fun hagrees => ⟨hagrees.stops, hagrees.announced⟩, fun ⟨h, h'⟩ => ⟨h, h'⟩⟩

theorem listsClose_trimmed (values : List Text) :
    ListsClose (values.map trimOws) ↔ ListsClose values := by
  have hmapped : ∀ value, (∃ element ∈ splitAll 44 value,
      eqIgnoreAsciiCase (trimOws element) (ascii "close") = true) ↔
        ∃ element ∈ (splitAll 44 value).map trimOws,
          eqIgnoreAsciiCase element (ascii "close") = true := by
    intro value
    simp only [List.mem_map, exists_exists_and_eq_and]
  have htrimmed : ∀ value, (∃ element ∈ splitAll 44 (trimOws value),
      eqIgnoreAsciiCase (trimOws element) (ascii "close") = true) ↔
        ∃ element ∈ splitAll 44 value,
          eqIgnoreAsciiCase (trimOws element) (ascii "close") = true := by
    intro value
    rw [hmapped, splitAll_trimOws_trimOws, ← hmapped]
  rw [ListsClose, ListsClose]
  simp only [List.mem_map, exists_exists_and_eq_and, htrimmed]

/-- Where no text of the handler holds a line end, the wire says what the handler does, and
`close` in its place when the connection closes. -/
theorem listsClose_sentConnection {env : Env} {x : Exchange} (c : Connection σ)
    (h : x.answer.StaysOnLines) :
    ListsClose (c.sentConnection env x .close) ∧
    (ListsClose (c.sentConnection env x .keepAlive) ↔
      ListsClose (x.answer.headers.values HeaderKeys.connection)) := by
  have hnow : ¬ CRLF <:+: (env.now c.progress.responses).text :=
    not_crlf_infix_of_not_mem (env.now c.progress.responses).isPlainField.noCr
  have hsent : ∀ directive, c.sentConnection env x directive = _ := fun directive =>
    (h.prepare env x.request).givenValues hnow x.request.method directive HeaderKeys.connection
  have hedited : ∀ directive, (frameHeaders (stampHeaders (env.now c.progress.responses).text
      (prepare env x.request x.answer).headers directive) (prepare env x.request x.answer).status
        x.request.method (prepare env x.request x.answer).body).values HeaderKeys.connection =
      _ := fun directive => by
    rw [Headers.values, getAll_frameHeaders (by decide) (by decide),
      getAll_connection_stampHeaders]
  rw [hsent, hsent, hedited, hedited, listsClose_trimmed, listsClose_trimmed]
  have hclose : ListsClose [ascii "close"] := by decide
  refine ⟨hclose, ?_⟩
  dsimp only
  rw [← Headers.values, values_connection_prepare]

/-- An HTTP/1.1 exchange keeps the connection open or closes it as both messages and the
wire say, if and only if a first value asks to close whenever `close` is listed anywhere and
only then, and the head lists `close` on the wire if so and else does not.  An older exchange
always closes, and says so if and only if its head lists `close` on the wire.  Where no text
of the handler holds a line end, the wire follows the decision by itself. -/
theorem round_persistence (env : Env) (handler : Handler σ) (c : Connection σ) (x : Exchange)
    (h : c.Serves env handler x) :
    (x.request.version = .http11 →
      (c.Agrees env handler x ↔
        (AsksClose x ↔ ListsClose (x.request.headers.values HeaderKeys.connection) ∨
          ListsClose (x.answer.headers.values HeaderKeys.connection)) ∧
        (AsksClose x → ListsClose (c.sentConnection env x .close)) ∧
        (¬ AsksClose x → ¬ ListsClose (c.sentConnection env x .keepAlive)))) ∧
    (x.request.version ≠ .http11 →
      c.Stops env handler ∧
        (ListsClose (x.written.values HeaderKeys.connection) ↔
          ListsClose (c.sentConnection env x .close))) ∧
    (x.answer.StaysOnLines →
      (x.request.version = .http11 →
        (c.Agrees env handler x ↔
          (AsksClose x ↔ ListsClose (x.request.headers.values HeaderKeys.connection) ∨
            ListsClose (x.answer.headers.values HeaderKeys.connection)))) ∧
      (x.request.version ≠ .http11 →
        ListsClose (x.written.values HeaderKeys.connection))) := by
  have hclosed : x.request.version ≠ .http11 → x.directive = .close := by
    intro hversion
    obtain ⟨⟨request, -, rfl⟩, -⟩ := h
    exact directiveFor_other hversion
  refine ⟨h.agrees_iff, fun hversion => ⟨h.stops_iff.mpr (hclosed hversion), ?_⟩,
    fun hstays => ⟨fun hversion => ?_, fun hversion => ?_⟩⟩
  · rw [h.values_connection, hclosed hversion]
  · obtain ⟨hclose, hkeep⟩ : ListsClose (c.sentConnection env x .close) ∧ _ :=
      listsClose_sentConnection c hstays
    rw [h.agrees_iff hversion, hkeep]
    refine ⟨fun hagrees => hagrees.1, fun hlists => ⟨hlists, fun _ => hclose, ?_⟩⟩
    exact fun hnot hanswer => hnot (hlists.mpr (Or.inr hanswer))
  · rw [h.values_connection, hclosed hversion]
    exact (listsClose_sentConnection c hstays).1

theorem serves_always {bytes : Bytes} {request : Request} {consumed : Nat}
    (hparse : parseRequestHead bytes = .ok (request, .none, consumed)) :
    Serves .atEpoch (.always (.new .OK)) ⟨⟨bytes, []⟩, .start ()⟩
      (serve .atEpoch (.always (.new .OK)) 0 () { request with payload := [] }).1 :=
  ⟨⟨_, ⟨request, .none, consumed, [], _, hparse, rfl, rfl⟩, rfl⟩,
    writeResponse_result_ok (prepare_streamsCleanly fun items hitems => by cases hitems)
      (prepare_not_conflict (by decide))⟩

/-- A request that lists `close` on its second `Connection` line. -/
def closeListedSecond : Bytes := ascii
  "GET / HTTP/1.1\r\nHost: a\r\nConnection: keep-alive\r\nConnection: close\r\n\r\n"

/-- The run goes on behind it. -/
theorem round_closeListedSecond :
    ∃ x, Serves .atEpoch (.always (.new .OK)) ⟨⟨closeListedSecond, []⟩, .start ()⟩ x ∧
      x.request.version = .http11 ∧
      ListsClose (x.request.headers.values HeaderKeys.connection) ∧
      ¬ Agrees .atEpoch (.always (.new .OK)) ⟨⟨closeListedSecond, []⟩, .start ()⟩ x := by
  have hcheck : (match parseRequestHead closeListedSecond with
      | .ok (request, mode, _) => decide (mode = .none ∧ request.version = .http11 ∧
          ListsClose (request.headers.values HeaderKeys.connection) ∧
          ¬ ListsCloseFirst (request.headers.values HeaderKeys.connection))
      | .error _ => false) = true := by decide +kernel
  split at hcheck
  · rename_i request mode consumed hparse
    obtain ⟨rfl, hversion, hlists, hfirst⟩ := of_decide_eq_true hcheck
    have hserves := serves_always hparse
    refine ⟨_, hserves, hversion, hlists, fun hagrees => ?_⟩
    have hclose := hserves.stops_iff.mp (hagrees.stops.mpr (Or.inl hlists))
    rcases (hserves.directive_iff hversion).mp hclose with hrequest | ⟨value, hhead, -⟩
    · exact hfirst hrequest
    · cases hhead
  · cases hcheck

/-- Behind a request of HTTP/1.1 that lists `close` at the end of its first line, and behind
one of HTTP/1.0 that asks to keep the connection, the run stops and the response says so. -/
theorem round_persistence_listed :
    (∃ c x, Serves .atEpoch (.always (.new .OK)) c x ∧ x.request.version = .http11 ∧
      ListsClose (x.request.headers.values HeaderKeys.connection) ∧
      c.Agrees .atEpoch (.always (.new .OK)) x) ∧
    ∃ c x, Serves .atEpoch (.always (.new .OK)) c x ∧ x.request.version = .http10 ∧
      c.Stops .atEpoch (.always (.new .OK)) ∧
      ListsClose (x.written.values HeaderKeys.connection) := by
  constructor
  · have hcheck : (match parseRequestHead (ascii
          "GET / HTTP/1.1\r\nHost: a\r\nConnection: keep-alive, Close\r\n\r\n") with
        | .ok (request, mode, _) =>
            let x := (serve .atEpoch (.always (.new .OK)) 0 () { request with payload := [] }).1
            decide (mode = .none ∧ x.request.version = .http11 ∧ AsksClose x ∧
              ListsClose (x.request.headers.values HeaderKeys.connection) ∧
              ListsClose (sentConnection .atEpoch ⟨⟨[], []⟩, .start ()⟩ x .close))
        | .error _ => false) = true := by decide +kernel
    split at hcheck
    · rename_i request mode consumed hparse
      obtain ⟨rfl, hversion, hasks, hlists, hsent⟩ := of_decide_eq_true hcheck
      have hserves := serves_always hparse
      refine ⟨_, _, hserves, hversion, hlists,
        ((round_persistence _ _ _ _ hserves).1 hversion).mpr ⟨?_, fun _ => hsent, ?_⟩⟩
      · exact iff_of_true hasks (Or.inl hlists)
      · exact fun hnot => absurd hasks hnot
    · cases hcheck
  · have hcheck : (match parseRequestHead (ascii
          "GET / HTTP/1.0\r\nHost: a\r\nConnection: keep-alive\r\n\r\n") with
        | .ok (request, mode, _) =>
            let x := (serve .atEpoch (.always (.new .OK)) 0 () { request with payload := [] }).1
            decide (mode = .none ∧ x.request.version = .http10 ∧
              ListsClose (sentConnection .atEpoch ⟨⟨[], []⟩, .start ()⟩ x .close))
        | .error _ => false) = true := by decide +kernel
    split at hcheck
    · rename_i request mode consumed hparse
      obtain ⟨rfl, hversion, hsent⟩ := of_decide_eq_true hcheck
      have hserves := serves_always hparse
      have hother : (serve .atEpoch (.always (.new .OK)) 0 ()
          { request with payload := [] }).1.request.version ≠ .http11 := by
        rw [hversion]
        decide
      obtain ⟨hstops, hclose⟩ := (round_persistence _ _ _ _ hserves).2.1 hother
      exact ⟨_, _, hserves, hversion, hstops, hclose.mpr hsent⟩
    · cases hcheck

end Connection

end GooseHttp
