import GooseHttp.Lib.Incremental
import GooseHttp.Parse.Growth
import GooseHttp.Safety
/-!
# What a connection does before its stream has ended

A connection that waits for more has already done everything that the bytes so far call for.
`deeds` is what it has done when it gets to wait, the events in front of the end of the
stream; more bytes only add to it (`run_causal`).  So the requests handled for a stream that
was cut off are the first ones of the whole stream.
-/

namespace GooseHttp

open Lib

variable {σ : Type}

/-- The connection found its stream at an end where it would have read on. -/
def Event.isEnd : Event → Bool
  | .headFault .eof => true
  | .bodyFailed (.error .unexpectedEof) => true
  | _ => false

/-- What was done before the end of the stream was seen. -/
def deeds (trace : List Event) : List Event := trace.takeWhile fun e => !e.isEnd

theorem deeds_of_end {front : List Event} {e : Event} (back : List Event)
    (hfront : ∀ x ∈ front, x.isEnd = false) (he : e.isEnd = true) :
    deeds (front ++ e :: back) = front := by
  rw [deeds, List.takeWhile_append_of_pos (fun x hx => by simp [hfront x hx]),
    List.takeWhile_cons_of_neg (by simp [he]), List.append_nil]

theorem prefix_deeds {front : List Event} (events : List Event)
    (hfront : ∀ x ∈ front, x.isEnd = false) : front <+: deeds (front ++ events) := by
  rw [deeds, List.takeWhile_append_of_pos (fun x hx => by simp [hfront x hx])]
  exact List.prefix_append _ _

theorem headEvents_not_isEnd (request : Request) (mode : BodyMode) :
    ∀ e ∈ headEvents request mode, e.isEnd = false := by
  intro e he
  rw [headEvents] at he
  split at he <;> simp at he
  · rcases he with rfl | rfl <;> rfl
  · rw [he]
    rfl

theorem exchangeEvents_not_isEnd (request : Request) (mode : BodyMode) (x : Exchange) :
    ∀ e ∈ exchangeEvents request mode x, e.isEnd = false := by
  intro e he
  rcases List.mem_append.mp he with he | he
  · exact headEvents_not_isEnd request mode e he
  · simp only [List.mem_cons, List.not_mem_nil, or_false] at he
    rcases he with rfl | rfl <;> rfl

/-! ## Bodies that are still coming -/

def BodyResult.split (r : BodyResult) : (Bytes × Option Headers) × Bytes :=
  ((r.payload, r.trailers), r.rest)

theorem decodeBody_incremental (mode : BodyMode) :
    Incremental .unexpectedEof fun xs => (decodeBody mode xs).map BodyResult.split := by
  intro xs ys
  cases mode with
  | none => exact .ok ([], none) xs
  | fixed length =>
      dsimp only [decodeBody]
      rw [decodeFixed, decodeFixed]
      by_cases hshort : xs.length < length
      · rw [if_pos hshort]
        exact .more _
      · have hlong : ¬ (xs ++ ys).length < length := by
          rw [List.length_append]
          omega
        rw [if_neg hshort, if_neg hlong, List.take_append_of_le_length (by omega),
          List.drop_append_of_le_length (by omega)]
        exact .ok (_, none) _
  | chunked =>
      have hchunks := (chunkGrammar.chunks_incremental xs ys).map fun b =>
        (b.1, some (Headers.empty.appendAll b.2))
      dsimp only [decodeBody] at hchunks ⊢
      cases hread : chunkGrammar.chunks xs <;> cases hread' : chunkGrammar.chunks (xs ++ ys) <;>
        rw [hread, hread'] at hchunks <;> exact hchunks

theorem decodeBody_grows (mode : BodyMode) (xs ys : Bytes) :
    decodeBody mode xs = .error .unexpectedEof ∨
    (∃ e, decodeBody mode xs = .error e ∧ decodeBody mode (xs ++ ys) = .error e) ∨
    ∃ result, decodeBody mode xs = .ok result ∧
      decodeBody mode (xs ++ ys) = .ok { result with rest := result.rest ++ ys } := by
  have hgrows := decodeBody_incremental mode xs ys
  dsimp only at hgrows
  cases hxs : decodeBody mode xs with
  | error e =>
      rw [hxs] at hgrows
      cases hxsys : decodeBody mode (xs ++ ys) with
      | error e' =>
          rw [hxsys] at hgrows
          cases hgrows with
          | error e => exact Or.inr (Or.inl ⟨e, rfl, rfl⟩)
          | more r => exact Or.inl rfl
      | ok result =>
          rw [hxsys] at hgrows
          cases hgrows with
          | more r => exact Or.inl rfl
  | ok result =>
      have hdecoded : (decodeBody mode xs).map BodyResult.split =
          .ok ((result.payload, result.trailers), result.rest) := by
        rw [hxs]
        rfl
      have hread := hgrows.of_ok hdecoded
      cases hxsys : decodeBody mode (xs ++ ys) with
      | error e =>
          rw [hxsys] at hread
          cases hread
      | ok result' =>
          rw [hxsys] at hread
          obtain ⟨payload, trailers, rest⟩ := result'
          cases hread
          exact Or.inr (Or.inr ⟨result, rfl, rfl⟩)

/-! ## Rounds -/

theorem afterHead_trace (env : Env) (handler : Handler σ) (p : Progress σ) (request : Request)
    (mode : BodyMode) (body : Except Interrupt Bytes) :
    ∃ events,
      (∀ q, afterHead env handler p request mode body = .next q →
        q.trace = p.trace ++ headEvents request mode ++ events) ∧
      ∀ o, afterHead env handler p request mode body = .done o →
        o.progress.trace = p.trace ++ headEvents request mode ++ events := by
  cases body with
  | error x =>
      obtain ⟨outcome, event, hdone, -, htrace⟩ :=
        afterHead_error_cases env handler p request mode x
      refine ⟨[.bodyFailed x, event], fun q hq => ?_, fun o ho => ?_⟩
      · rw [hdone] at hq
        cases hq
      · rw [hdone] at ho
        cases ho
        rw [htrace, List.append_assoc]
  | ok payload =>
      have hcase := afterHead_ok env handler p request mode payload
      generalize hserved : serve env handler p.responses p.handlerState
        { request with payload := payload } = served at hcase
      refine ⟨[.decoded served.1.request.payload, .exchanged served.1], fun q hq => ?_,
        fun o ho => ?_⟩
      · rw [hq] at hcase
        cases hcase
        exact (List.append_assoc _ _ _).symm
      · rw [ho] at hcase
        cases hcase <;> exact (List.append_assoc _ _ _).symm

namespace Session

def extend (t : Session σ) (more : Bytes) : Session σ := ⟨t.bytes ++ more, t.progress⟩

def traceAfter : Flow (Session σ) (Outcome σ) → List Event
  | .next t => t.progress.trace
  | .done outcome => outcome.progress.trace

theorem round_trace_of_request (env : Env) (handler : Handler σ) {t : Session σ}
    {request : Request} {mode : BodyMode} {consumed : Nat}
    (hparse : parseRequestHead t.bytes = .ok (request, mode, consumed)) :
    ∃ events, traceAfter (t.round env handler) =
      t.progress.trace ++ headEvents request mode ++ events := by
  rw [round, (parseRequestHead_ok hparse).1]
  simp only [hparse]
  split
  all_goals
    obtain ⟨events, hnext, hdone⟩ := afterHead_trace env handler t.progress request mode _
    refine ⟨events, ?_⟩
    split
    · exact hdone _ ‹_›
    · exact hnext _ ‹_›

theorem round_trace (env : Env) (handler : Handler σ) (t : Session σ) :
    ∃ events, traceAfter (t.round env handler) = t.progress.trace ++ events := by
  cases hparse : parseRequestHead t.bytes with
  | ok parsed =>
      obtain ⟨events, htrace⟩ := round_trace_of_request env handler hparse
      exact ⟨_, htrace.trans (List.append_assoc _ _ _)⟩
  | error e =>
      rw [round]
      simp only [hparse]
      split
      · split
        · exact ⟨_, rfl⟩
        · split
          · exact ⟨_, rfl⟩
          · exact ⟨_, List.append_assoc _ _ _⟩
      · exact ⟨_, rfl⟩

theorem run_trace (env : Env) (handler : Handler σ) (t : Session σ) :
    ∃ events, ((loop env handler).run t).progress.trace = t.progress.trace ++ events := by
  refine (loop env handler).run_induction (motive := fun t outcome =>
    ∃ events, outcome.progress.trace = t.progress.trace ++ events) ?_ ?_ t
  · intro t outcome hround
    obtain ⟨events, htrace⟩ := t.round_trace env handler
    rw [show t.round env handler = .done outcome from hround] at htrace
    exact ⟨events, htrace⟩
  · rintro t t' hround ⟨more, hmore⟩
    obtain ⟨events, htrace⟩ := t.round_trace env handler
    rw [show t.round env handler = .next t' from hround] at htrace
    have htrace : t'.progress.trace = t.progress.trace ++ events := htrace
    exact ⟨events ++ more, by rw [hmore, htrace, List.append_assoc]⟩

/-- One round against the round on a longer stream: they are the same, or the first one came
to the end of its stream, and what it did before that the other one did as well. -/
inductive RoundGrows (t : Session σ) (more : Bytes) :
    Flow (Session σ) (Outcome σ) → Flow (Session σ) (Outcome σ) → Prop
  | next {t' : Session σ} (events : List Event)
      (htrace : t'.progress.trace = t.progress.trace ++ events)
      (hevents : ∀ e ∈ events, e.isEnd = false) :
      RoundGrows t more (.next t') (.next (t'.extend more))
  | done (outcome : Outcome σ) : RoundGrows t more (.done outcome) (.done outcome)
  | waits {outcome : Outcome σ} {flow : Flow (Session σ) (Outcome σ)} (front : List Event)
      (e : Event) (back events : List Event) (hfront : ∀ x ∈ front, x.isEnd = false)
      (he : e.isEnd = true) (hback : back.filterMap Event.exchange? = [])
      (htrace : outcome.progress.trace = t.progress.trace ++ front ++ e :: back)
      (hflow : traceAfter flow = t.progress.trace ++ front ++ events) :
      RoundGrows t more (.done outcome) flow

theorem exists_delivered (bytes : Bytes) : ∃ incoming, delivered incoming = bytes := by
  cases bytes with
  | nil => exact ⟨[], rfl⟩
  | cons first rest => exact ⟨[.data first rest], by simp [ReadEvent.bytes]⟩

theorem round_grows_of_none (env : Env) (handler : Handler σ) {t : Session σ} (more : Bytes)
    (hend : findHeadersEnd t.bytes = none) :
    RoundGrows t more (t.round env handler) ((t.extend more).round env handler) := by
  obtain ⟨events, hevents⟩ := (t.extend more).round_trace env handler
  have hextended : traceAfter ((t.extend more).round env handler) =
      t.progress.trace ++ [] ++ events := by
    rw [hevents, List.append_nil]
    rfl
  by_cases hlarge : HEADER_LIMIT < t.bytes.length
  · have hexceeds := incompleteHeadExceedsLimit_iff.mpr ⟨hend, hlarge⟩
    obtain ⟨incoming, hincoming⟩ := exists_delivered more
    have hall : Input.all ⟨t.bytes, incoming⟩ = (t.extend more).bytes := by
      rw [Input.all, hincoming, extend]
    have halone : Input.all ⟨t.bytes, []⟩ = t.bytes := List.append_nil _
    rw [round_tooLarge halone hexceeds, round_tooLarge hall hexceeds]
    exact .done _
  · by_cases hempty : t.bytes = []
    · have hround : t.round env handler = .done ⟨t.progress.log [.headFault .eof], .ok ()⟩ := by
        rw [round, hend]
        dsimp only
        rw [if_neg hlarge, if_pos hempty]
      rw [hround]
      refine .waits [] (.headFault .eof) [] events (by simp) rfl rfl ?_ hextended
      rw [List.append_nil]
      rfl
    · have hround : t.round env handler = .done (refuse env (t.progress.log [.headFault .eof])
          .BAD_REQUEST (ascii "Bad Request") (.parse .incomplete)) := by
        rw [round, hend]
        dsimp only
        rw [if_neg hlarge, if_neg hempty]
      obtain ⟨event, hclosing, htrace, -⟩ := refuse_closing env
        (t.progress.log [.headFault .eof]) (ascii "Bad Request") (.parse .incomplete) (Or.inl rfl)
      obtain ⟨status, written, reason, body, rfl, -⟩ := hclosing
      rw [hround]
      refine .waits [] (.headFault .eof) [.refused status written] events (by simp) rfl rfl ?_
        hextended
      rw [htrace]
      simp [Progress.log]

theorem round_grows_of_request (env : Env) (handler : Handler σ) {t : Session σ} (more : Bytes)
    {request : Request} {mode : BodyMode} {consumed : Nat}
    (hparse : parseRequestHead t.bytes = .ok (request, mode, consumed)) :
    RoundGrows t more (t.round env handler) ((t.extend more).round env handler) := by
  obtain ⟨hend, hlen⟩ := And.intro (parseRequestHead_ok hparse).1
    (findHeadersEnd_le (parseRequestHead_ok hparse).1).2
  have hparse' : parseRequestHead (t.extend more).bytes = .ok (request, mode, consumed) :=
    (parseRequestHead_append more hend).trans hparse
  have hdrop : (t.extend more).bytes.drop consumed = t.bytes.drop consumed ++ more :=
    List.drop_append_of_le_length hlen
  have hround : ∀ (t : Session σ) e,
      parseRequestHead t.bytes = .ok (request, mode, consumed) →
      decodeBody mode (t.bytes.drop consumed) = .error e →
      ∃ o, afterHead env handler t.progress request mode (.error (.error e)) = .done o ∧
        t.round env handler = .done o := by
    intro t e hparse hbody
    obtain ⟨o, -, hdone, -, -⟩ :=
      afterHead_error_cases env handler t.progress request mode (.error e)
    refine ⟨o, hdone, ?_⟩
    rw [round, (parseRequestHead_ok hparse).1]
    simp only [hparse, hbody, hdone]
  rcases decodeBody_grows mode (t.bytes.drop consumed) more with
    hbody | ⟨e, hbody, hbody'⟩ | ⟨result, hbody, hbody'⟩
  · obtain ⟨o, hdone, hround⟩ := hround t _ hparse hbody
    obtain ⟨o', event, hdone', hclosing, htrace⟩ :=
      afterHead_error_cases env handler t.progress request mode (.error .unexpectedEof)
    rw [hdone] at hdone'
    cases hdone'
    rw [hround]
    obtain ⟨events, hevents⟩ := round_trace_of_request env handler hparse'
    refine .waits (headEvents request mode) (.bodyFailed (.error .unexpectedEof)) [event] events
      (headEvents_not_isEnd request mode) rfl ?_ ?_ hevents
    · obtain ⟨status, written, reason, body, rfl, -⟩ := hclosing
      rfl
    · rw [htrace, List.append_assoc]
  · obtain ⟨o, hdone, hround'⟩ := hround t e hparse hbody
    obtain ⟨o', hdone', hround''⟩ := hround (t.extend more) e hparse' (hdrop ▸ hbody')
    have hsame : o = o' := by
      rw [show (t.extend more).progress = t.progress from rfl, hdone] at hdone'
      cases hdone'
      rfl
    rw [hround', hround'', hsame]
    exact .done o'
  · rw [round_of_request env handler hparse hbody,
      round_of_request env handler hparse' (hdrop ▸ hbody')]
    dsimp only [extend]
    have hcase := afterHead_ok env handler t.progress request mode result.payload
    generalize afterHead env handler t.progress request mode (.ok result.payload) = flow at hcase
    cases hcase with
    | keepsOpen hopen =>
        exact .next (exchangeEvents request mode _) rfl (exchangeEvents_not_isEnd request mode _)
    | closes hdirective hresult => exact .done _
    | rejected e hresult => exact .done _

theorem round_grows (env : Env) (handler : Handler σ) (t : Session σ) (more : Bytes) :
    RoundGrows t more (t.round env handler) ((t.extend more).round env handler) := by
  cases hend : findHeadersEnd t.bytes with
  | none => exact round_grows_of_none env handler more hend
  | some n =>
      cases hparse : parseRequestHead t.bytes with
      | ok parsed => exact round_grows_of_request env handler more hparse
      | error e =>
          have hparse' : parseRequestHead (t.extend more).bytes = .error e :=
            (parseRequestHead_append more hend).trans hparse
          rw [round, round, hend,
            show findHeadersEnd (t.extend more).bytes = some n from findHeadersEnd_append more hend]
          simp only [hparse, hparse']
          exact .done _

/-- A run against the run on a longer stream. -/
theorem run_grows (env : Env) (handler : Handler σ) (t : Session σ) (more : Bytes) :
    (loop env handler).run (t.extend more) = (loop env handler).run t ∨
    ∃ front e back events, (∀ x ∈ front, x.isEnd = false) ∧ e.isEnd = true ∧
      back.filterMap Event.exchange? = [] ∧
      ((loop env handler).run t).progress.trace = t.progress.trace ++ front ++ e :: back ∧
      ((loop env handler).run (t.extend more)).progress.trace =
        t.progress.trace ++ front ++ events := by
  refine (loop env handler).run_induction (motive := fun t outcome =>
    (loop env handler).run (t.extend more) = outcome ∨
    ∃ front e back events, (∀ x ∈ front, x.isEnd = false) ∧ e.isEnd = true ∧
      back.filterMap Event.exchange? = [] ∧
      outcome.progress.trace = t.progress.trace ++ front ++ e :: back ∧
      ((loop env handler).run (t.extend more)).progress.trace =
        t.progress.trace ++ front ++ events) ?_ ?_ t
  · intro t outcome hround
    have hgrows := t.round_grows env handler more
    rw [show t.round env handler = .done outcome from hround] at hgrows
    generalize hflow : (t.extend more).round env handler = flow at hgrows
    cases hgrows with
    | done => exact Or.inl ((loop env handler).run_done hflow)
    | waits front e back events hfront he hback htrace hafter =>
        refine Or.inr ⟨front, e, back, ?_⟩
        cases flow with
        | done outcome' =>
            rw [(loop env handler).run_done hflow]
            exact ⟨events, hfront, he, hback, htrace, hafter⟩
        | next t' =>
            obtain ⟨later, hlater⟩ := t'.run_trace env handler
            rw [(loop env handler).run_next hflow, hlater]
            refine ⟨events ++ later, hfront, he, hback, htrace, ?_⟩
            rw [show t'.progress.trace = _ from hafter, List.append_assoc]
  · intro t t' hround ih
    have hgrows := t.round_grows env handler more
    rw [show t.round env handler = .next t' from hround] at hgrows
    generalize hflow : (t.extend more).round env handler = flow at hgrows
    cases hgrows with
    | next events htrace hevents =>
        rw [(loop env handler).run_next hflow]
        rcases ih with hsame | ⟨front, e, back, later, hfront, he, hback, hshort, hlong⟩
        · exact Or.inl hsame
        · refine Or.inr ⟨events ++ front, e, back, later, ?_, he, hback, ?_, ?_⟩
          · intro x hx
            exact (List.mem_append.mp hx).elim (hevents x) (hfront x)
          · rw [hshort, htrace]
            simp only [List.append_assoc]
          · rw [hlong, htrace]
            simp only [List.append_assoc]

end Session

/-- What is done for a stream is done for every longer one, and first. -/
theorem session_causal (env : Env) (handler : Handler σ) (bytes more : Bytes) (s : σ) :
    deeds (session env handler bytes s).progress.trace <+:
        deeds (session env handler (bytes ++ more) s).progress.trace ∧
      (session env handler bytes s).progress.calls <+:
        (session env handler (bytes ++ more) s).progress.calls ∧
      ((∀ e ∈ (session env handler bytes s).progress.trace, e.isEnd = false) →
        session env handler (bytes ++ more) s = session env handler bytes s) := by
  rcases Session.run_grows env handler ⟨bytes, .start s⟩ more with
    hsame | ⟨front, e, back, events, hfront, he, hback, hshort, hlong⟩
  · have hsame : session env handler (bytes ++ more) s = session env handler bytes s := hsame
    rw [hsame]
    exact ⟨List.prefix_rfl, List.prefix_rfl, fun _ => rfl⟩
  · have hshort : (session env handler bytes s).progress.trace = front ++ e :: back := hshort
    have hlong : (session env handler (bytes ++ more) s).progress.trace = front ++ events := hlong
    have hnone : e.exchange? = none := by
      cases e with
      | exchanged x => cases he
      | _ => rfl
    refine ⟨?_, ?_, fun hnever => ?_⟩
    · rw [hshort, hlong, deeds_of_end back hfront he]
      exact prefix_deeds events hfront
    · rw [Progress.calls, Progress.calls, Progress.exchanges, Progress.exchanges, hshort, hlong,
        List.filterMap_append, List.filterMap_append, List.filterMap_cons_none hnone, hback,
        List.append_nil, List.map_append]
      exact List.prefix_append _ _
    · have hmem := hnever e (hshort ▸ List.mem_append_right front List.mem_cons_self)
      rw [he] at hmem
      cases hmem

/-- A connection acts on what it has received.  Of two peers of which the second sends all
that the first does, in whatever pieces, and then goes on, the second sees everything done
that the first does before the end of its stream, in the same order and with the same bytes;
the requests handled for the first are the first ones handled for the second; and where the
connection to the first ended without waiting for more, the second gets the same run. -/
theorem run_causal (env : Env) (handler : Handler σ) (s : σ) {input input' : Input}
    (hclean : input.Clean) (hclean' : input'.Clean) (hall : input.all <+: input'.all) :
    let shorter := Connection.run env handler input s
    let longer := Connection.run env handler input' s
    deeds shorter.progress.trace <+: deeds longer.progress.trace ∧
      shorter.progress.calls <+: longer.progress.calls ∧
      ((∀ e ∈ shorter.progress.trace, e.isEnd = false) → longer = shorter) := by
  obtain ⟨more, hmore⟩ := hall
  intro shorter longer
  simp only [shorter, longer]
  rw [run_eq_session env handler s hclean, run_eq_session env handler s hclean', ← hmore]
  exact session_causal env handler input.all more s

/-- A request that is cut off, and the whole of it in two pieces. -/
theorem run_causal_cutOff :
    (Connection.run .atEpoch (.always (.new .OK))
        ⟨ascii "GET / HTTP/1.1\r\nHost: a\r\n\r", []⟩ ()).progress.calls <+:
      (Connection.run .atEpoch (.always (.new .OK))
        ⟨ascii "GET /", [.data 32 (ascii "HTTP/1.1\r\nHost: a\r\n\r\n")]⟩ ()).progress.calls :=
  (run_causal .atEpoch (.always (.new .OK)) () (by decide) (by decide) (by decide)).2.1

end GooseHttp
