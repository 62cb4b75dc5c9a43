import GooseHttp.Safety
/-!
# A run as a history of handler calls

Whatever a connection reads, a run is a list of requests served one after the other: the
answers are the handler's on the state that its earlier calls left, and so is the state at
the end.  Preconditions are evaluated on an answer, so a request whose precondition fails
has been handled all the same.
-/

namespace GooseHttp

open Lib

variable {σ : Type}

/-! ## Calls in order -/

def stateAfter (handler : Handler σ) (s : σ) (calls : List Request) : σ :=
  calls.foldl (fun s request => (handler request s).2) s

@[simp] theorem stateAfter_nil (handler : Handler σ) (s : σ) : stateAfter handler s [] = s := rfl

theorem stateAfter_append (handler : Handler σ) (s : σ) (calls calls' : List Request) :
    stateAfter handler s (calls ++ calls') =
      stateAfter handler (stateAfter handler s calls) calls' :=
  List.foldl_append

/-- One exchange: the handler's answer on a state, prepared and written. -/
structure Exchange.Follows (env : Env) (handler : Handler σ) (s : σ) (x : Exchange) : Prop where
  answer : x.answer = (handler x.request s).1
  response : x.response = prepare env x.request x.answer
  written : ∃ n, x.written =
    writeResponse (env.now n).text x.response x.request.method x.directive

theorem serve_follows (env : Env) (handler : Handler σ) (n : Nat) (s : σ) (request : Request) :
    (serve env handler n s request).1.Follows env handler s :=
  ⟨rfl, rfl, n, rfl⟩

theorem serve_state (env : Env) (handler : Handler σ) (n : Nat) (s : σ) (request : Request) :
    (serve env handler n s request).2 =
      stateAfter handler s [(serve env handler n s request).1.request] := rfl

theorem serveAll_state (env : Env) (handler : Handler σ) (n : Nat) (s : σ)
    (requests : List Request) :
    (serveAll env handler n s requests).2 =
      stateAfter handler s ((serveAll env handler n s requests).1.map Exchange.request) := by
  induction requests generalizing n s with
  | nil => rfl
  | cons request requests ih =>
      rw [serveAll_cons, List.map_cons]
      exact ih (n + 1) (serve env handler n s request).2

theorem serveAll_follows (env : Env) (handler : Handler σ) {n : Nat} {s : σ}
    {requests : List Request} {front back : List Exchange} {x : Exchange}
    (h : (serveAll env handler n s requests).1 = front ++ x :: back) :
    x.Follows env handler (stateAfter handler s (front.map Exchange.request)) := by
  induction requests generalizing n s front with
  | nil => simp [serveAll] at h
  | cons request requests ih =>
      rw [serveAll_cons] at h
      cases front with
      | nil =>
          rw [List.nil_append] at h
          rw [← (List.cons.inj h).1]
          exact serve_follows env handler n s request
      | cons y front =>
          obtain ⟨hy, htail⟩ := List.cons.inj h
          have hx := ih htail
          rw [serve_state, hy, ← stateAfter_append] at hx
          exact hx

/-! ## Runs -/

theorem exchanges_refuse (env : Env) (p : Progress σ) (status : StatusCode) (message : Text)
    (e : ConnectionError) : (refuse env p status message e).progress.exchanges = p.exchanges := by
  simp [refuse, Progress.exchanges, Event.exchange?]

theorem exchanges_log_fault (p : Progress σ) (fault : ReadFault) :
    (p.log [.headFault fault]).exchanges = p.exchanges := by
  simp [Progress.log, Progress.exchanges, Event.exchange?]

theorem exchanges_exchange (p : Progress σ) (request : Request) (mode : BodyMode)
    (served : Exchange × σ) :
    (p.exchange request mode served).exchanges = p.exchanges ++ [served.1] := by
  rw [Progress.exchanges, Progress.exchange, List.filterMap_append, exchange_exchanges]
  rfl

theorem written_exchange (p : Progress σ) (request : Request) (mode : BodyMode)
    (served : Exchange × σ) (hcalled : served.1.request.headers = request.headers) :
    (p.exchange request mode served).written = p.written ++ served.1.bytes := by
  rw [Progress.written, Progress.exchange, List.flatMap_append,
    exchange_bytes request mode served.1 hcalled]
  rfl

theorem afterHead_error_keeps {env : Env} {handler : Handler σ} {p : Progress σ}
    {request : Request} {mode : BodyMode} {x : Interrupt} {outcome : Outcome σ}
    (h : afterHead env handler p request mode (.error x) = .done outcome) :
    outcome.progress.exchanges = p.exchanges ∧ outcome.progress.handlerState = p.handlerState := by
  have hhead : (headEvents request mode).filterMap Event.exchange? = [] := by
    rw [headEvents]
    cases request.expect100Continue <;> rfl
  cases x with
  | elapsed =>
      cases h
      refine ⟨?_, rfl⟩
      rw [exchanges_refuse]
      simp [Progress.log, Progress.exchanges, hhead, Event.exchange?]
  | error e =>
      cases h
      refine ⟨?_, rfl⟩
      rw [exchanges_refuse]
      simp [Progress.log, Progress.exchanges, hhead, Event.exchange?]

namespace Connection

theorem round_done_serves {env : Env} {handler : Handler σ} {c : Connection σ}
    {outcome : Outcome σ} (h : c.round env handler = .done outcome) :
    ∃ requests, outcome.progress.exchanges = c.progress.exchanges ++
        (serveAll env handler c.progress.responses c.progress.handlerState requests).1 ∧
      outcome.progress.handlerState =
        (serveAll env handler c.progress.responses c.progress.handlerState requests).2 := by
  have hnone : ∀ o : Outcome σ, o.progress.exchanges = c.progress.exchanges →
      o.progress.handlerState = c.progress.handlerState →
      ∃ requests, o.progress.exchanges = c.progress.exchanges ++
          (serveAll env handler c.progress.responses c.progress.handlerState requests).1 ∧
        o.progress.handlerState =
          (serveAll env handler c.progress.responses c.progress.handlerState requests).2 := by
    intro o hexchanges hstate
    exact ⟨[], by simp [serveAll, hexchanges], hstate⟩
  have hcase := c.round_case env handler
  rw [h] at hcase
  generalize hflow : (Flow.done outcome : Flow (Connection σ) (Outcome σ)) = flow at hcase
  cases hcase with
  | tooLarge input hall hlarge =>
      cases hflow
      exact hnone _ (exchanges_refuse env _ _ _ _) rfl
  | closed hall =>
      cases hflow
      exact hnone _ (exchanges_log_fault _ _) rfl
  | incomplete hne hend hsize =>
      cases hflow
      exact hnone _ ((exchanges_refuse env _ _ _ _).trans (exchanges_log_fault _ _)) rfl
  | readError e hdirty =>
      cases hflow
      exact hnone _ (exchanges_log_fault _ _) rfl
  | readTimeout kind hdirty =>
      cases hflow
      exact hnone _ ((exchanges_refuse env _ _ _ _).trans (exchanges_log_fault _ _)) rfl
  | more input hread => cases hflow
  | badHead e n hend hparse =>
      cases hflow
      exact hnone _ (exchanges_refuse env _ _ _ _) rfl
  | request request mode consumed body input hparse hbody =>
      cases body with
      | error x =>
          cases hafter : afterHead env handler c.progress request mode (.error x) with
          | next p =>
              rw [hafter] at hflow
              cases hflow
          | done outcome' =>
              rw [hafter] at hflow
              cases hflow
              obtain ⟨hexchanges, hstate⟩ := afterHead_error_keeps hafter
              exact hnone _ hexchanges hstate
      | ok payload =>
          have hafter := afterHead_ok env handler c.progress request mode payload
          generalize afterHead env handler c.progress request mode (.ok payload) = flow'
            at hflow hafter
          cases hafter with
          | keepsOpen hopen => cases hflow
          | closes hdirective hresult =>
              cases hflow
              exact ⟨[{ request with payload := payload }], exchanges_exchange _ _ _ _, rfl⟩
          | rejected e hresult =>
              cases hflow
              exact ⟨[{ request with payload := payload }], exchanges_exchange _ _ _ _, rfl⟩

/-- A run, on any input, serves some requests one after the other and nothing else. -/
theorem run_serves (env : Env) (handler : Handler σ) (c : Connection σ) :
    ∃ requests, ((loop env handler).run c).progress.exchanges = c.progress.exchanges ++
        (serveAll env handler c.progress.responses c.progress.handlerState requests).1 ∧
      ((loop env handler).run c).progress.handlerState =
        (serveAll env handler c.progress.responses c.progress.handlerState requests).2 := by
  refine (loop env handler).run_induction (motive := fun c outcome =>
    ∃ requests, outcome.progress.exchanges = c.progress.exchanges ++
        (serveAll env handler c.progress.responses c.progress.handlerState requests).1 ∧
      outcome.progress.handlerState =
        (serveAll env handler c.progress.responses c.progress.handlerState requests).2) ?_ ?_ c
  · intro c outcome hdone
    exact round_done_serves hdone
  · rintro c c' hnext ⟨requests, hexchanges, hstate⟩
    rcases round_next_cases hnext with ⟨-, hprogress⟩ |
      ⟨request, mode, consumed, result, -, -, -, -, hprogress⟩
    · rw [hprogress] at hexchanges hstate
      exact ⟨requests, hexchanges, hstate⟩
    · refine ⟨{ request with payload := result.payload } :: requests, ?_, ?_⟩
      · rw [hexchanges, hprogress, exchanges_exchange, List.append_assoc]
        rfl
      · rw [hstate, hprogress]
        rfl

/-- The answers of a run are the handler's on the states its calls left, one call for each
exchange, and the state at the end is the one the last call left. -/
theorem run_history (env : Env) (handler : Handler σ) (input : Input) (s : σ) :
    (run env handler input s).progress.handlerState =
        stateAfter handler s (run env handler input s).progress.calls ∧
      ∀ front x back, (run env handler input s).progress.exchanges = front ++ x :: back →
        x.Follows env handler (stateAfter handler s (front.map Exchange.request)) := by
  obtain ⟨requests, hexchanges, hstate⟩ := run_serves env handler ⟨input, .start s⟩
  have hexchanges : (run env handler input s).progress.exchanges =
      (serveAll env handler 0 s requests).1 := hexchanges
  refine ⟨?_, fun front x back h => ?_⟩
  · rw [Progress.calls, hexchanges, ← serveAll_state]
    exact hstate
  · rw [hexchanges] at h
    exact serveAll_follows env handler h

end Connection

/-! ## Requests whose precondition fails -/

def Exchange.FailsPrecondition (env : Env) (x : Exchange) : Prop :=
  x.answer.status.asU16 < 400 ∧
    preconditionDecision env x.request x.answer = some .PRECONDITION_FAILED

/-- A request that is to change something, unless something else has changed before. -/
def Request.IsGuardedUpdate (r : Request) : Prop :=
  (r.headers.contains HeaderKeys.ifMatch = true ∨
    r.headers.contains HeaderKeys.ifUnmodifiedSince = true) ∧
  r.method ∉ [.get, .head, .options, .trace]

instance (env : Env) (x : Exchange) : Decidable (x.FailsPrecondition env) :=
  inferInstanceAs (Decidable (_ ∧ _))

instance (r : Request) : Decidable r.IsGuardedUpdate := inferInstanceAs (Decidable (_ ∧ _))

namespace Connection

/-- A request whose precondition fails is answered with 412, and it is handled, whatever
its method: the handler is called with it once, on the state the requests in front of it
left, and what that call makes of the state is what the requests behind it find. -/
theorem run_failedPrecondition (env : Env) (handler : Handler σ) (input : Input) (s : σ)
    {front back : List Exchange} {x : Exchange}
    (hx : (run env handler input s).progress.exchanges = front ++ x :: back)
    (hfails : x.FailsPrecondition env) :
    x.response = replaceByStatus x.answer .PRECONDITION_FAILED ∧
    handler x.request (stateAfter handler s (front.map Exchange.request)) =
      (x.answer, stateAfter handler s ((front ++ [x]).map Exchange.request)) ∧
    (run env handler input s).progress.handlerState =
      stateAfter handler (stateAfter handler s ((front ++ [x]).map Exchange.request))
        (back.map Exchange.request) := by
  obtain ⟨hstate, hhistory⟩ := run_history env handler input s
  have hfollows := hhistory front x back hx
  have hafter : stateAfter handler s ((front ++ [x]).map Exchange.request) =
      (handler x.request (stateAfter handler s (front.map Exchange.request))).2 := by
    rw [List.map_append, stateAfter_append]
    rfl
  refine ⟨?_, ?_, ?_⟩
  · rw [hfollows.response, prepare, if_pos hfails.1, applyRequestPreconditions, hfails.2]
  · rw [hafter, hfollows.answer]
  · rw [hstate, Progress.calls, hx, ← stateAfter_append, ← List.map_append, List.append_assoc]
    rfl

def counting : Handler Nat := fun _ n =>
  ({ Response.new .OK with
    headers := Headers.empty.insert HeaderKeys.etag (ascii "\"b\"") }, n + 1)

def guardedPut : Input :=
  ⟨ascii "PUT / HTTP/1.1\r\nHost: a\r\nIf-Match: \"a\"\r\n\r\n", []⟩

theorem run_guardedPut :
    ∃ x, (run .atEpoch counting guardedPut 0).progress.exchanges = [x] ∧
      x.request.IsGuardedUpdate ∧ x.FailsPrecondition .atEpoch := by
  have hcheck : (match (run .atEpoch counting guardedPut 0).progress.exchanges with
      | [x] => decide (x.request.IsGuardedUpdate ∧ x.FailsPrecondition .atEpoch)
      | _ => false) = true := by decide +kernel
  split at hcheck
  · rename_i x hx
    exact ⟨x, hx, of_decide_eq_true hcheck⟩
  · cases hcheck

/-- The update is answered with 412, and it is counted. -/
theorem run_guardedPut_counted :
    ¬ ∀ front x back,
      (run .atEpoch counting guardedPut 0).progress.exchanges = front ++ x :: back →
        x.request.IsGuardedUpdate → x.FailsPrecondition .atEpoch →
          stateAfter counting 0 ((front ++ [x]).map Exchange.request) =
            stateAfter counting 0 (front.map Exchange.request) := by
  intro hunchanged
  obtain ⟨x, hx, hguarded, hfails⟩ := run_guardedPut
  cases hunchanged [] x [] hx hguarded hfails

theorem run_failedPrecondition_guardedPut :
    ∃ x, (run .atEpoch counting guardedPut 0).progress.exchanges = [x] ∧
      x.response = replaceByStatus x.answer .PRECONDITION_FAILED ∧
      (run .atEpoch counting guardedPut 0).progress.handlerState = 1 := by
  obtain ⟨x, hx, -, hfails⟩ := run_guardedPut
  obtain ⟨hresponse, -, hstate⟩ :=
    run_failedPrecondition .atEpoch counting guardedPut 0 (show _ = [] ++ x :: [] from hx)
      hfails
  exact ⟨x, hx, hresponse, hstate⟩

end Connection

end GooseHttp
