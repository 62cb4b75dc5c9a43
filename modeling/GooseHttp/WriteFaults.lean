import GooseHttp.Link
/-!
# Writes that fail

A run over a socket that fails is the run over one that takes everything, cut at the byte
where the socket failed (`run_cut`): a round, a refusal and a response are cut where they
would go past it, and what follows is not done.
-/

namespace GooseHttp

open Lib

variable {σ : Type}

/-! ## Runs that are cut -/

/-- The handler calls of a run whose wire takes `room` bytes: one for each exchange for
which everything in front of the call gets out. -/
def callsWithin : Nat → List Exchange → List Request
  | _, [] => []
  | room, x :: xs =>
      if room < (interim x.request).length then []
      else if room < x.bytes.length then [x.request]
      else x.request :: callsWithin (room - x.bytes.length) xs

theorem callsWithin_of_room {room : Nat} {xs : List Exchange} (ys : List Exchange)
    (h : (xs.flatMap Exchange.bytes).length ≤ room) :
    callsWithin room (xs ++ ys) = xs.map Exchange.request ++
      callsWithin (room - (xs.flatMap Exchange.bytes).length) ys := by
  induction xs generalizing room with
  | nil => rfl
  | cons x xs ih =>
      rw [List.flatMap_cons, List.length_append] at h
      have hinterim : (interim x.request).length ≤ x.bytes.length := by
        rw [Exchange.bytes, List.length_append]
        exact Nat.le_add_right _ _
      rw [List.cons_append, callsWithin, if_neg (by omega), if_neg (by omega),
        ih (by omega), List.flatMap_cons, List.length_append, Nat.sub_add_eq]
      rfl

theorem callsWithin_of_short {room : Nat} {x : Exchange} (ys : List Exchange)
    (h : room < x.bytes.length) : callsWithin room (x :: ys) = callsWithin room [x] := by
  rw [callsWithin, callsWithin, if_pos h, if_pos h]

structure Delivery.Follows (d : Delivery σ) (p : Progress σ) : Prop where
  state : d.handlerState = p.handlerState
  processed : d.processedRequests = p.processedRequests
  responses : d.responses = p.responses
  calls : d.calls = p.calls
  taken : d.wire.taken = p.written

/-- What becomes of a run that goes on from `p` by these bytes and exchanges, on a wire that
fails when it is full. -/
structure IsCut (handler : Handler σ) (p : Progress σ) (w : Wire) (bytes : Bytes)
    (xs : List Exchange) (result : Except ConnectionError Unit) (d : Delivered σ) : Prop where
  taken : d.delivery.wire.taken = p.written ++ bytes.take w.room
  result : d.result =
    if bytes.length ≤ w.room then result else .error (.encode (.io w.fault))
  calls : d.delivery.calls = p.calls ++ callsWithin w.room xs
  state : d.delivery.handlerState =
    stateAfter handler p.handlerState (callsWithin w.room xs)

theorem calls_of_exchanges {p q : Progress σ} {xs : List Exchange}
    (h : q.exchanges = p.exchanges ++ xs) : q.calls = p.calls ++ xs.map Exchange.request := by
  rw [Progress.calls, h, List.map_append]
  rfl

theorem IsCut.after {handler : Handler σ} {p q : Progress σ} {w w' : Wire} {bytes : Bytes}
    {xs ys : List Exchange} {result : Except ConnectionError Unit} {d : Delivered σ}
    (h : IsCut handler q w' bytes ys result d) (hexchanges : q.exchanges = p.exchanges ++ xs)
    (hwritten : q.written = p.written ++ xs.flatMap Exchange.bytes)
    (hstate : q.handlerState = stateAfter handler p.handlerState (xs.map Exchange.request))
    (hroom : (xs.flatMap Exchange.bytes).length ≤ w.room)
    (hwire : w'.room = w.room - (xs.flatMap Exchange.bytes).length)
    (hfault : w'.fault = w.fault) :
    IsCut handler p w (xs.flatMap Exchange.bytes ++ bytes) (xs ++ ys) result d where
  taken := by
    rw [h.taken, hwritten, hwire, List.take_append, List.take_of_length_le hroom,
      List.append_assoc]
  result := by
    rw [h.result, hwire, hfault, List.length_append]
    split <;> split <;> first | rfl | omega
  calls := by
    rw [h.calls, calls_of_exchanges hexchanges, callsWithin_of_room ys hroom, hwire,
      List.append_assoc]
  state := by
    rw [h.state, hstate, callsWithin_of_room ys hroom, hwire, stateAfter_append]

theorem IsCut.extend {handler : Handler σ} {p : Progress σ} {w : Wire} {x : Exchange}
    {result : Except ConnectionError Unit} {d : Delivered σ}
    (h : IsCut handler p w x.bytes [x] result d) (hroom : w.room < x.bytes.length)
    (more : Bytes) (ys : List Exchange) (result' : Except ConnectionError Unit) :
    IsCut handler p w (x.bytes ++ more) (x :: ys) result' d where
  taken := by rw [h.taken, List.take_append_of_le_length (by omega)]
  result := by
    rw [h.result, if_neg (by omega), if_neg (by rw [List.length_append]; omega)]
  calls := by rw [h.calls, callsWithin_of_short ys hroom]
  state := by rw [h.state, callsWithin_of_short ys hroom]

inductive RoundCut (handler : Handler σ) (p : Progress σ) (w : Wire) :
    Flow (Progress σ) (Outcome σ) → Flow (Delivery σ) (Delivered σ) → Prop
  | next {q : Progress σ} {d : Delivery σ} (xs : List Exchange)
      (hexchanges : q.exchanges = p.exchanges ++ xs)
      (hwritten : q.written = p.written ++ xs.flatMap Exchange.bytes)
      (hstate : q.handlerState = stateAfter handler p.handlerState (xs.map Exchange.request))
      (hroom : (xs.flatMap Exchange.bytes).length ≤ w.room)
      (hwire : d.wire.room = w.room - (xs.flatMap Exchange.bytes).length)
      (hfault : d.wire.fault = w.fault) (hfollows : d.Follows q) :
      RoundCut handler p w (.next q) (.next d)
  | done {o : Outcome σ} {d : Delivered σ} (bytes : Bytes) (xs : List Exchange)
      (hexchanges : o.progress.exchanges = p.exchanges ++ xs)
      (hwritten : o.progress.written = p.written ++ bytes)
      (hcut : IsCut handler p w bytes xs o.result d) :
      RoundCut handler p w (.done o) (.done d)
  | cut {q : Progress σ} {d : Delivered σ} (x : Exchange)
      (hexchanges : q.exchanges = p.exchanges ++ [x])
      (hwritten : q.written = p.written ++ x.bytes) (hroom : w.room < x.bytes.length)
      (hcut : IsCut handler p w x.bytes [x] (.ok ()) d) :
      RoundCut handler p w (.next q) (.done d)

/-! ### Refusals -/

theorem written_log (p : Progress σ) (events : List Event) :
    (p.log events).written = p.written ++ events.flatMap Event.bytes :=
  List.flatMap_append

theorem exchanges_log (p : Progress σ) (events : List Event) :
    (p.log events).exchanges = p.exchanges ++ events.filterMap Event.exchange? :=
  List.filterMap_append

theorem Delivery.Follows.log {d : Delivery σ} {p : Progress σ} (h : d.Follows p)
    {events : List Event} (hbytes : events.flatMap Event.bytes = [])
    (hexchanges : events.filterMap Event.exchange? = []) : d.Follows (p.log events) where
  state := h.state
  processed := h.processed
  responses := h.responses
  calls := by rw [h.calls, Progress.calls, Progress.calls, exchanges_log, hexchanges,
    List.append_nil]
  taken := by rw [h.taken, written_log, hbytes, List.append_nil]

def refusalBytes (env : Env) (p : Progress σ) (status : StatusCode) (message : Text) : Bytes :=
  (writeResponse (env.now p.responses).text (errorResponse status message) .get .close).bytes

theorem written_refuse (env : Env) (p : Progress σ) (status : StatusCode) (message : Text)
    (e : ConnectionError) :
    (refuse env p status message e).progress.written =
      p.written ++ refusalBytes env p status message := by
  rw [refuse, Progress.written, List.flatMap_append]
  simp [Event.bytes, refusalBytes, Progress.written]

theorem refuse_isCut (env : Env) (handler : Handler σ) {d : Delivery σ} {p : Progress σ}
    (h : d.Follows p) (status : StatusCode) (message : Text) (e : ConnectionError) :
    IsCut handler p d.wire (refusalBytes env p status message) []
      (refuse env p status message e).result (d.refuse env status message e) := by
  have hcalls : d.calls = p.calls ++ [] := by rw [h.calls, List.append_nil]
  rw [Delivery.refuse, sendResponse_eq, h.responses, refusalBytes, refuse]
  generalize writeResponse (env.now p.responses).text (errorResponse status message) .get
    .close = written
  by_cases hroom : written.bytes.length ≤ d.wire.room
  · rw [send_fits _ hroom]
    exact ⟨by rw [List.take_of_length_le hroom, h.taken], (if_pos hroom).symm, hcalls,
      h.state⟩
  · rw [send_fails _ (Nat.lt_of_not_le hroom)]
    exact ⟨by rw [h.taken], (if_neg hroom).symm, hcalls, h.state⟩

theorem refuse_cut (env : Env) (handler : Handler σ) {d : Delivery σ} {p : Progress σ}
    (h : d.Follows p) (status : StatusCode) (message : Text) (e : ConnectionError) :
    RoundCut handler p d.wire (.done (refuse env p status message e))
      (.done (d.refuse env status message e)) :=
  .done _ [] (by rw [exchanges_refuse, List.append_nil]) (written_refuse env p status message e)
    (refuse_isCut env handler h status message e)

/-! ### Behind an accepted head -/

theorem headEvents_bytes (request : Request) (mode : BodyMode) :
    (headEvents request mode).flatMap Event.bytes = interim request := by
  rw [headEvents, interim]
  split
  · exact List.append_nil _
  · rfl

theorem headEvents_exchanges (request : Request) (mode : BodyMode) :
    (headEvents request mode).filterMap Event.exchange? = [] := by
  rw [headEvents]
  split <;> rfl

def Wire.past (w : Wire) (bytes : Bytes) : Wire :=
  ⟨w.taken ++ bytes, w.room - bytes.length, w.fault⟩

theorem sendContinue_fits {w : Wire} {request : Request}
    (h : (interim request).length ≤ w.room) :
    sendContinue w request = (.ok (), w.past (interim request)) := by
  rw [sendContinue_eq, ← send_ok, send_fits _ h, Wire.past]

theorem sendContinue_fails {w : Wire} {request : Request}
    (h : w.room < (interim request).length) :
    sendContinue w request = (.error (.io w.fault),
      ⟨w.taken ++ (interim request).take w.room, 0, w.fault⟩) := by
  rw [sendContinue_eq, ← send_ok, send_fails _ h]

theorem afterHead_error_cut (env : Env) (handler : Handler σ) {d : Delivery σ} {p : Progress σ}
    (h : d.Follows p) (request : Request) (mode : BodyMode) (x : Interrupt) :
    RoundCut handler p d.wire (afterHead env handler p request mode (.error x))
      (d.afterHead env handler request (.error x)) := by
  let q := (p.log (headEvents request mode)).log [.bodyFailed x]
  have hwritten : q.written = p.written ++ interim request := by
    simp only [q]
    rw [written_log, written_log, headEvents_bytes]
    exact List.append_nil _
  have hexchanges : q.exchanges = p.exchanges := by
    simp only [q]
    rw [exchanges_log, exchanges_log, headEvents_exchanges, List.append_nil]
    exact List.append_nil _
  have hcalls : q.calls = p.calls := by rw [Progress.calls, hexchanges]; rfl
  obtain ⟨status, message, e, hideal, hwire⟩ : ∃ status message e,
      afterHead env handler p request mode (.error x) =
        .done (refuse env q status message e) ∧
      ∀ w, (interim request).length ≤ d.wire.room → w = d.wire.past (interim request) →
        d.afterHead env handler request (.error x) =
          .done (({ d with wire := w } : Delivery σ).refuse env status message e) := by
    cases x with
    | error e =>
        refine ⟨_, _, _, rfl, fun w hroom hw => ?_⟩
        rw [Delivery.afterHead, sendContinue_fits hroom, hw]
    | elapsed =>
        refine ⟨_, _, _, rfl, fun w hroom hw => ?_⟩
        rw [Delivery.afterHead, sendContinue_fits hroom, hw]
  have hbytes : (refuse env q status message e).progress.written =
      p.written ++ (interim request ++ refusalBytes env q status message) := by
    rw [written_refuse, hwritten, List.append_assoc]
  rw [hideal]
  by_cases hroom : (interim request).length ≤ d.wire.room
  · have hfollows : ({ d with wire := d.wire.past (interim request) } : Delivery σ).Follows q :=
      ⟨h.state, h.processed, h.responses, h.calls.trans hcalls.symm, by
        rw [hwritten, Wire.past, h.taken]⟩
    have hcut := refuse_isCut env handler hfollows status message e
    rw [hwire _ hroom rfl]
    refine .done _ [] ?_ hbytes ⟨?_, ?_, ?_, hcut.state⟩
    · rw [exchanges_refuse, hexchanges, List.append_nil]
    · rw [hcut.taken, hwritten, List.take_append, List.take_of_length_le hroom, List.append_assoc]
      rfl
    · rw [hcut.result, List.length_append, Wire.past]
      dsimp only
      split <;> split <;> first | rfl | omega
    · rw [hcut.calls, hcalls]
      rfl
  · have hfails := Nat.lt_of_not_le hroom
    rw [Delivery.afterHead, sendContinue_fails hfails]
    refine .done _ [] ?_ hbytes ⟨?_, ?_, ?_, h.state⟩
    · rw [exchanges_refuse, hexchanges, List.append_nil]
    · rw [List.take_append_of_le_length (Nat.le_of_lt hfails), h.taken]
    · rw [if_neg (by rw [List.length_append]; omega)]
    · rw [h.calls]
      exact (List.append_nil _).symm

def Delivery.behind (d : Delivery σ) (served : Exchange × σ) (wire : Wire) : Delivery σ :=
  ⟨served.2, d.processedRequests, d.responses + 1, d.calls ++ [served.1.request], wire⟩

theorem Delivery.answer_eq (env : Env) (handler : Handler σ) (d : Delivery σ)
    (request : Request) :
    let served := serve env handler d.responses d.handlerState request
    d.answer env handler request =
      match send d.wire served.1.written.bytes served.1.written.result with
      | (.error e, wire) => .done ⟨d.behind served wire, .error (.encode e)⟩
      | (.ok (), wire) =>
          match served.1.directive with
          | .close =>
              .done ⟨{ d.behind served wire with processedRequests := true }, .ok ()⟩
          | .keepAlive => .next { d.behind served wire with processedRequests := true } := by
  intro served
  obtain ⟨sent, hsent⟩ : ∃ sent,
      send d.wire served.1.written.bytes served.1.written.result = sent := ⟨_, rfl⟩
  have hsend : sendResponse d.wire (env.now d.responses).text served.1.response request.method
      served.1.directive = sent :=
    (sendResponse_eq d.wire _ served.1.response request.method served.1.directive).trans hsent
  simp only [served, serve] at hsend
  rw [Delivery.answer]
  dsimp only
  rw [hsend, hsent]
  rcases sent with ⟨_ | _, wire⟩ <;> rfl

section
variable {env : Env} {handler : Handler σ} {d : Delivery σ} {p : Progress σ}
  {request : Request} {payload : Bytes} {served : Exchange × σ}

theorem exchange_bytes_eq (hserved : served = serve env handler p.responses p.handlerState
    { request with payload := payload }) :
    served.1.bytes = interim request ++ served.1.written.bytes := by
  rw [hserved]
  rfl

theorem answered_isCut (h : d.Follows p)
    (hserved : served = serve env handler p.responses p.handlerState
      { request with payload := payload }) (hroom : d.wire.room < served.1.bytes.length)
    (result : Except ConnectionError Unit) :
    ∃ delivered, d.afterHead env handler request (.ok payload) = .done delivered ∧
      IsCut handler p d.wire served.1.bytes [served.1] result delivered := by
  have hinterim : interim served.1.request = interim request := by rw [hserved]; rfl
  have hbytes := exchange_bytes_eq hserved
  have hfit : ¬ served.1.bytes.length ≤ d.wire.room := Nat.not_le_of_lt hroom
  by_cases hshort : d.wire.room < (interim request).length
  · rw [Delivery.afterHead, sendContinue_fails hshort]
    refine ⟨_, rfl, ⟨?_, ?_, ?_, ?_⟩⟩
    · rw [hbytes, List.take_append_of_le_length (Nat.le_of_lt hshort), h.taken]
    · rw [if_neg hfit]
    · rw [callsWithin, hinterim, if_pos hshort, List.append_nil, h.calls]
    · rw [callsWithin, hinterim, if_pos hshort, stateAfter_nil, h.state]
  · have hle := Nat.le_of_not_lt hshort
    have hrest : (d.wire.past (interim request)).room < served.1.written.bytes.length := by
      rw [hbytes, List.length_append] at hroom
      rw [Wire.past]
      dsimp only
      omega
    rw [Delivery.afterHead, sendContinue_fits hle]
    dsimp only
    rw [Delivery.answer_eq]
    dsimp only
    rw [h.responses, h.state, ← hserved, send_fails _ hrest]
    refine ⟨_, rfl, ⟨?_, ?_, ?_, ?_⟩⟩
    · rw [hbytes, List.take_append, List.take_of_length_le hle, ← List.append_assoc, ← h.taken]
      rfl
    · rw [if_neg hfit]
      rfl
    · rw [callsWithin, hinterim, if_neg hshort, if_pos hroom, ← h.calls]
      rfl
    · rw [callsWithin, hinterim, if_neg hshort, if_pos hroom, hserved]
      exact serve_state env handler p.responses p.handlerState { request with payload := payload }

theorem answered_fits (h : d.Follows p)
    (hserved : served = serve env handler p.responses p.handlerState
      { request with payload := payload }) (hroom : served.1.bytes.length ≤ d.wire.room) :
    d.afterHead env handler request (.ok payload) =
      match served.1.written.result with
      | .error e => .done ⟨d.behind served (d.wire.past served.1.bytes), .error (.encode e)⟩
      | .ok () =>
          match served.1.directive with
          | .close =>
              .done ⟨{ d.behind served (d.wire.past served.1.bytes) with
                processedRequests := true }, .ok ()⟩
          | .keepAlive =>
              .next { d.behind served (d.wire.past served.1.bytes) with
                processedRequests := true } := by
  have hbytes := exchange_bytes_eq hserved
  have hlength := congrArg List.length hbytes
  rw [List.length_append] at hlength
  have hrest : served.1.written.bytes.length ≤ (d.wire.past (interim request)).room := by
    rw [Wire.past]
    dsimp only
    omega
  have hpast : (d.wire.past (interim request)).past served.1.written.bytes =
      d.wire.past served.1.bytes := by
    rw [Wire.past, Wire.past, Wire.past, hbytes, List.length_append, List.append_assoc,
      Nat.sub_add_eq]
  rw [← h.responses, ← h.state] at hserved
  rw [Delivery.afterHead, sendContinue_fits (by omega)]
  dsimp only
  rw [Delivery.answer_eq]
  dsimp only
  rw [← hserved, send_fits _ hrest, ← hpast]
  cases served.1.written.result with
  | error e => rfl
  | ok u => cases hdirective : served.1.directive <;> rfl

theorem answered_whole (h : d.Follows p)
    (hserved : served = serve env handler p.responses p.handlerState
      { request with payload := payload }) (hroom : served.1.bytes.length ≤ d.wire.room)
    {delivered : Delivered σ} (hwire : delivered.delivery.wire = d.wire.past served.1.bytes)
    (hcalls : delivered.delivery.calls = d.calls ++ [served.1.request])
    (hstate : delivered.delivery.handlerState = served.2)
    {result : Except ConnectionError Unit} (hresult : delivered.result = result) :
    IsCut handler p d.wire served.1.bytes [served.1] result delivered := by
  have hwithin : callsWithin d.wire.room [served.1] = [served.1.request] := by
    have hlength : ([served.1].flatMap Exchange.bytes).length ≤ d.wire.room := by
      simpa using hroom
    have hall := callsWithin_of_room [] hlength
    simpa [callsWithin] using hall
  refine ⟨?_, ?_, ?_, ?_⟩
  · rw [hwire, List.take_of_length_le hroom, ← h.taken]
    rfl
  · rw [if_pos hroom, hresult]
  · rw [hcalls, hwithin, h.calls]
  · rw [hstate, hwithin, hserved]
    exact serve_state env handler p.responses p.handlerState { request with payload := payload }

end

theorem afterHead_cut (env : Env) (handler : Handler σ) {d : Delivery σ} {p : Progress σ}
    (h : d.Follows p) (request : Request) (mode : BodyMode) (body : Except Interrupt Bytes) :
    RoundCut handler p d.wire (afterHead env handler p request mode body)
      (d.afterHead env handler request body) := by
  cases body with
  | error x => exact afterHead_error_cut env handler h request mode x
  | ok payload =>
      obtain ⟨served, hserved⟩ : ∃ served, served = serve env handler p.responses p.handlerState
          { request with payload := payload } := ⟨_, rfl⟩
      have hcase := afterHead_ok env handler p request mode payload
      rw [← hserved] at hcase
      have hwritten := written_exchange p request mode served (by rw [hserved]; rfl)
      have hexchanges := exchanges_exchange p request mode served
      have hstate : served.2 = stateAfter handler p.handlerState [served.1.request] := by
        rw [hserved]
        exact serve_state env handler p.responses p.handlerState { request with payload := payload }
      by_cases hroom : served.1.bytes.length ≤ d.wire.room
      · rw [answered_fits h hserved hroom]
        generalize afterHead env handler p request mode (.ok payload) = flow at hcase
        cases hcase with
        | keepsOpen hopen =>
            rw [hopen.2, hopen.1]
            refine .next [served.1] hexchanges ?_ hstate ?_ ?_ rfl ⟨rfl, rfl, ?_, ?_, ?_⟩
            · rw [hwritten]
              simp
            · simpa using hroom
            · simp [Wire.past, Delivery.behind]
            · exact congrArg (· + 1) h.responses
            · rw [Progress.calls, hexchanges, List.map_append, ← Progress.calls, ← h.calls]
              rfl
            · rw [hwritten, ← h.taken]
              rfl
        | closes hdirective hresult =>
            rw [hresult, hdirective]
            exact .done _ _ hexchanges hwritten (answered_whole h hserved hroom rfl rfl rfl rfl)
        | rejected e hresult =>
            rw [hresult]
            exact .done _ _ hexchanges hwritten (answered_whole h hserved hroom rfl rfl rfl rfl)
      · have hfails := Nat.lt_of_not_le hroom
        generalize afterHead env handler p request mode (.ok payload) = flow at hcase
        cases hcase with
        | keepsOpen hopen =>
            obtain ⟨delivered, hdone, hcut⟩ := answered_isCut h hserved hfails (.ok ())
            rw [hdone]
            exact .cut served.1 hexchanges hwritten hfails hcut
        | closes hdirective hresult =>
            obtain ⟨delivered, hdone, hcut⟩ := answered_isCut h hserved hfails (.ok ())
            rw [hdone]
            exact .done served.1.bytes [served.1] hexchanges hwritten hcut
        | rejected e hresult =>
            obtain ⟨delivered, hdone, hcut⟩ :=
              answered_isCut h hserved hfails (.error (.encode e))
            rw [hdone]
            exact .done served.1.bytes [served.1] hexchanges hwritten hcut

/-! ### Rounds and runs -/

theorem silent_cut (handler : Handler σ) {d : Delivery σ} {p q : Progress σ}
    (h : d.Follows p) (hwritten : q.written = p.written) (hexchanges : q.exchanges = p.exchanges)
    (result : Except ConnectionError Unit) :
    RoundCut handler p d.wire (.done ⟨q, result⟩) (.done ⟨d, result⟩) := by
  refine .done [] [] ?_ ?_ ⟨?_, ?_, ?_, h.state⟩
  · rw [hexchanges, List.append_nil]
  · rw [hwritten, List.append_nil]
  · rw [h.taken, List.take_nil, List.append_nil]
  · exact (if_pos (Nat.zero_le _)).symm
  · rw [h.calls]
    exact (List.append_nil _).symm

theorem faulty_cut (env : Env) (handler : Handler σ) {d : Delivery σ} {p : Progress σ}
    (h : d.Follows p) (fault : ReadFault) (status : StatusCode) (message : Text)
    (e : ConnectionError) :
    RoundCut handler p d.wire (.done (refuse env (p.log [.headFault fault]) status message e))
      (.done (d.refuse env status message e)) := by
  have hexchanges := exchanges_log_fault p fault
  have hwritten : (p.log [.headFault fault]).written = p.written := by
    rw [written_log]
    exact List.append_nil _
  have hfault : d.Follows (p.log [.headFault fault]) := h.log rfl rfl
  have hcut := refuse_isCut env handler hfault status message e
  refine .done _ [] ?_ ?_ ⟨?_, hcut.result, ?_, hcut.state⟩
  · rw [exchanges_refuse, hexchanges, List.append_nil]
  · rw [written_refuse, hwritten]
  · rw [hcut.taken, hwritten]
  · rw [hcut.calls, Progress.calls, hexchanges]
    rfl

/-- A round on a wire is the round on a socket that takes everything, cut. -/
theorem Link.round_cut (env : Env) (handler : Handler σ) {c : Connection σ} {d : Delivery σ}
    (h : d.Follows c.progress) :
    ∃ input ideal cut, RoundCut handler c.progress d.wire ideal cut ∧
      c.round env handler = ideal.map (⟨input, ·⟩) id ∧
      Link.round env handler ⟨c.input, d⟩ = cut.map (⟨input, ·⟩) id := by
  rw [Connection.round, Link.round]
  dsimp only
  by_cases hexceeds : incompleteHeadExceedsLimit c.input.buffer
  · rw [if_pos hexceeds, if_pos hexceeds]
    exact ⟨c.input, _, _, refuse_cut env handler h _ _ _, rfl, rfl⟩
  rw [if_neg hexceeds, if_neg hexceeds]
  by_cases hmore : needsMoreHead c.input.buffer
  · rw [if_pos hmore, if_pos hmore, h.processed]
    rcases c.input.readBuf with ⟨fault | _, input⟩
    · cases fault with
      | eof =>
          dsimp only
          split
          · refine ⟨input, _, _, silent_cut handler h (q := c.progress.log [.headFault .eof]) ?_
              (exchanges_log_fault _ _) (.ok ()), rfl, rfl⟩
            rw [written_log]
            exact List.append_nil _
          · exact ⟨input, _, _, faulty_cut env handler h .eof _ _ _, rfl, rfl⟩
      | error e =>
          refine ⟨input, _, _, silent_cut handler h (q := c.progress.log [.headFault (.error e)]) ?_
            (exchanges_log_fault _ _) (.error (.io e)), rfl, rfl⟩
          rw [written_log]
          exact List.append_nil _
      | timeout => exact ⟨input, _, _, faulty_cut env handler h .timeout _ _ _, rfl, rfl⟩
    · dsimp only
      split
      · exact ⟨input, _, _, refuse_cut env handler h _ _ _, rfl, rfl⟩
      · refine ⟨input, .next c.progress, .next d, .next [] ?_ ?_ rfl (Nat.zero_le _) rfl rfl h,
          rfl, rfl⟩
        · rw [List.append_nil]
        · exact (List.append_nil _).symm
  · rw [if_neg hmore, if_neg hmore]
    cases parseRequestHead c.input.buffer with
    | error e => exact ⟨c.input, _, _, refuse_cut env handler h _ _ _, rfl, rfl⟩
    | ok parsed =>
        obtain ⟨head, mode, consumed⟩ := parsed
        rcases hread : readBody mode (c.input.advance consumed) with ⟨body, input⟩
        refine ⟨input, _, _, afterHead_cut env handler h head mode body, ?_, ?_⟩
        · dsimp only
          rw [hread]
          cases afterHead env handler c.progress head mode body <;> rfl
        · dsimp only
          rw [hread]
          cases d.afterHead env handler head body <;> rfl

theorem Link.loop_cut (env : Env) (handler : Handler σ) (c : Connection σ) (d : Delivery σ)
    (h : d.Follows c.progress) :
    ∃ bytes xs,
      ((Connection.loop env handler).run c).progress.written = c.progress.written ++ bytes ∧
      ((Connection.loop env handler).run c).progress.exchanges = c.progress.exchanges ++ xs ∧
      IsCut handler c.progress d.wire bytes xs ((Connection.loop env handler).run c).result
        ((Link.loop env handler).run ⟨c.input, d⟩) := by
  refine (Connection.loop env handler).run_induction (motive := fun c outcome =>
    ∀ d : Delivery σ, d.Follows c.progress → ∃ bytes xs,
      outcome.progress.written = c.progress.written ++ bytes ∧
      outcome.progress.exchanges = c.progress.exchanges ++ xs ∧
      IsCut handler c.progress d.wire bytes xs outcome.result
        ((Link.loop env handler).run ⟨c.input, d⟩)) ?_ ?_ c d h
  · intro c outcome hbody d h
    obtain ⟨input, ideal, cut, hcut, hideal, hlink⟩ := Link.round_cut env handler h
    have hideal := hbody.symm.trans hideal
    cases hcut with
    | next | cut => cases hideal
    | done bytes xs hexchanges hwritten hcut =>
        cases hideal
        rw [(Link.loop env handler).run_done hlink]
        exact ⟨bytes, xs, hwritten, hexchanges, hcut⟩
  · intro c c' hbody ih d h
    obtain ⟨input, ideal, cut, hcut, hideal, hlink⟩ := Link.round_cut env handler h
    have hideal := hbody.symm.trans hideal
    cases hcut with
    | done => cases hideal
    | next xs hexchanges hwritten hstate hroom hwire hfault hfollows =>
        cases hideal
        obtain ⟨bytes, ys, hwritten', hexchanges', hcut⟩ := ih _ hfollows
        rw [(Link.loop env handler).run_next hlink]
        refine ⟨xs.flatMap Exchange.bytes ++ bytes, xs ++ ys, ?_, ?_,
          hcut.after hexchanges hwritten hstate hroom hwire hfault⟩
        · rw [hwritten', hwritten, List.append_assoc]
        · rw [hexchanges', hexchanges, List.append_assoc]
    | cut x hexchanges hwritten hroom hcut =>
        cases hideal
        rw [(Link.loop env handler).run_done hlink]
        obtain ⟨events, htrace, -⟩ := Connection.run_orderly env handler ⟨input, _⟩
        refine ⟨x.bytes ++ events.flatMap Event.bytes, x :: events.filterMap Event.exchange?,
          ?_, ?_, hcut.extend hroom _ _ _⟩
        · rw [Progress.written, htrace, List.flatMap_append, ← Progress.written, hwritten,
            List.append_assoc]
        · rw [Progress.exchanges, htrace, List.filterMap_append, ← Progress.exchanges,
            hexchanges, List.append_assoc]
          rfl

/-- A run over a socket that fails after `room` bytes is the run over one that does not
fail, cut. -/
theorem Link.run_isCut (env : Env) (handler : Handler σ) (input : Input) (s : σ) (room : Nat)
    (fault : IoError) :
    let ideal := Connection.run env handler input s
    IsCut handler (.start s) ⟨[], room, fault⟩ ideal.progress.written ideal.progress.exchanges
      ideal.result (Link.run env handler input s room fault) := by
  intro ideal
  obtain ⟨bytes, xs, hwritten, hexchanges, hcut⟩ := Link.loop_cut env handler ⟨input, .start s⟩
    (.start s ⟨[], room, fault⟩) ⟨rfl, rfl, rfl, rfl, rfl⟩
  have hwritten : ideal.progress.written = bytes := hwritten
  have hexchanges : ideal.progress.exchanges = xs := hexchanges
  rw [hwritten, hexchanges]
  exact hcut

/-- The client gets the first `room` bytes of what it would have got from a socket that does
not fail, the handler is called for the exchanges that these reach, and the run ends with the
socket's error unless everything fits. -/
theorem Link.run_cut (env : Env) (handler : Handler σ) (input : Input) (s : σ) (room : Nat)
    (fault : IoError) :
    let ideal := Connection.run env handler input s
    let cut := Link.run env handler input s room fault
    cut.delivery.wire.taken = ideal.progress.written.take room ∧
      cut.delivery.calls = callsWithin room ideal.progress.exchanges ∧
      cut.delivery.handlerState =
        stateAfter handler s (callsWithin room ideal.progress.exchanges) ∧
      cut.result =
        if ideal.progress.written.length ≤ room then ideal.result
        else .error (.encode (.io fault)) := by
  intro ideal cut
  have hcut := Link.run_isCut env handler input s room fault
  exact ⟨hcut.taken, hcut.calls, hcut.state, hcut.result⟩

end GooseHttp
