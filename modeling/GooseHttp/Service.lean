import GooseHttp.Isolation
import GooseHttp.Transparency
import GooseHttp.Truncation
/-!
# What each client of a server gets

The connection results carried over to a server with any number of connections.  A task
follows its connection alone with prepared answers, and every answer it is given is one the
handler gives to that request in some state; so what holds of one connection for all answers
of a handler holds of every client, whatever the others do meanwhile.
-/

namespace GooseHttp

open Lib Client

variable {σ τ : Type}

/-! ## One client and prepared answers -/

theorem serve_congr (env : Env) {handler : Handler σ} {handler' : Handler τ} {s : σ} {s' : τ}
    {request : Request} (n : Nat)
    (h : (handler { request with body := .empty } s).1 =
      (handler' { request with body := .empty } s').1) :
    (serve env handler n s request).1 = (serve env handler' n s' request).1 := by
  simp only [serve, h]

theorem exchanges_answerAll (env : Env) (handler : Handler σ) (p : Progress σ)
    (requests : List Request) :
    ∃ more, (closing (answerAll env handler p requests)).progress.exchanges =
      p.exchanges ++ more := by
  induction requests generalizing p with
  | nil => exact ⟨[], by simp [answerAll, closing, Progress.exchanges, Progress.log,
      Event.exchange?]⟩
  | cons request requests ih =>
      obtain ⟨hadds, hopens, hcloses⟩ := answer_cases env handler p request
      rw [answerAll]
      by_cases hopen : (serve env handler p.responses p.handlerState request).1.KeepsOpen
      · obtain ⟨more, hmore⟩ := ih (p.exchange request.head request.body.mode
          (serve env handler p.responses p.handlerState request))
        rw [exchanges_exchange, List.append_assoc] at hmore
        rw [hopens hopen]
        exact ⟨_, hmore⟩
      · obtain ⟨o, hflow⟩ := hcloses hopen
        rw [hflow] at hadds ⊢
        exact ⟨_, hadds.exchanges⟩

def AnswersFrom (handler : Handler σ) (calls : List Call) : Prop :=
  ∀ call ∈ calls, ∃ s, call.answer = (handler call.request s).1

theorem serveAll_replay (clock : Env) {handler : Handler σ} {requests : List Request}
    (hstep : ∀ request ∈ requests, handler.KeepsStep clock request)
    (p : Progress (List Response))
    (hcalls : AnswersFrom handler (closing (answerAll clock replay p requests)).progress.answered) :
    ∀ x ∈ (serveAll clock replay p.responses p.handlerState requests).1,
      x.KeepsOpen ∧ x.Delimited := by
  induction requests generalizing p with
  | nil =>
      intro x hx
      cases hx
  | cons request requests ih =>
      obtain ⟨hrequest, hrequests⟩ := List.forall_mem_cons.mp hstep
      obtain ⟨hadds, hopens, hcloses⟩ := answer_cases clock replay p request
      rw [answerAll] at hcalls
      have hgood : ∀ calls, AnswersFrom handler calls →
          (serve clock replay p.responses p.handlerState request).1.call ∈ calls →
            (serve clock replay p.responses p.handlerState request).1.KeepsOpen ∧
              (serve clock replay p.responses p.handlerState request).1.Delimited := by
        intro calls hfrom hmem
        obtain ⟨s, hs⟩ := hfrom _ hmem
        rw [serve_congr clock p.responses hs]
        exact hrequest p.responses s
      rw [serveAll_cons, List.forall_mem_cons]
      by_cases hopen : (serve clock replay p.responses p.handlerState request).1.KeepsOpen
      · rw [hopens hopen] at hcalls
        obtain ⟨more, hmore⟩ := exchanges_answerAll clock replay (p.exchange request.head
          request.body.mode (serve clock replay p.responses p.handlerState request)) requests
        refine ⟨hgood _ hcalls (List.mem_map_of_mem ?_), ih hrequests _ hcalls⟩
        rw [hmore, exchanges_exchange]
        simp
      · obtain ⟨o, hflow⟩ := hcloses hopen
        rw [hflow] at hcalls hadds
        refine absurd (hgood _ hcalls (List.mem_map_of_mem ?_)).1 hopen
        rw [hadds.exchanges]
        simp

theorem serveAll_served (clock : Env) {handler : Handler σ} (requests : List Request) (n : Nat)
    (answers : List Response)
    (h : ∀ x ∈ (serveAll clock replay n answers requests).1,
      ∃ s, x.answer = (handler x.request s).1) :
    List.Forall₂ (fun request x => ∃ n s, x = (serve clock handler n s request).1) requests
      (serveAll clock replay n answers requests).1 := by
  induction requests generalizing n answers with
  | nil => exact .nil
  | cons request requests ih =>
      rw [serveAll_cons, List.forall_mem_cons] at h
      obtain ⟨⟨s, hs⟩, hrest⟩ := h
      rw [serveAll_cons]
      exact .cons ⟨n, s, serve_congr clock n hs⟩ (ih (n + 1) _ hrest)

theorem splitFinals_delimited {xs : List Exchange} (h : ∀ x ∈ xs, x.Delimited) :
    lenient.splitFinals (xs.map fun x => x.request.method) (xs.flatMap Exchange.bytes) =
      .ok (xs.map fun x => x.written.bytes, []) := by
  induction xs with
  | nil => rfl
  | cons x xs ih =>
      obtain ⟨hx, hxs⟩ := List.forall_mem_cons.mp h
      rw [List.map_cons, List.flatMap_cons, splitFinals, hx.finalLoop_whole]
      dsimp only
      rw [ih hxs]
      rfl

/-! ## Every client -/

namespace Server

theorem answersFrom_finished {handler : Handler σ} {s : σ} {events : List ServerEvent} {i : Nat}
    {task : Task} (htask : ((build s).after handler events).tasks.members[i]? = some task)
    {outcome : Outcome Unit} (hfinished : task.stage = .finished outcome) :
    AnswersFrom handler outcome.progress.answered := by
  intro call hcall
  have hcalls := history_calls handler s events htask
  rw [hfinished] at hcalls
  have hmem : call ∈ Pool.projection i ((build s).history handler events) := hcalls ▸ hcall
  obtain ⟨c, hc, rfl⟩ := List.mem_map.mp hmem
  obtain ⟨before, behind, hsplit⟩ :=
    List.append_of_mem (List.mem_map_of_mem (f := Prod.snd) (List.mem_filter.mp hc).1)
  exact ⟨_, history_answers handler s events before c.2 behind hsplit⟩

section Finished

variable {handler : Handler σ} {s : σ} {events : List ServerEvent} {i : Nat} {task : Task}
  {outcome : Outcome Unit} {requests : List Request}

/-- A task whose client is kept in step has served all its requests with the answers it was
given. -/
theorem finished_replayed
    (htask : ((build s).after handler events).tasks.members[i]? = some task)
    (hfinished : task.stage = .finished outcome) (hclean : task.socket.Clean)
    (hinput : Pipelined task.socket.all requests)
    (hstep : ∀ request ∈ requests, handler.KeepsStep task.clock request) :
    let served := (serveAll task.clock replay 0 outcome.progress.answers requests).1
    (∀ x ∈ served, x.KeepsOpen ∧ x.Delimited) ∧ outcome.result = .ok () ∧
      outcome.progress.exchanges = served ∧
      outcome.progress.written = served.flatMap Exchange.bytes := by
  have halone := finished_run (List.mem_of_getElem? htask) hfinished
  obtain ⟨o, ho⟩ : ∃ o, Connection.run task.clock replay task.socket
      outcome.progress.answers = o := ⟨_, rfl⟩
  have hsame : o.result = outcome.result ∧ o.progress.trace = outcome.progress.trace := by
    rw [← halone, ho]
    exact ⟨rfl, rfl⟩
  have hexchanges : o.progress.exchanges = outcome.progress.exchanges := by
    rw [Progress.exchanges, hsame.2]
    rfl
  have hfrom : AnswersFrom handler (closing (answerAll task.clock replay
      (.start outcome.progress.answers) requests)).progress.answered := by
    rw [← session_pipelined_closing task.clock replay hinput, ← session,
      ← run_eq_session task.clock replay _ hclean, ho, Progress.answered, hexchanges]
    exact answersFrom_finished htask hfinished
  have hserved := serveAll_replay task.clock hstep (.start outcome.progress.answers) hfrom
  obtain ⟨hresult, hall, hwritten, -⟩ := run_serveAll task.clock replay
    outcome.progress.answers hclean hinput fun x hx => (hserved x hx).1
  rw [ho] at hresult hall hwritten
  rw [hall, Progress.written, hsame.2] at hwritten
  exact ⟨hserved, hsame.1 ▸ hresult, hexchanges ▸ hall, hwritten⟩

theorem finished_served
    (htask : ((build s).after handler events).tasks.members[i]? = some task)
    (hfinished : task.stage = .finished outcome) (hclean : task.socket.Clean)
    (hinput : Pipelined task.socket.all requests)
    (hstep : ∀ request ∈ requests, handler.KeepsStep task.clock request) :
    List.Forall₂ (fun request x => ∃ n s, x = (serve task.clock handler n s request).1) requests
      outcome.progress.exchanges := by
  obtain ⟨-, -, hexchanges, -⟩ := finished_replayed htask hfinished hclean hinput hstep
  rw [hexchanges]
  refine serveAll_served task.clock requests 0 outcome.progress.answers fun x hx => ?_
  rw [← hexchanges] at hx
  exact answersFrom_finished htask hfinished x.call (List.mem_map_of_mem hx)

end Finished

theorem clients_inStep_of_step (handler : Handler σ) (s : σ) (events : List ServerEvent)
    {i : Nat} {task : Task}
    (htask : ((build s).after handler events).tasks.members[i]? = some task)
    {outcome : Outcome Unit} (hfinished : task.stage = .finished outcome)
    {requests : List Request} (hclean : task.socket.Clean)
    (hinput : Pipelined task.socket.all requests)
    (hstep : ∀ request ∈ requests, handler.KeepsStep task.clock request) :
    outcome.result = .ok () ∧
      (Pool.projection i ((build s).history handler events)).map Call.request =
        requests.map (fun r => { r with body := .empty }) ∧
      outcome.progress.answered = Pool.projection i ((build s).history handler events) ∧
      lenient.splitFinals (requests.map Request.method) outcome.progress.written =
        .ok (outcome.progress.exchanges.map fun x => x.written.bytes, []) := by
  have hcalls : outcome.progress.answered =
      Pool.projection i ((build s).history handler events) := by
    have htaskCalls := history_calls handler s events htask
    rwa [hfinished] at htaskCalls
  obtain ⟨hserved, hresult, hexchanges, hwritten⟩ :=
    finished_replayed htask hfinished hclean hinput hstep
  refine ⟨hresult, ?_, hcalls, ?_⟩
  · rw [← hcalls, Progress.answered, List.map_map, hexchanges]
    exact serveAll_requests task.clock replay 0 outcome.progress.answers requests
  · rw [hwritten, hexchanges, ← serveAll_methods task.clock replay 0 outcome.progress.answers]
    exact splitFinals_delimited fun x hx => (hserved x hx).2

theorem exists_finished {server : Server σ} {i : Nat} {socket : Input}
    (hrank : (server.tasks.members[i]?.map fun task => task.stage.rank) = some 0)
    (hsocket : server.tasks.members[i]?.map Task.socket = some socket) :
    ∃ task outcome, server.tasks.members[i]? = some task ∧ task.stage = .finished outcome ∧
      task.socket = socket := by
  obtain ⟨task, htask, hzero⟩ := Option.map_eq_some_iff.mp hrank
  obtain ⟨outcome, hfinished⟩ := Stage.finished_of_rank hzero
  rw [htask] at hsocket
  exact ⟨task, outcome, htask, hfinished, Option.some.inj hsocket⟩

/-- Where the handler leaves framing to the server, a client that pipelines requests gets one
whole response for each of them, in order and with nothing left over, whatever other
connections there are and however the tasks take turns.  The handler is called with its
requests and no others on its behalf, in the order sent, and the answers are those of the one
history that all clients share. -/
theorem clients_inStep (handler : Handler σ) (s : σ) (events : List ServerEvent)
    (hhandler : ∀ request s, LeavesFraming (handler request s).1) {i : Nat} {task : Task}
    (htask : ((build s).after handler events).tasks.members[i]? = some task)
    {outcome : Outcome Unit} (hfinished : task.stage = .finished outcome)
    {requests : List Request} (hclean : task.socket.Clean)
    (hinput : Pipelined task.socket.all requests)
    (hrequests : ∀ request ∈ requests, IsPersistent request) :
    outcome.result = .ok () ∧
      (Pool.projection i ((build s).history handler events)).map Call.request =
        requests.map (fun r => { r with body := .empty }) ∧
      outcome.progress.answered = Pool.projection i ((build s).history handler events) ∧
      lenient.splitFinals (requests.map Request.method) outcome.progress.written =
        .ok (outcome.progress.exchanges.map fun x => x.written.bytes, []) :=
  clients_inStep_of_step handler s events htask hfinished hclean hinput
    fun request hrequest => keepsStep_of_leaves task.clock (fun s => hhandler _ s)
      (hrequests request hrequest)

/-- Two clients whose tasks take turns; what the second one gets. -/
theorem clients_inStep_two :
    let server := (build ()).after (.always hello)
      [.accepted .atEpoch ⟨wirePost.bytes, []⟩, .accepted .atEpoch ⟨wireGet.bytes, []⟩,
        .turn 1, .turn 0, .turn 1, .turn 0, .turn 1, .turn 1]
    ∃ task outcome, server.tasks.members[1]? = some task ∧ task.stage = .finished outcome ∧
      outcome.result = .ok () ∧
      lenient.splitFinals [.get] outcome.progress.written =
        .ok (outcome.progress.exchanges.map fun x => x.written.bytes, []) := by
  intro server
  obtain ⟨task, outcome, htask, hfinished, hsocket⟩ : ∃ task outcome,
      server.tasks.members[1]? = some task ∧ task.stage = .finished outcome ∧
        task.socket = ⟨wireGet.bytes, []⟩ := exists_finished (by decide +kernel) rfl
  have hinput : Pipelined task.socket.all [wireGet.request] := by
    rw [hsocket, Input.all_of_incoming_nil rfl]
    exact pipelined_bytes [wireGet]
  obtain ⟨hresult, -, -, hsplit⟩ := clients_inStep (.always hello) () _
    (fun _ _ => hello_leavesFraming) htask hfinished (by rw [hsocket]; decide)
    hinput (by unfold IsPersistent; decide +kernel)
  exact ⟨task, outcome, htask, hfinished, hresult, hsplit⟩

end Server

end GooseHttp
