import GooseHttp.History
import GooseHttp.Lib.Pool
/-!
# The server

`Server::run` accepts connections and spawns a task for each; all tasks call one handler.
Tasks run side by side, so another task may come in wherever one awaits a read or a write,
in particular between the last read of a request, the handler call and the response.
`Stage` is where a task stands between two such points, and a schedule is any sequence of
accepts and turns.

Writes are taken as complete: a task gets its turn when what it awaits is through, so one
that waits for good for a peer to read gets none, and the source sets no time limit on that.
A handler call is one indivisible step on the handler's state.  Calls that overlap can have any
answers; a handler that has them prepared makes the tasks do the same
(`Server.members_prepared`).
-/

namespace GooseHttp

open Lib

variable {σ τ : Type}

/-! ## A connection apart from the state of its handler -/

def Progress.withState (p : Progress σ) (s : τ) : Progress τ :=
  ⟨s, p.processedRequests, p.responses, p.trace⟩

def Outcome.withState (o : Outcome σ) (s : τ) : Outcome τ := ⟨o.progress.withState s, o.result⟩

def Connection.withState (c : Connection σ) (s : τ) : Connection τ :=
  ⟨c.input, c.progress.withState s⟩

/-! ## Tasks -/

structure Taken where
  head : Request
  mode : BodyMode
  payload : Bytes
  input : Input

/-- What `Connection::run` calls the handler with. -/
def Taken.called (t : Taken) : Request :=
  { { t.head with payload := t.payload } with body := .empty }

def Connection.taken (c : Connection σ) : Option Taken :=
  if needsMoreHead c.input.buffer then none
  else
    match parseRequestHead c.input.buffer with
    | .error _ => none
    | .ok (head, mode, consumed) =>
        match readBody mode (c.input.advance consumed) with
        | (.error _, _) => none
        | (.ok payload, input) => some ⟨head, mode, payload, input⟩

/-- Where a task stands when another one may run: at the head of the loop, before and
behind the handler call, or at the end of `Connection::run`.  The handler's state is not
the task's, so its progress goes without one. -/
inductive Stage
  | reading (c : Connection Unit)
  | calling (p : Progress Unit) (t : Taken)
  | answering (p : Progress Unit) (t : Taken) (answer : Response)
  | finished (outcome : Outcome Unit)

def Stage.ofFlow : Flow (Connection Unit) (Outcome Unit) → Stage
  | .next c => .reading c
  | .done outcome => .finished outcome

def respond (env : Env) (p : Progress Unit) (t : Taken) (answer : Response) :
    Flow (Connection Unit) (Outcome Unit) :=
  (afterHead env (.always answer) p t.head t.mode (.ok t.payload)).map (⟨t.input, ·⟩) id

/-- One turn of a task, to the next point where it awaits something.  Before the call no
handler has a part in a round, whichever it is. -/
def Stage.step (env : Env) (handler : Handler σ) (stage : Stage) (s : σ) : Stage × σ :=
  match stage with
  | .reading c =>
      match c.taken with
      | some t => (.calling c.progress t, s)
      | none => (.ofFlow (c.round env (.always (.new .NOT_IMPLEMENTED))), s)
  | .calling p t => (.answering p t (handler t.called s).1, (handler t.called s).2)
  | .answering p t answer => (.ofFlow (respond env p t answer), s)
  | .finished outcome => (.finished outcome, s)

/-- A spawned task; `socket` is all its peer is going to send, and `clock` the dates it is
going to stamp. -/
structure Task where
  id : Nat
  clock : Env
  socket : Input
  stage : Stage

/-- `Connection::new`, before it runs. -/
def Task.spawn (id : Nat) (clock : Env) (socket : Input) : Task :=
  ⟨id, clock, socket, .reading ⟨socket, .start ()⟩⟩

def Task.step (handler : Handler σ) (t : Task) (s : σ) : Task × σ :=
  ({ t with stage := (t.stage.step t.clock handler s).1 }, (t.stage.step t.clock handler s).2)

/-! ## The accept loop -/

/-- The values of `next_id`, an `AtomicU64`. -/
def nextIdAfter (id : Nat) : Nat := (id + 1) % 2 ^ 64

structure Server (σ : Type) where
  nextId : Nat
  tasks : Pool Task σ

inductive ServerEvent
  | accepted (clock : Env) (socket : Input)
  | acceptFailed
  | turn (i : Nat)

namespace Server

/-- `ServerBuilder::build`, with the handler in state `s`. -/
def build (s : σ) : Server σ := ⟨1, ⟨[], s⟩⟩

def step (handler : Handler σ) (server : Server σ) : ServerEvent → Server σ
  | .accepted clock socket =>
      ⟨nextIdAfter server.nextId,
        server.tasks.move (Task.step handler) (.join (.spawn server.nextId clock socket))⟩
  | .acceptFailed => server
  | .turn i => { server with tasks := server.tasks.move (Task.step handler) (.run i) }

def after (handler : Handler σ) (server : Server σ) (events : List ServerEvent) : Server σ :=
  events.foldl (step handler) server

def moves : Nat → List ServerEvent → List (Pool.Move Task)
  | _, [] => []
  | id, .accepted clock socket :: events =>
      .join (.spawn id clock socket) :: moves (nextIdAfter id) events
  | id, .acceptFailed :: events => moves id events
  | id, .turn i :: events => .run i :: moves id events

theorem tasks_after (handler : Handler σ) (server : Server σ) (events : List ServerEvent) :
    (server.after handler events).tasks =
      server.tasks.after (Task.step handler) (moves server.nextId events) := by
  induction events generalizing server with
  | nil => rfl
  | cons e events ih =>
      have hcons : server.after handler (e :: events) =
          (server.step handler e).after handler events := rfl
      rw [hcons, ih]
      cases e <;> rfl

def accepted : List ServerEvent → List (Env × Input)
  | [] => []
  | .accepted clock socket :: events => (clock, socket) :: accepted events
  | .acceptFailed :: events => accepted events
  | .turn _ :: events => accepted events

theorem joined_moves (id : Nat) (events : List ServerEvent) :
    Pool.joined (moves id events) = (accepted events).mapIdx fun n (clock, socket) =>
      .spawn (nextIdAfter^[n] id) clock socket := by
  induction events generalizing id with
  | nil => rfl
  | cons e events ih =>
      cases e with
      | accepted clock socket =>
          rw [moves, Pool.joined, ih, accepted, List.mapIdx_cons]
          rfl
      | acceptFailed => exact ih id
      | turn i => exact ih id

end Server

end GooseHttp
