import GooseHttp.Pipeline
import GooseHttp.Server
/-!
# Tasks among each other

A task meets the others only in the handler's state.  So it does what its connection would
do alone with a handler that gives the answers this one got (`replay`); which answers these
are is said by one history of all handler calls, in which each call sees what the earlier
ones left.
-/

namespace GooseHttp

open Lib

variable {σ τ : Type}

/-! ## A round and its handler -/

theorem afterHead_answer (env : Env) {handler : Handler σ} {p : Progress σ} {head : Request}
    {payload : Bytes} {answer : Response} {s : σ} (mode : BodyMode)
    (h : handler { { head with payload := payload } with body := .empty } p.handlerState =
      (answer, s)) :
    afterHead env handler p head mode (.ok payload) =
      (afterHead env (.always answer) (p.withState ()) head mode (.ok payload)).map
        (·.withState s) (·.withState s) := by
  simp only [afterHead, serve, Handler.always, Progress.log, Progress.withState, h]
  split
  · rfl
  · split <;> rfl

theorem afterHead_fault (env : Env) (handler : Handler σ) (handler' : Handler τ)
    (p : Progress σ) (s : τ) (head : Request) (mode : BodyMode) (x : Interrupt) :
    afterHead env handler' (p.withState s) head mode (.error x) =
      (afterHead env handler p head mode (.error x)).map (·.withState s) (·.withState s) := by
  cases x <;> rfl

namespace Connection

theorem taken_cases {c : Connection σ} {t : Taken} (h : c.taken = some t) :
    ∃ consumed, parseRequestHead c.input.buffer = .ok (t.head, t.mode, consumed) ∧
      readBody t.mode (c.input.advance consumed) = (.ok t.payload, t.input) := by
  rw [taken] at h
  split at h
  · cases h
  · split at h
    · cases h
    · rename_i head mode consumed hparse
      split at h
      · cases h
      · rename_i payload input hbody
        cases h
        exact ⟨consumed, hparse, hbody⟩

theorem round_of_taken (env : Env) (handler : Handler σ) {c : Connection σ} {t : Taken}
    (h : c.taken = some t) :
    c.round env handler =
      (afterHead env handler c.progress t.head t.mode (.ok t.payload)).map (⟨t.input, ·⟩)
        id := by
  obtain ⟨consumed, hparse, hbody⟩ := taken_cases h
  rw [round_of_parse hparse hbody]
  cases afterHead env handler c.progress t.head t.mode (.ok t.payload) <;> rfl

theorem taken_size {c : Connection σ} {t : Taken} (h : c.taken = some t) :
    t.input.size < c.input.size := by
  obtain ⟨consumed, hparse, hbody⟩ := taken_cases h
  obtain ⟨hfour, hlen⟩ := findHeadersEnd_le (parseRequestHead_ok hparse).1
  have hadvance := c.input.size_advance hlen
  have hread := readBody_size t.mode (c.input.advance consumed)
  rw [hbody] at hread
  dsimp only at hread
  omega

theorem round_of_not_taken (env : Env) (handler : Handler σ) (handler' : Handler τ)
    {c : Connection σ} (s : τ) (h : c.taken = none) :
    (c.withState s).round env handler' =
      (c.round env handler).map (·.withState s) (·.withState s) := by
  have hinput : (c.withState s).input = c.input := rfl
  have hprogress : (c.withState s).progress = c.progress.withState s := rfl
  rw [round, round, hinput, hprogress]
  by_cases hexceeds : incompleteHeadExceedsLimit c.input.buffer
  · rw [if_pos hexceeds, if_pos hexceeds]
    rfl
  rw [if_neg hexceeds, if_neg hexceeds]
  by_cases hmore : needsMoreHead c.input.buffer
  · rw [if_pos hmore, if_pos hmore]
    rcases c.input.readBuf with ⟨_ | _, input⟩
    · rename_i fault
      cases fault with
      | eof =>
          dsimp only
          split <;> rfl
      | error e => rfl
      | timeout => rfl
    · dsimp only
      split <;> rfl
  · rw [if_neg hmore, if_neg hmore]
    rw [taken, if_neg hmore] at h
    cases hparse : parseRequestHead c.input.buffer with
    | error e => rfl
    | ok parsed =>
        obtain ⟨head, mode, consumed⟩ := parsed
        rw [hparse] at h
        rcases hbody : readBody mode (c.input.advance consumed) with ⟨x | payload, input⟩
        · dsimp only
          rw [hbody, afterHead_fault env handler handler']
          cases afterHead env handler c.progress head mode (.error x) <;> rfl
        · simp [hbody] at h

theorem taken_of_parse {c : Connection σ} {head : Request} {mode : BodyMode} {consumed : Nat}
    {payload : Bytes} {input : Input}
    (hparse : parseRequestHead c.input.buffer = .ok (head, mode, consumed))
    (hbody : readBody mode (c.input.advance consumed) = (.ok payload, input)) :
    c.taken = some ⟨head, mode, payload, input⟩ := by
  have hend := (parseRequestHead_ok hparse).1
  rw [taken, if_neg (by simp [needsMoreHead, hend])]
  simp [hparse, hbody]

theorem exchanges_of_not_taken (env : Env) (handler : Handler σ) {c : Connection σ}
    (h : c.taken = none) :
    (progressAfter (c.round env handler)).exchanges = c.progress.exchanges := by
  have hcase := c.round_case env handler
  generalize c.round env handler = flow at hcase
  cases hcase with
  | tooLarge | badHead => exact exchanges_refuse env _ _ _ _
  | closed | readError => exact exchanges_log_fault c.progress _
  | incomplete | readTimeout =>
      exact (exchanges_refuse env _ _ _ _).trans (exchanges_log_fault c.progress _)
  | more => rfl
  | request head mode consumed body input hparse hbody =>
      cases body with
      | ok payload =>
          rw [taken_of_parse hparse hbody] at h
          cases h
      | error x =>
          cases hflow : afterHead env handler c.progress head mode (.error x) with
          | next p => exact absurd hflow Session.afterHead_error
          | done outcome => exact (afterHead_error_keeps hflow).1

end Connection

/-! ## A task and its connection alone -/

/-- A handler that gives prepared answers. -/
def replay : Handler (List Response) := fun _ answers =>
  (answers.headD (.new .NOT_IMPLEMENTED), answers.tail)

structure Call where
  request : Request
  answer : Response

def Exchange.call (x : Exchange) : Call := ⟨x.request, x.answer⟩

def Progress.answered (p : Progress σ) : List Call := p.exchanges.map Exchange.call

def Progress.answers (p : Progress σ) : List Response := p.answered.map Call.answer

/-- Alone, with the answers it has been given and whatever ones are still to come, the
connection gets to this point. -/
def Connection.IsAlone (clock : Env) (socket : Input) (c : Connection Unit) : Prop :=
  ∀ more, (loop clock replay).Reaches ⟨socket, .start (c.progress.answers ++ more)⟩
    (c.withState more)

def Stage.IsAlone (clock : Env) (socket : Input) : Stage → Prop
  | .reading c => c.IsAlone clock socket
  | .calling p t | .answering p t _ =>
      ∃ c : Connection Unit, c.IsAlone clock socket ∧ c.taken = some t ∧ c.progress = p
  | .finished outcome =>
      ∀ more, Connection.run clock replay socket (outcome.progress.answers ++ more) =
        outcome.withState more

theorem answered_respond (env : Env) (p : Progress Unit) (t : Taken) (answer : Response) :
    (Connection.progressAfter (respond env p t answer)).answered =
      p.answered ++ [⟨t.called, answer⟩] := by
  have hcase := afterHead_ok env (.always answer) p t.head t.mode t.payload
  rw [respond]
  generalize afterHead env (.always answer) p t.head t.mode (.ok t.payload) = flow at hcase
  have hexchanges := congrArg (List.map Exchange.call) (exchanges_exchange p t.head t.mode
    (serve env (.always answer) p.responses p.handlerState
      { t.head with payload := t.payload }))
  rw [List.map_append] at hexchanges
  cases hcase <;> exact hexchanges

theorem answers_respond (env : Env) (p : Progress Unit) (t : Taken) (answer : Response) :
    (Connection.progressAfter (respond env p t answer)).answers = p.answers ++ [answer] := by
  rw [Progress.answers, answered_respond, List.map_append]
  rfl

/-- A round from its parts: what is taken, the answer to it, and the rest. -/
theorem Connection.round_answer (env : Env) {handler : Handler σ} {c : Connection σ} {t : Taken}
    {answer : Response} {s : σ} (h : c.taken = some t)
    (hanswer : handler t.called c.progress.handlerState = (answer, s)) :
    c.round env handler =
      (respond env (c.progress.withState ()) t answer).map (·.withState s)
        (·.withState s) := by
  rw [round_of_taken env handler h, afterHead_answer env t.mode hanswer, respond]
  cases afterHead env (.always answer) (c.progress.withState ()) t.head t.mode
    (.ok t.payload) <;> rfl

/-- A turn of a task follows its connection alone. -/
theorem Stage.IsAlone.step {clock : Env} {socket : Input} {stage : Stage}
    (h : stage.IsAlone clock socket) (handler : Handler σ) (s : σ) :
    (stage.step clock handler s).1.IsAlone clock socket := by
  cases stage with
  | reading c =>
      rw [Stage.step]
      cases htaken : c.taken with
      | some t => exact ⟨c, h, htaken, rfl⟩
      | none =>
          have hround := fun more : List Response =>
            c.round_of_not_taken clock (.always (.new .NOT_IMPLEMENTED)) replay more htaken
          have hanswers := congrArg (fun xs : List Exchange => (xs.map Exchange.call).map Call.answer)
            (c.exchanges_of_not_taken clock (.always (.new .NOT_IMPLEMENTED)) htaken)
          cases hflow : c.round clock (.always (.new .NOT_IMPLEMENTED)) with
          | next c' =>
              rw [hflow] at hround hanswers
              intro more
              rw [show c'.progress.answers = c.progress.answers from hanswers]
              exact .round (h more) (hround more)
          | done outcome =>
              rw [hflow] at hround hanswers
              intro more
              rw [show outcome.progress.answers = c.progress.answers from hanswers,
                Connection.run, (h more).run_eq]
              exact RankedLoop.run_done _ (hround more)
  | calling p t => exact h
  | answering p t answer =>
      obtain ⟨c, hc, htaken, rfl⟩ := h
      have hanswers := answers_respond clock c.progress t answer
      have hround : ∀ more : List Response, (c.withState (answer :: more)).round clock replay =
          (respond clock c.progress t answer).map (·.withState more) (·.withState more) :=
        fun more => (c.withState (answer :: more)).round_answer clock htaken rfl
      rw [Stage.step]
      cases hflow : respond clock c.progress t answer with
      | next c' =>
          rw [hflow] at hround hanswers
          intro more
          rw [show c'.progress.answers = c.progress.answers ++ [answer] from hanswers,
            List.append_assoc, List.singleton_append]
          exact .round (hc (answer :: more)) (hround more)
      | done outcome =>
          rw [hflow] at hround hanswers
          intro more
          rw [show outcome.progress.answers = c.progress.answers ++ [answer] from hanswers,
            List.append_assoc, List.singleton_append, Connection.run,
            (hc (answer :: more)).run_eq]
          exact RankedLoop.run_done _ (hround more)
  | finished outcome => exact h

/-! ## A run by its answers -/

theorem exchanges_run (env : Env) (handler : Handler σ) (c : Connection σ) :
    ∃ more, ((Connection.loop env handler).run c).progress.exchanges =
      c.progress.exchanges ++ more := by
  obtain ⟨events, htrace, -⟩ := c.run_orderly env handler
  exact ⟨events.filterMap Event.exchange?, by
    rw [Progress.exchanges, htrace, List.filterMap_append]; rfl⟩

def AnswersOf (handler : Handler σ) (s : σ) (calls : List Call) : Prop :=
  ∀ front call back, calls = front ++ call :: back →
    call.answer = (handler call.request (stateAfter handler s (front.map Call.request))).1

theorem AnswersOf.left {handler : Handler σ} {s : σ} {calls more : List Call}
    (h : AnswersOf handler s (calls ++ more)) : AnswersOf handler s calls := by
  rintro front call back rfl
  exact h front call (back ++ more) (by simp)

theorem AnswersOf.right {handler : Handler σ} {s : σ} {calls more : List Call}
    (h : AnswersOf handler s (calls ++ more)) :
    AnswersOf handler (stateAfter handler s (calls.map Call.request)) more := by
  rintro front call back rfl
  rw [← stateAfter_append, ← List.map_append]
  exact h (calls ++ front) call back (by simp)

namespace Connection

theorem round_of_answers (env : Env) (handler : Handler σ) (c : Connection (List Response))
    (s : σ) :
    ∃ calls, (progressAfter (c.round env replay)).answered = c.progress.answered ++ calls ∧
      (AnswersOf handler s calls → (c.withState s).round env handler =
        (c.round env replay).map
          (·.withState (stateAfter handler s (calls.map Call.request)))
          (·.withState (stateAfter handler s (calls.map Call.request)))) := by
  cases htaken : c.taken with
  | none =>
      refine ⟨[], ?_, fun _ => c.round_of_not_taken env replay handler s htaken⟩
      rw [Progress.answered, c.exchanges_of_not_taken env replay htaken, List.append_nil]
      rfl
  | some t =>
      obtain ⟨answer, rest, hreplay⟩ :
          ∃ answer rest, replay t.called c.progress.handlerState = (answer, rest) := ⟨_, _, rfl⟩
      have hanswered := answered_respond env (c.progress.withState ()) t answer
      have hround := c.round_answer env htaken hreplay
      refine ⟨[⟨t.called, answer⟩], ?_, fun h => ?_⟩
      · rw [hround]
        cases hflow : respond env (c.progress.withState ()) t answer <;>
          rw [hflow] at hanswered <;> exact hanswered
      · have hanswer : answer = (handler t.called s).1 := h [] _ [] rfl
        have hhandler : (c.withState s).round env handler =
            (respond env (c.progress.withState ()) t answer).map
              (·.withState (handler t.called s).2) (·.withState (handler t.called s).2) :=
          (c.withState s).round_answer env htaken (Prod.ext hanswer.symm rfl)
        rw [hhandler, hround]
        cases respond env (c.progress.withState ()) t answer <;> rfl

/-- A connection alone whose answers are those of a handler is a run with that handler. -/
theorem run_of_answers (env : Env) (handler : Handler σ) (c : Connection (List Response)) :
    ∀ s : σ, (∀ calls, ((loop env replay).run c).progress.answered =
        c.progress.answered ++ calls → AnswersOf handler s calls) →
      ((loop env handler).run (c.withState s)).withState () =
        ((loop env replay).run c).withState () := by
  refine RankedLoop.run_induction (loop env replay) (motive := fun c o => ∀ s : σ,
    (∀ calls, o.progress.answered = c.progress.answered ++ calls → AnswersOf handler s calls) →
      ((loop env handler).run (c.withState s)).withState () = o.withState ())
    (fun c o hround s hanswers => ?_) (fun c c' hround ih s hanswers => ?_) c
  · obtain ⟨calls, hcalls, hstep⟩ := c.round_of_answers env handler s
    rw [show c.round env replay = .done o from hround] at hcalls hstep
    rw [RankedLoop.run_done _ (hstep (hanswers calls hcalls))]
    rfl
  · obtain ⟨calls, hcalls, hstep⟩ := c.round_of_answers env handler s
    rw [show c.round env replay = .next c' from hround] at hcalls hstep
    obtain ⟨more, hmore⟩ := exchanges_run env replay c'
    have htotal := hanswers (calls ++ more.map Exchange.call) (by
      rw [Progress.answered, hmore, List.map_append, ← List.append_assoc, ← hcalls]
      rfl)
    rw [RankedLoop.run_next _ (hstep htotal.left)]
    refine ih _ fun calls' hcalls' => ?_
    have hsame : calls' = more.map Exchange.call := by
      rw [Progress.answered, hmore, List.map_append] at hcalls'
      exact (List.append_cancel_left hcalls').symm
    rw [hsame]
    exact htotal.right

end Connection

/-! ## Calls and turns of one task -/

def Stage.calls : Stage → List Call
  | .reading c => c.progress.answered
  | .calling p _ => p.answered
  | .answering p t answer => p.answered ++ [⟨t.called, answer⟩]
  | .finished outcome => outcome.progress.answered

def Task.call (handler : Handler σ) (task : Task) (s : σ) : Option Call :=
  match task.stage with
  | .calling _ t => some ⟨t.called, (handler t.called s).1⟩
  | _ => none

theorem Task.step_state (handler : Handler σ) (task : Task) (s : σ) :
    (task.step handler s).2 =
      (task.call handler s).elim s fun call => (handler call.request s).2 := by
  rw [step, call]
  cases task.stage with
  | reading c =>
      rw [Stage.step]
      cases c.taken <;> rfl
  | calling | answering | finished => rfl

theorem Task.step_calls (handler : Handler σ) (task : Task) (s : σ) :
    (task.step handler s).1.stage.calls =
      task.stage.calls ++ (task.call handler s).toList := by
  rw [step, call]
  cases task.stage with
  | reading c =>
      rw [Stage.step]
      cases htaken : c.taken with
      | some t => simp [Stage.calls]
      | none =>
          have hexchanges := congrArg (List.map Exchange.call)
            (c.exchanges_of_not_taken task.clock (.always (.new .NOT_IMPLEMENTED)) htaken)
          rw [Option.toList_none, List.append_nil]
          cases hflow : c.round task.clock (.always (.new .NOT_IMPLEMENTED)) <;>
            rw [hflow] at hexchanges <;> exact hexchanges
  | calling p t => rfl
  | answering p t answer =>
      have hanswered := answered_respond task.clock p t answer
      rw [Stage.step, Option.toList_none, List.append_nil, Stage.calls]
      cases hflow : respond task.clock p t answer <;>
        rw [hflow] at hanswered <;> exact hanswered
  | finished outcome => simp [Stage.step]

/-- A bound on the turns a task still takes. -/
def Stage.rank : Stage → Nat
  | .reading c => 3 * c.input.size + 3
  | .calling _ t => 3 * t.input.size + 5
  | .answering _ t _ => 3 * t.input.size + 4
  | .finished _ => 0

theorem Stage.finished_of_rank {stage : Stage} (h : stage.rank = 0) :
    ∃ outcome, stage = .finished outcome := by
  cases stage with
  | finished outcome => exact ⟨outcome, rfl⟩
  | _ => simp [rank] at h

theorem rank_respond (env : Env) (p : Progress Unit) (t : Taken) (answer : Response) :
    (Stage.ofFlow (respond env p t answer)).rank ≤ 3 * t.input.size + 3 := by
  rw [respond]
  cases afterHead env (.always answer) p t.head t.mode (.ok t.payload) with
  | next p => exact Nat.le_refl _
  | done outcome => exact Nat.zero_le _

theorem Stage.rank_step (env : Env) (handler : Handler σ) (stage : Stage) (s : σ) :
    (stage.step env handler s).1.rank ≤ stage.rank - 1 := by
  cases stage with
  | reading c =>
      rw [step]
      cases htaken : c.taken with
      | some t =>
          have hsize := c.taken_size htaken
          simp only [rank]
          omega
      | none =>
          cases hflow : c.round env (.always (.new .NOT_IMPLEMENTED)) with
          | next c' =>
              have hsize := Connection.round_size hflow
              simp only [ofFlow, rank]
              omega
          | done outcome => exact Nat.zero_le _
  | calling p t => simp [step, rank]
  | answering p t answer => simpa [step, rank] using rank_respond env p t answer
  | finished outcome => exact Nat.le_refl _

/-- What a spawned task keeps: where it is, its connection gets to alone, and it has no
more turns ahead of it than at the start. -/
structure Task.Sound (task : Task) : Prop where
  alone : task.stage.IsAlone task.clock task.socket
  rank : task.stage.rank ≤ 3 * task.socket.size + 3

theorem Task.Sound.spawn (id : Nat) (clock : Env) (socket : Input) :
    (Task.spawn id clock socket).Sound where
  alone _ := .start
  rank := Nat.le_refl _

theorem Task.Sound.step {task : Task} (h : task.Sound) (handler : Handler σ) (s : σ) :
    (task.step handler s).1.Sound where
  alone := h.alone.step handler s
  rank := (task.stage.rank_step task.clock handler s).trans
    ((Nat.sub_le _ 1).trans h.rank)

/-! ## Servers -/

namespace Server

/-- The handler calls of a schedule in the order in which they happen, each with the place
of its connection among the accepted ones. -/
def history (handler : Handler σ) (server : Server σ) (events : List ServerEvent) :
    List (Nat × Call) :=
  Pool.history (Task.step handler) (Task.call handler) server.tasks
    (moves server.nextId events)

theorem mem_joined_moves {id : Nat} {events : List ServerEvent} {task : Task}
    (h : task ∈ Pool.joined (moves id events)) :
    ∃ id clock socket, task = .spawn id clock socket := by
  rw [joined_moves, List.mem_mapIdx] at h
  obtain ⟨n, hn, rfl⟩ := h
  exact ⟨_, _, _, rfl⟩

theorem sound_after (handler : Handler σ) (s : σ) (events : List ServerEvent) :
    ∀ task ∈ ((build s).after handler events).tasks.members, task.Sound := by
  rw [tasks_after]
  refine Pool.forall_members (fun task s h => h.step handler s) (by simp [build]) ?_
  intro task htask
  obtain ⟨id, clock, socket, rfl⟩ := mem_joined_moves htask
  exact .spawn id clock socket

theorem iterate_nextIdAfter (n : Nat) : nextIdAfter^[n] 1 = (n + 1) % 2 ^ 64 := by
  induction n with
  | zero => rfl
  | succ n ih =>
      rw [Function.iterate_succ_apply', ih, nextIdAfter]
      omega

/-- No accepted connection is lost or served twice: there is one task for each, in the
order of the accepts and with its own socket, whatever turns the tasks take.  Ids count
from one and are distinct below the range of `next_id`; an accept that failed takes none. -/
theorem tasks_accepted (handler : Handler σ) (s : σ) (events : List ServerEvent) :
    let tasks := ((build s).after handler events).tasks.members
    tasks.map (fun task => (task.clock, task.socket)) = accepted events ∧
    tasks.map Task.id = (List.range (accepted events).length).map (fun n => (n + 1) % 2 ^ 64) ∧
    ((accepted events).length < 2 ^ 64 → (tasks.map Task.id).Nodup) := by
  intro tasks
  have htasks : ∀ {α : Type} (f : Task → α), (∀ task s, f (task.step handler s).1 = f task) →
      tasks.map f = (Pool.joined (moves 1 events)).map f := by
    intro α f hf
    simp only [tasks, tasks_after]
    exact Pool.map_after hf _ _
  have hids : tasks.map Task.id =
      (List.range (accepted events).length).map (fun n => (n + 1) % 2 ^ 64) := by
    rw [htasks Task.id fun _ _ => rfl, joined_moves]
    apply List.ext_getElem
    · simp
    · intro n hn hn'
      simp [Task.spawn, iterate_nextIdAfter]
  refine ⟨?_, hids, fun hfew => ?_⟩
  · rw [htasks _ fun _ _ => rfl, joined_moves]
    apply List.ext_getElem
    · simp
    · intro n hn hn'
      simp [Task.spawn]
  · rw [hids]
    refine List.Nodup.map_on (fun n hn m hm h => ?_) List.nodup_range
    have hnlt := List.mem_range.mp hn
    have hmlt := List.mem_range.mp hm
    omega

theorem foldl_calls (handler : Handler σ) (s : σ) (calls : List Call) :
    calls.foldl (fun s call => (handler call.request s).2) s =
      stateAfter handler s (calls.map Call.request) := by
  rw [stateAfter, List.foldl_map]

theorem history_answers (handler : Handler σ) (s : σ) (events : List ServerEvent) :
    AnswersOf handler s (((build s).history handler events).map Prod.snd) := by
  intro front call back hcalls
  obtain ⟨task, htask⟩ := Pool.effect_of_history (Task.step_state handler) hcalls
  rw [foldl_calls, Task.call] at htask
  split at htask <;> cases htask
  rfl

/-- Each task has made its own part of the calls. -/
theorem history_calls (handler : Handler σ) (s : σ) (events : List ServerEvent) {i : Nat}
    {task : Task} (htask : ((build s).after handler events).tasks.members[i]? = some task) :
    task.stage.calls = Pool.projection i ((build s).history handler events) := by
  have hjoin : ∀ task ∈ Pool.joined (moves 1 events), task.stage.calls = [] := by
    intro task hmem
    obtain ⟨id, clock, socket, rfl⟩ := mem_joined_moves hmem
    rfl
  have hlog := Pool.logAt_after (Task.step_calls handler) (build s).tasks hjoin i
  rw [tasks_after] at htask
  have htaskLog : Pool.logAt (fun task : Task => task.stage.calls)
      ((build s).tasks.after (Task.step handler) (moves 1 events)) i = task.stage.calls := by
    rw [Pool.logAt]
    exact htask ▸ rfl
  rw [← htaskLog, hlog]
  rfl

theorem finished_run {handler : Handler σ} {s : σ} {events : List ServerEvent} {task : Task}
    (htask : task ∈ ((build s).after handler events).tasks.members) {outcome : Outcome Unit}
    (hfinished : task.stage = .finished outcome) :
    (Connection.run task.clock replay task.socket outcome.progress.answers).withState () =
      outcome := by
  have halone := (sound_after handler s events task htask).alone
  rw [hfinished] at halone
  have hrun := halone []
  rw [List.append_nil] at hrun
  rw [hrun]
  rfl

/-- A task does what its connection does alone, with a handler that gives the answers this
one was given.  A finished one handled the same requests, wrote the same bytes and ended
alike; one at the head of the loop is where that connection comes by. -/
theorem tasks_alone (handler : Handler σ) (s : σ) (events : List ServerEvent) :
    ∀ task ∈ ((build s).after handler events).tasks.members,
      (∀ outcome, task.stage = .finished outcome →
        (Connection.run task.clock replay task.socket outcome.progress.answers).withState () =
          outcome) ∧
      ∀ c, task.stage = .reading c →
        (Connection.loop task.clock replay).Reaches ⟨task.socket, .start c.progress.answers⟩
          (c.withState []) := by
  intro task htask
  refine ⟨fun outcome hfinished => finished_run htask hfinished, fun c hreading => ?_⟩
  have halone := (sound_after handler s events task htask).alone
  rw [hreading] at halone
  have hreach := halone []
  rwa [List.append_nil] at hreach

def numbering : Handler Nat := fun _ n =>
  ({ Response.new .OK with body := .full (toDecimal n) }, n + 1)

/-- Two clients whose requests are numbered as they come: one has got its answer, the other
one is between its two requests. -/
theorem tasks_alone_two :
    let server := (build 0).after numbering
      [.accepted .atEpoch ⟨wirePost.bytes ++ wireGet.bytes, []⟩,
        .accepted .atEpoch ⟨wireGet.bytes, []⟩,
        .turn 0, .turn 1, .turn 1, .turn 0, .turn 1, .turn 0, .turn 1]
    (∃ task outcome, task ∈ server.tasks.members ∧ task.stage = .finished outcome ∧
      task.stage.calls.map (fun call => call.request.method) = [.get] ∧
      (Connection.run task.clock replay task.socket outcome.progress.answers).withState () =
        outcome) ∧
    ∃ task c, task ∈ server.tasks.members ∧ task.stage = .reading c ∧
      task.stage.calls.map (fun call => call.request.method) = [.post] ∧
      (Connection.loop task.clock replay).Reaches ⟨task.socket, .start c.progress.answers⟩
        (c.withState []) := by
  intro server
  obtain ⟨first, hfirst, hbetween, hposted⟩ : ∃ task ∈ server.tasks.members,
      (match task.stage with | .reading _ => true | _ => false) = true ∧
        task.stage.calls.map (fun call => call.request.method) = [.post] := by
    decide +kernel
  obtain ⟨second, hsecond, hrank, hgot⟩ : ∃ task ∈ server.tasks.members,
      task.stage.rank = 0 ∧ task.stage.calls.map (fun call => call.request.method) = [.get] := by
    decide +kernel
  obtain ⟨outcome, hfinished⟩ := Stage.finished_of_rank hrank
  refine ⟨⟨second, outcome, hsecond, hfinished, hgot,
    (tasks_alone numbering 0 _ second hsecond).1 _ hfinished⟩, ?_⟩
  cases hstage : first.stage with
  | reading c =>
      exact ⟨first, c, hfirst, hstage, hposted,
        (tasks_alone numbering 0 _ first hfirst).2 c hstage⟩
  | calling | answering | finished =>
      rw [hstage] at hbetween
      cases hbetween

/-- Where answers do not depend on earlier calls, a finished task did what its connection
does alone with the same handler. -/
theorem finished_stateless (handler : Handler σ) (s : σ) (events : List ServerEvent)
    (hstateless : ∀ request s s', (handler request s).1 = (handler request s').1) :
    ∀ task ∈ ((build s).after handler events).tasks.members, ∀ outcome,
      task.stage = .finished outcome → ∀ s',
        (Connection.run task.clock handler task.socket s').withState () = outcome := by
  intro task htask outcome hfinished s'
  have halone := finished_run htask hfinished
  obtain ⟨i, hi⟩ := List.getElem?_of_mem htask
  have htaskCalls := history_calls handler s events hi
  rw [hfinished] at htaskCalls
  rw [← halone]
  refine Connection.run_of_answers task.clock handler
    ⟨task.socket, .start outcome.progress.answers⟩ s' fun calls hadded => ?_
  have hsame : calls = outcome.progress.answered := by
    rw [← halone]
    exact hadded.symm
  rintro front call back rfl
  have hmem : call ∈ Pool.projection i ((build s).history handler events) := by
    rw [← htaskCalls, Stage.calls, ← hsame]
    simp
  obtain ⟨c, hc, rfl⟩ := List.mem_map.mp hmem
  obtain ⟨before, behind, hsplit⟩ :=
    List.append_of_mem (List.mem_map_of_mem (f := Prod.snd) (List.mem_filter.mp hc).1)
  rw [history_answers handler s events before c.2 behind hsplit]
  exact hstateless _ _ _

def echoing : Handler Nat := fun request n =>
  ({ Response.new .OK with body := .full request.payload }, n + 1)

/-- A client with two requests beside one that gets in between; alone, too, it gets what it
sent, whatever the count. -/
theorem finished_stateless_two :
    let server := (build 0).after echoing
      [.accepted .atEpoch ⟨wirePost.bytes ++ wireGet.bytes, []⟩,
        .accepted .atEpoch ⟨wireGet.bytes, []⟩,
        .turn 0, .turn 1, .turn 1, .turn 0, .turn 1, .turn 0, .turn 0, .turn 0, .turn 0, .turn 0]
    ∃ task outcome, task ∈ server.tasks.members ∧ task.stage = .finished outcome ∧
      task.stage.calls.map (fun call => call.request.method) = [.post, .get] ∧
      ∀ n, (Connection.run task.clock echoing task.socket n).withState () = outcome := by
  intro server
  obtain ⟨task, htask, hrank, hcalls⟩ : ∃ task ∈ server.tasks.members,
      task.stage.rank = 0 ∧
        task.stage.calls.map (fun call => call.request.method) = [.post, .get] := by
    decide +kernel
  obtain ⟨outcome, hfinished⟩ := Stage.finished_of_rank hrank
  exact ⟨task, outcome, htask, hfinished, hcalls,
    finished_stateless echoing 0 _ (fun _ _ _ => rfl) task htask outcome hfinished⟩

end Server

end GooseHttp
