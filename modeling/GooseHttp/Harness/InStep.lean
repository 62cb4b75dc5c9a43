import GooseHttp.Harness.Routes
import GooseHttp.HeadMirror
import GooseHttp.Service
/-!
# Clients of the harness

Every answer of the harness leaves framing to the server, but for the length it puts on an
answer to HEAD.  So each client of a server that runs it gets one whole response for each of
its requests (`clients_served`), and HEAD is answered like GET on every resource
(`head_mirrors_get`).
-/

namespace GooseHttp

open Lib Client

namespace Harness

/-! ## Responses as they are built -/

theorem leaves_new {status : StatusCode} (h : 200 ≤ status.asU16) :
    LeavesFraming (.new status) where
  final := h
  streams _ hitems := by cases hitems
  reason _ hreason := by cases hreason
  fields _ hl := by cases hl
  trailers _ hl := by cases hl

/-- A field line that stays a line and has no part in framing. -/
def IsFreeField (name : HeaderName) (value : Text) : Prop :=
  isToken name.text = true ∧ CR ∉ value ∧ name ≠ HeaderKeys.contentLength ∧
    name ≠ HeaderKeys.transferEncoding ∧ name ≠ HeaderKeys.connection

instance (name : HeaderName) (value : Text) : Decidable (IsFreeField name value) :=
  inferInstanceAs (Decidable (_ ∧ _))

theorem leaves_withField {r : Response} (h : LeavesFraming r) {name : HeaderName} {value : Text}
    (hfield : IsFreeField name value) : LeavesFraming (withField r name value) where
  final := h.final
  streams := h.streams
  reason := h.reason
  fields := Headers.forall_lines_insert h.fields
    (isOpenField_of_ne hfield.1 hfield.2.1 hfield.2.2)
  trailers := h.trailers

theorem leaves_withAge {r : Response} (h : LeavesFraming r) : LeavesFraming (withAge r) := by
  rw [withAge, ensureAgeHeader]
  split
  · exact h
  · exact leaves_withField h (by decide)

theorem leaves_setBody {r : Response} (h : LeavesFraming r) {body : ResponseBody}
    (hbody : ∀ items, body ≠ .stream items) : LeavesFraming (setBody r body) where
  final := h.final
  streams items hitems := absurd hitems (hbody items)
  reason := h.reason
  fields := h.fields
  trailers := h.trailers

theorem leaves_full {r : Response} (h : LeavesFraming r) (bytes : Bytes) :
    LeavesFraming (r.setBodyBytes bytes) := leaves_setBody h (by simp)

theorem leaves_empty {r : Response} (h : LeavesFraming r) : LeavesFraming (setBody r .empty) :=
  leaves_setBody h (by simp)

theorem leaves_fresh {contentType cacheControl : Text} (body : Bytes)
    (htype : IsFreeField HeaderKeys.contentType contentType)
    (hcontrol : IsFreeField HeaderKeys.cacheControl cacheControl) :
    LeavesFraming (fresh contentType cacheControl body) :=
  leaves_full (leaves_withAge (leaves_withField (leaves_withField (leaves_new (by decide)) htype)
    hcontrol)) body

theorem leaves_allowing {status : StatusCode} (h : 200 ≤ status.asU16) :
    LeavesFraming (allowing status) :=
  leaves_empty (leaves_withAge (leaves_withField (leaves_withField (leaves_new h) (by decide))
    (by decide)))

theorem leaves_notImplementedResponse : LeavesFraming notImplementedResponse :=
  leaves_empty (leaves_withAge (leaves_withField (leaves_new (by decide)) (by decide)))

theorem leaves_serveCacheValidator (request : Request) :
    LeavesFraming (serveCacheValidator request) := by
  have hok : LeavesFraming (.new .OK) := leaves_new (by decide)
  have hnotModified : LeavesFraming (.new .NOT_MODIFIED) := leaves_new (by decide)
  rw [serveCacheValidator]
  split
  · exact leaves_withAge (leaves_withField (leaves_withField (leaves_withField hnotModified
      (by decide)) (by decide)) (by decide))
  · exact leaves_full (leaves_withAge (leaves_withField (leaves_withField (leaves_withField
      (leaves_withField hok (by decide)) (by decide)) (by decide)) (by decide))) _

theorem leaves_serveCacheImmutable (request : Request) :
    LeavesFraming (serveCacheImmutable request) :=
  leaves_full (leaves_withAge (leaves_withField (leaves_withField (leaves_withField
    (leaves_new (by decide)) (by decide)) (by decide)) (by decide))) _

theorem leaves_serveVaryAcceptLanguage (request : Request) :
    LeavesFraming (serveVaryAcceptLanguage request) :=
  leaves_full (leaves_withAge (leaves_withField (leaves_withField (leaves_withField
    (leaves_new (by decide)) (by decide)) (by decide)) (by decide))) _

theorem leaves_applyRangeDemoHeaders {r : Response} (h : LeavesFraming r) :
    LeavesFraming (applyRangeDemoHeaders r) :=
  leaves_withAge (leaves_withField (leaves_withField (leaves_withField (leaves_withField
    (leaves_withField h (by decide)) (by decide)) (by decide)) (by decide)) (by decide))

theorem cr_not_mem_toDecimal (n : Nat) : CR ∉ toDecimal n :=
  not_mem_of_graphic (isGraphic_formatRadix (by decide) (by decide)) (by decide)

theorem cr_not_mem_formatContentRange (range : SatisfiableRange) (total : UInt64) :
    CR ∉ formatContentRange range total := by
  have hbytes : CR ∉ ascii "bytes " := by decide
  have hdash : CR ∉ ascii "-" := by decide
  have hslash : CR ∉ ascii "/" := by decide
  simp [formatContentRange, cr_not_mem_toDecimal, hbytes, hdash, hslash]

theorem cr_not_mem_formatUnsatisfiedRange (total : UInt64) :
    CR ∉ formatUnsatisfiedRange total := by
  have hbytes : CR ∉ ascii "bytes */" := by decide
  simp [formatUnsatisfiedRange, cr_not_mem_toDecimal, hbytes]

theorem RangeAnswer.leaves {files : Fixtures}
    {asked : Option (Except RangeParseError (List RangeSpec))} {r : Response}
    (h : RangeAnswer files asked r) : LeavesFraming r := by
  cases h with
  | whole hasked =>
      exact leaves_full (leaves_applyRangeDemoHeaders (leaves_new (by decide))) _
  | unsatisfied specs hasked hnone =>
      exact leaves_empty (leaves_withField (leaves_applyRangeDemoHeaders (leaves_new (by decide)))
        ⟨by decide, cr_not_mem_formatUnsatisfiedRange _, by decide⟩)
  | slice front spec back range hasked hfront hrange =>
      exact leaves_full (leaves_withField (leaves_applyRangeDemoHeaders (leaves_new (by decide)))
        ⟨by decide, cr_not_mem_formatContentRange _ _, by decide⟩) _

/-! ## Answers -/

section
variable {files : Fixtures} {now : Nat × Nat}

theorem leaves_handleGetRoute {path : Text} {request : Request} {r : Response}
    (h : handleGetRoute files now path request = some r) : LeavesFraming r := by
  obtain ⟨answer, hanswer, hrange⟩ := serveRangeDemo_answer files request
  simp only [handleGetRoute, hanswer] at h
  split_ifs at h <;> cases h
  · exact leaves_fresh _ (by decide) (by decide)
  · exact leaves_new (by decide)
  · exact leaves_fresh _ (by decide) (by decide)
  · exact leaves_fresh _ (by decide) (by decide)
  · exact leaves_serveCacheValidator request
  · exact leaves_serveCacheImmutable request
  · exact leaves_serveVaryAcceptLanguage request
  · exact hrange.leaves
  · exact leaves_new (by decide)

inductive HarnessAnswer (request : Request) : Response → Prop
  | plain {r : Response} (hr : LeavesFraming r) : HarnessAnswer request r
  | head {r : Response} (hr : LeavesFraming r) (hmethod : request.method = .head) :
      HarnessAnswer request (normalizeHeadResponse r)

theorem harnessHandler_answer {request : Request} {r : Response}
    (h : harnessHandler files now request = some r) : HarnessAnswer request r := by
  have hnotFound : LeavesFraming (.new statusNotFound) := leaves_new (by decide)
  have hbadRequest : LeavesFraming (.new .BAD_REQUEST) := leaves_new (by decide)
  have hmethod : LeavesFraming methodNotAllowed := leaves_allowing (by decide)
  unfold harnessHandler dispatchRequest at h
  cases hcase : request.method with
  | get =>
      simp only [hcase, handleGet] at h
      split at h
      · exact .plain (leaves_handleGetRoute h)
      all_goals cases h
      · exact .plain hbadRequest
      · exact .plain hnotFound
      · exact .plain hnotFound
  | head =>
      simp only [hcase, handleHead] at h
      split at h
      · obtain ⟨answer, hanswer, rfl⟩ := Option.map_eq_some_iff.mp h
        exact .head (leaves_handleGetRoute hanswer) hcase
      all_goals cases h
      · exact .head hmethod hcase
      · exact .plain hnotFound
      · exact .plain hnotFound
  | post =>
      simp only [hcase, handlePost] at h
      cases h
      split
      · split
        · exact .plain (leaves_fresh _ (by decide) (by decide))
        · exact .plain hnotFound
      · exact .plain hbadRequest
      · exact .plain hnotFound
      · exact .plain hnotFound
  | options =>
      simp only [hcase] at h
      cases h
      exact .plain (leaves_allowing (by decide))
  | extension token =>
      simp only [hcase] at h
      cases h
      exact .plain leaves_notImplementedResponse
  | put | delete | connect | trace | patch =>
      simp only [hcase] at h
      cases h
      exact .plain hmethod

end

theorem normalizeHeadResponse_eq (r : Response) :
    normalizeHeadResponse r = r.stripBodyForHead := by
  rw [normalizeHeadResponse, Response.stripBodyForHead]
  cases r.body <;> rfl

theorem HarnessService.handle_eq (service : HarnessService) (request : Request) (n : Nat) :
    harnessHandler service.files (service.clock n) request =
      some (service.handle request n).1 := (Option.some_get _).symm

/-- The harness keeps the client of every request in step. -/
theorem HarnessService.keepsStep (service : HarnessService) (env : Env) {request : Request}
    (hrequest : IsPersistent request) : service.handle.KeepsStep env request := by
  intro n s
  have hcase := harnessHandler_answer (service.handle_eq { request with body := .empty } s)
  generalize hanswer : (service.handle { request with body := .empty } s).1 = answer at hcase
  cases hcase with
  | plain hleaves => exact serve_leaves env (hanswer ▸ hleaves) hrequest n
  | head hleaves hmethod =>
      rw [normalizeHeadResponse_eq] at hanswer
      exact serve_strip_head env hleaves hanswer hmethod hrequest n

/-- Each client of a server that runs the harness gets one whole response for each of its
requests, whichever they are, and whatever other clients ask for meanwhile. -/
theorem clients_served (service : HarnessService) (n : Nat) (events : List ServerEvent) {i : Nat}
    {task : Task}
    (htask : ((Server.build n).after service.handle events).tasks.members[i]? = some task)
    {outcome : Outcome Unit} (hfinished : task.stage = .finished outcome)
    {requests : List Request} (hclean : task.socket.Clean)
    (hinput : Pipelined task.socket.all requests)
    (hrequests : ∀ request ∈ requests, IsPersistent request) :
    outcome.result = .ok () ∧
      outcome.progress.calls = requests.map (fun r => { r with body := .empty }) ∧
      lenient.splitFinals (requests.map Request.method) outcome.progress.written =
        .ok (outcome.progress.exchanges.map fun x => x.written.bytes, []) := by
  obtain ⟨hresult, hcalls, hhistory, hsplit⟩ := Server.clients_inStep_of_step service.handle n
    events htask hfinished hclean hinput fun request hrequest =>
      service.keepsStep task.clock (hrequests request hrequest)
  refine ⟨hresult, ?_, hsplit⟩
  rw [← hcalls, ← hhistory, Progress.answered, List.map_map]
  rfl

def tenBytes : HarnessService :=
  ⟨⟨ascii "<html></html>", ascii "0123456789", by decide⟩, fun n => (n, 0)⟩

/-- A client that asks with HEAD, next to one that has not sent its request yet. -/
theorem clients_served_head :
    let server := (Server.build 0).after tenBytes.handle
      [.accepted .atEpoch ⟨wireHead.bytes, []⟩, .accepted .atEpoch ⟨[], [.timeout]⟩,
        .turn 0, .turn 1, .turn 0, .turn 0, .turn 0]
    ∃ task outcome, server.tasks.members[0]? = some task ∧ task.stage = .finished outcome ∧
      lenient.splitFinals [.head] outcome.progress.written =
        .ok (outcome.progress.exchanges.map fun x => x.written.bytes, []) := by
  intro server
  obtain ⟨task, outcome, htask, hfinished, hsocket⟩ : ∃ task outcome,
      server.tasks.members[0]? = some task ∧ task.stage = .finished outcome ∧
        task.socket = ⟨wireHead.bytes, []⟩ := Server.exists_finished (by decide +kernel) rfl
  have hinput : Pipelined task.socket.all [wireHead.request] := by
    rw [hsocket, Input.all_of_incoming_nil rfl]
    exact pipelined_bytes [wireHead]
  obtain ⟨-, -, hsplit⟩ := clients_served tenBytes 0 _ htask hfinished (by rw [hsocket]; decide)
    hinput (by unfold IsPersistent; decide +kernel)
  exact ⟨task, outcome, htask, hfinished, hsplit⟩

/-! ## HEAD and GET -/

section
variable {files : Fixtures} {now : Nat × Nat}

theorem RangeAnswer.known {asked : Option (Except RangeParseError (List RangeSpec))}
    {r : Response} (h : RangeAnswer files asked r) : ∀ items, r.body ≠ .stream items := by
  intro items hitems
  cases h <;> cases hitems

theorem known_serveCacheValidator (request : Request) :
    ∀ items, (serveCacheValidator request).body ≠ .stream items := by
  intro items hitems
  rw [serveCacheValidator] at hitems
  split at hitems <;> cases hitems

theorem known_handleGetRoute {path : Text} {request : Request} {r : Response}
    (h : handleGetRoute files now path request = some r) : ∀ items, r.body ≠ .stream items := by
  obtain ⟨answer, hanswer, hrange⟩ := serveRangeDemo_answer files request
  simp only [handleGetRoute, hanswer] at h
  intro items hitems
  split_ifs at h <;> cases h
  · cases hitems
  · cases hitems
  · cases hitems
  · cases hitems
  · exact known_serveCacheValidator request items hitems
  · cases hitems
  · cases hitems
  · exact hrange.known items hitems
  · cases hitems

theorem known_harnessHandler {request : Request} {r : Response} (hmethod : request.method = .get)
    (h : harnessHandler files now request = some r) : ∀ items, r.body ≠ .stream items := by
  simp only [harnessHandler, dispatchRequest, hmethod, handleGet] at h
  split at h
  · exact known_handleGetRoute h
  all_goals
    cases h
    simp [Response.new]

theorem harnessHandler_head {request : Request} (hmethod : request.method = .get)
    (htarget : request.target ≠ .asterisk) :
    harnessHandler files now { request with method := .head } =
      (harnessHandler files now request).map Response.stripBodyForHead := by
  have hnormalize : normalizeHeadResponse = Response.stripBodyForHead :=
    funext normalizeHeadResponse_eq
  simp only [harnessHandler, dispatchRequest, hmethod, handleGet, handleHead]
  cases hcase : request.target with
  | origin path =>
      dsimp only
      rw [hnormalize]
      rfl
  | asterisk => exact absurd hcase htarget
  | absolute | authority => rfl

end

theorem target_ne_asterisk {σ : Type} {c : Connection σ} {request : Request} (h : c.Takes request)
    (hmethod : request.method ≠ .options) : request.target ≠ .asterisk := by
  obtain ⟨head, mode, consumed, payload, input, hparse, -, rfl⟩ := h
  obtain ⟨line, lines, fields, rest, -, -, -, hhead⟩ := parseRequestHead_ok_iff.mp hparse
  obtain ⟨-, -, -, htarget, -⟩ := parseRequestLine_ok hhead.start
  intro hasterisk
  have hasterisk : head.target = .asterisk := hasterisk
  rw [hasterisk, parseRequestTarget, RequestTarget.asStr, if_pos rfl, if_neg hmethod] at htarget
  cases htarget

/-- On every resource, and whatever conditional or range fields a request has, HEAD is
answered by the head of the response to GET, with the length of the body that GET has if
there is one; only for an empty body the length may be left out. -/
theorem head_mirrors_get (service : HarnessService) (env : Env) {c c' : Connection Nat}
    {text : Bytes} {request : Request} {x : Exchange} (hsame : c.SameButHead c' text)
    (hroom : HasRoom c.input.buffer) (hget : c.Answers env service.handle request x) :
    ∃ x', c'.Answers env service.handle { request with method := .head } x' ∧
      HeadAgrees x.written x'.written ∧
      ∀ content, x.written.content = some content → content ≠ [] →
        x'.written.values HeaderKeys.contentLength = [toDecimal content.length] := by
  have hmethod := hsame.method hget.1
  refine ⟨_, ⟨(hsame.takes_iff hget.1).mpr hroom, rfl⟩, ?_⟩
  have htarget := target_ne_asterisk hget.1 (by rw [hmethod]; decide)
  have hsome := service.handle_eq { request with body := .empty } c.progress.handlerState
  have hsome' := service.handle_eq { request with method := .head, body := .empty }
    c.progress.handlerState
  generalize hanswer : (service.handle { request with body := .empty }
    c.progress.handlerState).1 = answer at hsome
  have hstrip : (service.handle { request with method := .head, body := .empty }
      c.progress.handlerState).1 = answer.stripBodyForHead := by
    have hmirror : harnessHandler service.files (service.clock c.progress.handlerState)
        { request with method := .head, body := .empty } =
          (harnessHandler service.files (service.clock c.progress.handlerState)
            { request with body := .empty }).map Response.stripBodyForHead :=
      harnessHandler_head hmethod htarget
    rw [hsome, hsome'] at hmirror
    exact Option.some.inj hmirror
  have hleaves : LeavesFraming answer := by
    cases harnessHandler_answer hsome with
    | plain hleaves => exact hleaves
    | head hleaves hother =>
        rw [show request.method = .head from hother] at hmethod
        cases hmethod
  have hstripped : Stripped (prepare env request answer)
      (prepare env { request with method := .head } answer.stripBodyForHead) :=
    (stripBodyForHead_stripped (known_harnessHandler hmethod hsome)).prepare env hmethod
  have hx : x.written = writeResponse (env.now c.progress.responses).text
      (prepare env request answer) .get (directiveFor request (prepare env request answer)) := by
    rw [hget.2, serve_written, hanswer]
    dsimp only
    rw [hmethod]
  rw [hx, serve_written, hsame.state, hstrip]
  have hdirective := hstripped.directiveFor_eq request
  dsimp only at hdirective ⊢
  rw [hdirective]
  exact (hleaves.prepare env request).head_agrees hstripped _ _ _

/-- The index page of the harness. -/
theorem head_mirrors_get_index :
    ∃ x x', Connection.Answers .atEpoch tenBytes.handle ⟨⟨wireGet.bytes, []⟩, .start 0⟩
        wireGet.request x ∧
      Connection.Answers .atEpoch tenBytes.handle ⟨⟨wireHead.bytes, []⟩, .start 0⟩
        { wireGet.request with method := .head } x' ∧
      HeadAgrees x.written x'.written ∧
      ∃ content, x.written.content = some content ∧ content ≠ [] ∧
        x'.written.values HeaderKeys.contentLength = [toDecimal content.length] := by
  have hget : Connection.Answers .atEpoch tenBytes.handle ⟨⟨wireGet.bytes, []⟩, .start 0⟩
      wireGet.request (serve .atEpoch tenBytes.handle 0 0 wireGet.request).1 :=
    ⟨List.append_nil wireGet.bytes ▸ wireGet.takes [] (.start 0), rfl⟩
  obtain ⟨x', hhead, hagrees, hlength⟩ := head_mirrors_get tenBytes .atEpoch
    (wireGet_sameButHead (.start 0) (.start 0) rfl) wireGet_hasRoom hget
  have hcontent : ((serve .atEpoch tenBytes.handle 0 0
      wireGet.request).1.written.content.any fun content => content ≠ []) = true := by
    decide +kernel
  obtain ⟨content, hsome, hne⟩ := (Option.any_eq_true _ _).mp hcontent
  have hne : content ≠ [] := by simpa using hne
  exact ⟨_, x', hget, hhead, hagrees, content, hsome, hne, hlength content hsome hne⟩

end Harness

end GooseHttp
