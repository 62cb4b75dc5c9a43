import GooseHttp.Pipeline
import GooseHttp.RoundTrip
import GooseHttp.Routing
/-!
# Responses in step with requests

Whether a client that splits the output of a connection by the framing rules finds one
response for each of its requests.  Each stage of an answer (router, HEAD fallback,
preconditions, writer) is followed with one question: how many bytes of what comes next a
client takes for the body of this response.  A connection is in step exactly when the
answer is none for every response.
-/

namespace GooseHttp

open Lib Client

variable {σ : Type}

/-! ## Clients that take too much -/

namespace Client

/-- Reading these bytes as a final response, a client takes `extra` bytes of what
follows, and waits for them if they do not come. -/
def Overreads (c : Client) (method : Method) (bytes : Bytes) (extra : Nat) : Prop :=
  ∀ rest : Bytes,
    (rest.length < extra → c.readReply method (bytes ++ rest) = .error .incomplete) ∧
    (extra ≤ rest.length → ∃ reply,
      c.readReply method (bytes ++ rest) = .ok (reply, rest.drop extra) ∧ 200 ≤ reply.status)

theorem finalLoop_of_short {c : Client} {method : Method} {bytes rest : Bytes} {extra : Nat}
    (h : c.Overreads method bytes extra) (hlen : rest.length < extra) :
    (c.finalLoop method).run (bytes ++ rest) = .error .incomplete := by
  apply RankedLoop.run_done
  simp only [finalLoop, (h rest).1 hlen]

theorem finalLoop_of_overreads {c : Client} {method : Method} {bytes rest : Bytes}
    {extra : Nat} (h : c.Overreads method bytes extra) (hlen : extra ≤ rest.length) :
    (c.finalLoop method).run (bytes ++ rest) =
      .ok (bytes ++ rest.take extra, rest.drop extra) := by
  obtain ⟨reply, hreply, hfinal⟩ := (h rest).2 hlen
  have htake : (bytes ++ rest).take ((bytes ++ rest).length - (rest.drop extra).length) =
      bytes ++ rest.take extra := by
    have hcount : (bytes ++ rest).length - (rest.drop extra).length = bytes.length + extra := by
      rw [List.length_append, List.length_drop]
      omega
    rw [hcount, List.take_length_add_append]
  apply RankedLoop.run_done
  simp only [finalLoop, hreply]
  rw [if_neg (by omega), htake]

theorem finalLoop_continue (method : Method) (rest : Bytes) :
    (lenient.finalLoop method).run (continueBytes ++ rest) =
      (lenient.finalLoop method).run rest := by
  have hhead : continueBytes =
      headBytes .http11 ⟨100, by decide, by decide⟩ (ascii "Continue") Headers.empty := by decide
  have hbodiless : responseAllowsBody ⟨100, by decide, by decide⟩ method = false := rfl
  apply RankedLoop.run_next
  simp only [finalLoop]
  rw [hhead, lenient.readReply_head method rest (by decide) (fun l hl => by cases hl),
    framing_bodiless _ hbodiless]
  rfl

/-- A client splits a stream at the end of a final response exactly if it takes nothing of
what follows. -/
theorem splitFinals_of_overreads {c : Client} {method : Method} {methods : List Method}
    {bytes rest : Bytes} {finals : List Bytes} {extra : Nat}
    (h : c.Overreads method bytes extra) :
    c.splitFinals (method :: methods) (bytes ++ rest) = .ok (bytes :: finals, []) ↔
      extra = 0 ∧ c.splitFinals methods rest = .ok (finals, []) := by
  rcases Nat.lt_or_ge rest.length extra with hlt | hle
  · rw [splitFinals, finalLoop_of_short h hlt]
    refine iff_of_false (fun hsplit => by cases hsplit) ?_
    rintro ⟨rfl, -⟩
    exact Nat.not_lt_zero _ hlt
  · rw [splitFinals, finalLoop_of_overreads h hle]
    dsimp only
    constructor
    · intro hsplit
      cases htail : c.splitFinals methods (rest.drop extra) with
      | error e =>
          rw [htail] at hsplit
          cases hsplit
      | ok split =>
          simp only [htail, Except.map, Except.ok.injEq, Prod.mk.injEq, List.cons.injEq,
            List.append_right_eq_self, List.take_eq_nil_iff] at hsplit
          obtain ⟨⟨hnone, hfinals⟩, hrest⟩ := hsplit
          have hzero : extra = 0 := by
            rcases hnone with hzero | hempty
            · exact hzero
            · rw [hempty] at hle
              exact Nat.le_zero.mp hle
          rw [hzero, List.drop_zero] at htail
          rw [htail, ← hfinals, ← hrest]
          exact ⟨hzero, rfl⟩
    · rintro ⟨rfl, htail⟩
      rw [List.take_zero, List.append_nil, List.drop_zero, htail]
      rfl

end Client

/-! ## Responses that leave framing to the server -/

/-- A field line that reaches a client as a line of its own and does not read as a
framing or connection field. -/
structure IsOpenField (l : HeaderName × Text) : Prop where
  reads : lenient.Reads l
  length : (wireField l).1 ≠ HeaderKeys.contentLength
  coding : (wireField l).1 ≠ HeaderKeys.transferEncoding
  connection : (wireField l).1 ≠ HeaderKeys.connection

/-- A final response whose text has no line ends and whose framing is left to the server. -/
structure LeavesFraming (r : Response) : Prop where
  final : 200 ≤ r.status.asU16
  streams : r.StreamsCleanly
  reason : ∀ reason, r.reason = some reason → CR ∉ reason
  fields : ∀ l ∈ r.headers.lines, IsOpenField l
  trailers : ∀ l ∈ trailerLines r.trailers, lenient.Reads l

theorem lenient_reads {l : HeaderName × Text} (h : IsPlainField l) : lenient.Reads l :=
  h.reads fun _ _ => rfl

theorem contains_of_lines_ne {h : Headers} {name : HeaderName} (hne : ∀ l ∈ h.lines, l.1 ≠ name) :
    h.contains name = false := by
  rw [← Headers.values_eq_nil_iff]
  by_contra hsome
  obtain ⟨value, hvalue⟩ := List.exists_mem_of_ne_nil _ hsome
  exact hne _ (Headers.mem_lines_iff.mpr hvalue) rfl

theorem wireField_fst {l : HeaderName × Text} (hname : isToken l.1.text = true) :
    (wireField l).1 = l.1 := by
  rw [wireField, wireParts_of_token hname, HeaderName.new_text]

theorem isOpenField_of_ne {l : HeaderName × Text} (hname : isToken l.1.text = true)
    (hvalue : CR ∉ l.2) (hne : l.1 ≠ HeaderKeys.contentLength ∧
      l.1 ≠ HeaderKeys.transferEncoding ∧ l.1 ≠ HeaderKeys.connection) : IsOpenField l := by
  refine ⟨⟨not_mem_of_isToken hname (by decide), hvalue, rfl⟩, ?_, ?_, ?_⟩
  · rw [wireField_fst hname]
    exact hne.1
  · rw [wireField_fst hname]
    exact hne.2.1
  · rw [wireField_fst hname]
    exact hne.2.2

namespace LeavesFraming

theorem contains_framing {r : Response} (h : LeavesFraming r) :
    r.headers.contains HeaderKeys.contentLength = false ∧
      r.headers.contains HeaderKeys.transferEncoding = false ∧
      r.headers.contains HeaderKeys.connection = false := by
  have habsent : ∀ name : HeaderName, isToken name.text = true →
      (∀ l ∈ r.headers.lines, (wireField l).1 ≠ name) → r.headers.contains name = false := by
    intro name htoken hseen
    apply contains_of_lines_ne
    rintro l hl rfl
    exact hseen l hl (wireField_fst htoken)
  exact ⟨habsent _ (by decide) fun l hl => (h.fields l hl).length,
    habsent _ (by decide) fun l hl => (h.fields l hl).coding,
    habsent _ (by decide) fun l hl => (h.fields l hl).connection⟩

theorem replaceByStatus {r : Response} (h : LeavesFraming r) {status : StatusCode}
    (hstatus : status = .NOT_MODIFIED ∨ status = .PRECONDITION_FAILED) :
    LeavesFraming (replaceByStatus r status) where
  final := by
    have hfinal : 200 ≤ status.asU16 := by rcases hstatus with rfl | rfl <;> decide
    exact hfinal
  streams := by
    intro items hitems
    cases hitems
  reason := h.reason
  fields := forall_lines_replaceByStatus status h.fields
  trailers := by
    intro l hl
    cases hl

theorem prepare {r : Response} (h : LeavesFraming r) (env : Env) (request : Request) :
    LeavesFraming (prepare env request r) := by
  rcases prepare_cases env request r with hp | ⟨status, hstatus, hp⟩
  · rw [hp]
    exact h
  · rw [hp]
    exact h.replaceByStatus hstatus

theorem stripBodyForHead {r : Response} (h : LeavesFraming r)
    (hbody : ∀ bytes, r.body ≠ .full bytes) : LeavesFraming r.stripBodyForHead := by
  have hheaders : r.stripBodyForHead.headers = r.headers := by
    unfold Response.stripBodyForHead
    dsimp only
    split
    · rename_i bytes hfull
      exact absurd hfull (hbody bytes)
    · rfl
  exact ⟨h.final, fun items hitems => (by cases hitems), h.reason, hheaders.symm ▸ h.fields,
    h.trailers⟩

end LeavesFraming

theorem Router.Canned.leavesFraming {registrations : List (Registration σ)} {r : Response}
    (h : Router.Canned registrations r)
    (hmethods : ∀ reg ∈ registrations, CR ∉ reg.method.asStr) : LeavesFraming r := by
  have hbare : ∀ status : StatusCode, 200 ≤ status.asU16 → LeavesFraming (.new status) :=
    fun status hfinal => ⟨hfinal, fun items hitems => (by cases hitems),
      fun reason hreason => (by cases hreason), fun l hl => (by cases hl),
      fun l hl => (by cases hl)⟩
  cases h with
  | notFound => exact hbare _ (by decide)
  | notImplemented => exact hbare _ (by decide)
  | methodNotAllowed tokens htokens =>
      have hallow : CR ∉ joinComma tokens := by
        refine not_mem_joinComma (by decide) fun t ht => ?_
        rcases htokens t ht with rfl | ⟨reg, hreg, rfl⟩
        · decide
        · exact hmethods reg hreg
      have hname : isToken HeaderKeys.allow.text = true := by decide
      have hne : HeaderKeys.allow ≠ HeaderKeys.contentLength ∧
          HeaderKeys.allow ≠ HeaderKeys.transferEncoding ∧
          HeaderKeys.allow ≠ HeaderKeys.connection := by decide
      have hbase := hbare .METHOD_NOT_ALLOWED (by decide)
      exact ⟨hbase.final, hbase.streams, hbase.reason,
        Headers.forall_lines_insert hbase.fields (isOpenField_of_ne hname hallow hne),
        hbase.trailers⟩

/-! ## One response on the wire -/

theorem isOpenField_date (now : ImfFixdate) : IsOpenField (HeaderKeys.date, now.text) := by
  have hne : HeaderKeys.date ≠ HeaderKeys.contentLength ∧
      HeaderKeys.date ≠ HeaderKeys.transferEncoding ∧
      HeaderKeys.date ≠ HeaderKeys.connection := by decide
  exact isOpenField_of_ne now.isPlainField.name now.noCr hne

theorem LeavesFraming.stamped {r : Response} (h : LeavesFraming r) (now : ImfFixdate) :
    ∀ l ∈ (stampHeaders now.text r.headers .keepAlive).lines, IsOpenField l := by
  simp only [stampHeaders, applyConnectionDirective]
  split
  · exact h.fields
  · exact Headers.forall_lines_insert h.fields (isOpenField_date now)

/-- A response that leaves framing to the server is read to its last byte. -/
theorem LeavesFraming.overreads {r : Response} (h : LeavesFraming r) (now : ImfFixdate)
    {method : Method} (hconnect : method ≠ .connect) :
    lenient.Overreads method (writeResponse now.text r method .keepAlive).bytes 0 := by
  obtain ⟨hlength, hcoding, -⟩ := h.contains_framing
  intro rest
  refine ⟨fun hlt => absurd hlt (Nat.not_lt_zero _), fun _ => ?_⟩
  have hread := lenient.readReply_written now.text .keepAlive rest (fun _ _ => rfl) hconnect
    hlength hcoding (cr_not_mem_reasonPhrase h.reason) h.streams
    (fun l hl => (h.stamped now l hl).reads)
    (fun l hl => ⟨(h.stamped now l hl).length, (h.stamped now l hl).coding⟩) h.trailers
  exact ⟨_, hread, h.final⟩

/-! ## A stripped response on the wire -/

theorem stamped_lines_strip {r : Response} (h : LeavesFraming r) {bytes : Bytes}
    (hbody : r.body = .full bytes) (now : ImfFixdate) :
    ∃ date, (∀ l ∈ date, IsOpenField l) ∧
      (stampHeaders now.text r.stripBodyForHead.headers .keepAlive).lines =
        r.headers.lines ++ [(HeaderKeys.contentLength, toDecimal bytes.length)] ++ date := by
  have hlength := h.contains_framing.1
  rw [Response.stripBodyForHead_headers hbody hlength]
  simp only [stampHeaders, applyConnectionDirective]
  split
  · exact ⟨[], by simp, by rw [Headers.lines_insert_new _ _ hlength, List.append_nil]⟩
  · rename_i hdate
    refine ⟨[(HeaderKeys.date, now.text)], ?_, ?_⟩
    · intro l hl
      obtain rfl := List.mem_singleton.mp hl
      exact isOpenField_date now
    · rw [Headers.lines_insert_new _ _ (by simpa using hdate), Headers.lines_insert_new _ _ hlength]

theorem fieldValues_strip {lines date : List (HeaderName × Text)} (n : Nat)
    (hlines : ∀ l ∈ lines, IsOpenField l) (hdate : ∀ l ∈ date, IsOpenField l) :
    fieldValues ((lines ++ [(HeaderKeys.contentLength, toDecimal n)] ++ date).map wireField)
        HeaderKeys.contentLength = [toDecimal n] ∧
      fieldValues ((lines ++ [(HeaderKeys.contentLength, toDecimal n)] ++ date).map wireField)
        HeaderKeys.transferEncoding = [] := by
  have hsilent : ∀ {lines : List (HeaderName × Text)}, (∀ l ∈ lines, IsOpenField l) →
      Silent lines := fun h l hl => ⟨(h l hl).length, (h l hl).coding⟩
  obtain ⟨hlength, hcoding⟩ := (hsilent hlines).fieldValues_eq
  obtain ⟨hlength', hcoding'⟩ := (hsilent hdate).fieldValues_eq
  rw [List.map_append, List.map_append, List.map_singleton, (isPlainField_length n).wireField_eq]
  simp only [fieldValues_append, hlength, hcoding, hlength', hcoding', fieldValues_cons_self,
    List.append_nil, List.nil_append, fieldValues_nil]
  exact ⟨trivial, by rw [fieldValues_cons_of_ne _ _ (by decide)]; rfl⟩

theorem strip_overreads {r : Response} (h : LeavesFraming r) {bytes : Bytes}
    (hbody : r.body = .full bytes) (now : ImfFixdate) {method : Method}
    (hconnect : method ≠ .connect) :
    lenient.Overreads method
      (writeResponse now.text r.stripBodyForHead method .keepAlive).bytes
      (if responseAllowsBody r.status method then bytes.length else 0) := by
  obtain ⟨date, hdate, hlines⟩ := stamped_lines_strip h hbody now
  have hreads : ∀ l ∈ (stampHeaders now.text r.stripBodyForHead.headers .keepAlive).lines,
      lenient.Reads l := by
    intro l hl
    rw [hlines, List.mem_append, List.mem_append, List.mem_singleton] at hl
    rcases hl with (hl | hl) | hl
    · exact (h.fields l hl).reads
    · rw [hl]
      exact lenient_reads (isPlainField_length _)
    · exact (hdate l hl).reads
  obtain ⟨hseenLength, hseenCoding⟩ := fieldValues_strip bytes.length h.fields hdate
  rw [← hlines] at hseenLength hseenCoding
  have hcoding : r.stripBodyForHead.headers.contains HeaderKeys.transferEncoding = false := by
    rw [Response.stripBodyForHead_headers hbody h.contains_framing.1,
      Headers.contains_eq_false_iff, Headers.getAll_insert_of_ne _ _ (by decide),
      ← Headers.contains_eq_false_iff]
    exact h.contains_framing.2.1
  have hreason : CR ∉ r.stripBodyForHead.reasonPhrase := cr_not_mem_reasonPhrase h.reason
  rw [writeResponse_of_framed (not_conflict_of_uncoded hcoding)]
  intro rest
  dsimp only
  rw [List.append_assoc, Response.stripBodyForHead_status, Response.stripBodyForHead_body]
  cases hallowed : responseAllowsBody r.status method with
  | false =>
      have hall := forall_lines_frameHeaders r.status method .empty hreads
        (fun n => lenient_reads (isPlainField_length n)) (lenient_reads isPlainField_chunked)
      refine ⟨fun hlt => absurd hlt (Nat.not_lt_zero _), fun _ => ?_⟩
      rw [lenient.readReply_head method _ hreason hall, framing_bodiless _ hallowed]
      exact ⟨_, rfl, h.final⟩
  | true =>
      have hstampedLength : (stampHeaders now.text r.stripBodyForHead.headers .keepAlive).contains
          HeaderKeys.contentLength = true := by
        have hmem : (HeaderKeys.contentLength, toDecimal bytes.length) ∈
            (stampHeaders now.text r.stripBodyForHead.headers .keepAlive).lines := by
          simp [hlines]
        rw [← Headers.values_ne_nil_iff]
        exact List.ne_nil_of_mem (Headers.mem_lines_iff.mp hmem)
      rw [frameHeaders_of_length hallowed hstampedLength
        (contains_stampHeaders now.text .keepAlive (by decide) (by decide) hcoding),
        lenient.readReply_head method _ hreason hreads,
        framing_sized hallowed hconnect hseenCoding hseenLength]
      rw [if_pos rfl]
      constructor
      · intro hlt
        have hcontent : lenient.readContent (.sized bytes.length) rest = .error .incomplete :=
          if_pos hlt
        show (lenient.readContent (.sized bytes.length) rest).map _ = _
        rw [hcontent]
        rfl
      · intro hle
        have hcontent : lenient.readContent (.sized bytes.length) rest =
            .ok ⟨rest.take bytes.length, [], rest.drop bytes.length⟩ := if_neg (by omega)
        exact ⟨⟨r.version.display, r.status.asU16, r.stripBodyForHead.reasonPhrase,
          (stampHeaders now.text r.stripBodyForHead.headers .keepAlive).lines.map wireField,
          rest.take bytes.length, []⟩, congrArg (Except.map _) hcontent, h.final⟩

/-! ## One exchange -/

/-- The router falls back on a GET handler with a body for a method that only reads like
HEAD, and nothing replaces its response: the body is dropped, its length is not. -/
def Router.Misframes (env : Env) (router : Router σ) (request : Request) (s : σ) : Prop :=
  ∃ handler bytes, router.fallback { request with body := .empty } = some handler ∧
    request.method ≠ .head ∧
    (handler { request with body := .empty } s).1.body = .full bytes ∧ bytes ≠ [] ∧
    isBodiless (handler { request with body := .empty } s).1.status = false ∧
    Replaced env request (handler { request with body := .empty } s).1 = false

theorem Router.misframes_iff {env : Env} {router : Router σ} {request : Request} {s : σ}
    {handler : Handler σ} {answer : Response}
    (hfallback : router.fallback { request with body := .empty } = some handler)
    (hanswer : (handler { request with body := .empty } s).1 = answer) :
    router.Misframes env request s ↔ ∃ bytes, request.method ≠ .head ∧
      answer.body = .full bytes ∧ bytes ≠ [] ∧ isBodiless answer.status = false ∧
      Replaced env request answer = false := by
  subst hanswer
  constructor
  · rintro ⟨handler', bytes, hfallback', hmisframed⟩
    rw [hfallback, Option.some.injEq] at hfallback'
    subst hfallback'
    exact ⟨bytes, hmisframed⟩
  · rintro ⟨bytes, hmisframed⟩
    exact ⟨handler, bytes, hfallback, hmisframed⟩

theorem replaced_stripBodyForHead (env : Env) (request : Request) (r : Response) :
    Replaced env request r.stripBodyForHead = Replaced env request r := by
  have hdecision : preconditionDecision env request r.stripBodyForHead =
      preconditionDecision env request r := by
    refine preconditionDecision_congr env rfl rfl fun name hname => ?_
    have hother : name ≠ HeaderKeys.contentLength := by
      rcases hname with rfl | rfl <;> decide
    rw [Headers.get_eq_head?, Headers.get_eq_head?, r.values_stripBodyForHead hother]
  rw [Replaced, hdecision, Response.stripBodyForHead_status, Replaced]

theorem LeavesFraming.replace_strip {r : Response} (h : LeavesFraming r) {status : StatusCode}
    (hstatus : status = .NOT_MODIFIED ∨ status = .PRECONDITION_FAILED) :
    LeavesFraming (GooseHttp.replaceByStatus r.stripBodyForHead status) := by
  have hreplaced := h.replaceByStatus hstatus
  refine ⟨hreplaced.final, fun items hitems => (by cases hitems), h.reason, ?_,
    fun l hl => (by cases hl)⟩
  rintro ⟨name, value⟩ hl
  apply hreplaced.fields
  rw [Headers.mem_lines_iff] at hl ⊢
  rwa [values_replaceByStatus_congr status
    (fun name hname _ => r.values_stripBodyForHead hname) name] at hl

def ExchangeInStep (env : Env) (router : Router σ) (request : Request) (s : σ)
    (x : Exchange) : Prop :=
  x.KeepsOpen ∧ ∃ extra, lenient.Overreads request.method x.written.bytes extra ∧
    (extra = 0 ↔ ¬ router.Misframes env request s)

theorem serve_keepsOpen (env : Env) {handler : Handler σ} (n : Nat) {s : σ} {request : Request}
    {response : Response}
    (hprepare : prepare env request (handler { request with body := .empty } s).1 = response)
    (hversion : request.version = .http11)
    (hclose : shouldCloseAfterRequest request.version request.headers = false)
    (hconnection : response.headers.contains HeaderKeys.connection = false)
    (hcoding : response.headers.contains HeaderKeys.transferEncoding = false)
    (hstream : response.StreamsCleanly) :
    (serve env handler n s request).1.KeepsOpen ∧
      (serve env handler n s request).1.written =
        writeResponse (env.now n).text response request.method .keepAlive := by
  have hdirective : directiveFor request response = .keepAlive := by
    apply directiveFor_keepAlive hversion hclose
    rw [responseRequestsClose, Headers.get_eq_head?,
      (Headers.values_eq_nil_iff _ _).mpr hconnection]
    rfl
  have hwritten : (serve env handler n s request).1.written =
      writeResponse (env.now n).text response request.method .keepAlive := by
    rw [serve_written]
    simp only [hprepare, hdirective]
  refine ⟨⟨?_, ?_⟩, hwritten⟩
  · rw [serve_directive]
    exact hprepare.symm ▸ hdirective
  · rw [hwritten]
    exact writeResponse_result_ok hstream (not_conflict_of_uncoded hcoding)

section

variable {env : Env} {router : Router σ} {request : Request} {s : σ}

theorem inStep_of_leaves (n : Nat) (hversion : request.version = .http11)
    (hclose : shouldCloseAfterRequest request.version request.headers = false)
    (hconnect : request.method ≠ .connect)
    (h : LeavesFraming (prepare env request
      (router.handle { request with body := .empty } s).1))
    (hnot : ¬ router.Misframes env request s) :
    ExchangeInStep env router request s (serve env router.handle n s request).1 := by
  obtain ⟨hopen, hwritten⟩ := serve_keepsOpen env n rfl hversion hclose h.contains_framing.2.2
    h.contains_framing.2.1 h.streams
  refine ⟨hopen, 0, ?_, iff_of_true rfl hnot⟩
  rw [hwritten]
  exact h.overreads (env.now n) hconnect

theorem inStep_of_strip_full (n : Nat) (hversion : request.version = .http11)
    (hclose : shouldCloseAfterRequest request.version request.headers = false)
    (hconnect : request.method ≠ .connect) {handler : Handler σ} {answer : Response}
    {bytes : Bytes} (hfallback : router.fallback { request with body := .empty } = some handler)
    (hanswer : (handler { request with body := .empty } s).1 = answer)
    (hleaves : LeavesFraming answer) (hbody : answer.body = .full bytes)
    (hhandle : (router.handle { request with body := .empty } s).1 = answer.stripBodyForHead)
    (hkept : Replaced env request answer = false) :
    ExchangeInStep env router request s (serve env router.handle n s request).1 := by
  have hprepare : prepare env request (router.handle { request with body := .empty } s).1 =
      answer.stripBodyForHead := by
    rw [hhandle]
    apply prepare_of_not_replaced
    rw [replaced_stripBodyForHead, hkept]
  have habsent : ∀ name, name ≠ HeaderKeys.contentLength →
      answer.headers.contains name = false →
        answer.stripBodyForHead.headers.contains name = false := by
    intro name hname hnone
    rw [← Headers.values_eq_nil_iff] at hnone ⊢
    rw [answer.values_stripBodyForHead hname, hnone]
  obtain ⟨-, hcoding, hconnection⟩ := hleaves.contains_framing
  obtain ⟨hopen, hwritten⟩ := serve_keepsOpen env n hprepare hversion hclose
    (habsent _ (by decide) hconnection) (habsent _ (by decide) hcoding)
    (fun items hitems => by cases hitems)
  refine ⟨hopen, _, hwritten ▸ strip_overreads hleaves hbody (env.now n) hconnect, ?_⟩
  have hmisframes : router.Misframes env request s ↔
      request.method ≠ .head ∧ bytes ≠ [] ∧ isBodiless answer.status = false := by
    rw [Router.misframes_iff hfallback hanswer]
    simp [hbody, hkept]
  rw [hmisframes, responseAllowsBody_eq]
  cases isBodiless answer.status <;> by_cases hmethod : request.method = .head <;>
    simp [hmethod]

theorem inStep_of_strip (n : Nat) (hversion : request.version = .http11)
    (hclose : shouldCloseAfterRequest request.version request.headers = false)
    (hconnect : request.method ≠ .connect) {handler : Handler σ}
    (hfallback : router.fallback { request with body := .empty } = some handler)
    (hleaves : LeavesFraming (handler { request with body := .empty } s).1)
    (hhandle : (router.handle { request with body := .empty } s).1 =
      (handler { request with body := .empty } s).1.stripBodyForHead) :
    ExchangeInStep env router request s (serve env router.handle n s request).1 := by
  generalize hanswer : (handler { request with body := .empty } s).1 = answer at hleaves hhandle
  cases hreplaced : Replaced env request answer with
  | true =>
      have hstrip : Replaced env request answer.stripBodyForHead = true := by
        rw [replaced_stripBodyForHead, hreplaced]
      obtain ⟨status, hstatus, hp⟩ := prepare_of_replaced hstrip
      refine inStep_of_leaves n hversion hclose hconnect ?_ ?_
      · rw [hhandle, hp]
        exact hleaves.replace_strip hstatus
      · rw [Router.misframes_iff hfallback hanswer]
        rintro ⟨bytes, -, -, -, -, hkept⟩
        rw [hreplaced] at hkept
        cases hkept
  | false =>
      by_cases hfull : ∃ bytes, answer.body = .full bytes
      · obtain ⟨bytes, hbody⟩ := hfull
        exact inStep_of_strip_full n hversion hclose hconnect hfallback hanswer hleaves hbody
          hhandle hreplaced
      · refine inStep_of_leaves n hversion hclose hconnect ?_ ?_
        · rw [hhandle]
          exact (hleaves.stripBodyForHead fun bytes hbody => hfull ⟨bytes, hbody⟩).prepare env
            request
        · rw [Router.misframes_iff hfallback hanswer]
          rintro ⟨bytes, -, hbody, -⟩
          exact hfull ⟨bytes, hbody⟩

end

/-- Every exchange leaves the connection open, and is in step unless the router misframes
its response. -/
theorem serve_inStep (env : Env) (autoHead : Bool) {registrations : List (Registration σ)}
    (hmethods : ∀ reg ∈ registrations, CR ∉ reg.method.asStr)
    (hhandlers : ∀ reg ∈ registrations, ∀ request s, LeavesFraming (reg.handler request s).1)
    (n : Nat) (s : σ) {request : Request} (hversion : request.version = .http11)
    (hclose : shouldCloseAfterRequest request.version request.headers = false)
    (hconnect : request.method ≠ .connect) :
    ExchangeInStep env (Router.build autoHead registrations) request s
      (serve env (Router.build autoHead registrations).handle n s request).1 := by
  have hanswers := Router.handle_answers (Router.build_holdsOnly autoHead registrations)
    { request with body := .empty } s
  have hno : (Router.build autoHead registrations).fallback { request with body := .empty } = none →
      ¬ (Router.build autoHead registrations).Misframes env request s := by
    rintro hnone ⟨handler, bytes, hsome, -⟩
    rw [hnone] at hsome
    cases hsome
  generalize hres : (Router.build autoHead registrations).handle
    { request with body := .empty } s = res at hanswers
  cases hanswers with
  | own reg hreg hfallback =>
      refine inStep_of_leaves n hversion hclose hconnect ?_ (hno hfallback)
      rw [hres]
      exact (hhandlers reg hreg _ s).prepare env request
  | head reg hreg hfallback =>
      exact inStep_of_strip n hversion hclose hconnect hfallback (hhandlers reg hreg _ s)
        (congrArg Prod.fst hres)
  | canned response hcanned hfallback =>
      refine inStep_of_leaves n hversion hclose hconnect ?_ (hno hfallback)
      rw [hres]
      exact (hcanned.leavesFraming hmethods).prepare env request

/-! ## Whole connections -/

def InStep (env : Env) (router : Router σ) : σ → List Request → Prop
  | _, [] => True
  | s, request :: requests =>
      ¬ router.Misframes env request s ∧
        InStep env router (router.handle { request with body := .empty } s).2 requests

/-- Requests a client may send down one connection. -/
def IsPersistent (request : Request) : Prop :=
  request.version = .http11 ∧
    shouldCloseAfterRequest request.version request.headers = false ∧
    request.method ≠ .connect

theorem splitFinals_exchange (method : Method) (methods : List Method) (x : Exchange)
    (rest : Bytes) :
    lenient.splitFinals (method :: methods) (x.bytes ++ rest) =
      lenient.splitFinals (method :: methods) (x.written.bytes ++ rest) := by
  rw [Exchange.bytes]
  split
  · rw [List.append_assoc, splitFinals, finalLoop_continue, splitFinals]
  · rw [List.nil_append]

theorem serveAll_inStep (env : Env) (router : Router σ) (n : Nat) (s : σ)
    {requests : List Request}
    (hserve : ∀ request ∈ requests, ∀ n s,
      ExchangeInStep env router request s (serve env router.handle n s request).1) :
    ∀ x ∈ (serveAll env router.handle n s requests).1, x.KeepsOpen := by
  induction requests generalizing n s with
  | nil =>
      intro x hx
      cases hx
  | cons request requests ih =>
      rw [serveAll_cons, List.forall_mem_cons]
      exact ⟨(hserve request (by simp) n s).1,
        ih (n + 1) _ fun r hr => hserve r (by simp [hr])⟩

theorem splitFinals_serveAll (env : Env) (router : Router σ) (n : Nat) (s : σ)
    {requests : List Request}
    (hserve : ∀ request ∈ requests, ∀ n s,
      ExchangeInStep env router request s (serve env router.handle n s request).1) :
    lenient.splitFinals (requests.map Request.method)
        ((serveAll env router.handle n s requests).1.flatMap Exchange.bytes) =
      .ok ((serveAll env router.handle n s requests).1.map fun x => x.written.bytes, []) ↔
    InStep env router s requests := by
  induction requests generalizing n s with
  | nil => exact iff_of_true rfl trivial
  | cons request requests ih =>
      obtain ⟨-, extra, hreads, hextra⟩ := hserve request (by simp) n s
      rw [serveAll_cons, List.map_cons, List.map_cons, List.flatMap_cons, splitFinals_exchange,
        splitFinals_of_overreads hreads, hextra, InStep]
      exact and_congr_right fun _ => ih (n + 1) (serve env router.handle n s request).2
        fun r hr => hserve r (by simp [hr])

/-- The output of a connection that is sent a pipeline of requests, split by the framing
rules for the methods the client used, is one final response for each request, in order
and without a byte left over, if and only if no response is misframed. -/
theorem run_inStep_iff (env : Env) (autoHead : Bool) (registrations : List (Registration σ))
    (s : σ) (input : Input) (requests : List Request)
    (hmethods : ∀ reg ∈ registrations, CR ∉ reg.method.asStr)
    (hhandlers : ∀ reg ∈ registrations, ∀ request s, LeavesFraming (reg.handler request s).1)
    (hclean : input.Clean) (hinput : Pipelined input.all requests)
    (hrequests : ∀ request ∈ requests, IsPersistent request) :
    let router := Router.build autoHead registrations
    let outcome := Connection.run env router.handle input s
    outcome.progress.calls = requests.map (fun r => { r with body := .empty }) ∧
      (lenient.splitFinals (requests.map Request.method) outcome.progress.written =
          .ok (outcome.progress.exchanges.map fun x => x.written.bytes, []) ↔
        InStep env router s requests) := by
  intro router outcome
  have hserve : ∀ request ∈ requests, ∀ n s,
      ExchangeInStep env router request s (serve env router.handle n s request).1 := by
    intro request hrequest n s
    obtain ⟨hversion, hclose, hconnect⟩ := hrequests request hrequest
    exact serve_inStep env autoHead hmethods hhandlers n s hversion hclose hconnect
  have hopen : ∀ x ∈ (serveAll env router.handle 0 s requests).1, x.KeepsOpen :=
    serveAll_inStep env router 0 s hserve
  obtain ⟨q, hrun, hexchanges, hwritten, -⟩ :=
    session_pipelined env router.handle hinput (.start s) hopen
  have houtcome : outcome = ⟨q, .ok ()⟩ := calc
    outcome = session env router.handle input.all s := run_eq_session env router.handle s hclean
    _ = ⟨q, .ok ()⟩ := hrun
  replace hexchanges : q.exchanges = (serveAll env router.handle 0 s requests).1 := hexchanges
  replace hwritten : q.written =
      (serveAll env router.handle 0 s requests).1.flatMap Exchange.bytes := hwritten
  rw [houtcome, Progress.calls, hwritten, hexchanges]
  exact ⟨serveAll_requests env router.handle 0 s requests,
    splitFinals_serveAll env router 0 s hserve⟩

def hello : Response :=
  .setBodyBytes (.new .OK) (ascii "hi")

theorem hello_leavesFraming : LeavesFraming hello :=
  ⟨by decide, fun items hitems => (by cases hitems), fun reason hreason => (by cases hreason),
    fun l hl => (by cases hl), fun l hl => (by cases hl)⟩

def wireLowercaseHead : WireRequest :=
  { wireGet with
    methodToken := ascii "head"
    method := .extension (ascii "head")
    method_ok := by decide
    target_ok := by decide +kernel
    line_short := by decide
    head_short := by decide }

/-- To this method two bytes are announced and none sent: the client takes them from
the next response, of which it cannot read the rest. -/
theorem run_lowercaseHead_outOfStep :
    let router := Router.build true [⟨.get, ascii "/", .always hello⟩]
    let requests := [wireLowercaseHead.request, wireGet.request]
    let input : Input := ⟨wireLowercaseHead.bytes ++ wireGet.bytes, []⟩
    let progress := (Connection.run .atEpoch router.handle input ()).progress
    LeavesFraming hello ∧ Pipelined input.all requests ∧
      (∀ request ∈ requests, IsPersistent request) ∧
      progress.exchanges.length = 2 ∧
      lenient.splitFinals (requests.map Request.method) progress.written = .error .malformed :=
  ⟨hello_leavesFraming, pipelined_bytes [wireLowercaseHead, wireGet],
    by unfold IsPersistent; decide +kernel, by decide +kernel, by decide +kernel⟩

/-- To GET and to POST, one behind the other, the same handler is read back. -/
theorem run_inStep_iff_two :
    let router := Router.build true
      [⟨.get, ascii "/", .always hello⟩, ⟨.post, ascii "/items", .always hello⟩]
    let requests := [wireGet.request, wirePost.request]
    let outcome := Connection.run .atEpoch router.handle ⟨wireGet.bytes ++ wirePost.bytes, []⟩ ()
    outcome.progress.calls = requests.map (fun r => { r with body := .empty }) ∧
      lenient.splitFinals [.get, .post] outcome.progress.written =
        .ok (outcome.progress.exchanges.map fun x => x.written.bytes, []) ∧
      InStep .atEpoch router () requests := by
  intro router requests outcome
  have hhello : ∀ reg ∈ ([⟨.get, ascii "/", .always hello⟩,
      ⟨.post, ascii "/items", .always hello⟩] : List (Registration Unit)),
      CR ∉ reg.method.asStr ∧ reg.handler = .always hello := by
    intro reg hreg
    rcases List.mem_cons.mp hreg with rfl | hreg
    · exact ⟨by decide, rfl⟩
    · obtain rfl := List.mem_singleton.mp hreg
      exact ⟨by decide, rfl⟩
  obtain ⟨hcalls, hiff⟩ := run_inStep_iff .atEpoch true
    [⟨.get, ascii "/", .always hello⟩, ⟨.post, ascii "/items", .always hello⟩] ()
    ⟨wireGet.bytes ++ wirePost.bytes, []⟩ requests (fun reg hreg => (hhello reg hreg).1)
    (fun reg hreg _ _ => by rw [(hhello reg hreg).2]; exact hello_leavesFraming) (by decide)
    (pipelined_bytes [wireGet, wirePost]) (by unfold IsPersistent; decide +kernel)
  have hsplit : lenient.splitFinals [.get, .post] outcome.progress.written =
      .ok (outcome.progress.exchanges.map fun x => x.written.bytes, []) := by decide +kernel
  exact ⟨hcalls, hsplit, hiff.mp hsplit⟩

end GooseHttp
