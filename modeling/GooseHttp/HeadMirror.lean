import GooseHttp.Parse.HeadRequest
import GooseHttp.Pipeline
import GooseHttp.StrippedBody
import GooseHttp.Synchrony
/-!
# HEAD against GET

What a connection answers to HEAD where only a GET handler is registered, against
what it answers to the same request with GET, both as a client finds them on the wire.
`Stripped` relates the two responses from the router to the writer.  The two paths part
where a transfer coding set by the handler meets the length of the stripped body, where
the longer token does not fit the limits of the parser, and where a text of the handler
ends the head early or gives an empty body a length.
-/

namespace GooseHttp

open Lib Client

variable {σ : Type}

/-! ## The router -/

def IgnoresMethod (handler : Handler σ) : Prop :=
  ∀ request method s, handler { request with method := method } s = handler request s

/-- The path of a request has a GET handler and none for HEAD. -/
def Router.GetOnly (router : Router σ) (request : Request) (handler : Handler σ) : Prop :=
  ∃ route, router.routes.lookup (targetKey request) = some route ∧
    route.handlers.lookup (ascii "GET") = some handler ∧
    route.handlers.lookup (ascii "HEAD") = none

theorem Router.handle_get {router : Router σ} {request : Request} {handler : Handler σ}
    (s : σ) (h : router.GetOnly request handler) (hmethod : request.method = .get) :
    router.handle request s = handler request s := by
  obtain ⟨route, hroute, hget, -⟩ := h
  rw [Router.handle, hroute, hmethod]
  simp [RouteEntry.resolve, Method.asStr, hget]

theorem Router.handle_head {router : Router σ} {request : Request} {handler : Handler σ}
    (s : σ) (hauto : router.autoHead = true) (h : router.GetOnly request handler)
    (hmethod : request.method = .head) :
    router.handle request s =
      ((handler request s).1.stripBodyForHead, (handler request s).2) := by
  obtain ⟨route, hroute, hget, hhead⟩ := h
  have hself : eqIgnoreAsciiCase (ascii "HEAD") (ascii "HEAD") = true := by decide
  rw [Router.handle, hroute, hmethod]
  simp [RouteEntry.resolve, Method.asStr, hget, hhead, hauto, hself]

/-! ## The written responses -/

/-- The response to HEAD is complete and has the head that the one to GET has, apart from
`Date` and from framing fields left out, and nothing behind it. -/
structure HeadAgrees (get head : Written) : Prop where
  result : head.result = .ok ()
  status : head.response.status = get.response.status
  statusLine : (splitPair CR LF head.bytes).head? = (splitPair CR LF get.bytes).head?
  fields : ∀ name, name ≠ HeaderKeys.date → name ≠ HeaderKeys.contentLength →
    name ≠ HeaderKeys.transferEncoding → head.values name = get.values name
  length : head.values HeaderKeys.contentLength = [] ∨
    head.values HeaderKeys.contentLength = get.values HeaderKeys.contentLength
  coding : head.values HeaderKeys.transferEncoding = [] ∨
    head.values HeaderKeys.transferEncoding = get.values HeaderKeys.transferEncoding
  content : head.content = some []

/-- No text of a response makes an empty line, and if its body is empty and it gives no
length, none makes a line with a length either. -/
structure KeepsHead (r : Response) (now : Text) (directive : ConnectionDirective) : Prop where
  whole : [] ∉ linesOf (r.headTexts now .get directive)
  lengthless : r.body = .empty → r.headers.contains HeaderKeys.contentLength = false →
    isBodiless r.status = false →
      r.givenValues now .head directive HeaderKeys.contentLength = []

section Shared

variable (get : Response) (directive : ConnectionDirective)

def sharedValues (name : HeaderName) : List Text :=
  fieldValues ((splitPair CR LF (statusText get.version get.status get.reasonPhrase)).tail.filterMap
      rawField) name ++
    fieldValues (madeFields (sharedFields get.status get.headers.iter directive)) name

def SharesEmpty : Prop :=
  [] ∈ linesOf (statusText get.version get.status get.reasonPhrase ::
    fieldTexts (sharedFields get.status get.headers.iter directive))

end Shared

section Texts

variable {get head : Response} (h : Stripped get head) (now : ImfFixdate)
  (directive : ConnectionDirective)

include h

theorem Stripped.reasonPhrase_eq : head.reasonPhrase = get.reasonPhrase := by
  rw [Response.reasonPhrase, Response.reasonPhrase, h.reason, h.status]

theorem Stripped.get_texts :
    ([] ∈ linesOf (get.headTexts now.text .get directive) ↔ SharesEmpty get directive) ∧
    ([] ∉ linesOf (get.headTexts now.text .get directive) → ∀ name,
      get.givenValues now.text .get directive name =
        sharedValues get directive name ++
          (fieldValues (Multimap.lines (stamps now.text get.headers.iter directive)) name ++
            fieldValues (Multimap.lines (if isBodiless get.status then []
              else announcedField get ++ zeroField get)) name)) := by
  have hplain : ∀ l ∈ Multimap.lines (stamps now.text get.headers.iter directive ++
      if isBodiless get.status then [] else announcedField get ++ zeroField get),
        IsPlainField l := by
    intro l hl
    rw [Multimap.lines_append, List.mem_append] at hl
    rcases hl with hl | hl
    · exact stamps_plain now _ directive l hl
    · split at hl
      · cases hl
      · rw [Multimap.lines_append, List.mem_append] at hl
        exact hl.elim (announcedField_plain get l) (zeroField_plain get l)
  obtain ⟨hempty, hshown⟩ := headTexts_added (framedFields_get now.text directive h.known) hplain
  refine ⟨hempty, fun hwhole name => ?_⟩
  rw [Response.givenValues, hshown hwhole, fieldValues_append, fieldValues_append,
    Multimap.lines_append, fieldValues_append, sharedValues]

theorem Stripped.head_texts :
    ([] ∈ linesOf (head.headTexts now.text .head directive) ↔ SharesEmpty get directive) ∧
    ([] ∉ linesOf (head.headTexts now.text .head directive) → ∀ name,
      head.givenValues now.text .head directive name =
        sharedValues get directive name ++
          (fieldValues (Multimap.lines (if isBodiless get.status then []
            else announcedField get)) name ++
            fieldValues (Multimap.lines (stamps now.text get.headers.iter directive)) name)) := by
  have hplain : ∀ l ∈ Multimap.lines ((if isBodiless get.status then [] else announcedField get) ++
      stamps now.text get.headers.iter directive), IsPlainField l := by
    intro l hl
    rw [Multimap.lines_append, List.mem_append] at hl
    rcases hl with hl | hl
    · split at hl
      · cases hl
      · exact announcedField_plain get l hl
    · exact stamps_plain now _ directive l hl
  obtain ⟨hempty, hshown⟩ := headTexts_added (h.framedFields now.text directive) hplain
  rw [h.version, h.status, h.reasonPhrase_eq] at hempty hshown
  refine ⟨hempty, fun hwhole name => ?_⟩
  rw [Response.givenValues, hshown hwhole, fieldValues_append, fieldValues_append,
    Multimap.lines_append, fieldValues_append, sharedValues]

theorem Stripped.lengths_of_empty (hwhole : ¬ SharesEmpty get directive)
    (hbody : get.body = .empty) :
    head.givenValues now.text .head directive HeaderKeys.contentLength =
      sharedValues get directive HeaderKeys.contentLength := by
  have hnone : announcedField get = [] := by
    rw [announcedField, hbody]
    split <;> rfl
  obtain ⟨hempty, hshown⟩ := h.head_texts now directive
  rw [hshown (hempty.not.mpr hwhole), hnone, ite_self, Multimap.lines_nil, fieldValues_nil,
    values_stamps_eq_nil _ _ _ (by decide) (by decide), List.append_nil, List.append_nil]

end Texts

/-- What must not stand in the handler's texts, apart from the stamps of the writer. -/
theorem Stripped.keepsHead_iff {get head : Response} (h : Stripped get head) (now : ImfFixdate)
    (directive : ConnectionDirective) :
    KeepsHead get now.text directive ↔ ¬ SharesEmpty get directive ∧
      (get.body = .empty → get.headers.contains HeaderKeys.contentLength = false →
        isBodiless get.status = false →
          sharedValues get directive HeaderKeys.contentLength = []) := by
  have hlength : ¬ SharesEmpty get directive → get.body = .empty →
      get.givenValues now.text .head directive HeaderKeys.contentLength =
        sharedValues get directive HeaderKeys.contentLength := by
    intro hwhole hbody
    have hself : Stripped get get := by
      refine ⟨rfl, rfl, rfl, hbody, h.known, ?_⟩
      rw [announcedField, hbody]
      split <;> simp
    exact hself.lengths_of_empty now directive hwhole hbody
  have hempty := (h.get_texts now directive).1
  constructor
  · rintro ⟨hwhole, hlengthless⟩
    refine ⟨hempty.not.mp hwhole, fun hbody hcontains hstatus => ?_⟩
    rw [← hlength (hempty.not.mp hwhole) hbody]
    exact hlengthless hbody hcontains hstatus
  · rintro ⟨hwhole, hlengthless⟩
    refine ⟨hempty.not.mpr hwhole, fun hbody hcontains hstatus => ?_⟩
    rw [hlength hwhole hbody]
    exact hlengthless hbody hcontains hstatus

section Agreement

variable {get head : Response} (h : Stripped get head) (now now' : ImfFixdate)
  (directive : ConnectionDirective)

include h

theorem Stripped.lengths_eq (hwhole : ¬ SharesEmpty get directive) :
    get.givenValues now.text .get directive HeaderKeys.contentLength =
        head.givenValues now'.text .head directive HeaderKeys.contentLength ++
        fieldValues (Multimap.lines (if isBodiless get.status then [] else zeroField get))
          HeaderKeys.contentLength := by
  obtain ⟨hempty, hshown⟩ := h.get_texts now directive
  obtain ⟨hempty', hshown'⟩ := h.head_texts now' directive
  rw [hshown (hempty.not.mpr hwhole), hshown' (hempty'.not.mpr hwhole),
    values_stamps_eq_nil _ _ _ (by decide) (by decide),
    values_stamps_eq_nil _ _ _ (by decide) (by decide)]
  cases isBodiless get.status <;> simp

/-- The lengths agree unless only GET is told that an empty body is empty. -/
theorem Stripped.length_agrees_iff (hwhole : ¬ SharesEmpty get directive) :
    (head.givenValues now'.text .head directive HeaderKeys.contentLength = [] ∨
      head.givenValues now'.text .head directive HeaderKeys.contentLength =
        get.givenValues now.text .get directive HeaderKeys.contentLength) ↔
    (get.body = .empty → get.headers.contains HeaderKeys.contentLength = false →
      isBodiless get.status = false →
        sharedValues get directive HeaderKeys.contentLength = []) := by
  rw [h.lengths_eq now now' directive hwhole]
  cases hstatus : isBodiless get.status with
  | true => simp
  | false =>
      rw [if_neg (by decide), zeroField]
      cases hcontains : get.headers.contains HeaderKeys.contentLength with
      | true => simp
      | false =>
          cases hbody : get.body with
          | empty =>
              rw [h.lengths_of_empty now' directive hwhole hbody]
              simp
          | full bytes => simp
          | stream items => exact absurd hbody (h.known items)

theorem Stripped.values_eq_of_ne (hwhole : ¬ SharesEmpty get directive) {name : HeaderName}
    (hdate : name ≠ HeaderKeys.date) (hlength : name ≠ HeaderKeys.contentLength) :
    head.givenValues now'.text .head directive name =
      get.givenValues now.text .get directive name := by
  obtain ⟨hempty, hshown⟩ := h.get_texts now directive
  obtain ⟨hempty', hshown'⟩ := h.head_texts now' directive
  rw [hshown (hempty.not.mpr hwhole), hshown' (hempty'.not.mpr hwhole),
    values_stamps now.text now'.text _ _ hdate]
  cases isBodiless get.status <;>
    simp [values_announcedField get hlength, values_zeroField get hlength]

end Agreement

/-- Once both responses pass the writer, what is written for HEAD agrees with GET if and only
if the texts of the handler let the head stand. -/
theorem Stripped.headAgrees_iff {get head : Response} (h : Stripped get head)
    (now now' : ImfFixdate) (directive : ConnectionDirective)
    (hget : (get.headers.contains HeaderKeys.contentLength &&
      get.headers.contains HeaderKeys.transferEncoding) = false)
    (hhead : (head.headers.contains HeaderKeys.contentLength &&
      head.headers.contains HeaderKeys.transferEncoding) = false) :
    HeadAgrees (writeResponse now.text get .get directive)
        (writeResponse now'.text head .head directive) ↔ KeepsHead get now.text directive := by
  have hcontent : (writeResponse now'.text head .head directive).content =
      some (cutOff (head.headTexts now'.text .head directive)) := by
    have hbodiless : responseAllowsBody head.status .head = false := by
      rw [responseAllowsBody_eq]
      simp
    rw [content_writeResponse hhead, hbodiless]
    exact congrArg some (List.append_nil _)
  rw [h.keepsHead_iff now directive]
  constructor
  · intro hagrees
    have hwhole : ¬ SharesEmpty get directive := by
      have hnil := hagrees.content
      rw [hcontent, Option.some_inj, cutOff_eq_nil_iff] at hnil
      rwa [(h.head_texts now' directive).1] at hnil
    have hlength := hagrees.length
    rw [values_writeResponse hget, values_writeResponse hhead] at hlength
    exact ⟨hwhole, (h.length_agrees_iff now now' directive hwhole).mp hlength⟩
  · rintro ⟨hwhole, hlengthless⟩
    refine ⟨?_, ?_, ?_, ?_, ?_, ?_, ?_⟩
    · refine writeResponse_result_ok (fun items hitems => ?_) hhead
      rw [h.body] at hitems
      cases hitems
    · rw [writeResponse_of_framed hget, writeResponse_of_framed hhead]
      exact h.status
    · rw [statusLine_writeResponse hget, statusLine_writeResponse hhead, h.version, h.status,
        h.reasonPhrase_eq]
    · intro name hdate hlength hcoding
      rw [values_writeResponse hget, values_writeResponse hhead]
      exact h.values_eq_of_ne now now' directive hwhole hdate hlength
    · rw [values_writeResponse hget, values_writeResponse hhead]
      exact (h.length_agrees_iff now now' directive hwhole).mpr hlengthless
    · right
      rw [values_writeResponse hget, values_writeResponse hhead]
      exact h.values_eq_of_ne now now' directive hwhole (by decide) (by decide)
    · rw [hcontent, Option.some_inj, cutOff_eq_nil_iff, (h.head_texts now' directive).1]
      exact hwhole

/-- Without line ends in its texts a response keeps its head. -/
theorem Response.StaysOnLines.keepsHead {r : Response} {now : Text} (h : r.StaysOnLines)
    (hnow : ¬ CRLF <:+: now) (directive : ConnectionDirective) : KeepsHead r now directive := by
  refine ⟨h.empty_not_mem hnow .get directive, fun hbody hcontains hstatus => ?_⟩
  have hstamped : (stampHeaders now r.headers directive).values HeaderKeys.contentLength = [] := by
    rw [Headers.values, getAll_stampHeaders (by decide) (by decide), ← Headers.values]
    exact (Headers.values_eq_nil_iff _ _).mpr hcontains
  have hbodiless : responseAllowsBody r.status .head = false := by
    rw [responseAllowsBody_eq]
    simp
  rw [h.givenValues hnow, hbody, frameHeaders, hbodiless, Bool.not_false, if_pos rfl,
    values_length_frameBodiless, hstatus]
  simp [announceLength, hstamped]

/-! ## Handlers that leave framing to the server -/

namespace LeavesFraming

variable {r : Response} (h : LeavesFraming r) (directive : ConnectionDirective)

include h

theorem sharedFields_eq : sharedFields r.status r.headers.iter directive = r.headers.iter := by
  obtain ⟨hlength, hcoding, hconnection⟩ := h.contains_framing
  have hnone : ∀ {name}, r.headers.contains name = false →
      Multimap.find name r.headers.iter = none := by
    intro name hname
    rwa [Headers.find_iter, ← Headers.contains_eq_false_iff]
  have hkept : keptFields r.headers.iter directive = r.headers.iter := by
    rw [keptFields, hnone hconnection]
    simp
  rw [sharedFields, hkept, Multimap.removeKey_of_find_none (hnone hcoding),
    Multimap.removeKey_of_find_none (hnone hlength), ite_self]

theorem shares : ¬ SharesEmpty r directive ∧
    sharedValues r directive HeaderKeys.contentLength = [] := by
  have hline : splitPair CR LF (statusText r.version r.status r.reasonPhrase) = [_] ∧ _ :=
    splitPair_statusText (cr_not_mem_reasonPhrase h.reason)
  obtain ⟨hstatus, hne⟩ := hline
  have hclean : ∀ l ∈ r.headers.lines, CR ∉ l.1.text ∧ CR ∉ l.2 := fun l hl =>
    ⟨(h.fields l hl).reads.name, (h.fields l hl).reads.value⟩
  have hlines : linesOf (fieldTexts r.headers.iter) = fieldTexts r.headers.iter :=
    linesOf_clean hclean
  constructor
  · rw [SharesEmpty, h.sharedFields_eq directive, linesOf_cons, hstatus, hlines]
    intro hmem
    rcases List.mem_append.mp hmem with hmem | hmem
    · exact hne (List.mem_singleton.mp hmem).symm
    · obtain ⟨l, -, hl⟩ := List.mem_map.mp hmem
      exact fieldText_ne_nil _ _ hl
  · rw [sharedValues, hstatus, h.sharedFields_eq directive, madeFields, hlines, fieldTexts,
      filterMap_rawField_lines]
    refine List.map_eq_nil_iff.mpr (List.filter_eq_nil_iff.mpr fun f hf => ?_)
    obtain ⟨l, hl, rfl⟩ := List.mem_map.mp hf
    simpa using (h.fields l hl).length

end LeavesFraming

/-- HEAD is answered like GET by what is left of a response that leaves framing to the
server, and announces the length of the body that GET gets. -/
theorem LeavesFraming.head_agrees {get head : Response} (h : LeavesFraming get)
    (hstripped : Stripped get head) (now now' : ImfFixdate) (directive : ConnectionDirective) :
    let getWritten := writeResponse now.text get .get directive
    let headWritten := writeResponse now'.text head .head directive
    HeadAgrees getWritten headWritten ∧
      ∀ content, getWritten.content = some content → content ≠ [] →
        headWritten.values HeaderKeys.contentLength = [toDecimal content.length] := by
  obtain ⟨hlength, hcoding, -⟩ := h.contains_framing
  obtain ⟨hwhole, hnone⟩ := h.shares directive
  have hget := not_conflict_of_uncoded hcoding
  have hne : HeaderKeys.transferEncoding ≠ HeaderKeys.contentLength := by decide
  have hhead := not_conflict_of_uncoded ((hstripped.contains_eq hne).trans hcoding)
  refine ⟨(hstripped.headAgrees_iff now now' directive hget hhead).mpr
    ((hstripped.keepsHead_iff now directive).mpr ⟨hwhole, fun _ _ _ => hnone⟩), ?_⟩
  intro content hcontent hne
  obtain ⟨hempty, -⟩ := hstripped.get_texts now directive
  rw [content_writeResponse hget, cutOff_eq_nil_iff.mpr (hempty.not.mpr hwhole), List.nil_append,
    Option.some_inj] at hcontent
  cases hstatus : isBodiless get.status with
  | true =>
      have hbodiless : responseAllowsBody get.status .get = false := by
        rw [responseAllowsBody_eq, hstatus]
        rfl
      rw [hbodiless] at hcontent
      exact absurd hcontent.symm hne
  | false =>
      have hallowed : responseAllowsBody get.status .get = true := by
        rw [responseAllowsBody_eq, hstatus]
        decide
      rw [hallowed] at hcontent
      cases hbody : get.body with
      | empty =>
          rw [hbody] at hcontent
          exact absurd hcontent.symm hne
      | stream items => exact absurd hbody (hstripped.known items)
      | full bytes =>
          rw [hbody] at hcontent
          obtain rfl : bytes = content := hcontent
          obtain ⟨hempty', hshown⟩ := hstripped.head_texts now' directive
          rw [values_writeResponse hhead, hshown (hempty'.not.mpr hwhole), hnone, hstatus,
            announcedField, hlength, hbody,
            values_stamps_eq_nil _ _ _ (by decide) (by decide)]
          simp

/-! ## The two runs -/

theorem not_replaced_of_coding {env : Env} {request : Request} {answer : Response}
    (h : (prepare env request answer).headers.contains HeaderKeys.transferEncoding = true) :
    Replaced env request answer = false := by
  by_contra hreplaced
  obtain ⟨status, -, hprepare⟩ := prepare_of_replaced (Bool.not_eq_false _ ▸ hreplaced)
  rw [hprepare, ← Headers.values_ne_nil_iff, Headers.values,
    getAll_replaceByStatus_framing answer status (Or.inr rfl)] at h
  exact h rfl

/-- The handler sets a transfer coding and no length on a body of known length, and no
precondition replaces its response: then, and only then, the response for HEAD is rejected. -/
theorem prepare_conflict_iff {env : Env} {request : Request} {answer : Response}
    (hmethod : request.method = .get) (hknown : ∀ items, answer.body ≠ .stream items)
    (hget : ((prepare env request answer).headers.contains HeaderKeys.contentLength &&
      (prepare env request answer).headers.contains HeaderKeys.transferEncoding) = false) :
    let head := prepare env { request with method := .head } answer.stripBodyForHead
    (head.headers.contains HeaderKeys.contentLength &&
        head.headers.contains HeaderKeys.transferEncoding) = true ↔
      answer.headers.contains HeaderKeys.transferEncoding = true ∧
        answer.headers.contains HeaderKeys.contentLength = false ∧
        (∃ bytes, answer.body = .full bytes) ∧ Replaced env request answer = false := by
  have hstripped := (stripBodyForHead_stripped hknown).prepare env hmethod
  dsimp only
  rw [hstripped.conflict_iff hget]
  constructor
  · rintro ⟨hcoding, hlength, hbody⟩
    have hkept := not_replaced_of_coding hcoding
    rw [prepare_of_not_replaced hkept] at hcoding hlength hbody
    exact ⟨hcoding, hlength, hbody, hkept⟩
  · rintro ⟨hcoding, hlength, hbody, hkept⟩
    rw [prepare_of_not_replaced hkept]
    exact ⟨hcoding, hlength, hbody⟩

/-- On the wire the two requests differ by their first token. -/
structure Connection.SameButHead (c c' : Connection σ) (text : Bytes) : Prop where
  get : c.input.buffer = ascii "GET " ++ text
  head : c'.input = ⟨ascii "HEAD " ++ text, c.input.incoming⟩
  state : c'.progress.handlerState = c.progress.handlerState

section Requests

variable {c c' : Connection σ} {text : Bytes} {request : Request}

theorem Connection.SameButHead.method (h : c.SameButHead c' text) (htakes : c.Takes request) :
    request.method = .get := by
  obtain ⟨head, mode, consumed, payload, input, hparse, -, rfl⟩ := htakes
  rw [h.get] at hparse
  have hmethod := method_get hparse
  exact hmethod

/-- HEAD is accepted where GET is, if there is room for it. -/
theorem Connection.SameButHead.takes_iff (h : c.SameButHead c' text) (htakes : c.Takes request) :
    c'.Takes { request with method := .head } ↔ HasRoom c.input.buffer := by
  obtain ⟨head, mode, consumed, payload, input, hparse, hbody, rfl⟩ := htakes
  have hfour := (findHeadersEnd_le (parseRequestHead_ok hparse).1).1
  have hadvance : c'.input.advance (consumed + 1) = c.input.advance consumed := by
    obtain ⟨n, rfl⟩ := Nat.exists_eq_add_of_le' hfour
    rw [h.head, Input.advance, Input.advance, h.get]
    rfl
  rw [h.get] at hparse ⊢
  constructor
  · rintro ⟨head', mode', consumed', payload', input', hparse', -, -⟩
    rw [h.head] at hparse'
    exact ((parseRequestHead_head_iff hparse).mp hparse').1
  · intro hroom
    refine ⟨{ head with method := .head }, mode, consumed + 1, payload, input, ?_, ?_, rfl⟩
    · rw [h.head]
      exact (parseRequestHead_head_iff hparse).mpr ⟨hroom, rfl⟩
    · rw [hadvance]
      exact hbody

end Requests

/-- Where a router falls back on the GET handler, HEAD is answered like a GET that is
answered, if and only if the longer token still fits, it is not the case that the handler
sets a transfer coding and no length on a body of known length and no precondition replaces
its response, and no text of it ends the head early or gives an empty body a length.  The last
is so for every handler whose texts hold no line end. -/
theorem head_agrees_iff (env : Env) (router : Router σ) (handler : Handler σ)
    (c c' : Connection σ) (text : Bytes) (request : Request) (x : Exchange)
    (hauto : router.autoHead = true) (hignores : IgnoresMethod handler)
    (hroute : router.GetOnly request handler) (hsame : c.SameButHead c' text)
    (hget : c.Answers env router.handle request x) (hok : x.written.result = .ok ())
    (hknown : ∀ items, (handler { request with body := .empty }
      c.progress.handlerState).1.body ≠ .stream items) :
    let answer := (handler { request with body := .empty } c.progress.handlerState).1
    let response := prepare env request answer
    ((∃ x', c'.Answers env router.handle { request with method := .head } x' ∧
        HeadAgrees x.written x'.written) ↔
      HasRoom c.input.buffer ∧
      ¬ (answer.headers.contains HeaderKeys.transferEncoding = true ∧
        answer.headers.contains HeaderKeys.contentLength = false ∧
        (∃ bytes, answer.body = .full bytes) ∧ Replaced env request answer = false) ∧
      KeepsHead response (env.now c.progress.responses).text
        (directiveFor request response)) ∧
    (answer.StaysOnLines →
      KeepsHead response (env.now c.progress.responses).text
        (directiveFor request response)) := by
  intro answer response
  have hmethod := hsame.method hget.1
  let response' := prepare env { request with method := .head } answer.stripBodyForHead
  have hstripped : Stripped response response' :=
    (stripBodyForHead_stripped hknown).prepare env hmethod
  have hx : x.written = writeResponse (env.now c.progress.responses).text response .get
      (directiveFor request response) := by
    have hhandle : router.handle { request with body := .empty } c.progress.handlerState =
        handler { request with body := .empty } c.progress.handlerState :=
      Router.handle_get _ hroute hmethod
    rw [hget.2, serve_written, hhandle]
    show writeResponse _ response request.method (directiveFor request response) = _
    rw [hmethod]
  have hx' : (serve env router.handle c'.progress.responses c'.progress.handlerState
      { request with method := .head }).1.written =
        writeResponse (env.now c'.progress.responses).text response' .head
          (directiveFor request response) := by
    have hhandle : router.handle { request with method := .head, body := .empty }
        c.progress.handlerState = _ := Router.handle_head _ hauto hroute rfl
    have hignored := hignores { request with body := .empty } .head c.progress.handlerState
    rw [hignored] at hhandle
    rw [serve_written, hsame.state, hhandle, ← hstripped.directiveFor_eq]
  rw [hx] at hok
  have hunconflicted := not_conflict_of_ok hok
  have hconflict : (response'.headers.contains HeaderKeys.contentLength &&
      response'.headers.contains HeaderKeys.transferEncoding) = true ↔ _ :=
    prepare_conflict_iff hmethod hknown hunconflicted
  have hagrees := hstripped.headAgrees_iff (env.now c.progress.responses)
    (env.now c'.progress.responses) (directiveFor request response) hunconflicted
  have hnow : ¬ CRLF <:+: (env.now c.progress.responses).text :=
    not_crlf_infix_of_not_mem (env.now c.progress.responses).isPlainField.noCr
  refine ⟨?_, fun hstays => (hstays.prepare env request).keepsHead hnow _⟩
  rw [hx, ← hsame.takes_iff hget.1, ← hconflict, Bool.not_eq_true]
  constructor
  · rintro ⟨x', ⟨htakes, rfl⟩, hhead⟩
    rw [hx'] at hhead
    have hpassed := not_conflict_of_ok hhead.result
    exact ⟨htakes, hpassed, (hagrees hpassed).mp hhead⟩
  · rintro ⟨htakes, hpassed, hkeeps⟩
    refine ⟨_, ⟨htakes, rfl⟩, ?_⟩
    rw [hx']
    exact (hagrees hpassed).mpr hkeeps

def wireHead : WireRequest :=
  { wireGet with
    methodToken := ascii "HEAD"
    method := .head
    method_ok := by decide
    target_ok := by decide +kernel
    line_short := by decide
    head_short := by decide }

def oneRoute (response : Response) : Router Unit :=
  .build true [⟨.get, ascii "/", .always response⟩]

theorem oneRoute_getOnly (response : Response) :
    (oneRoute response).GetOnly wireGet.request (.always response) :=
  ⟨_, rfl, rfl, rfl⟩

theorem wireGet_answers (handler : Handler Unit) :
    Connection.Answers .atEpoch handler ⟨⟨wireGet.bytes, []⟩, .start ()⟩ wireGet.request
      (serve .atEpoch handler 0 () wireGet.request).1 :=
  ⟨List.append_nil wireGet.bytes ▸ wireGet.takes [] _, rfl⟩

/-- Two bytes behind a transfer coding of the handler's own. -/
def codedResponse : Response :=
  { Response.new .OK with
    headers := Headers.empty.insert HeaderKeys.transferEncoding (ascii "chunked")
    body := .full (ascii "hi") }

theorem wireGet_sameButHead (p p' : Progress σ) (hstate : p'.handlerState = p.handlerState) :
    Connection.SameButHead ⟨⟨wireGet.bytes, []⟩, p⟩ ⟨⟨wireHead.bytes, []⟩, p'⟩
      (wireGet.bytes.drop 4) :=
  ⟨(by decide +kernel : wireGet.bytes = ascii "GET " ++ wireGet.bytes.drop 4),
    congrArg (Input.mk · []) (by decide +kernel : wireHead.bytes =
      ascii "HEAD " ++ wireGet.bytes.drop 4), hstate⟩

theorem wireGet_hasRoom : HasRoom wireGet.bytes := ⟨by decide +kernel, by decide +kernel⟩

/-- GET is answered, HEAD is not. -/
theorem head_codedResponse :
    ∃ x, Connection.Answers .atEpoch (oneRoute codedResponse).handle
        ⟨⟨wireGet.bytes, []⟩, .start ()⟩ wireGet.request x ∧
      x.written.result = .ok () ∧
      ∀ x', Connection.Answers .atEpoch (oneRoute codedResponse).handle
        ⟨⟨wireHead.bytes, []⟩, .start ()⟩ { wireGet.request with method := .head } x' →
          x'.written.result = .error .conflictingLengthAndTransferEncoding ∧
            ¬ HeadAgrees x.written x'.written := by
  refine ⟨_, wireGet_answers _, by decide +kernel, ?_⟩
  rintro x' ⟨-, rfl⟩
  have hrejected : (serve .atEpoch (oneRoute codedResponse).handle 0 ()
      { wireGet.request with method := .head }).1.written.result =
        .error .conflictingLengthAndTransferEncoding := by decide +kernel
  refine ⟨hrejected, fun hagrees => ?_⟩
  cases hrejected.symm.trans hagrees.result

/-- Without it HEAD is answered like GET. -/
theorem head_agrees_plain :
    ∃ x x', Connection.Answers .atEpoch (oneRoute (.setBodyBytes (.new .OK) (ascii "hi"))).handle
        ⟨⟨wireGet.bytes, []⟩, .start ()⟩ wireGet.request x ∧
      Connection.Answers .atEpoch (oneRoute (.setBodyBytes (.new .OK) (ascii "hi"))).handle
        ⟨⟨wireHead.bytes, []⟩, .start ()⟩ { wireGet.request with method := .head } x' ∧
      HeadAgrees x.written x'.written ∧
      x'.written.values HeaderKeys.contentLength = [ascii "2"] := by
  obtain ⟨x', hanswers, hagrees⟩ := (head_agrees_iff .atEpoch
    (oneRoute (.setBodyBytes (.new .OK) (ascii "hi")))
    (.always (.setBodyBytes (.new .OK) (ascii "hi"))) _ _ _ wireGet.request _ rfl
    (fun _ _ _ => rfl) (oneRoute_getOnly _) (wireGet_sameButHead _ _ rfl) (wireGet_answers _)
    (by decide +kernel) (fun _ h => by cases h)).1.mpr
      ⟨wireGet_hasRoom, fun h => absurd h.1 (by decide),
        by decide +kernel, fun hbody => by cases hbody⟩
  exact ⟨_, x', wireGet_answers _, hanswers, hagrees, by rw [hanswers.2]; decide +kernel⟩

end GooseHttp
