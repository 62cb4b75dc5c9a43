import GooseHttp.Connection
import GooseHttp.EmittedHead
import GooseHttp.WireHead
/-!
# The head a response is sent with

The writer edits the fields of a handler and puts their texts on the wire as they are.
`Response.headTexts` says which texts these are and in which order.  What a reader of the
written bytes finds are the fields of the lines that the texts make, and behind their first
empty line the rest of them and the body.
-/

namespace GooseHttp

open Lib Client

/-! ## The fields of a response as they are sent -/

def withLength (length : Text) (fields : List (HeaderName × List Text)) :
    List (HeaderName × List Text) :=
  if (Multimap.find HeaderKeys.contentLength fields).isSome then fields
  else fields ++ [(HeaderKeys.contentLength, [length])]

def framedFields (status : StatusCode) (method : Method) (body : ResponseBody)
    (fields : List (HeaderName × List Text)) : List (HeaderName × List Text) :=
  let uncoded := Multimap.removeKey HeaderKeys.transferEncoding fields
  if isBodiless status then Multimap.removeKey HeaderKeys.contentLength uncoded
  else
    match body with
    | .full bytes => withLength (toDecimal bytes.length) uncoded
    | .empty => if method = .head then uncoded else withLength (ascii "0") uncoded
    | .stream _ =>
        if method = .head then uncoded
        else
          let sizeless := Multimap.removeKey HeaderKeys.contentLength fields
          let codings := (Multimap.find HeaderKeys.transferEncoding fields).getD []
          if codings.head?.any fun value => (splitAll 44 value).any fun token =>
              eqIgnoreAsciiCase (trim token) (ascii "chunked") then sizeless
          else Multimap.setValues HeaderKeys.transferEncoding [ascii "chunked"] sizeless

def fieldTexts (fields : List (HeaderName × List Text)) : List Text :=
  (Multimap.lines fields).map fun l => fieldText l.1.text l.2

/-- The texts of the head of a response: its status line, and a line for each value of the
handler's fields with the edits of the writer. -/
def Response.headTexts (r : Response) (now : Text) (method : Method)
    (directive : ConnectionDirective) : List Text :=
  statusText r.version r.status r.reasonPhrase ::
    fieldTexts (framedFields r.status method r.body
      (stampedFields now r.headers.iter directive))

theorem isSome_find_iter (headers : Headers) (name : HeaderName) :
    (Multimap.find name headers.iter).isSome = headers.contains name := by
  rw [Headers.find_iter]
  rfl

theorem iter_withLength (headers : Headers) (length : Text) :
    (if headers.contains HeaderKeys.contentLength then headers
      else headers.insert HeaderKeys.contentLength length).iter =
      withLength length headers.iter := by
  rw [withLength, isSome_find_iter]
  split
  · rfl
  · rename_i hnone
    rw [Headers.iter_insert, Multimap.setValues_of_find_none]
    rwa [Headers.find_iter, ← Headers.contains_eq_false_iff, ← Bool.not_eq_true]

theorem iter_frameKnownLength (headers : Headers) {status : StatusCode} (length : Text)
    (hstatus : isBodiless status = false) :
    (frameKnownLength headers status length).iter =
      withLength length (Multimap.removeKey HeaderKeys.transferEncoding headers.iter) := by
  rw [← Headers.iter_remove, ← iter_withLength, frameKnownLength, hstatus]
  rfl

theorem iter_ensureChunkedEncoding (headers : Headers) :
    (ensureChunkedEncoding (headers.remove HeaderKeys.contentLength)).iter =
      if listsChunked headers then Multimap.removeKey HeaderKeys.contentLength headers.iter
      else Multimap.setValues HeaderKeys.transferEncoding [ascii "chunked"]
        (Multimap.removeKey HeaderKeys.contentLength headers.iter) := by
  have hlists : listsChunked (headers.remove HeaderKeys.contentLength) = listsChunked headers :=
    listsChunked_congr (Headers.getAll_remove_of_ne _ (by decide))
  rw [ensureChunkedEncoding_eq, hlists]
  split
  · rw [Headers.iter_remove]
  · rw [Headers.iter_insert, Headers.iter_remove]

theorem iter_frameBodiless_head (headers : Headers) {status : StatusCode} (body : ResponseBody)
    (hstatus : isBodiless status = false) :
    (frameBodiless (announceLength headers status .head body) status .head).iter =
      match body with
      | .full bytes => withLength (toDecimal bytes.length)
          (Multimap.removeKey HeaderKeys.transferEncoding headers.iter)
      | _ => Multimap.removeKey HeaderKeys.transferEncoding headers.iter := by
  have hframe : ∀ h : Headers, frameBodiless h status .head =
      h.remove HeaderKeys.transferEncoding := by
    intro h
    rw [frameBodiless, hstatus]
    simp
  rw [hframe]
  cases body with
  | full bytes =>
      have hcontains := isSome_find_iter (headers.remove HeaderKeys.transferEncoding)
        HeaderKeys.contentLength
      rw [contains_length_remove_coding, Headers.iter_remove] at hcontains
      dsimp only
      rw [withLength, hcontains]
      simp only [announceLength, hstatus, decide_true, Bool.not_false, Bool.true_and]
      cases hlength : headers.contains HeaderKeys.contentLength with
      | true => simp [Headers.iter_remove]
      | false =>
          have hnone : Multimap.find HeaderKeys.contentLength headers.iter = none := by
            rwa [Headers.find_iter, ← Headers.contains_eq_false_iff]
          have hne : HeaderKeys.contentLength ≠ HeaderKeys.transferEncoding := by decide
          simp [Headers.iter_remove, Headers.iter_insert, Multimap.setValues_of_find_none hnone,
            Multimap.removeKey, hne]
  | empty => exact Headers.iter_remove _ _
  | stream items => exact Headers.iter_remove _ _

/-- The framing edits are those of the fields. -/
theorem iter_frameHeaders (headers : Headers) (status : StatusCode) (method : Method)
    (body : ResponseBody) :
    (frameHeaders headers status method body).iter =
      framedFields status method body headers.iter := by
  unfold frameHeaders framedFields
  rw [responseAllowsBody_eq]
  cases hstatus : isBodiless status with
  | true =>
      have hsame : announceLength headers status method body = headers := by
        unfold announceLength
        split <;> simp [hstatus]
      rw [hsame]
      simp [frameBodiless, hstatus, Headers.iter_remove]
  | false =>
      by_cases hmethod : method = .head
      · subst hmethod
        have hhead := iter_frameBodiless_head headers body hstatus
        cases body <;> simpa using hhead
      · cases body with
        | empty => simpa [hmethod] using iter_frameKnownLength headers (ascii "0") hstatus
        | full bytes =>
            simpa [hmethod] using iter_frameKnownLength headers (toDecimal bytes.length) hstatus
        | stream items =>
            have hcodings : ((Multimap.find HeaderKeys.transferEncoding headers.iter).getD
                []).head? = headers.get HeaderKeys.transferEncoding := by
              rw [Headers.find_iter, Headers.get_eq_head?, Headers.values]
            have hchunked := iter_ensureChunkedEncoding headers
            rw [listsChunked] at hchunked
            simpa [hmethod, hcodings] using hchunked

/-- The values that the texts of a response give a name in front of the first empty line they
make: those of its fields of that name up to a line end, and of every line that starts
behind a line end in another text. -/
def Response.givenValues (r : Response) (now : Text) (method : Method)
    (directive : ConnectionDirective) (name : HeaderName) : List Text :=
  fieldValues (shownFields (r.headTexts now method directive)) name

theorem headTexts_eq (r : Response) (now : Text) (method : Method)
    (directive : ConnectionDirective) :
    r.headTexts now method directive =
      statusText r.version r.status r.reasonPhrase ::
        (frameHeaders (stampHeaders now r.headers directive) r.status method
          r.body).lines.map fun l => fieldText l.1.text l.2 := by
  rw [Response.headTexts, fieldTexts, Headers.lines, iter_frameHeaders, iter_stampHeaders]

/-! ## What single fields make -/

/-- The fields that the lines of these fields make where no line is empty. -/
def madeFields (fields : List (HeaderName × List Text)) : List (HeaderName × Text) :=
  (linesOf (fieldTexts fields)).filterMap rawField

theorem fieldTexts_append (fields fields' : List (HeaderName × List Text)) :
    fieldTexts (fields ++ fields') = fieldTexts fields ++ fieldTexts fields' := by
  rw [fieldTexts, Multimap.lines_append, List.map_append, fieldTexts, fieldTexts]

theorem rawField_fieldText (l : HeaderName × Text) :
    rawField (fieldText l.1.text l.2) = some (wireField l) := by
  have hcolon : (58 : UInt8) ∈ fieldText l.1.text l.2 := by
    have h58 : (58 : UInt8) ∈ ascii ": " := by decide
    simp [fieldText, h58]
  rw [rawField, wireField, wireParts]
  cases hsplit : splitOnce 58 (fieldText l.1.text l.2) with
  | none => exact absurd hcolon (splitOnce_eq_none_iff.mp hsplit)
  | some parts => rfl

theorem linesOf_whole {texts : List Text} (h : ∀ text ∈ texts, ¬ CRLF <:+: text) :
    linesOf texts = texts := by
  induction texts with
  | nil => rfl
  | cons text texts ih =>
      obtain ⟨htext, htexts⟩ := List.forall_mem_cons.mp h
      rw [linesOf_cons, splitPair_of_not_infix htext, ih htexts]
      rfl

theorem linesOf_clean {lines : List (HeaderName × Text)}
    (h : ∀ l ∈ lines, CR ∉ l.1.text ∧ CR ∉ l.2) :
    linesOf (lines.map fun l => fieldText l.1.text l.2) =
      lines.map fun l => fieldText l.1.text l.2 := by
  refine linesOf_whole fun text htext => ?_
  obtain ⟨l, hl, rfl⟩ := List.mem_map.mp htext
  rw [crlf_infix_fieldText, not_or]
  exact ⟨not_crlf_infix_of_not_mem (h l hl).1, not_crlf_infix_of_not_mem (h l hl).2⟩

theorem filterMap_rawField_lines (lines : List (HeaderName × Text)) :
    (lines.map fun l => fieldText l.1.text l.2).filterMap rawField = lines.map wireField := by
  rw [List.filterMap_map, ← List.filterMap_eq_map]
  exact List.filterMap_congr fun l _ => rawField_fieldText l

theorem Client.IsPlainField.clean {l : HeaderName × Text} (h : IsPlainField l) :
    CR ∉ l.1.text ∧ CR ∉ l.2 :=
  ⟨not_mem_of_isToken h.name (by decide), h.noCr⟩

section Plain

variable {fields : List (HeaderName × List Text)}
  (h : ∀ l ∈ Multimap.lines fields, IsPlainField l)

include h

theorem madeFields_plain : madeFields fields = Multimap.lines fields := by
  rw [madeFields, fieldTexts, linesOf_clean fun l hl => (h l hl).clean, filterMap_rawField_lines,
    map_wireField h]

theorem empty_not_mem_plain : [] ∉ linesOf (fieldTexts fields) := by
  rw [fieldTexts, linesOf_clean fun l hl => (h l hl).clean]
  intro hmem
  obtain ⟨l, -, hl⟩ := List.mem_map.mp hmem
  exact fieldText_ne_nil _ _ hl

end Plain

/-- Plain fields that are added to others add no empty line, and are shown behind them. -/
theorem headTexts_added {r : Response} {now : Text} {method : Method}
    {directive : ConnectionDirective} {fields added : List (HeaderName × List Text)}
    (hframed : framedFields r.status method r.body (stampedFields now r.headers.iter directive) =
      fields ++ added) (hplain : ∀ l ∈ Multimap.lines added, IsPlainField l) :
    let status := statusText r.version r.status r.reasonPhrase
    ([] ∈ linesOf (r.headTexts now method directive) ↔
      [] ∈ linesOf (status :: fieldTexts fields)) ∧
    ([] ∉ linesOf (r.headTexts now method directive) →
      shownFields (r.headTexts now method directive) =
        (splitPair CR LF status).tail.filterMap rawField ++ madeFields fields ++
          Multimap.lines added) := by
  have htexts : r.headTexts now method directive =
      statusText r.version r.status r.reasonPhrase ::
        (fieldTexts fields ++ fieldTexts added) := by
    rw [Response.headTexts, hframed, fieldTexts_append]
  have hadded := empty_not_mem_plain hplain
  dsimp only
  rw [htexts]
  constructor
  · rw [linesOf_cons, linesOf_append, linesOf_cons]
    simp [hadded]
  · intro hwhole
    rw [shownFields_of_no_empty hwhole, linesOf_append, List.filterMap_append,
      List.filterMap_append, List.append_assoc, ← madeFields, ← madeFields,
      madeFields_plain hplain]

/-! ## What is on the wire -/

def Written.fields (w : Written) : List (HeaderName × Text) := rawFields w.bytes

def Written.values (w : Written) (name : HeaderName) : List Text := fieldValues w.fields name

def Written.content (w : Written) : Option Bytes := contentOf w.bytes

theorem statusText_first (version : HttpVersion) (status : StatusCode) (reason : Text) :
    (splitPair CR LF (statusText version status reason)).head? ≠ some [] := by
  intro hfirst
  obtain ⟨rest, hrest⟩ := List.isPrefixOf_iff_prefix.mp (isPrefixOf_display version)
  have htext : statusText version status reason =
      72 :: ((ascii "TTP/" ++ rest) ++ 32 :: (toDecimal status.asU16 ++
        if reason = [] then [] else 32 :: reason)) := by
    rw [statusText, ← hrest]
    rfl
  rw [htext] at hfirst
  exact absurd (head?_of_splitPair_nil hfirst) (by decide)

theorem splitPair_statusText {version : HttpVersion} {status : StatusCode} {reason : Text}
    (h : CR ∉ reason) :
    splitPair CR LF (statusText version status reason) = [statusText version status reason] ∧
      statusText version status reason ≠ [] := by
  have hwhole : splitPair CR LF (statusText version status reason) = [_] :=
    splitPair_of_not_infix (not_crlf_infix_of_not_mem (cr_not_mem_statusText h))
  refine ⟨hwhole, fun hnil => ?_⟩
  have hfirst := statusText_first version status reason
  rw [hwhole, hnil] at hfirst
  exact hfirst rfl

section OnWire

variable {now : Text} {response : Response} {method : Method} {directive : ConnectionDirective}
  (h : (response.headers.contains HeaderKeys.contentLength &&
    response.headers.contains HeaderKeys.transferEncoding) = false)

include h

theorem writeResponse_texts :
    (writeResponse now response method directive).bytes =
      headText (response.headTexts now method directive) ++
        (writeBody (responseAllowsBody response.status method) response.body
          response.trailers).1 := by
  rw [writeResponse_of_framed h, headTexts_eq, ← headBytes_eq]

theorem content_writeResponse :
    (writeResponse now response method directive).content =
      some (cutOff (response.headTexts now method directive) ++
        (writeBody (responseAllowsBody response.status method) response.body
          response.trailers).1) := by
  rw [Written.content, writeResponse_texts h]
  exact contentOf_headText _ (statusText_first _ _ _)

theorem fields_writeResponse :
    (writeResponse now response method directive).fields =
      shownFields (response.headTexts now method directive) := by
  rw [Written.fields, writeResponse_texts h]
  exact rawFields_headText_texts _ (List.cons_ne_nil _ _)

theorem values_writeResponse (name : HeaderName) :
    (writeResponse now response method directive).values name =
      response.givenValues now method directive name := by
  rw [Written.values, fields_writeResponse h, Response.givenValues]

theorem statusLine_writeResponse :
    (splitPair CR LF (writeResponse now response method directive).bytes).head? =
      (splitPair CR LF (statusText response.version response.status
        response.reasonPhrase)).head? := by
  rw [writeResponse_texts h, splitPair_headText, Response.headTexts, linesOf_cons,
    List.append_assoc]
  exact List.head?_append_of_ne_nil _ (splitPair_ne_nil _ _ _)

end OnWire

/-! ## Texts without line ends -/

/-- No text of a response holds the end of a line, and its names are tokens. -/
structure Response.StaysOnLines (r : Response) : Prop where
  reason : ∀ reason, r.reason = some reason → ¬ CRLF <:+: reason
  fields : ∀ l ∈ r.headers.lines, isToken l.1.text = true ∧ ¬ CRLF <:+: l.2

theorem not_crlf_infix_statusText {version : HttpVersion} {status : StatusCode} {reason : Text}
    (h : ¬ CRLF <:+: reason) : ¬ CRLF <:+: statusText version status reason := by
  by_cases hnil : reason = []
  · subst hnil
    exact not_crlf_infix_of_not_mem (cr_not_mem_statusText List.not_mem_nil)
  · rwa [statusText_eq_iff.mpr hnil, crlf_infix_statusLineText]

/-- Under a token a value is read as it was given, but for the white space around it. -/
theorem fieldValues_map_wireField {lines : List (HeaderName × Text)}
    (h : ∀ l ∈ lines, isToken l.1.text = true) (name : HeaderName) :
    fieldValues (lines.map wireField) name = (fieldValues lines name).map trimOws := by
  have hwire : lines.map wireField = lines.map fun l => (l.1, trimOws l.2) := by
    refine List.map_congr_left fun l hl => ?_
    rw [wireField, wireParts_of_token (h l hl), HeaderName.new_text, trimOws,
      List.dropWhile_cons_of_pos (by decide), ← trimOws]
  rw [hwire, fieldValues, fieldValues, List.filter_map, List.map_map, List.map_map]
  rfl

namespace Response.StaysOnLines

variable {r : Response} {now : Text} (h : r.StaysOnLines)

include h

theorem replaceByStatus (status : StatusCode) : (replaceByStatus r status).StaysOnLines :=
  ⟨h.reason, forall_lines_replaceByStatus status h.fields⟩

theorem prepare (env : Env) (request : Request) : (prepare env request r).StaysOnLines := by
  rcases prepare_cases env request r with hkept | ⟨status, -, hreplaced⟩
  · rwa [hkept]
  · rw [hreplaced]
    exact h.replaceByStatus status

theorem status : ¬ CRLF <:+: statusText r.version r.status r.reasonPhrase := by
  apply not_crlf_infix_statusText
  rw [Response.reasonPhrase]
  cases hreason : r.reason with
  | some reason => exact h.reason reason hreason
  | none =>
      cases hcanonical : r.status.canonicalReason with
      | some reason =>
          exact not_crlf_infix_of_not_mem (StatusCode.canonicalReason_clean hcanonical).1
      | none => exact not_crlf_infix_of_not_mem List.not_mem_nil

theorem splitPair_status : splitPair CR LF (statusText r.version r.status r.reasonPhrase) =
    [statusText r.version r.status r.reasonPhrase] :=
  splitPair_of_not_infix h.status

variable (hnow : ¬ CRLF <:+: now) (method : Method) (directive : ConnectionDirective)

include hnow

theorem edited :
    ∀ l ∈ (frameHeaders (stampHeaders now r.headers directive) r.status method r.body).lines,
      isToken l.1.text = true ∧ ¬ CRLF <:+: l.2 := by
  have hplain : ∀ {l : HeaderName × Text}, IsPlainField l →
      isToken l.1.text = true ∧ ¬ CRLF <:+: l.2 :=
    fun hl => ⟨hl.name, not_crlf_infix_of_not_mem hl.noCr⟩
  have hdate : isToken HeaderKeys.date.text = true := by decide
  exact forall_lines_frameHeaders r.status method r.body
    (forall_lines_stampHeaders directive h.fields ⟨hdate, hnow⟩ (hplain isPlainField_close))
    (fun n => hplain (isPlainField_length n)) (hplain isPlainField_chunked)

theorem linesOf_headTexts :
    linesOf (r.headTexts now method directive) = r.headTexts now method directive := by
  refine linesOf_whole ?_
  rw [headTexts_eq, List.forall_mem_cons]
  refine ⟨h.status, fun text htext => ?_⟩
  obtain ⟨l, hl, rfl⟩ := List.mem_map.mp htext
  obtain ⟨hname, hvalue⟩ := h.edited hnow method directive l hl
  rw [crlf_infix_fieldText, not_or]
  exact ⟨not_crlf_infix_of_not_mem (not_mem_of_isToken hname (by decide)), hvalue⟩

theorem empty_not_mem : [] ∉ linesOf (r.headTexts now method directive) := by
  have hstatus := statusText_first r.version r.status r.reasonPhrase
  rw [h.splitPair_status] at hstatus
  rw [h.linesOf_headTexts hnow, headTexts_eq, List.mem_cons, not_or]
  refine ⟨fun hnil => hstatus (congrArg some hnil.symm), fun hmem => ?_⟩
  obtain ⟨l, -, hl⟩ := List.mem_map.mp hmem
  exact fieldText_ne_nil _ _ hl

/-- The values on the wire are those of the edited fields, but for the white space around
them. -/
theorem givenValues (name : HeaderName) :
    r.givenValues now method directive name =
      ((frameHeaders (stampHeaders now r.headers directive) r.status method r.body).values
        name).map trimOws := by
  have hempty := h.empty_not_mem hnow method directive
  have hlines := h.linesOf_headTexts hnow method directive
  rw [headTexts_eq] at hempty hlines
  rw [linesOf_cons, h.splitPair_status, List.singleton_append, List.cons_inj_right] at hlines
  rw [Response.givenValues, headTexts_eq, shownFields_of_no_empty hempty, h.splitPair_status,
    hlines, List.tail_cons, List.nil_append, filterMap_rawField_lines,
    fieldValues_map_wireField fun l hl => (h.edited hnow method directive l hl).1,
    Headers.fieldValues_lines]

end Response.StaysOnLines

/-! ## A length set by the handler -/

/-- A written response of which every length on the wire is the number of bytes behind the
blank line. -/
def LengthsAgree (written : Written) : Prop :=
  ∃ content, written.content = some content ∧
    written.values HeaderKeys.contentLength ≠ [] ∧
    ∀ value ∈ written.values HeaderKeys.contentLength,
      readNumber 10 value = .ok content.length

theorem lengthsAgree_iff_given {now : Text} {response : Response} {method : Method}
    {directive : ConnectionDirective}
    (hallowed : responseAllowsBody response.status method = true)
    (hbody : ∀ items, response.body ≠ .stream items)
    (hcoding : response.headers.contains HeaderKeys.transferEncoding = false) :
    ((writeResponse now response method directive).result = .ok () →
      LengthsAgree (writeResponse now response method directive)) ↔
    response.givenValues now method directive HeaderKeys.contentLength ≠ [] ∧
      ∀ value ∈ response.givenValues now method directive HeaderKeys.contentLength,
        readNumber 10 value = .ok ((cutOff (response.headTexts now method directive)).length +
          (response.sentBody method).length) := by
  have hframed := not_conflict_of_uncoded hcoding
  have hok : (writeResponse now response method directive).result = .ok () :=
    writeResponse_result_ok (fun items hitems => absurd hitems (hbody items)) hframed
  have hcontent : (writeResponse now response method directive).content = _ :=
    content_writeResponse hframed
  have hvalues : (writeResponse now response method directive).values HeaderKeys.contentLength =
      response.givenValues now method directive HeaderKeys.contentLength :=
    values_writeResponse hframed _
  rw [writeBody_sentBody hallowed hbody] at hcontent
  rw [LengthsAgree, hvalues, hcontent, ← List.length_append]
  constructor
  · intro hagree
    obtain ⟨content, hsome, hgiven, hall⟩ := hagree hok
    rw [Option.some.inj hsome]
    exact ⟨hgiven, hall⟩
  · rintro ⟨hgiven, hall⟩ -
    exact ⟨_, rfl, hgiven, hall⟩

/-- A response with a length of the handler's own is in step with its body if and only if
its texts give a length, and only ones that count the body and what an empty line among them,
if there is one, cuts off the head.  Where no text holds a line end, this asks that the
lengths the handler gave all count the body. -/
theorem writeResponse_lengthsAgree_iff (now : Text) (response : Response) (method : Method)
    (directive : ConnectionDirective)
    (hallowed : responseAllowsBody response.status method = true)
    (hbody : ∀ items, response.body ≠ .stream items)
    (hcoding : response.headers.contains HeaderKeys.transferEncoding = false) :
    let agrees := (writeResponse now response method directive).result = .ok () →
      LengthsAgree (writeResponse now response method directive)
    (agrees ↔ response.givenValues now method directive HeaderKeys.contentLength ≠ [] ∧
      ∀ value ∈ response.givenValues now method directive HeaderKeys.contentLength,
        readNumber 10 value = .ok ((cutOff (response.headTexts now method directive)).length +
          (response.sentBody method).length)) ∧
    (response.headers.contains HeaderKeys.contentLength = true → response.StaysOnLines →
      ¬ CRLF <:+: now →
      (agrees ↔ ∀ value ∈ response.headers.values HeaderKeys.contentLength,
        readNumber 10 (trimOws value) = .ok (response.sentBody method).length)) := by
  refine ⟨lengthsAgree_iff_given hallowed hbody hcoding, fun hpresent hstays hnow => ?_⟩
  have hstatus : isBodiless response.status = false := by
    rw [responseAllowsBody_eq, Bool.and_eq_true, Bool.not_eq_true'] at hallowed
    exact hallowed.1
  have hsurvives : Survives response method directive HeaderKeys.contentLength :=
    ⟨fun heq => absurd heq (by decide), fun heq => absurd heq (by decide),
      fun _ => ⟨hstatus, fun ⟨_, items, hitems⟩ => hbody items hitems⟩⟩
  have hne : response.headers.values HeaderKeys.contentLength ≠ [] :=
    (response.headers.values_ne_nil_iff _).mpr hpresent
  have hcut : cutOff (response.headTexts now method directive) = [] :=
    cutOff_eq_nil_iff.mpr (hstays.empty_not_mem hnow method directive)
  rw [lengthsAgree_iff_given hallowed hbody hcoding, hstays.givenValues hnow, hcut,
    values_edited_of_survives hsurvives hne]
  simp [hne]

def wrongLength : Response :=
  { Response.new .OK with
    headers := Headers.empty.insert HeaderKeys.contentLength (ascii "5")
    body := .full (ascii "ab") }

theorem writeResponse_wrongLength :
    (writeResponse (ascii "now") wrongLength .get .keepAlive).result = .ok () ∧
      ¬ LengthsAgree (writeResponse (ascii "now") wrongLength .get .keepAlive) := by
  refine ⟨rfl, ?_⟩
  rintro ⟨content, hcontent, -, hall⟩
  have hvalue := hall (ascii "5") (by decide +kernel)
  have hfive : readNumber 10 (ascii "5") = .ok 5 := by decide +kernel
  have htwo : (writeResponse (ascii "now") wrongLength .get .keepAlive).content =
      some (ascii "ab") := by decide +kernel
  rw [htwo] at hcontent
  rw [hfive, ← Option.some.inj hcontent] at hvalue
  cases hvalue

/-- Two bytes announced as two, three times: behind a space, with a leading zero, and on a
line that starts inside another field. -/
theorem writeResponse_lengthsAgree_thrice :
    LengthsAgree (writeResponse (ascii "now")
      { wrongLength with
        headers := ((Headers.empty.insert HeaderKeys.contentLength (ascii " 2")).append
          HeaderKeys.contentLength (ascii "02")).insert (.new (ascii "X"))
            (ascii "a\r\nContent-Length: 2") } .get .keepAlive) :=
  (writeResponse_lengthsAgree_iff (ascii "now") _ .get .keepAlive (by decide)
    (fun _ h => by cases h) (by decide)).1.mpr (by decide +kernel) rfl

end GooseHttp
