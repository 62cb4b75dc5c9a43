import GooseHttp.EntityTag
import GooseHttp.History
/-!
# Conditional requests, as specified and as served

`conditionalStatus` is the order of evaluation that HTTP lays down, over the parsed values
of the four conditional fields and of the two validators.  The server evaluates the same
steps with two differences: it looks at redirects and interim statuses as well, and an
`If-Match` that holds does not make it pass over `If-Unmodified-Since`.
-/

namespace GooseHttp

open Lib

/-! ## The specification -/

structure Conditions where
  ifMatch : Option TagList
  ifNoneMatch : Option TagList
  ifModifiedSince : Option Nat
  ifUnmodifiedSince : Option Nat

structure Validators where
  etag : Option EntityTag
  lastModified : Option Nat

namespace Conditions

variable (c : Conditions) (v : Validators)

/-- `If-Match` is present and names another version. -/
def MatchFails : Prop := ∃ list ∈ c.ifMatch, ¬ list.Matches v.etag

def MatchHolds : Prop := ∃ list ∈ c.ifMatch, list.Matches v.etag

def ModifiedLater : Prop := ∃ t ∈ c.ifUnmodifiedSince, ∃ m ∈ v.lastModified, t < m

def NoneMatchFails : Prop := ∃ list ∈ c.ifNoneMatch, list.Matches v.etag

/-- In the absence of `If-None-Match`, the version is no later than `If-Modified-Since`. -/
def NotModified : Prop :=
  c.ifNoneMatch = none ∧ ∃ t ∈ c.ifModifiedSince, ∃ m ∈ v.lastModified, m ≤ t

instance : Decidable (c.MatchFails v) := inferInstanceAs (Decidable (∃ list ∈ c.ifMatch, _))
instance : Decidable (c.MatchHolds v) := inferInstanceAs (Decidable (∃ list ∈ c.ifMatch, _))
instance : Decidable (c.ModifiedLater v) :=
  inferInstanceAs (Decidable (∃ t ∈ c.ifUnmodifiedSince, _))
instance : Decidable (c.NoneMatchFails v) :=
  inferInstanceAs (Decidable (∃ list ∈ c.ifNoneMatch, _))
instance : Decidable (c.NotModified v) := inferInstanceAs (Decidable (_ ∧ _))

end Conditions

def StatusCode.isSuccess (status : StatusCode) : Bool :=
  200 ≤ status.asU16 && status.asU16 < 300

/-- The final status of a conditional request whose handler answered with `status`. -/
def conditionalStatus (method : Method) (status : StatusCode) (c : Conditions) (v : Validators) :
    StatusCode :=
  if status.isSuccess = false then status
  else if c.MatchFails v then .PRECONDITION_FAILED
  else if c.ifMatch = none ∧ c.ModifiedLater v then .PRECONDITION_FAILED
  else if c.NoneMatchFails v then
    if isGetOrHead method then .NOT_MODIFIED else .PRECONDITION_FAILED
  else if isGetOrHead method ∧ c.NotModified v then .NOT_MODIFIED
  else status

/-- What `If-None-Match`, or `If-Modified-Since` in its absence, puts in place. -/
def Conditions.noneMatchDecision (c : Conditions) (method : Method) (v : Validators) :
    Option StatusCode :=
  if c.NoneMatchFails v then
    some (if isGetOrHead method then .NOT_MODIFIED else .PRECONDITION_FAILED)
  else if isGetOrHead method ∧ c.NotModified v then some .NOT_MODIFIED
  else none

theorem Conditions.noneMatchDecision_eq_none_iff {c : Conditions} {method : Method}
    {v : Validators} : c.noneMatchDecision method v = none ↔
      ¬ c.NoneMatchFails v ∧ ¬ (isGetOrHead method = true ∧ c.NotModified v) := by
  unfold noneMatchDecision
  split
  · simp_all
  · split <;> simp_all

theorem Conditions.noneMatchDecision_eq_failed_iff {c : Conditions} {method : Method}
    {v : Validators} : c.noneMatchDecision method v = some .PRECONDITION_FAILED ↔
      c.NoneMatchFails v ∧ isGetOrHead method = false := by
  have hne : StatusCode.NOT_MODIFIED ≠ .PRECONDITION_FAILED := by decide
  unfold noneMatchDecision
  split
  · cases isGetOrHead method <;> simp_all
  · split <;> simp_all

theorem Conditions.noneMatchDecision_some {c : Conditions} {method : Method} {v : Validators}
    {status : StatusCode} (h : c.noneMatchDecision method v = some status)
    (hne : status ≠ .PRECONDITION_FAILED) :
    status = .NOT_MODIFIED ∧ isGetOrHead method = true := by
  unfold noneMatchDecision at h
  split at h
  · cases hsafe : isGetOrHead method with
    | false => exact absurd (by simpa [hsafe] using h.symm) hne
    | true => exact ⟨by simpa [hsafe] using h.symm, rfl⟩
  · split at h
    · rename_i hmodified
      exact ⟨(Option.some.inj h).symm, hmodified.1⟩
    · cases h

theorem Conditions.noneMatchDecision_safe {c : Conditions} {method : Method} {v : Validators}
    (hsafe : isGetOrHead method = true) : c.noneMatchDecision method v = none ∨
      c.noneMatchDecision method v = some .NOT_MODIFIED := by
  unfold noneMatchDecision
  rw [hsafe]
  split
  · exact Or.inr rfl
  · split
    · exact Or.inr rfl
    · exact Or.inl rfl

theorem conditionalStatus_of_success {method : Method} {status : StatusCode} {c : Conditions}
    {v : Validators} (h : status.isSuccess = true) : conditionalStatus method status c v =
      if c.MatchFails v ∨ (c.ifMatch = none ∧ c.ModifiedLater v) then .PRECONDITION_FAILED
      else (c.noneMatchDecision method v).getD status := by
  unfold conditionalStatus Conditions.noneMatchDecision
  rw [if_neg (by simp [h])]
  by_cases hfails : c.MatchFails v
  · simp [hfails]
  · by_cases hlater : c.ifMatch = none ∧ c.ModifiedLater v
    · simp [hfails, hlater]
    · simp only [hfails, hlater, or_self, if_false]
      split
      · rfl
      · split <;> rfl

/-! ## What a message carries -/

/-- A field that is absent, or on one line with a value that `reads` accepts. -/
def Headers.ReadsAs {α : Type} (headers : Headers) (name : HeaderName)
    (reads : Text → α → Prop) : Option α → Prop
  | none => headers.values name = []
  | some a => ∃ value, headers.values name = [value] ∧ reads value a

theorem Headers.ReadsAs.get {α : Type} {headers : Headers} {name : HeaderName}
    {reads : Text → α → Prop} {x : Option α} (h : headers.ReadsAs name reads x) :
    Option.Rel reads (headers.get name) x := by
  rw [Headers.get_eq_head?]
  cases x with
  | none =>
      rw [show headers.values name = [] from h]
      exact .none
  | some a =>
      obtain ⟨value, hvalues, hreads⟩ := h
      rw [hvalues]
      exact .some hreads

/-- Conditional fields that are single lines and syntactically valid. -/
structure Request.HasConditions (env : Env) (r : Request) (c : Conditions) : Prop where
  ifMatch : r.headers.ReadsAs HeaderKeys.ifMatch TagList.IsReadFrom c.ifMatch
  ifNoneMatch : r.headers.ReadsAs HeaderKeys.ifNoneMatch TagList.IsReadFrom c.ifNoneMatch
  ifModifiedSince : r.headers.ReadsAs HeaderKeys.ifModifiedSince
    (fun value t => env.parseHttpDate (trim value) = some t) c.ifModifiedSince
  ifUnmodifiedSince : r.headers.ReadsAs HeaderKeys.ifUnmodifiedSince
    (fun value t => env.parseHttpDate (trim value) = some t) c.ifUnmodifiedSince

/-- A strong entity tag, or none, and a valid date, or none. -/
structure Response.HasValidators (env : Env) (r : Response) (v : Validators) : Prop where
  etag : r.headers.ReadsAs HeaderKeys.etag
    (fun value tag => tag.weak = false ∧ trimOws value = tag.text) v.etag
  lastModified : r.headers.ReadsAs HeaderKeys.lastModified
    (fun value t => env.parseHttpDate (trim value) = some t) v.lastModified

instance (value : Text) : (list : TagList) → Decidable (TagList.IsReadFrom value list)
  | .any => decEq (trimOws value) (ascii "*")
  | .tags _ => instDecidableAnd

instance {α : Type} (headers : Headers) (name : HeaderName) (reads : Text → α → Prop)
    [∀ value a, Decidable (reads value a)] (x : Option α) :
    Decidable (headers.ReadsAs name reads x) :=
  match x with
  | none => inferInstanceAs (Decidable (_ = []))
  | some a => decidable_of_iff
      (∃ value ∈ headers.values name, headers.values name = [value] ∧ reads value a)
      ⟨fun ⟨value, _, h⟩ => ⟨value, h⟩, fun ⟨value, h⟩ => ⟨value, by rw [h.1]; simp, h⟩⟩

instance (env : Env) (r : Request) (c : Conditions) : Decidable (r.HasConditions env c) :=
  decidable_of_iff (_ ∧ _ ∧ _ ∧ _)
    ⟨fun h => ⟨h.1, h.2.1, h.2.2.1, h.2.2.2⟩, fun h => ⟨h.1, h.2, h.3, h.4⟩⟩

instance (env : Env) (r : Response) (v : Validators) : Decidable (r.HasValidators env v) :=
  decidable_of_iff (_ ∧ _) ⟨fun h => ⟨h.1, h.2⟩, fun h => ⟨h.1, h.2⟩⟩

section Read

variable {env : Env} {request : Request} {answer : Response} {c : Conditions} {v : Validators}

theorem parsed_date {headers : Headers} {name : HeaderName} {date : Option Nat}
    (h : headers.ReadsAs name (fun value t => env.parseHttpDate (trim value) = some t) date) :
    ((headers.get name).bind fun value => env.parseHttpDate (trim value)) = date := by
  have hget := h.get
  generalize headers.get name = field at hget
  cases hget with
  | none => rfl
  | some ht => exact ht

theorem written_etag (hv : answer.HasValidators env v) :
    (answer.headers.get HeaderKeys.etag).map trim = v.etag.map EntityTag.text ∧
      ∀ t ∈ v.etag, t.weak = false := by
  have hget := hv.etag.get
  generalize answer.headers.get HeaderKeys.etag = field, v.etag = tag at hget
  cases hget with
  | none => simp
  | @some value tag htag =>
      rw [Option.map_some, ← trim_trimOws, htag.2, tag.trim_text]
      simpa using htag.1

theorem matches_etag {name : HeaderName} {field : Option TagList}
    (hfield : request.headers.ReadsAs name TagList.IsReadFrom field)
    (hv : answer.HasValidators env v) (strong : Bool) :
    Option.Rel (fun value list =>
        etagListMatches value (answer.headers.get HeaderKeys.etag) strong = true ↔
          list.Matches v.etag)
      ((request.header name).map trim) field := by
  have hget := hfield.get
  rw [Request.header]
  generalize request.headers.get name = value at hget
  cases hget with
  | none => exact .none
  | some hreads =>
      obtain ⟨htag, hstrong⟩ := written_etag hv
      refine .some ?_
      rw [etagListMatches_trim, TagList.etagListMatches_iff hreads htag hstrong]

theorem decideIfMatch_eq (hc : request.HasConditions env c) (hv : answer.HasValidators env v) :
    decideIfMatch request answer =
      if c.MatchFails v then some .PRECONDITION_FAILED else none := by
  have hfield := matches_etag hc.ifMatch hv true
  obtain ⟨ifMatch, _, _, _⟩ := c
  rw [decideIfMatch, Request.ifMatch]
  generalize (request.header HeaderKeys.ifMatch).map trim = value at hfield
  cases hfield with
  | none => simp [Conditions.MatchFails]
  | some hmatches => simp [Conditions.MatchFails, hmatches]

theorem decideIfUnmodifiedSince_eq (hc : request.HasConditions env c)
    (hv : answer.HasValidators env v) : decideIfUnmodifiedSince env request answer =
      if c.ModifiedLater v then some .PRECONDITION_FAILED else none := by
  have hsince : request.ifUnmodifiedSince env = c.ifUnmodifiedSince :=
    parsed_date hc.ifUnmodifiedSince
  have hmodified : parseLastModified env answer = v.lastModified := parsed_date hv.lastModified
  rw [decideIfUnmodifiedSince, hsince, hmodified]
  obtain ⟨_, _, _, ifUnmodifiedSince⟩ := c
  obtain ⟨_, lastModified⟩ := v
  cases ifUnmodifiedSince <;> cases lastModified <;> simp [Conditions.ModifiedLater]

theorem decideIfNoneMatch_eq (hc : request.HasConditions env c)
    (hv : answer.HasValidators env v) : decideIfNoneMatch env request answer =
      c.noneMatchDecision request.method v := by
  have hfield := matches_etag hc.ifNoneMatch hv false
  have hsince : request.ifModifiedSince env = c.ifModifiedSince := parsed_date hc.ifModifiedSince
  have hmodified : parseLastModified env answer = v.lastModified := parsed_date hv.lastModified
  rw [decideIfNoneMatch, Request.ifNoneMatch, hsince, hmodified, Conditions.noneMatchDecision]
  obtain ⟨_, ifNoneMatch, ifModifiedSince, _⟩ := c
  obtain ⟨_, lastModified⟩ := v
  generalize (request.header HeaderKeys.ifNoneMatch).map trim = value at hfield
  cases hfield with
  | none =>
      -- `If-Modified-Since` is looked at
      cases ifModifiedSince <;> cases lastModified <;> cases isGetOrHead request.method <;>
        simp [Conditions.NoneMatchFails, Conditions.NotModified]
  | some hmatches =>
      simp only [Conditions.NoneMatchFails, Conditions.NotModified, hmatches]
      cases isGetOrHead request.method <;> simp

/-- The status a precondition puts in place, in terms of what the messages carry. -/
theorem preconditionDecision_eq (hc : request.HasConditions env c)
    (hv : answer.HasValidators env v) : preconditionDecision env request answer =
      if c.MatchFails v ∨ c.ModifiedLater v then some .PRECONDITION_FAILED
      else c.noneMatchDecision request.method v := by
  rw [preconditionDecision, decideIfMatch_eq hc hv, decideIfUnmodifiedSince_eq hc hv,
    decideIfNoneMatch_eq hc hv]
  by_cases hmatch : c.MatchFails v
  · simp [hmatch]
  · by_cases hmodified : c.ModifiedLater v
    · simp [hmatch, hmodified]
    · simp [hmatch, hmodified]

end Read

/-! ## Where the two agree -/

/-- The steps that the server takes and the specification does not make no difference: an
`If-Unmodified-Since` that fails beside an `If-Match` that holds, and any precondition of
an answer below 400 that is not a success. -/
def StrayStepsIdle (method : Method) (status : StatusCode) (c : Conditions) (v : Validators) :
    Prop :=
  400 ≤ status.asU16 ∨
  (status.isSuccess = true ∧
    (c.MatchHolds v → c.ModifiedLater v → c.NoneMatchFails v ∧ isGetOrHead method = false)) ∨
  (¬ c.MatchFails v ∧ ¬ c.ModifiedLater v ∧
    ((¬ c.NoneMatchFails v ∧ ¬ (isGetOrHead method = true ∧ c.NotModified v)) ∨
      (status = .NOT_MODIFIED ∧ isGetOrHead method = true)))

instance (method : Method) (status : StatusCode) (c : Conditions) (v : Validators) :
    Decidable (StrayStepsIdle method status c v) := inferInstanceAs (Decidable (_ ∨ _))

theorem Conditions.ifMatch_cases (c : Conditions) (v : Validators) :
    (c.ifMatch = none ∧ ¬ c.MatchFails v ∧ ¬ c.MatchHolds v) ∨
    (c.ifMatch ≠ none ∧ c.MatchFails v ∧ ¬ c.MatchHolds v) ∨
    (c.ifMatch ≠ none ∧ ¬ c.MatchFails v ∧ c.MatchHolds v) := by
  obtain ⟨ifMatch, _, _, _⟩ := c
  cases ifMatch with
  | none => simp [MatchFails, MatchHolds]
  | some list =>
      by_cases hlist : list.Matches v.etag
      · simp [MatchFails, MatchHolds, hlist]
      · simp [MatchFails, MatchHolds, hlist]

theorem prepare_status (env : Env) (request : Request) (answer : Response) :
    (prepare env request answer).status =
      if answer.status.asU16 < 400 then
        (preconditionDecision env request answer).getD answer.status
      else answer.status := by
  rw [prepare, applyRequestPreconditions]
  split
  · cases preconditionDecision env request answer with
    | none => rfl
    | some status => rfl
  · rfl

section Agree

variable {env : Env} {request : Request} {answer : Response} {c : Conditions} {v : Validators}

theorem prepare_conditional_of_error (hstatus : 400 ≤ answer.status.asU16) :
    (prepare env request answer).status = conditionalStatus request.method answer.status c v := by
  have hsuccess : answer.status.isSuccess = false := by
    simp only [StatusCode.isSuccess, Bool.and_eq_false_iff, decide_eq_false_iff_not]
    omega
  rw [prepare_status, if_neg (by omega), conditionalStatus, if_pos hsuccess]

theorem prepare_conditional (hc : request.HasConditions env c) (hv : answer.HasValidators env v)
    (hstatus : answer.status.asU16 < 400) : (prepare env request answer).status =
      if c.MatchFails v ∨ c.ModifiedLater v then .PRECONDITION_FAILED
      else (c.noneMatchDecision request.method v).getD answer.status := by
  rw [prepare_status, if_pos hstatus, preconditionDecision_eq hc hv]
  split <;> rfl

theorem ne_failed_of_lt {status : StatusCode} (h : status.asU16 < 400) :
    status ≠ .PRECONDITION_FAILED := by
  rintro rfl
  exact absurd h (by decide)

/-- A success is served as specified unless `If-Match` should have been the end of it. -/
theorem prepare_conditional_of_success (hc : request.HasConditions env c)
    (hv : answer.HasValidators env v) (hsuccess : answer.status.isSuccess = true) :
    (prepare env request answer).status = conditionalStatus request.method answer.status c v ↔
      (c.MatchHolds v → c.ModifiedLater v →
        c.NoneMatchFails v ∧ isGetOrHead request.method = false) := by
  have hstatus : answer.status.asU16 < 400 := by
    have hrange : 200 ≤ answer.status.asU16 ∧ answer.status.asU16 < 300 := by
      simpa [StatusCode.isSuccess] using hsuccess
    omega
  have hkept := ne_failed_of_lt hstatus
  rw [prepare_conditional hc hv hstatus, conditionalStatus_of_success hsuccess]
  rcases c.ifMatch_cases v with ⟨hnone, hfails, hholds⟩ | ⟨hsome, hfails, hholds⟩ |
    ⟨hsome, hfails, hholds⟩
  · simp [hnone, hfails, hholds]
  · simp [hfails, hholds]
  · by_cases hlater : c.ModifiedLater v
    · -- the server answers 412, and the specification goes on to `If-None-Match`
      simp only [hfails, hlater, hsome, hholds, or_true, if_true, false_and, or_self, if_false,
        true_implies]
      rw [← Conditions.noneMatchDecision_eq_failed_iff]
      cases c.noneMatchDecision request.method v with
      | none => simpa using hkept.symm
      | some status => simp [eq_comm]
    · simp [hfails, hlater]

theorem prepare_conditional_of_other (hc : request.HasConditions env c)
    (hv : answer.HasValidators env v) (hsuccess : answer.status.isSuccess = false)
    (hstatus : answer.status.asU16 < 400) :
    (prepare env request answer).status = conditionalStatus request.method answer.status c v ↔
      ¬ c.MatchFails v ∧ ¬ c.ModifiedLater v ∧
        ((¬ c.NoneMatchFails v ∧ ¬ (isGetOrHead request.method = true ∧ c.NotModified v)) ∨
          (answer.status = .NOT_MODIFIED ∧ isGetOrHead request.method = true)) := by
  have hkept := ne_failed_of_lt hstatus
  rw [prepare_conditional hc hv hstatus, conditionalStatus, if_pos hsuccess,
    ← Conditions.noneMatchDecision_eq_none_iff]
  by_cases hfails : c.MatchFails v ∨ c.ModifiedLater v
  · rw [if_pos hfails]
    constructor
    · exact fun h => absurd h.symm hkept
    · rintro ⟨hmatch, hlater, -⟩
      exact absurd hfails (not_or.mpr ⟨hmatch, hlater⟩)
  · rw [if_neg hfails]
    obtain ⟨hmatch, hlater⟩ := not_or.mp hfails
    simp only [hmatch, hlater, not_false_eq_true, true_and]
    constructor
    · intro h
      cases hdecision : c.noneMatchDecision request.method v with
      | none => exact Or.inl rfl
      | some status =>
          rw [hdecision, Option.getD_some] at h
          exact Or.inr (Conditions.noneMatchDecision_some (h ▸ hdecision) hkept)
    · rintro (hnone | ⟨hstatus, hsafe⟩)
      · rw [hnone, Option.getD_none]
      · rcases Conditions.noneMatchDecision_safe (c := c) (v := v) hsafe with h | h
        · rw [h, Option.getD_none]
        · rw [h, Option.getD_some, hstatus]

theorem prepare_conditional_iff (hc : request.HasConditions env c)
    (hv : answer.HasValidators env v) :
    (prepare env request answer).status = conditionalStatus request.method answer.status c v ↔
      StrayStepsIdle request.method answer.status c v := by
  unfold StrayStepsIdle
  by_cases herror : 400 ≤ answer.status.asU16
  · exact iff_of_true (prepare_conditional_of_error herror) (Or.inl herror)
  · cases hsuccess : answer.status.isSuccess with
    | true =>
        rw [prepare_conditional_of_success hc hv hsuccess]
        simp only [herror, false_or, true_and]
        constructor
        · exact Or.inl
        · rintro (h | ⟨-, hlater, -⟩)
          · exact h
          · exact fun _ h => absurd h hlater
    | false =>
        rw [prepare_conditional_of_other hc hv hsuccess (by omega)]
        simp [herror]

end Agree

namespace Connection

/-- In a run on any input, an answer to a request with valid conditional fields goes out with
the status that is specified if and only if the additional steps of the server are idle. -/
theorem run_conditional_iff {σ : Type} (env : Env) (handler : Handler σ) (input : Input) (s : σ)
    {x : Exchange} (hx : x ∈ (run env handler input s).progress.exchanges) {c : Conditions}
    {v : Validators} (hc : x.request.HasConditions env c) (hv : x.answer.HasValidators env v) :
    x.response.status = conditionalStatus x.request.method x.answer.status c v ↔
      StrayStepsIdle x.request.method x.answer.status c v := by
  obtain ⟨front, back, hsplit⟩ := List.append_of_mem hx
  have hfollows := (run_history env handler input s).2 front x back hsplit
  rw [hfollows.response, prepare_conditional_iff hc hv]

def minuteEnv : Env where
  now := Env.atEpoch.now
  parseHttpDate text :=
    if text = ascii "Thu, 01 Jan 1970 00:00:00 GMT" then some 0
    else if text = ascii "Thu, 01 Jan 1970 00:01:00 GMT" then some 60
    else none

def tagA : EntityTag := ⟨false, ascii "a", by decide +kernel⟩

def tagB : EntityTag := ⟨false, ascii "b", by decide +kernel⟩

def versionA : Handler Unit := .always { Response.new .OK with
  headers := (Headers.empty.insert HeaderKeys.etag (ascii "\"a\"")).insert
    HeaderKeys.lastModified (ascii "Thu, 01 Jan 1970 00:01:00 GMT") }

/-- A request for the version there is, with a date that is too early. -/
def matchedLater : Input := ⟨ascii "GET / HTTP/1.1\r\nHost: a\r\nIf-Match: \"a\"\r\n" ++
  ascii "If-Unmodified-Since: Thu, 01 Jan 1970 00:00:00 GMT\r\n\r\n", []⟩

/-- The date is looked at although the tag matches. -/
theorem run_matchedLater :
    ¬ ∀ x ∈ (run minuteEnv versionA matchedLater ()).progress.exchanges, ∀ c v,
      x.request.HasConditions minuteEnv c → x.answer.HasValidators minuteEnv v →
        x.response.status = conditionalStatus x.request.method x.answer.status c v := by
  intro hall
  have hcheck : ∃ x ∈ (run minuteEnv versionA matchedLater ()).progress.exchanges,
      x.request.HasConditions minuteEnv ⟨some (.tags [tagA]), none, none, some 0⟩ ∧
      x.answer.HasValidators minuteEnv ⟨some tagA, some 60⟩ ∧
      x.response.status ≠ conditionalStatus x.request.method x.answer.status
        ⟨some (.tags [tagA]), none, none, some 0⟩ ⟨some tagA, some 60⟩ := by
    decide +kernel
  obtain ⟨x, hx, hc, hv, hne⟩ := hcheck
  exact hne (hall x hx _ _ hc hv)

def cachedA : Input := ⟨ascii
  "GET / HTTP/1.1\r\nHost: a\r\nIf-None-Match: \"b\", \"a\"\r\n\r\n", []⟩

theorem run_conditional_iff_cached :
    ∃ x ∈ (run minuteEnv versionA cachedA ()).progress.exchanges,
      x.response.status = conditionalStatus x.request.method x.answer.status
        ⟨none, some (.tags [tagB, tagA]), none, none⟩ ⟨some tagA, some 60⟩ := by
  have hcheck : ∃ x ∈ (run minuteEnv versionA cachedA ()).progress.exchanges,
      x.request.HasConditions minuteEnv ⟨none, some (.tags [tagB, tagA]), none, none⟩ ∧
      x.answer.HasValidators minuteEnv ⟨some tagA, some 60⟩ ∧
      StrayStepsIdle x.request.method x.answer.status
        ⟨none, some (.tags [tagB, tagA]), none, none⟩ ⟨some tagA, some 60⟩ := by
    decide +kernel
  obtain ⟨x, hx, hc, hv, hidle⟩ := hcheck
  exact ⟨x, hx, (run_conditional_iff minuteEnv versionA cachedA () hx hc hv).mpr hidle⟩

end Connection

end GooseHttp
