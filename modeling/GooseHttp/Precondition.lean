import GooseHttp.Message
/-!
# Conditional requests

Evaluation of `If-Match`, `If-Unmodified-Since`, `If-None-Match` and
`If-Modified-Since` against the response a handler produced.  The calendar is
outside the server: `Env` holds the clock and the HTTP-date parser it is given.
-/

namespace GooseHttp

open Lib

/-- A date in the form the clock prints it: one line, no outer white space. -/
structure ImfFixdate where
  text : Text
  noCr : CR ∉ text
  noLf : LF ∉ text
  trimmed : trimOws text = text

/-- What the server takes from outside: the date it stamps on its `n`-th
response, and the times HTTP dates stand for, in seconds. -/
structure Env where
  now : Nat → ImfFixdate
  parseHttpDate : Text → Option Nat

def Env.atEpoch : Env where
  now _ := ⟨ascii "Thu, 01 Jan 1970 00:00:00 GMT", by decide, by decide, by decide⟩
  parseHttpDate _ := none

def Request.ifUnmodifiedSince (env : Env) (r : Request) : Option Nat :=
  (r.header HeaderKeys.ifUnmodifiedSince).bind fun value => env.parseHttpDate (trim value)

def Request.ifModifiedSince (env : Env) (r : Request) : Option Nat :=
  (r.header HeaderKeys.ifModifiedSince).bind fun value => env.parseHttpDate (trim value)

def parseLastModified (env : Env) (response : Response) : Option Nat :=
  (response.headers.get HeaderKeys.lastModified).bind fun value =>
    env.parseHttpDate (trim value)

/-- `trim_start_matches("W/")`. -/
def trimWeak (tag : Text) : Text := stripMany [ascii "W/"] tag.length tag

def weakEtagEqual (a b : Text) : Bool :=
  if a = b then true else trimWeak a = trimWeak b

def etagListMatches (value : Text) (entityTag : Option Text) (strong : Bool) : Bool :=
  let trimmed := trim value
  if trimmed = ascii "*" then entityTag.isSome
  else
    match (entityTag.map trim).filter fun v => v ≠ [] with
    | none => false
    | some entity =>
        (((splitAll 44 trimmed).map trim).filter fun candidate => candidate ≠ []).any
          fun candidate =>
            if strong then candidate = entity else weakEtagEqual candidate entity

def isGetOrHead (method : Method) : Bool := method = .get || method = .head

/-- The `If-Match` step. -/
def decideIfMatch (request : Request) (response : Response) : Option StatusCode :=
  match request.ifMatch with
  | some ifMatch =>
      if etagListMatches ifMatch (response.headers.get HeaderKeys.etag) true then none
      else some .PRECONDITION_FAILED
  | none => none

/-- The `If-Unmodified-Since` step. -/
def decideIfUnmodifiedSince (env : Env) (request : Request) (response : Response) :
    Option StatusCode :=
  match request.ifUnmodifiedSince env, parseLastModified env response with
  | some unmodifiedSince, some lastModified =>
      if unmodifiedSince < lastModified then some .PRECONDITION_FAILED else none
  | _, _ => none

/-- The `If-None-Match` step, and `If-Modified-Since` in its absence. -/
def decideIfNoneMatch (env : Env) (request : Request) (response : Response) :
    Option StatusCode :=
  match request.ifNoneMatch with
  | some ifNoneMatch =>
      if etagListMatches ifNoneMatch (response.headers.get HeaderKeys.etag) false then
        if isGetOrHead request.method then some .NOT_MODIFIED else some .PRECONDITION_FAILED
      else none
  | none =>
      match request.ifModifiedSince env with
      | some ifModifiedSince =>
          if isGetOrHead request.method then
            match parseLastModified env response with
            | some lastModified =>
                if lastModified ≤ ifModifiedSince then some .NOT_MODIFIED else none
            | none => none
          else none
      | none => none

def preconditionDecision (env : Env) (request : Request) (response : Response) :
    Option StatusCode :=
  ((decideIfMatch request response).or (decideIfUnmodifiedSince env request response)).or
    (decideIfNoneMatch env request response)

/-- The edit of a response whose status a precondition decides. -/
def replaceByStatus (response : Response) (status : StatusCode) : Response :=
  let headers := (response.headers.remove HeaderKeys.contentLength).remove
    HeaderKeys.transferEncoding
  let headers :=
    if status = .NOT_MODIFIED then headers.remove HeaderKeys.contentType else headers
  { response with status := status, body := .empty, trailers := none, headers := headers }

def applyRequestPreconditions (env : Env) (request : Request) (response : Response) :
    Response :=
  match preconditionDecision env request response with
  | some status => replaceByStatus response status
  | none => response

theorem decideIfMatch_cases (request : Request) (response : Response) :
    decideIfMatch request response = none ∨
      decideIfMatch request response = some .PRECONDITION_FAILED := by
  unfold decideIfMatch
  split
  · split
    · exact Or.inl rfl
    · exact Or.inr rfl
  · exact Or.inl rfl

theorem decideIfUnmodifiedSince_cases (env : Env) (request : Request) (response : Response) :
    decideIfUnmodifiedSince env request response = none ∨
      decideIfUnmodifiedSince env request response = some .PRECONDITION_FAILED := by
  unfold decideIfUnmodifiedSince
  split
  · split
    · exact Or.inr rfl
    · exact Or.inl rfl
  · exact Or.inl rfl

theorem decideIfNoneMatch_cases {env : Env} {request : Request} {response : Response}
    {status : StatusCode} (h : decideIfNoneMatch env request response = some status) :
    status = .NOT_MODIFIED ∨ status = .PRECONDITION_FAILED := by
  unfold decideIfNoneMatch at h
  split at h
  · split at h
    · split at h
      · exact Or.inl (Option.some.inj h).symm
      · exact Or.inr (Option.some.inj h).symm
    · cases h
  · split at h
    · split at h
      · split at h
        · split at h
          · exact Or.inl (Option.some.inj h).symm
          · cases h
        · cases h
      · cases h
    · cases h

theorem preconditionDecision_cases {env : Env} {request : Request} {response : Response}
    {status : StatusCode} (h : preconditionDecision env request response = some status) :
    status = .NOT_MODIFIED ∨ status = .PRECONDITION_FAILED := by
  simp only [preconditionDecision, Option.or_eq_some_iff] at h
  rcases h with (h | ⟨-, h⟩) | ⟨-, h⟩
  · rcases decideIfMatch_cases request response with hnone | hsome
    · rw [hnone] at h
      cases h
    · exact Or.inr (Option.some.inj (h.symm.trans hsome))
  · rcases decideIfUnmodifiedSince_cases env request response with hnone | hsome
    · rw [hnone] at h
      cases h
    · exact Or.inr (Option.some.inj (h.symm.trans hsome))
  · exact decideIfNoneMatch_cases h

/-- The decision rests on the conditional fields, on whether the method is safe, and on
the validators of the response. -/
theorem preconditionDecision_congr (env : Env) {request request' : Request}
    {r r' : Response} (hheaders : request'.headers = request.headers)
    (hsafe : isGetOrHead request'.method = isGetOrHead request.method)
    (hvalidators : ∀ name, name = HeaderKeys.etag ∨ name = HeaderKeys.lastModified →
      r'.headers.get name = r.headers.get name) :
    preconditionDecision env request' r' = preconditionDecision env request r := by
  have hetag : r'.headers.get HeaderKeys.etag = r.headers.get HeaderKeys.etag :=
    hvalidators _ (Or.inl rfl)
  have hmodified : parseLastModified env r' = parseLastModified env r := by
    rw [parseLastModified, hvalidators _ (Or.inr rfl), parseLastModified]
  have hheader : ∀ name, request'.header name = request.header name := by
    intro name
    rw [Request.header, hheaders, Request.header]
  have hmatch : decideIfMatch request' r' = decideIfMatch request r := by
    simp only [decideIfMatch, Request.ifMatch, hheader, hetag]
  have hunmodified : decideIfUnmodifiedSince env request' r' =
      decideIfUnmodifiedSince env request r := by
    simp only [decideIfUnmodifiedSince, Request.ifUnmodifiedSince, hheader, hmodified]
  have hnone : decideIfNoneMatch env request' r' = decideIfNoneMatch env request r := by
    simp only [decideIfNoneMatch, Request.ifNoneMatch, Request.ifModifiedSince, hheader, hetag,
      hmodified, hsafe]
  rw [preconditionDecision, hmatch, hunmodified, hnone, preconditionDecision]

theorem preconditionDecision_of_absent (env : Env) {request : Request} (response : Response)
    (h : ∀ name ∈ [HeaderKeys.ifMatch, HeaderKeys.ifUnmodifiedSince,
      HeaderKeys.ifModifiedSince], request.headers.contains name = false) :
    preconditionDecision env request response =
      (request.ifNoneMatch.filter fun value =>
        etagListMatches value (response.headers.get HeaderKeys.etag) false).map fun _ =>
          if isGetOrHead request.method then .NOT_MODIFIED else .PRECONDITION_FAILED := by
  have habsent : ∀ name ∈ [HeaderKeys.ifMatch, HeaderKeys.ifUnmodifiedSince,
      HeaderKeys.ifModifiedSince], request.header name = none :=
    fun name hname => Headers.get_of_contains (h name hname)
  have hmatch : request.ifMatch = none := by
    rw [Request.ifMatch, habsent _ (by simp)]
    rfl
  have hunmodified : request.ifUnmodifiedSince env = none := by
    rw [Request.ifUnmodifiedSince, habsent _ (by simp)]
    rfl
  have hmodified : request.ifModifiedSince env = none := by
    rw [Request.ifModifiedSince, habsent _ (by simp)]
    rfl
  simp only [preconditionDecision, decideIfMatch, decideIfUnmodifiedSince, decideIfNoneMatch,
    hmatch, hunmodified, hmodified, Option.none_or]
  cases request.ifNoneMatch with
  | none => rfl
  | some value =>
      rw [Option.filter_some]
      dsimp only
      split
      · exact (apply_ite some _ _ _).symm
      · rfl

/-! ## What a replaced response keeps -/

theorem getAll_replaceByStatus (response : Response) (status : StatusCode) {name : HeaderName}
    (hlength : name ≠ HeaderKeys.contentLength) (hcoding : name ≠ HeaderKeys.transferEncoding)
    (htype : name ≠ HeaderKeys.contentType) :
    (replaceByStatus response status).headers.getAll name = response.headers.getAll name := by
  simp only [replaceByStatus]
  split
  · rw [Headers.getAll_remove_of_ne _ htype, Headers.getAll_remove_of_ne _ hcoding,
      Headers.getAll_remove_of_ne _ hlength]
  · rw [Headers.getAll_remove_of_ne _ hcoding, Headers.getAll_remove_of_ne _ hlength]

theorem getAll_replaceByStatus_framing (response : Response) (status : StatusCode)
    {name : HeaderName}
    (hname : name = HeaderKeys.contentLength ∨ name = HeaderKeys.transferEncoding) :
    (replaceByStatus response status).headers.getAll name = none := by
  have htype : name ≠ HeaderKeys.contentType := by
    rcases hname with rfl | rfl <;> decide
  have hboth : ((response.headers.remove HeaderKeys.contentLength).remove
      HeaderKeys.transferEncoding).getAll name = none := by
    rcases hname with rfl | rfl
    · rw [Headers.getAll_remove_of_ne _ (by decide), Headers.getAll_remove_self]
    · rw [Headers.getAll_remove_self]
  simp only [replaceByStatus]
  split
  · rw [Headers.getAll_remove_of_ne _ htype, hboth]
  · exact hboth

theorem forall_lines_replaceByStatus {P : HeaderName × Text → Prop} {response : Response}
    (status : StatusCode) (h : ∀ l ∈ response.headers.lines, P l) :
    ∀ l ∈ (replaceByStatus response status).headers.lines, P l := by
  have hremoved := Headers.forall_lines_remove HeaderKeys.transferEncoding
    (Headers.forall_lines_remove HeaderKeys.contentLength h)
  simp only [replaceByStatus]
  split
  · exact Headers.forall_lines_remove _ hremoved
  · exact hremoved

theorem values_replaceByStatus_congr {r r' : Response} (status : StatusCode)
    (h : ∀ name, name ≠ HeaderKeys.contentLength → name ≠ HeaderKeys.transferEncoding →
      r'.headers.values name = r.headers.values name) (name : HeaderName) :
    (replaceByStatus r' status).headers.values name =
      (replaceByStatus r status).headers.values name := by
  by_cases hframing : name = HeaderKeys.contentLength ∨ name = HeaderKeys.transferEncoding
  · rw [Headers.values, Headers.values, getAll_replaceByStatus_framing r' status hframing,
      getAll_replaceByStatus_framing r status hframing]
  · obtain ⟨hlength, hcoding⟩ := not_or.mp hframing
    have hremoved : ∀ r : Response, ((r.headers.remove HeaderKeys.contentLength).remove
        HeaderKeys.transferEncoding).values name = r.headers.values name := by
      intro r
      rw [Headers.values_remove, if_neg (Ne.symm hcoding), Headers.values_remove,
        if_neg (Ne.symm hlength)]
    simp only [replaceByStatus]
    split
    · simp only [Headers.values_remove _ HeaderKeys.contentType, hremoved, h name hlength hcoding]
    · simp only [hremoved, h name hlength hcoding]

theorem applyRequestPreconditions_cases (env : Env) (request : Request) (response : Response) :
    applyRequestPreconditions env request response = response ∨
    ∃ status, (status = .NOT_MODIFIED ∨ status = .PRECONDITION_FAILED) ∧
      applyRequestPreconditions env request response = replaceByStatus response status := by
  unfold applyRequestPreconditions
  split
  · rename_i status hdecision
    exact Or.inr ⟨status, preconditionDecision_cases hdecision, rfl⟩
  · exact Or.inl rfl

theorem getAll_applyRequestPreconditions (env : Env) (request : Request) (response : Response)
    {name : HeaderName} (hlength : name ≠ HeaderKeys.contentLength)
    (hcoding : name ≠ HeaderKeys.transferEncoding) (htype : name ≠ HeaderKeys.contentType) :
    (applyRequestPreconditions env request response).headers.getAll name =
      response.headers.getAll name := by
  rcases applyRequestPreconditions_cases env request response with h | ⟨status, -, h⟩
  · rw [h]
  · rw [h, getAll_replaceByStatus response status hlength hcoding htype]

end GooseHttp
