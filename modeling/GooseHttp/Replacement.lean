import GooseHttp.Encode
import GooseHttp.Precondition
/-!
# Responses replaced by a precondition

A precondition that decides a request takes the body of the handler's response and what
announced it, and touches nothing else.  What it leaves is decided alike a second time,
and is written without a body.
-/

namespace GooseHttp

open Lib

/-! ## What is edited -/

structure IsReplacement (method : Method) (r r' : Response) : Prop where
  status : r'.status = .NOT_MODIFIED ∧ (method = .get ∨ method = .head) ∨
    r'.status = .PRECONDITION_FAILED
  body : r'.body = .empty
  trailers : r'.trailers = none
  version : r'.version = r.version
  reason : r'.reason = r.reason
  noLength : r'.headers.contains HeaderKeys.contentLength = false
  noCoding : r'.headers.contains HeaderKeys.transferEncoding = false
  noType : r'.status = .NOT_MODIFIED → r'.headers.contains HeaderKeys.contentType = false
  iter : r'.headers.iter = r.headers.iter.filter fun e =>
    e.1 ≠ HeaderKeys.contentLength ∧ e.1 ≠ HeaderKeys.transferEncoding ∧
      (r'.status = .NOT_MODIFIED → e.1 ≠ HeaderKeys.contentType)

theorem iter_replaceByStatus (r : Response) (status : StatusCode) :
    (replaceByStatus r status).headers.iter = r.headers.iter.filter fun e =>
      e.1 ≠ HeaderKeys.contentLength ∧ e.1 ≠ HeaderKeys.transferEncoding ∧
        (status = .NOT_MODIFIED → e.1 ≠ HeaderKeys.contentType) := by
  simp only [replaceByStatus]
  split
  · rename_i hstatus
    simp only [Headers.iter_remove, Multimap.removeKey, List.filter_filter, hstatus, forall_const]
    apply List.filter_congr
    intro e _
    rw [Bool.eq_iff_iff]
    simp only [Bool.and_eq_true, decide_eq_true_eq]
    exact ⟨fun h => ⟨h.2.2, h.2.1, h.1⟩, fun h => ⟨h.2.2, h.2.1, h.1⟩⟩
  · rename_i hstatus
    simp only [Headers.iter_remove, Multimap.removeKey, List.filter_filter, hstatus,
      false_imp_iff, and_true]
    apply List.filter_congr
    intro e _
    rw [Bool.eq_iff_iff]
    simp only [Bool.and_eq_true, decide_eq_true_eq]
    exact and_comm

theorem contains_replaceByStatus_type (r : Response) :
    (replaceByStatus r .NOT_MODIFIED).headers.contains HeaderKeys.contentType = false := by
  rw [Headers.contains_eq_false_iff]
  simp only [replaceByStatus, if_true]
  exact Headers.getAll_remove_self _ _

theorem isReplacement_replaceByStatus {method : Method} (r : Response) {status : StatusCode}
    (hstatus : status = .NOT_MODIFIED ∧ (method = .get ∨ method = .head) ∨
      status = .PRECONDITION_FAILED) :
    IsReplacement method r (replaceByStatus r status) where
  status := hstatus
  body := rfl
  trailers := rfl
  version := rfl
  reason := rfl
  noLength := by
    rw [Headers.contains_eq_false_iff]
    exact getAll_replaceByStatus_framing r status (Or.inl rfl)
  noCoding := by
    rw [Headers.contains_eq_false_iff]
    exact getAll_replaceByStatus_framing r status (Or.inr rfl)
  noType := by
    intro hmodified
    obtain rfl : status = .NOT_MODIFIED := hmodified
    exact contains_replaceByStatus_type r
  iter := iter_replaceByStatus r status

theorem safe_of_decideIfNoneMatch {env : Env} {request : Request} {r : Response}
    (h : decideIfNoneMatch env request r = some .NOT_MODIFIED) :
    isGetOrHead request.method = true := by
  unfold decideIfNoneMatch at h
  split at h
  · split at h
    · split at h
      · assumption
      · cases h
    · cases h
  · split at h
    · split at h
      · assumption
      · cases h
    · cases h

theorem safe_of_preconditionDecision {env : Env} {request : Request} {r : Response}
    (h : preconditionDecision env request r = some .NOT_MODIFIED) :
    request.method = .get ∨ request.method = .head := by
  have hsafe : isGetOrHead request.method = true := by
    simp only [preconditionDecision, Option.or_eq_some_iff] at h
    rcases h with (h | ⟨-, h⟩) | ⟨-, h⟩
    · rcases decideIfMatch_cases request r with hnone | hsome
      · rw [hnone] at h
        cases h
      · rw [hsome] at h
        cases h
    · rcases decideIfUnmodifiedSince_cases env request r with hnone | hsome
      · rw [hnone] at h
        cases h
      · rw [hsome] at h
        cases h
    · exact safe_of_decideIfNoneMatch h
  simpa [isGetOrHead] using hsafe

theorem isReplacement_of_decision {env : Env} {request : Request} {r : Response}
    {status : StatusCode} (h : preconditionDecision env request r = some status) :
    IsReplacement request.method r (replaceByStatus r status) := by
  apply isReplacement_replaceByStatus
  rcases preconditionDecision_cases h with rfl | rfl
  · exact Or.inl ⟨rfl, safe_of_preconditionDecision h⟩
  · exact Or.inr rfl

/-! ## A second evaluation -/

theorem IsReplacement.replaceByStatus_eq {method : Method} {r r' : Response}
    (h : IsReplacement method r r') : replaceByStatus r' r'.status = r' := by
  obtain ⟨version, status, reason, headers, body, trailers⟩ := r'
  obtain rfl : body = .empty := h.body
  obtain rfl : trailers = none := h.trailers
  have hlength : headers.remove HeaderKeys.contentLength = headers :=
    headers.remove_absent h.noLength
  have hcoding : headers.remove HeaderKeys.transferEncoding = headers :=
    headers.remove_absent h.noCoding
  simp only [replaceByStatus, hlength, hcoding]
  split
  · rename_i hstatus
    rw [headers.remove_absent (h.noType hstatus)]
  · rfl

theorem preconditionDecision_replaceByStatus (env : Env) (request : Request) (r : Response)
    (status : StatusCode) :
    preconditionDecision env request (replaceByStatus r status) =
      preconditionDecision env request r := by
  refine preconditionDecision_congr env rfl rfl fun name hname => ?_
  have hall : (replaceByStatus r status).headers.getAll name = r.headers.getAll name := by
    apply getAll_replaceByStatus
    all_goals rcases hname with rfl | rfl <;> decide
  rw [Headers.get_eq_head?, Headers.get_eq_head?, Headers.values, hall, Headers.values]

theorem applyRequestPreconditions_idem (env : Env) (request : Request) (r : Response) :
    applyRequestPreconditions env request (applyRequestPreconditions env request r) =
      applyRequestPreconditions env request r := by
  cases hdecision : preconditionDecision env request r with
  | none => simp only [applyRequestPreconditions, hdecision]
  | some status =>
      simp only [applyRequestPreconditions, hdecision, preconditionDecision_replaceByStatus]
      exact (isReplacement_of_decision hdecision).replaceByStatus_eq

/-! ## Writing a replacement -/

/-- A response of which the head alone was written, announcing no body. -/
structure WrittenBodiless (r : Response) (written : Written) : Prop where
  result : written.result = .ok ()
  bytes : written.bytes =
    headBytes r.version r.status r.reasonPhrase written.response.headers
  noCoding : written.response.headers.values HeaderKeys.transferEncoding = []
  noLength : r.status = .NOT_MODIFIED →
    written.response.headers.values HeaderKeys.contentLength = []
  zero : ∀ value ∈ written.response.headers.values HeaderKeys.contentLength, value = ascii "0"

theorem values_frameHeaders_empty {headers : Headers} {status : StatusCode} {method : Method}
    (hlength : headers.contains HeaderKeys.contentLength = false) :
    (frameHeaders headers status method .empty).values HeaderKeys.transferEncoding = [] ∧
    (isBodiless status = true →
      (frameHeaders headers status method .empty).values HeaderKeys.contentLength = []) ∧
    ∀ value ∈ (frameHeaders headers status method .empty).values HeaderKeys.contentLength,
      value = ascii "0" := by
  have hnone : headers.values HeaderKeys.contentLength = [] :=
    (headers.values_eq_nil_iff _).mpr hlength
  unfold frameHeaders
  split
  · simp only [announceLength]
    rw [values_coding_frameBodiless, values_length_frameBodiless, hnone]
    refine ⟨rfl, fun hbodiless => if_pos hbodiless, fun value hvalue => ?_⟩
    split at hvalue
    · cases hvalue
    · split at hvalue
      · exact List.mem_singleton.mp hvalue
      · cases hvalue
  · dsimp only
    rw [values_coding_frameKnownLength, values_length_frameKnownLength, hlength]
    refine ⟨rfl, fun hbodiless => if_pos hbodiless, fun value hvalue => ?_⟩
    split at hvalue
    · cases hvalue
    · exact List.mem_singleton.mp hvalue

theorem IsReplacement.written {method : Method} {r r' : Response} (h : IsReplacement method r r')
    (now : Text) (m : Method) (directive : ConnectionDirective) :
    WrittenBodiless r' (writeResponse now r' m directive) := by
  have hframed : (r'.headers.contains HeaderKeys.contentLength &&
      r'.headers.contains HeaderKeys.transferEncoding) = false := by
    rw [h.noLength, Bool.false_and]
  have hclean : r'.StreamsCleanly := by
    intro items hitems
    rw [h.body] at hitems
    cases hitems
  have hbody : ∀ allowed, (writeBody allowed .empty r'.trailers).1 = [] := by
    intro allowed
    cases allowed <;> rfl
  have hheaders := @writeResponse_headers now r' m directive hframed
  have hstamped : (stampHeaders now r'.headers directive).contains HeaderKeys.contentLength =
      false := contains_stampHeaders now directive (by decide) (by decide) h.noLength
  obtain ⟨hcoding, hbodiless, hzero⟩ :=
    @values_frameHeaders_empty _ r'.status m hstamped
  rw [h.body] at hheaders
  refine ⟨writeResponse_result_ok hclean hframed, ?_, ?_, fun hstatus => ?_, ?_⟩
  · rw [writeResponse_of_framed hframed]
    dsimp only
    rw [h.body, hbody, List.append_nil]
  · rw [hheaders, hcoding]
  · rw [hheaders]
    exact hbodiless (by rw [hstatus]; rfl)
  · rw [hheaders]
    exact hzero

/-- Preconditions leave a response as it is, or take its body and what announced it and
nothing else, and such a response is written as its head alone.  They have the same effect
when they are evaluated twice. -/
theorem applyRequestPreconditions_effect (env : Env) (request : Request) (response : Response) :
    (applyRequestPreconditions env request response = response ∨
      IsReplacement request.method response (applyRequestPreconditions env request response) ∧
      ∀ now method directive,
        WrittenBodiless (applyRequestPreconditions env request response)
          (writeResponse now (applyRequestPreconditions env request response) method
            directive)) ∧
    applyRequestPreconditions env request (applyRequestPreconditions env request response) =
      applyRequestPreconditions env request response := by
  refine ⟨?_, applyRequestPreconditions_idem env request response⟩
  cases hdecision : preconditionDecision env request response with
  | none =>
      apply Or.inl
      simp only [applyRequestPreconditions, hdecision]
  | some status =>
      have hreplaced : applyRequestPreconditions env request response =
          replaceByStatus response status := by
        simp only [applyRequestPreconditions, hdecision]
      have hreplacement := isReplacement_of_decision hdecision
      rw [hreplaced]
      exact Or.inr ⟨hreplacement, hreplacement.written⟩

end GooseHttp
