import GooseHttp.Pipeline
import GooseHttp.Replacement
import GooseHttp.Routing
import GooseHttp.SentHead
/-!
# Responses without their body

What is left of the response of a GET handler when a router answers HEAD with it, from the
router to the writer.  `Stripped` relates the two responses; what the writer sends of them
is the same fields of the handler, with the same lengths and stamps around them, except for
the length of an empty body, which is written for GET only.
-/

namespace GooseHttp

open Lib Client

/-! ## A response and what is left of it for HEAD -/

def announcedField (r : Response) : List (HeaderName × List Text) :=
  if r.headers.contains HeaderKeys.contentLength then []
  else
    match r.body with
    | .full bytes => [(HeaderKeys.contentLength, [toDecimal bytes.length])]
    | _ => []

/-- `head` is `get` without its body, its length announced. -/
structure Stripped (get head : Response) : Prop where
  status : head.status = get.status
  version : head.version = get.version
  reason : head.reason = get.reason
  body : head.body = .empty
  known : ∀ items, get.body ≠ .stream items
  fields : head.headers.iter = get.headers.iter ++ announcedField get

theorem stripBodyForHead_stripped {r : Response} (hknown : ∀ items, r.body ≠ .stream items) :
    Stripped r r.stripBodyForHead := by
  refine ⟨rfl, rfl, rfl, rfl, hknown, ?_⟩
  rw [announcedField]
  cases hcontains : r.headers.contains HeaderKeys.contentLength with
  | true =>
      have hheaders : r.stripBodyForHead.headers = r.headers := by
        simp only [Response.stripBodyForHead, hcontains, if_true]
        split <;> rfl
      rw [hheaders, if_pos rfl, List.append_nil]
  | false =>
      rw [if_neg (by decide)]
      cases hbody : r.body with
      | stream items => exact absurd hbody (hknown items)
      | empty =>
          have hheaders : r.stripBodyForHead.headers = r.headers := by
            simp only [Response.stripBodyForHead, hbody]
          rw [hheaders, List.append_nil]
      | full bytes =>
          have hnone : Multimap.find HeaderKeys.contentLength r.headers.iter = none := by
            rwa [Headers.find_iter, ← Headers.contains_eq_false_iff]
          rw [Response.stripBodyForHead_headers hbody hcontains, Headers.iter_insert,
            Multimap.setValues_of_find_none hnone]

theorem mem_announcedField {r : Response} {e : HeaderName × List Text}
    (h : e ∈ announcedField r) : e.1 = HeaderKeys.contentLength := by
  rw [announcedField] at h
  split at h
  · cases h
  · split at h
    · rw [List.mem_singleton.mp h]
    · cases h

theorem removeKey_announcedField (r : Response) :
    Multimap.removeKey HeaderKeys.contentLength (announcedField r) = [] :=
  List.filter_eq_nil_iff.mpr fun e he => by simp [mem_announcedField he]

theorem find_announcedField (r : Response) {name : HeaderName}
    (hname : name ≠ HeaderKeys.contentLength) :
    Multimap.find name (announcedField r) = none := by
  rw [Multimap.find_eq_none_iff]
  intro hmem
  obtain ⟨e, he, rfl⟩ := List.mem_map.mp hmem
  exact hname (mem_announcedField he)

theorem find_append_announcedField (r : Response) (fields : List (HeaderName × List Text))
    {name : HeaderName} (hname : name ≠ HeaderKeys.contentLength) :
    Multimap.find name (fields ++ announcedField r) = Multimap.find name fields := by
  rw [Multimap.find_append, find_announcedField r hname, Option.or_none]

namespace Stripped

theorem values_eq {get head : Response} (h : Stripped get head) {name : HeaderName}
    (hname : name ≠ HeaderKeys.contentLength) :
    head.headers.values name = get.headers.values name := by
  rw [Headers.values, Headers.values, ← Headers.find_iter, ← Headers.find_iter, h.fields,
    find_append_announcedField get _ hname]

theorem get_eq {get head : Response} (h : Stripped get head) {name : HeaderName}
    (hname : name ≠ HeaderKeys.contentLength) : head.headers.get name = get.headers.get name := by
  rw [Headers.get_eq_head?, Headers.get_eq_head?, h.values_eq hname]

theorem contains_eq {get head : Response} (h : Stripped get head) {name : HeaderName}
    (hname : name ≠ HeaderKeys.contentLength) :
    head.headers.contains name = get.headers.contains name := by
  rw [Bool.eq_iff_iff, ← Headers.values_ne_nil_iff, ← Headers.values_ne_nil_iff,
    h.values_eq hname]

theorem contains_length_iff {get head : Response} (h : Stripped get head) :
    head.headers.contains HeaderKeys.contentLength = true ↔
      get.headers.contains HeaderKeys.contentLength = true ∨ ∃ bytes, get.body = .full bytes := by
  rw [← isSome_find_iter, h.fields, Multimap.find_append, Option.isSome_or, isSome_find_iter,
    announcedField]
  cases get.headers.contains HeaderKeys.contentLength with
  | true => simp
  | false => cases get.body <;> simp [Multimap.find]

theorem conflict_iff {get head : Response} (h : Stripped get head)
    (hget : (get.headers.contains HeaderKeys.contentLength &&
      get.headers.contains HeaderKeys.transferEncoding) = false) :
    (head.headers.contains HeaderKeys.contentLength &&
        head.headers.contains HeaderKeys.transferEncoding) = true ↔
      get.headers.contains HeaderKeys.transferEncoding = true ∧
        get.headers.contains HeaderKeys.contentLength = false ∧
        ∃ bytes, get.body = .full bytes := by
  have hcoding : head.headers.contains HeaderKeys.transferEncoding =
      get.headers.contains HeaderKeys.transferEncoding := h.contains_eq (by decide)
  rw [Bool.and_eq_true, hcoding, h.contains_length_iff, and_comm]
  refine and_congr_right fun hcoded => ?_
  rw [hcoded, Bool.and_true] at hget
  simp [hget]

theorem preconditionDecision_eq {get head : Response} (h : Stripped get head) (env : Env)
    {request : Request} (hmethod : request.method = .get) :
    preconditionDecision env { request with method := .head } head =
      preconditionDecision env request get := by
  refine preconditionDecision_congr env rfl (by rw [hmethod]; rfl) fun name hname => ?_
  apply h.get_eq
  rcases hname with rfl | rfl <;> decide

theorem replaceByStatus {get head : Response} (h : Stripped get head) (status : StatusCode) :
    Stripped (replaceByStatus get status) (replaceByStatus head status) where
  status := rfl
  version := h.version
  reason := h.reason
  body := rfl
  known := by
    intro items hitems
    cases hitems
  fields := by
    have hnone : announcedField (GooseHttp.replaceByStatus get status) = [] := by
      rw [announcedField]
      split <;> rfl
    rw [hnone, List.append_nil, iter_replaceByStatus, iter_replaceByStatus, h.fields,
      List.filter_append, List.append_right_eq_self]
    exact List.filter_eq_nil_iff.mpr fun e he => by simp [mem_announcedField he]

theorem applyRequestPreconditions {get head : Response} (h : Stripped get head) (env : Env)
    {request : Request} (hmethod : request.method = .get) :
    Stripped (applyRequestPreconditions env request get)
      (applyRequestPreconditions env { request with method := .head } head) := by
  unfold GooseHttp.applyRequestPreconditions
  rw [h.preconditionDecision_eq env hmethod]
  cases preconditionDecision env request get with
  | none => exact h
  | some status => exact h.replaceByStatus status

theorem prepare {get head : Response} (h : Stripped get head) (env : Env) {request : Request}
    (hmethod : request.method = .get) :
    Stripped (prepare env request get) (prepare env { request with method := .head } head) := by
  unfold GooseHttp.prepare
  rw [h.status]
  split
  · exact h.applyRequestPreconditions env hmethod
  · exact h

theorem directiveFor_eq {get head : Response} (h : Stripped get head) (request : Request) :
    directiveFor { request with method := .head } head = directiveFor request get := by
  have hclose : responseRequestsClose head = responseRequestsClose get := by
    rw [responseRequestsClose, h.get_eq (by decide), responseRequestsClose]
  rw [directiveFor, hclose, directiveFor]

end Stripped

/-! ## What the writer puts around the handler's fields -/

/-- The `Date` and the `Connection` that the writer adds to these fields. -/
def stamps (now : Text) (fields : List (HeaderName × List Text))
    (directive : ConnectionDirective) : List (HeaderName × List Text) :=
  (if (Multimap.find HeaderKeys.date fields).isSome then [] else [(HeaderKeys.date, [now])]) ++
    if directive = .close ∧ (Multimap.find HeaderKeys.connection fields).isSome = false then
      [(HeaderKeys.connection, [ascii "close"])]
    else []

def keptFields (fields : List (HeaderName × List Text)) (directive : ConnectionDirective) :
    List (HeaderName × List Text) :=
  if directive = .close ∧ (Multimap.find HeaderKeys.connection fields).isSome = true then
    Multimap.setValues HeaderKeys.connection [ascii "close"] fields
  else fields

theorem stampedFields_eq (now : Text) (fields : List (HeaderName × List Text))
    (directive : ConnectionDirective) :
    stampedFields now fields directive =
      keptFields fields directive ++ stamps now fields directive := by
  have hdated : (if (Multimap.find HeaderKeys.date fields).isSome then fields
      else fields ++ [(HeaderKeys.date, [now])]) =
        fields ++ if (Multimap.find HeaderKeys.date fields).isSome then []
          else [(HeaderKeys.date, [now])] := by
    split <;> simp
  rw [keptFields, stamps]
  cases directive with
  | keepAlive =>
      show (if _ then _ else _) = _
      rw [hdated]
      simp
  | close =>
      show Multimap.setValues _ _ (if _ then _ else _) = _
      rw [hdated]
      cases hfind : Multimap.find HeaderKeys.connection fields with
      | none =>
          have hne : HeaderKeys.date ≠ HeaderKeys.connection := by decide
          have hnone : Multimap.find HeaderKeys.connection (fields ++
              if (Multimap.find HeaderKeys.date fields).isSome then []
              else [(HeaderKeys.date, [now])]) = none := by
            rw [Multimap.find_append, hfind]
            split <;> simp [Multimap.find, hne]
          simp [Multimap.setValues_of_find_none hnone]
      | some values =>
          have hsome : (Multimap.find HeaderKeys.connection fields).isSome = true := by
            rw [hfind]
            rfl
          simp [Multimap.setValues_append_of_find_isSome _ _ hsome]

theorem stampedFields_announced (r : Response) (now : Text)
    (fields : List (HeaderName × List Text)) (directive : ConnectionDirective) :
    stampedFields now (fields ++ announcedField r) directive =
      keptFields fields directive ++ (announcedField r ++ stamps now fields directive) := by
  have hstamps : stamps now (fields ++ announcedField r) directive =
      stamps now fields directive := by
    rw [stamps, stamps, find_append_announcedField r fields (by decide),
      find_append_announcedField r fields (by decide)]
  have hkept : keptFields (fields ++ announcedField r) directive =
      keptFields fields directive ++ announcedField r := by
    rw [keptFields, keptFields, find_append_announcedField r fields (by decide)]
    split
    · rename_i hsome
      rw [Multimap.setValues_append_of_find_isSome _ _ hsome.2]
    · rfl
  rw [stampedFields_eq, hstamps, hkept, List.append_assoc]

theorem removeKey_stamps {key : HeaderName} (now : Text) (fields : List (HeaderName × List Text))
    (directive : ConnectionDirective) (hdate : HeaderKeys.date ≠ key)
    (hconnection : HeaderKeys.connection ≠ key) :
    Multimap.removeKey key (stamps now fields directive) = stamps now fields directive := by
  rw [stamps]
  split <;> split <;> simp [Multimap.removeKey, hdate, hconnection]

/-- The fields of the handler that are sent for GET and for HEAD. -/
def sharedFields (status : StatusCode) (fields : List (HeaderName × List Text))
    (directive : ConnectionDirective) : List (HeaderName × List Text) :=
  let uncoded := Multimap.removeKey HeaderKeys.transferEncoding (keptFields fields directive)
  if isBodiless status then Multimap.removeKey HeaderKeys.contentLength uncoded else uncoded

def zeroField (r : Response) : List (HeaderName × List Text) :=
  if r.headers.contains HeaderKeys.contentLength then []
  else
    match r.body with
    | .empty => [(HeaderKeys.contentLength, [ascii "0"])]
    | _ => []

theorem isSome_length_uncoded (r : Response) (now : Text) (directive : ConnectionDirective) :
    (Multimap.find HeaderKeys.contentLength (Multimap.removeKey HeaderKeys.transferEncoding
      (stampedFields now r.headers.iter directive))).isSome =
        r.headers.contains HeaderKeys.contentLength := by
  rw [← iter_stampHeaders, ← Headers.iter_remove, isSome_find_iter, contains_length_remove_coding,
    Bool.eq_iff_iff, ← Headers.values_ne_nil_iff, ← Headers.values_ne_nil_iff, Headers.values,
    getAll_stampHeaders (by decide) (by decide), Headers.values]

section Framed

variable (now : Text) (directive : ConnectionDirective)

theorem stamps_unframed (fields : List (HeaderName × List Text)) :
    Multimap.removeKey HeaderKeys.transferEncoding (stamps now fields directive) =
        stamps now fields directive ∧
      Multimap.removeKey HeaderKeys.contentLength (stamps now fields directive) =
        stamps now fields directive :=
  ⟨removeKey_stamps now fields directive (by decide) (by decide),
    removeKey_stamps now fields directive (by decide) (by decide)⟩

theorem framedFields_get {r : Response} (hknown : ∀ items, r.body ≠ .stream items) :
    framedFields r.status .get r.body (stampedFields now r.headers.iter directive) =
      sharedFields r.status r.headers.iter directive ++
        (stamps now r.headers.iter directive ++
          if isBodiless r.status then [] else announcedField r ++ zeroField r) := by
  have hlength := isSome_length_uncoded r now directive
  obtain ⟨hcoding, hsize⟩ := stamps_unframed now directive r.headers.iter
  have huncoded : Multimap.removeKey HeaderKeys.transferEncoding
      (stampedFields now r.headers.iter directive) =
        Multimap.removeKey HeaderKeys.transferEncoding (keptFields r.headers.iter directive) ++
          stamps now r.headers.iter directive := by
    rw [stampedFields_eq, Multimap.removeKey_append, hcoding]
  unfold framedFields sharedFields
  cases hstatus : isBodiless r.status with
  | true =>
      rw [if_pos rfl, if_pos rfl, if_pos rfl, huncoded, Multimap.removeKey_append, hsize,
        List.append_nil]
  | false =>
      rw [if_neg (by decide), if_neg (by decide), if_neg (by decide), announcedField, zeroField]
      cases hbody : r.body with
      | stream items => exact absurd hbody (hknown items)
      | empty =>
          simp only [reduceCtorEq, if_false]
          rw [withLength, hlength, huncoded]
          split <;> simp
      | full bytes =>
          show withLength _ _ = _
          rw [withLength, hlength, huncoded]
          split <;> simp

theorem Stripped.framedFields {get head : Response} (h : Stripped get head) :
    framedFields head.status .head head.body (stampedFields now head.headers.iter directive) =
      sharedFields get.status get.headers.iter directive ++
        ((if isBodiless get.status then [] else announcedField get) ++
          stamps now get.headers.iter directive) := by
  obtain ⟨hcoding, hsize⟩ := stamps_unframed now directive get.headers.iter
  have hannounced : Multimap.removeKey HeaderKeys.transferEncoding (announcedField get) =
      announcedField get :=
    Multimap.removeKey_of_find_none (find_announcedField get (by decide))
  have huncoded : Multimap.removeKey HeaderKeys.transferEncoding
      (stampedFields now head.headers.iter directive) =
        Multimap.removeKey HeaderKeys.transferEncoding (keptFields get.headers.iter directive) ++
          (announcedField get ++ stamps now get.headers.iter directive) := by
    rw [h.fields, stampedFields_announced, Multimap.removeKey_append, Multimap.removeKey_append,
      hcoding, hannounced]
  unfold GooseHttp.framedFields sharedFields
  rw [h.status, h.body]
  cases isBodiless get.status with
  | true =>
      rw [if_pos rfl, if_pos rfl, if_pos rfl, huncoded, Multimap.removeKey_append,
        Multimap.removeKey_append, removeKey_announcedField, hsize]
  | false =>
      simp only [Bool.false_eq_true, if_false, if_true, huncoded]

end Framed

/-! ## What the added fields are read as -/

theorem stamps_plain (now : ImfFixdate) (fields : List (HeaderName × List Text))
    (directive : ConnectionDirective) :
    ∀ l ∈ Multimap.lines (stamps now.text fields directive), IsPlainField l := by
  have hclose : IsPlainField (HeaderKeys.connection, ascii "close") := by decide +kernel
  rw [stamps]
  split <;> split <;> simp [now.isPlainField, hclose]

theorem values_stamps (now now' : Text) (fields : List (HeaderName × List Text))
    (directive : ConnectionDirective) {name : HeaderName} (hdate : name ≠ HeaderKeys.date) :
    fieldValues (Multimap.lines (stamps now fields directive)) name =
      fieldValues (Multimap.lines (stamps now' fields directive)) name := by
  rw [stamps, stamps]
  split
  · rfl
  · simp [fieldValues_cons_of_ne _ _ (Ne.symm hdate)]

theorem values_stamps_eq_nil (now : Text) (fields : List (HeaderName × List Text))
    (directive : ConnectionDirective) {name : HeaderName} (hdate : name ≠ HeaderKeys.date)
    (hconnection : name ≠ HeaderKeys.connection) :
    fieldValues (Multimap.lines (stamps now fields directive)) name = [] := by
  rw [stamps]
  split <;> split <;> simp [fieldValues_cons_of_ne, Ne.symm hdate, Ne.symm hconnection]

theorem announcedField_plain (r : Response) :
    ∀ l ∈ Multimap.lines (announcedField r), IsPlainField l := by
  rw [announcedField]
  split
  · exact fun l hl => nomatch hl
  · split
    · rename_i bytes hbody
      simp [isPlainField_length bytes.length]
    · exact fun l hl => nomatch hl

theorem values_announcedField (r : Response) {name : HeaderName}
    (hname : name ≠ HeaderKeys.contentLength) :
    fieldValues (Multimap.lines (announcedField r)) name = [] := by
  rw [announcedField]
  split
  · rfl
  · split <;> simp [fieldValues_cons_of_ne, Ne.symm hname]

theorem values_zeroField (r : Response) {name : HeaderName}
    (hname : name ≠ HeaderKeys.contentLength) :
    fieldValues (Multimap.lines (zeroField r)) name = [] := by
  rw [zeroField]
  split
  · rfl
  · split <;> simp [fieldValues_cons_of_ne, Ne.symm hname]

theorem zeroField_plain (r : Response) :
    ∀ l ∈ Multimap.lines (zeroField r), IsPlainField l := by
  have hzero : IsPlainField (HeaderKeys.contentLength, ascii "0") := isPlainField_length 0
  rw [zeroField]
  split
  · exact fun l hl => nomatch hl
  · split
    · simp [hzero]
    · exact fun l hl => nomatch hl

end GooseHttp
