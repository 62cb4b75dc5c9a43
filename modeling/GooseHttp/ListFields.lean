import GooseHttp.EntityTag
import GooseHttp.Parse.AcceptedHead
/-!
# List-valued fields on several lines

A list-valued field means the same on one line and on several.  The parser keeps every
line, and `expect_100_continue`, `if_match` and `if_none_match` read the first one, so a
split makes a difference where a later line has something to say that the first one has
not, and nothing else in the request settles the matter.
-/

namespace GooseHttp

open Lib

/-! ## Joined values -/

/-- The value of a field whose lines, each trimmed by the parser, have the given values. -/
def IsJoinOf (joined : Text) (values : List Text) : Prop :=
  ∃ pieces : List Text, values = pieces.map trimOws ∧ joined = trimOws ([44].intercalate pieces)

section Join

variable {joined first : Text} {rest : List Text}

theorem IsJoinOf.splitAll_map_trim (h : IsJoinOf joined (first :: rest)) :
    (splitAll 44 joined).map trim = (first :: rest).flatMap fun v => (splitAll 44 v).map trim := by
  obtain ⟨pieces, hvalues, rfl⟩ := h
  have hne : pieces ≠ [] := by
    rintro rfl
    cases hvalues
  rw [hvalues, splitAll_trimOws, splitAll_intercalate 44 hne, List.map_flatMap, List.flatMap_map]
  simp only [splitAll_trimOws]

theorem IsJoinOf.listMembers_eq (h : IsJoinOf joined (first :: rest)) :
    listMembers joined = (first :: rest).flatMap listMembers := by
  rw [listMembers, h.splitAll_map_trim, List.filter_flatMap]
  rfl

theorem IsJoinOf.eq_of_single (h : IsJoinOf joined [first]) : joined = first := by
  obtain ⟨pieces, hvalues, rfl⟩ := h
  obtain ⟨piece, rfl, rfl⟩ := List.map_eq_singleton_iff.mp hvalues.symm
  simp

theorem IsJoinOf.ne_star (h : IsJoinOf joined (first :: rest)) (hrest : rest ≠ []) :
    trim joined ≠ ascii "*" := by
  intro hstar
  have hlen := congrArg List.length h.splitAll_map_trim
  rw [← splitAll_trim, hstar] at hlen
  obtain ⟨v, rest, rfl⟩ := List.exists_cons_of_ne_nil hrest
  have hpos : ∀ v : Text, 0 < (splitAll 44 v).length :=
    fun v => List.length_pos_iff.mpr (splitAll_ne_nil 44 v)
  have hfirst := hpos first
  have hsecond := hpos v
  simp only [List.flatMap_cons, List.length_append, List.length_map] at hlen
  have hone : (splitAll 44 (ascii "*")).length = 1 := by decide
  omega

end Join

/-! ## Tags that the first line conceals -/

def Names (strong : Bool) (value tag : Text) : Prop :=
  trim tag ≠ [] ∧ ∃ m ∈ listMembers value, sameTag strong m (trim tag) = true

/-- The whole list and its first line differ on the tag: a later line names it and the
first does not, or the first is a star beside others and no line names it. -/
def Concealed (strong : Bool) (first : Text) (rest : List Text) (tag : Text) : Prop :=
  if trim first = ascii "*" then rest ≠ [] ∧ ∀ value ∈ first :: rest, ¬ Names strong value tag
  else (∃ value ∈ rest, Names strong value tag) ∧ ¬ Names strong first tag

section Concealed

variable {joined first : Text} {rest : List Text}

theorem etagListMatches_join (h : IsJoinOf joined (first :: rest)) (tag : Text) (strong : Bool) :
    etagListMatches joined (some tag) strong = etagListMatches first (some tag) strong ↔
      ¬ Concealed strong first rest tag := by
  by_cases hrest : rest = []
  · subst hrest
    rw [h.eq_of_single]
    simp [Concealed]
  · have hjoined : etagListMatches joined (some tag) strong = true ↔
        ∃ value ∈ first :: rest, Names strong value tag := by
      rw [etagListMatches_some_iff (h.ne_star hrest), h.listMembers_eq]
      simp only [Names, List.mem_flatMap]
      constructor
      · rintro ⟨hne, m, ⟨value, hvalue, hm⟩, hsame⟩
        exact ⟨value, hvalue, hne, m, hm, hsame⟩
      · rintro ⟨value, hvalue, hne, m, hm, hsame⟩
        exact ⟨hne, m, ⟨value, hvalue, hm⟩, hsame⟩
    rw [Bool.eq_iff_iff, hjoined, Concealed]
    by_cases hstar : trim first = ascii "*"
    · rw [if_pos hstar, etagListMatches_star hstar]
      simp only [Option.isSome_some, iff_true, ne_eq, hrest, not_false_eq_true, true_and,
        not_forall, not_not, exists_prop]
    · rw [if_neg hstar, etagListMatches_some_iff hstar]
      simp only [List.exists_mem_cons_iff]
      change (Names strong first tag ∨ _ ↔ Names strong first tag) ↔ _
      generalize (∃ value ∈ rest, Names strong value tag) = later
      by_cases hfirst : Names strong first tag <;> simp [hfirst]

end Concealed

/-! ## Requests that differ in one field -/

inductive ListField
  | ifMatch
  | ifNoneMatch
  | expect
  deriving DecidableEq

def ListField.name : ListField → HeaderName
  | .ifMatch => HeaderKeys.ifMatch
  | .ifNoneMatch => HeaderKeys.ifNoneMatch
  | .expect => HeaderKeys.expect

def ListsContinue (value : Text) : Bool :=
  ((splitAll 44 value).map trim).any fun token => eqIgnoreAsciiCase token (ascii "100-continue")

/-- `If-None-Match` makes 412 of the answer, whatever `If-Match` says. -/
def Request.Overrules (r : Request) (tag : Text) : Prop :=
  isGetOrHead r.method = false ∧
    ∃ value, r.ifNoneMatch = some value ∧ etagListMatches value (some tag) false = true

def Request.Refuses (r : Request) (tag : Text) : Prop :=
  ∃ value, r.ifMatch = some value ∧ etagListMatches value (some tag) true = false

/-- What the lines behind the first have to say makes no difference. -/
def FirstLineDecides (r : Request) (first : Text) (rest : List Text) : ListField → Prop
  | .expect => (∃ value ∈ rest, ListsContinue value = true) → ListsContinue first = true
  | .ifMatch => ∀ tag, Concealed true first rest tag → r.Overrules tag
  | .ifNoneMatch => ∀ tag, Concealed false first rest tag → r.Refuses tag

def SameDecisions (env : Env) (r r' : Request) : Prop :=
  r.expect100Continue = r'.expect100Continue ∧
    ∀ response, applyRequestPreconditions env r response =
      applyRequestPreconditions env r' response

theorem expect100Continue_eq (r : Request) :
    r.expect100Continue = (r.header HeaderKeys.expect).any ListsContinue := by
  rw [Request.expect100Continue]
  cases r.header HeaderKeys.expect with
  | none => rfl
  | some value => simp [ListsContinue, List.any_map, Function.comp_def]

theorem IsJoinOf.listsContinue {joined first : Text} {rest : List Text}
    (h : IsJoinOf joined (first :: rest)) :
    ListsContinue joined = (first :: rest).any ListsContinue := by
  rw [ListsContinue, h.splitAll_map_trim, List.any_flatMap]
  rfl

def tagged (tag : Text) : Response := { Response.new .OK with
  headers := Headers.empty.insert HeaderKeys.etag tag }

theorem get_tagged (tag : Text) : (tagged tag).headers.get HeaderKeys.etag = some tag := by
  rw [Headers.get_eq_head?, tagged, Headers.values_insert, if_pos rfl]
  rfl

theorem parseLastModified_tagged (env : Env) (tag : Text) :
    parseLastModified env (tagged tag) = none := by
  rw [parseLastModified, Headers.get_eq_head?, tagged, Headers.values_insert,
    if_neg (by decide), Headers.values_empty]
  rfl

theorem decideIfUnmodifiedSince_tagged (env : Env) (r : Request) (tag : Text) :
    decideIfUnmodifiedSince env r (tagged tag) = none := by
  rw [decideIfUnmodifiedSince, parseLastModified_tagged]
  cases r.ifUnmodifiedSince env <;> rfl

theorem eq_of_getD_eq {α : Type} {a b : Option α} {x : α} (h : a.getD x = b.getD x)
    (ha : a ≠ some x) (hb : b ≠ some x) : a = b := by
  cases a <;> cases b <;> simp_all

theorem decision_of_same {env : Env} {r r' : Request} {tag : Text}
    (h : applyRequestPreconditions env r (tagged tag) =
      applyRequestPreconditions env r' (tagged tag)) :
    preconditionDecision env r (tagged tag) = preconditionDecision env r' (tagged tag) := by
  have hshows : ∀ r : Request, (applyRequestPreconditions env r (tagged tag)).status =
      (preconditionDecision env r (tagged tag)).getD .OK := by
    intro r
    rw [applyRequestPreconditions]
    cases preconditionDecision env r (tagged tag) <;> rfl
  have hne : ∀ r : Request, preconditionDecision env r (tagged tag) ≠ some .OK := by
    intro r hdecision
    rcases preconditionDecision_cases hdecision with hstatus | hstatus
    · exact absurd hstatus (by decide)
    · exact absurd hstatus (by decide)
  have hstatus := congrArg Response.status h
  rw [hshows, hshows] at hstatus
  exact eq_of_getD_eq hstatus (hne r) (hne r')

/-! ## The steps of the evaluation -/

section Steps

variable {env : Env} {r : Request} {response : Response} {value tag : Text}

theorem decideIfMatch_some (h : r.header HeaderKeys.ifMatch = some value) :
    decideIfMatch r response =
      if etagListMatches value (response.headers.get HeaderKeys.etag) true then none
      else some .PRECONDITION_FAILED := by
  rw [decideIfMatch, Request.ifMatch, h, Option.map_some]
  simp only [etagListMatches_trim]

theorem decideIfNoneMatch_some (h : r.header HeaderKeys.ifNoneMatch = some value) :
    decideIfNoneMatch env r response =
      if etagListMatches value (response.headers.get HeaderKeys.etag) false then
        some (if isGetOrHead r.method then .NOT_MODIFIED else .PRECONDITION_FAILED)
      else none := by
  rw [decideIfNoneMatch, Request.ifNoneMatch, h, Option.map_some]
  simp only [etagListMatches_trim]
  split
  · split <;> rfl
  · rfl

theorem decideIfNoneMatch_of_overrules (htag : response.headers.get HeaderKeys.etag = some tag)
    (h : r.Overrules tag) : decideIfNoneMatch env r response = some .PRECONDITION_FAILED := by
  obtain ⟨hmethod, value, hvalue, hmatches⟩ := h
  rw [decideIfNoneMatch, hvalue, htag]
  simp [hmatches, hmethod]

theorem overrules_of_decide
    (h : decideIfNoneMatch env r (tagged tag) = some .PRECONDITION_FAILED) :
    r.Overrules tag := by
  have hne : StatusCode.NOT_MODIFIED ≠ .PRECONDITION_FAILED := by decide
  rw [decideIfNoneMatch, get_tagged, parseLastModified_tagged] at h
  cases hvalue : r.ifNoneMatch with
  | none =>
      rw [hvalue] at h
      dsimp only at h
      split at h
      · simp at h
      · cases h
  | some value =>
      rw [hvalue] at h
      dsimp only at h
      split at h
      · rename_i hmatches
        split at h
        · exact absurd (Option.some.inj h) hne
        · rename_i hmethod
          exact ⟨(Bool.not_eq_true _).mp hmethod, value, hvalue, hmatches⟩
      · cases h

theorem decideIfMatch_of_refuses (htag : response.headers.get HeaderKeys.etag = some tag)
    (h : r.Refuses tag) : decideIfMatch r response = some .PRECONDITION_FAILED := by
  obtain ⟨value, hvalue, hmatches⟩ := h
  rw [decideIfMatch, hvalue, htag]
  simp [hmatches]

theorem refuses_of_decide (h : decideIfMatch r (tagged tag) ≠ none) : r.Refuses tag := by
  rw [decideIfMatch, get_tagged] at h
  cases hvalue : r.ifMatch with
  | none =>
      rw [hvalue] at h
      exact absurd rfl h
  | some value =>
      rw [hvalue] at h
      dsimp only at h
      split at h
      · exact absurd rfl h
      · rename_i hmatches
        exact ⟨value, hvalue, (Bool.not_eq_true _).mp hmatches⟩

end Steps

/-! ## One line or several -/

/-- The second step cannot tell one first step from another only if it ends in the same
place itself. -/
theorem or_eq_or_iff {α : Type} {a b c : Option α} {x : α} (ha : a = none ∨ a = some x)
    (hb : b = none ∨ b = some x) : a.or c = b.or c ↔ a = b ∨ c = some x := by
  rcases ha with rfl | rfl <;> rcases hb with rfl | rfl <;> simp [eq_comm]

theorem or_eq_or_left_iff {α : Type} {a b c : Option α} :
    c.or a = c.or b ↔ c ≠ none ∨ a = b := by
  cases c <;> simp

structure DifferIn (name : HeaderName) (r r' : Request) : Prop where
  method : r.method = r'.method
  others : ∀ key, key ≠ name → r.header key = r'.header key

section Differ

variable {env : Env} {key : HeaderName} {r r' : Request} {joined first : Text} {rest : List Text}

theorem DifferIn.expect100Continue (h : DifferIn key r r') (hkey : HeaderKeys.expect ≠ key) :
    r.expect100Continue = r'.expect100Continue := by
  rw [expect100Continue_eq, expect100Continue_eq, h.others _ hkey]

theorem DifferIn.decideIfMatch (h : DifferIn key r r') (hkey : HeaderKeys.ifMatch ≠ key)
    (response : Response) : decideIfMatch r response = decideIfMatch r' response := by
  simp only [GooseHttp.decideIfMatch, Request.ifMatch, h.others _ hkey]

theorem DifferIn.decideIfUnmodifiedSince (h : DifferIn key r r')
    (hkey : HeaderKeys.ifUnmodifiedSince ≠ key) (response : Response) :
    decideIfUnmodifiedSince env r response = decideIfUnmodifiedSince env r' response := by
  simp only [GooseHttp.decideIfUnmodifiedSince, Request.ifUnmodifiedSince, h.others _ hkey]

theorem DifferIn.decideIfNoneMatch (h : DifferIn key r r') (hnone : HeaderKeys.ifNoneMatch ≠ key)
    (hsince : HeaderKeys.ifModifiedSince ≠ key) (response : Response) :
    decideIfNoneMatch env r response = decideIfNoneMatch env r' response := by
  simp only [GooseHttp.decideIfNoneMatch, Request.ifNoneMatch, Request.ifModifiedSince,
    h.others _ hnone, h.others _ hsince, h.method]

theorem apply_of_decision {response : Response}
    (h : preconditionDecision env r response = preconditionDecision env r' response) :
    applyRequestPreconditions env r response = applyRequestPreconditions env r' response := by
  rw [applyRequestPreconditions, h, applyRequestPreconditions]

theorem DifferIn.decision_ifMatch_iff (h : DifferIn HeaderKeys.ifMatch r r')
    (hr : r.header HeaderKeys.ifMatch = some first)
    (hr' : r'.header HeaderKeys.ifMatch = some joined) (response : Response) :
    preconditionDecision env r response = preconditionDecision env r' response ↔
      etagListMatches joined (response.headers.get HeaderKeys.etag) true =
        etagListMatches first (response.headers.get HeaderKeys.etag) true ∨
      (GooseHttp.decideIfUnmodifiedSince env r response).or
        (GooseHttp.decideIfNoneMatch env r response) = some .PRECONDITION_FAILED := by
  rw [preconditionDecision, preconditionDecision, Option.or_assoc, Option.or_assoc,
    ← h.decideIfUnmodifiedSince (by decide), ← h.decideIfNoneMatch (by decide) (by decide),
    or_eq_or_iff (decideIfMatch_cases r response) (decideIfMatch_cases r' response),
    decideIfMatch_some hr, decideIfMatch_some hr']
  apply or_congr_left
  cases etagListMatches first (response.headers.get HeaderKeys.etag) true <;>
    cases etagListMatches joined (response.headers.get HeaderKeys.etag) true <;> simp

theorem DifferIn.decision_ifNoneMatch_iff (h : DifferIn HeaderKeys.ifNoneMatch r r')
    (hr : r.header HeaderKeys.ifNoneMatch = some first)
    (hr' : r'.header HeaderKeys.ifNoneMatch = some joined) (response : Response) :
    preconditionDecision env r response = preconditionDecision env r' response ↔
      (GooseHttp.decideIfMatch r response).or
        (GooseHttp.decideIfUnmodifiedSince env r response) ≠ none ∨
      etagListMatches joined (response.headers.get HeaderKeys.etag) false =
        etagListMatches first (response.headers.get HeaderKeys.etag) false := by
  rw [preconditionDecision, preconditionDecision, ← h.decideIfMatch (by decide),
    ← h.decideIfUnmodifiedSince (by decide), or_eq_or_left_iff, decideIfNoneMatch_some hr,
    decideIfNoneMatch_some hr', h.method]
  apply or_congr_right
  cases etagListMatches first (response.headers.get HeaderKeys.etag) false <;>
    cases etagListMatches joined (response.headers.get HeaderKeys.etag) false <;> simp

theorem matches_eq_of_not_concealed (hjoin : IsJoinOf joined (first :: rest)) {strong : Bool}
    {tag : Option Text} (h : ∀ t ∈ tag, ¬ Concealed strong first rest t) :
    etagListMatches joined tag strong = etagListMatches first tag strong := by
  cases tag with
  | none => rw [etagListMatches_none, etagListMatches_none]
  | some t => exact (etagListMatches_join hjoin t strong).mpr (h t rfl)

theorem DifferIn.same_ifMatch_iff (h : DifferIn HeaderKeys.ifMatch r r')
    (hr : r.header HeaderKeys.ifMatch = some first)
    (hr' : r'.header HeaderKeys.ifMatch = some joined)
    (hjoin : IsJoinOf joined (first :: rest)) :
    (∀ response, applyRequestPreconditions env r response =
        applyRequestPreconditions env r' response) ↔
      ∀ tag, Concealed true first rest tag → r.Overrules tag := by
  constructor
  · intro hsame tag hconcealed
    have hdecision := decision_of_same (hsame (tagged tag))
    rw [h.decision_ifMatch_iff hr hr', get_tagged, decideIfUnmodifiedSince_tagged,
      Option.none_or] at hdecision
    rcases hdecision with hmatches | hfails
    · exact absurd hconcealed ((etagListMatches_join hjoin tag true).mp hmatches)
    · exact overrules_of_decide hfails
  · intro hcond response
    apply apply_of_decision
    rw [h.decision_ifMatch_iff hr hr']
    by_cases hconcealed : ∃ tag, response.headers.get HeaderKeys.etag = some tag ∧
        Concealed true first rest tag
    · obtain ⟨tag, htag, hconcealed⟩ := hconcealed
      right
      rw [decideIfNoneMatch_of_overrules htag (hcond tag hconcealed)]
      rcases decideIfUnmodifiedSince_cases env r response with hnone | hsome
      · rw [hnone, Option.none_or]
      · rw [hsome, Option.some_or]
    · left
      apply matches_eq_of_not_concealed hjoin
      exact fun tag htag hmem => hconcealed ⟨tag, htag, hmem⟩

theorem DifferIn.same_ifNoneMatch_iff (h : DifferIn HeaderKeys.ifNoneMatch r r')
    (hr : r.header HeaderKeys.ifNoneMatch = some first)
    (hr' : r'.header HeaderKeys.ifNoneMatch = some joined)
    (hjoin : IsJoinOf joined (first :: rest)) :
    (∀ response, applyRequestPreconditions env r response =
        applyRequestPreconditions env r' response) ↔
      ∀ tag, Concealed false first rest tag → r.Refuses tag := by
  constructor
  · intro hsame tag hconcealed
    have hdecision := decision_of_same (hsame (tagged tag))
    rw [h.decision_ifNoneMatch_iff hr hr', get_tagged, decideIfUnmodifiedSince_tagged,
      Option.or_none] at hdecision
    rcases hdecision with hfails | hmatches
    · exact refuses_of_decide hfails
    · exact absurd hconcealed ((etagListMatches_join hjoin tag false).mp hmatches)
  · intro hcond response
    apply apply_of_decision
    rw [h.decision_ifNoneMatch_iff hr hr']
    by_cases hconcealed : ∃ tag, response.headers.get HeaderKeys.etag = some tag ∧
        Concealed false first rest tag
    · obtain ⟨tag, htag, hconcealed⟩ := hconcealed
      left
      rw [decideIfMatch_of_refuses htag (hcond tag hconcealed), Option.some_or]
      exact Option.some_ne_none _
    · right
      apply matches_eq_of_not_concealed hjoin
      exact fun tag htag hmem => hconcealed ⟨tag, htag, hmem⟩

theorem DifferIn.same_expect (h : DifferIn HeaderKeys.expect r r') (response : Response) :
    applyRequestPreconditions env r response = applyRequestPreconditions env r' response := by
  apply apply_of_decision
  rw [preconditionDecision, preconditionDecision, h.decideIfMatch (by decide),
    h.decideIfUnmodifiedSince (by decide), h.decideIfNoneMatch (by decide) (by decide)]

/-- Two requests that differ in how a list is laid out are decided on alike if and only if the
first line has all there is to say. -/
theorem DifferIn.sameDecisions_iff (field : ListField) (h : DifferIn field.name r r')
    (hr : r.header field.name = some first) (hr' : r'.header field.name = some joined)
    (hjoin : IsJoinOf joined (first :: rest)) :
    SameDecisions env r r' ↔ FirstLineDecides r first rest field := by
  unfold SameDecisions
  cases field with
  | ifMatch =>
      rw [h.same_ifMatch_iff hr hr' hjoin]
      exact and_iff_right (h.expect100Continue (by decide))
  | ifNoneMatch =>
      rw [h.same_ifNoneMatch_iff hr hr' hjoin]
      exact and_iff_right (h.expect100Continue (by decide))
  | expect =>
      have hr : r.header HeaderKeys.expect = some first := hr
      have hr' : r'.header HeaderKeys.expect = some joined := hr'
      rw [and_iff_left h.same_expect, expect100Continue_eq, expect100Continue_eq, hr, hr',
        Option.any_some, Option.any_some, hjoin.listsContinue, List.any_cons]
      cases hfirst : ListsContinue first with
      | true => simp [FirstLineDecides, hfirst]
      | false =>
          rw [Bool.false_or, eq_comm, List.any_eq_false]
          simp [FirstLineDecides, hfirst]

end Differ

/-! ## Heads -/

/-- The same fields, but for one that is on several lines here and on one there. -/
structure IsSplitOf (key : HeaderName) (first : Text) (rest : List Text)
    (split joined : List (HeaderName × Text)) : Prop where
  lines : fieldValues split key = first :: rest
  whole : ∃ value, fieldValues joined key = [value] ∧ IsJoinOf value (first :: rest)
  others : ∀ name, name ≠ key → fieldValues split name = fieldValues joined name

theorem fieldValues_lines_self (key : HeaderName) (values : List Text) :
    fieldValues (values.map fun value => (key, value)) key = values := by
  simp [fieldValues, List.filter_map, Function.comp_def]

theorem fieldValues_lines_of_ne {key name : HeaderName} (h : key ≠ name) (values : List Text) :
    fieldValues (values.map fun value => (key, value)) name = [] := by
  simp [fieldValues, List.filter_map, Function.comp_def, h]

theorem IsSplitOf.of_lines {key : HeaderName} {value first : Text} {rest : List Text}
    {split joined front back : List (HeaderName × Text)}
    (hsplit : split = front ++ (first :: rest).map (fun value => (key, value)) ++ back)
    (hjoined : joined = front ++ [value].map (fun value => (key, value)) ++ back)
    (hkey : fieldValues (front ++ back) key = []) (h : IsJoinOf value (first :: rest)) :
    IsSplitOf key first rest split joined := by
  rw [fieldValues_append, List.append_eq_nil_iff] at hkey
  refine ⟨?_, ⟨value, ?_, h⟩, fun name hname => ?_⟩
  · rw [hsplit, fieldValues_append, fieldValues_append, fieldValues_lines_self, hkey.1, hkey.2,
      List.append_nil, List.nil_append]
  · rw [hjoined, fieldValues_append, fieldValues_append, fieldValues_lines_self, hkey.1, hkey.2,
      List.append_nil, List.nil_append]
  · rw [hsplit, hjoined]
    simp only [fieldValues_append, fieldValues_lines_of_ne (Ne.symm hname)]

theorem header_of_parseRequestHead {buffer : Bytes} {request : Request} {mode : BodyMode}
    {n : Nat} (h : parseRequestHead buffer = .ok (request, mode, n)) (name : HeaderName) :
    request.header name = (fieldValues (rawFields (buffer.take n)) name).head? := by
  obtain ⟨line, lines, hhead⟩ := isHead_rawFields h
  rw [Request.header, Headers.get_eq_head?, hhead.headers, Headers.values_appendAll,
    Headers.values_empty, List.nil_append]

/-- Of two accepted heads, of which one splits a list-valued field of the other into several
lines, the server decides alike if and only if the first line decides. -/
theorem parseRequestHead_split_iff (env : Env) (field : ListField) {buffer buffer' : Bytes}
    {split joined : Request} {mode mode' : BodyMode} {n n' : Nat} {first : Text}
    {rest : List Text} (hsplit : parseRequestHead buffer = .ok (split, mode, n))
    (hjoined : parseRequestHead buffer' = .ok (joined, mode', n'))
    (hmethod : split.method = joined.method)
    (hfields : IsSplitOf field.name first rest (rawFields (buffer.take n))
      (rawFields (buffer'.take n'))) :
    SameDecisions env split joined ↔ FirstLineDecides split first rest field := by
  obtain ⟨value, hvalue, hjoin⟩ := hfields.whole
  have hdiffer : DifferIn field.name split joined := by
    refine ⟨hmethod, fun name hname => ?_⟩
    rw [header_of_parseRequestHead hsplit, header_of_parseRequestHead hjoined,
      hfields.others name hname]
  apply hdiffer.sameDecisions_iff field
  · rw [header_of_parseRequestHead hsplit, hfields.lines]
    rfl
  · rw [header_of_parseRequestHead hjoined, hvalue]
    rfl
  · exact hjoin

def tagsSplit : Bytes := ascii
  "GET / HTTP/1.1\r\nHost: a\r\nIf-None-Match: \"a\"\r\nIf-None-Match: \"b\"\r\n\r\n"

def tagsJoined : Bytes := ascii
  "GET / HTTP/1.1\r\nHost: a\r\nIf-None-Match: \"a\", \"b\"\r\n\r\n"

/-- A version that the second line names is sent again to the client that has it. -/
theorem parseRequestHead_tagsSplit :
    ¬ ∀ (field : ListField) (buffer buffer' : Bytes) (split joined : Request)
      (mode mode' : BodyMode) (n n' : Nat) (first : Text) (rest : List Text),
      parseRequestHead buffer = .ok (split, mode, n) →
      parseRequestHead buffer' = .ok (joined, mode', n') → split.method = joined.method →
      IsSplitOf field.name first rest (rawFields (buffer.take n)) (rawFields (buffer'.take n')) →
        SameDecisions .atEpoch split joined := by
  intro hall
  have hcheck : ∃ s ∈ (parseRequestHead tagsSplit).toOption,
      ∃ j ∈ (parseRequestHead tagsJoined).toOption, s.1.method = j.1.method ∧
        rawFields (tagsSplit.take s.2.2) = [(HeaderKeys.host, ascii "a")] ++
          [ascii "\"a\"", ascii "\"b\""].map (fun value => (HeaderKeys.ifNoneMatch, value)) ++ [] ∧
        rawFields (tagsJoined.take j.2.2) = [(HeaderKeys.host, ascii "a")] ++
          [ascii "\"a\", \"b\""].map (fun value => (HeaderKeys.ifNoneMatch, value)) ++ [] ∧
        (applyRequestPreconditions .atEpoch s.1 (tagged (ascii "\"b\""))).status ≠
          (applyRequestPreconditions .atEpoch j.1 (tagged (ascii "\"b\""))).status := by
    decide +kernel
  obtain ⟨⟨split, mode, n⟩, hsplit, ⟨joined, mode', n'⟩, hjoined, hmethod, hfields, hfields', hne⟩ :=
    hcheck
  have hjoin : IsJoinOf (ascii "\"a\", \"b\"") [ascii "\"a\"", ascii "\"b\""] :=
    ⟨[ascii "\"a\"", ascii " \"b\""], by decide, by decide⟩
  have hsame := hall .ifNoneMatch tagsSplit tagsJoined split joined mode mode' n n' _ _
    (ok_of_mem_toOption hsplit) (ok_of_mem_toOption hjoined) hmethod
    (.of_lines hfields hfields' (by decide) hjoin)
  exact hne (congrArg Response.status (hsame.2 _))

def expectSplit : Bytes := ascii
  "PUT / HTTP/1.1\r\nExpect: 100-continue\r\nExpect: b\r\nHost: a\r\n\r\n"

def expectJoined : Bytes := ascii
  "PUT / HTTP/1.1\r\nExpect: 100-continue, b\r\nHost: a\r\n\r\n"

theorem parseRequestHead_split_iff_expect :
    ∃ split mode n joined mode' n', parseRequestHead expectSplit = .ok (split, mode, n) ∧
      parseRequestHead expectJoined = .ok (joined, mode', n') ∧
      SameDecisions .atEpoch split joined := by
  have hcheck : ∃ s ∈ (parseRequestHead expectSplit).toOption,
      ∃ j ∈ (parseRequestHead expectJoined).toOption, s.1.method = j.1.method ∧
        rawFields (expectSplit.take s.2.2) = [] ++ [ascii "100-continue", ascii "b"].map
          (fun value => (HeaderKeys.expect, value)) ++ [(HeaderKeys.host, ascii "a")] ∧
        rawFields (expectJoined.take j.2.2) = [] ++ [ascii "100-continue, b"].map
          (fun value => (HeaderKeys.expect, value)) ++ [(HeaderKeys.host, ascii "a")] := by
    decide +kernel
  obtain ⟨⟨split, mode, n⟩, hsplit, ⟨joined, mode', n'⟩, hjoined, hmethod, hfields, hfields'⟩ :=
    hcheck
  have hsplit := ok_of_mem_toOption hsplit
  have hjoined := ok_of_mem_toOption hjoined
  have hjoin : IsJoinOf (ascii "100-continue, b") [ascii "100-continue", ascii "b"] :=
    ⟨[ascii "100-continue", ascii " b"], by decide, by decide⟩
  refine ⟨split, mode, n, joined, mode', n', hsplit, hjoined, ?_⟩
  refine (parseRequestHead_split_iff .atEpoch .expect hsplit hjoined hmethod
    (.of_lines hfields hfields' (by decide) hjoin)).mpr ?_
  exact fun _ => by decide

end GooseHttp
