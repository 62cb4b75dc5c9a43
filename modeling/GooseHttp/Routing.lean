import GooseHttp.Message
/-!
# Routing

The router dispatches a request by the text of its target and its method token.
A route keeps its handlers in a map and its method tokens, for `Allow`, in an
ordered set.  A router only comes from a list of registrations (`Router.build`),
so what its maps hold is what was registered.
-/

namespace GooseHttp

open Lib

variable {σ : Type}

/-! ## Ordered sets of tokens -/

def textLt : Text → Text → Bool
  | _, [] => false
  | [], _ :: _ => true
  | a :: as, b :: bs => a < b || (a = b && textLt as bs)

/-- `BTreeSet::insert`. -/
def insertToken (token : Text) : List Text → List Text
  | [] => [token]
  | t :: ts =>
      if token = t then t :: ts
      else if textLt token t then token :: t :: ts
      else t :: insertToken token ts

@[simp] theorem mem_insertToken {token t : Text} {tokens : List Text} :
    t ∈ insertToken token tokens ↔ t = token ∨ t ∈ tokens := by
  induction tokens with
  | nil => simp [insertToken]
  | cons u tokens ih =>
      rw [insertToken]
      split
      · rename_i h
        simp [h]
      · split
        · simp
        · simp only [List.mem_cons, ih]
          exact or_left_comm

theorem textLt_iff (a b : Text) : textLt a b = true ↔ a < b := by
  fun_induction textLt a b with
  | case1 a => simp
  | case2 b bs => simp
  | case3 a as b bs ih => simp [ih, List.cons_lt_cons_iff]

theorem sorted_insertToken {token : Text} {tokens : List Text}
    (h : tokens.Pairwise (· < ·)) : (insertToken token tokens).Pairwise (· < ·) := by
  induction tokens with
  | nil => simp [insertToken]
  | cons t tokens ih =>
      obtain ⟨hfirst, hrest⟩ := List.pairwise_cons.mp h
      rw [insertToken]
      split
      · exact h
      · rename_i hne
        split
        · rename_i hlt
          rw [textLt_iff] at hlt
          apply List.pairwise_cons.mpr
          refine ⟨fun u hu => ?_, h⟩
          rcases List.mem_cons.mp hu with rfl | hu
          · exact hlt
          · exact List.lt_trans hlt (hfirst u hu)
        · rename_i hnot
          rw [textLt_iff] at hnot
          have hlt : t < token := Std.lt_of_le_of_ne hnot (Ne.symm hne)
          apply List.pairwise_cons.mpr
          refine ⟨fun u hu => ?_, ih hrest⟩
          rcases mem_insertToken.mp hu with rfl | hu
          · exact hlt
          · exact hfirst u hu

/-- `join(", ")`. -/
def joinComma : List Text → Text
  | [] => []
  | [t] => t
  | t :: u :: ts => t ++ ascii ", " ++ joinComma (u :: ts)

theorem not_mem_joinComma {b : UInt8} {tokens : List Text} (hb : b ∉ ascii ", ")
    (h : ∀ t ∈ tokens, b ∉ t) : b ∉ joinComma tokens := by
  induction tokens with
  | nil => simp [joinComma]
  | cons t tokens ih =>
      cases tokens with
      | nil => exact h t (by simp)
      | cons u tokens =>
          have ih := ih fun v hv => h v (List.mem_cons_of_mem _ hv)
          simp only [joinComma, List.mem_append, not_or]
          exact ⟨⟨h t (by simp), hb⟩, ih⟩

/-! ## Routes -/

structure RouteEntry (σ : Type) where
  handlers : AList fun _ : Text => Handler σ
  methods : List Text

inductive RouteMatch (σ : Type)
  | matched (handler : Handler σ) (headFallback : Bool)
  | methodNotAllowed (allow : Text)

namespace RouteEntry

/-- `RouteEntry::default`. -/
def empty : RouteEntry σ := ⟨∅, []⟩

def insert (entry : RouteEntry σ) (method : Method) (handler : Handler σ) : RouteEntry σ where
  handlers := entry.handlers.insert method.asStr handler
  methods := insertToken method.asStr entry.methods

def allowHeader (entry : RouteEntry σ) (autoHead : Bool) : Text :=
  joinComma <|
    if autoHead && entry.methods.contains (ascii "GET") then
      insertToken (ascii "HEAD") entry.methods
    else entry.methods

def resolve (entry : RouteEntry σ) (method : Text) (autoHead : Bool) : RouteMatch σ :=
  match entry.handlers.lookup method with
  | some handler => .matched handler false
  | none =>
      if autoHead && eqIgnoreAsciiCase method (ascii "HEAD") then
        match entry.handlers.lookup (ascii "GET") with
        | some handler => .matched handler true
        | none => .methodNotAllowed (entry.allowHeader autoHead)
      else .methodNotAllowed (entry.allowHeader autoHead)

end RouteEntry

/-! ## The router -/

structure Router (σ : Type) where
  routes : AList fun _ : Text => RouteEntry σ
  autoHead : Bool

structure Registration (σ : Type) where
  method : Method
  path : Text
  handler : Handler σ

def lastRegistered (registrations : List (Registration σ)) (token path : Text) :
    Option (Handler σ) :=
  (registrations.reverse.find? fun reg => reg.method.asStr = token ∧ reg.path = path).map
    Registration.handler

theorem lastRegistered_append (registrations : List (Registration σ)) (reg : Registration σ)
    (token path : Text) :
    lastRegistered (registrations ++ [reg]) token path =
      if reg.method.asStr = token ∧ reg.path = path then some reg.handler
      else lastRegistered registrations token path := by
  rw [lastRegistered, List.reverse_append, List.reverse_singleton, List.singleton_append,
    List.find?_cons]
  split
  · rename_i h
    rw [if_pos (by simpa using h)]
    rfl
  · rename_i h
    rw [if_neg (by simpa using h)]
    rfl

theorem exists_of_lastRegistered {registrations : List (Registration σ)} {token path : Text}
    {handler : Handler σ} (h : lastRegistered registrations token path = some handler) :
    ∃ reg ∈ registrations, reg.method.asStr = token ∧ reg.path = path ∧
      reg.handler = handler := by
  obtain ⟨reg, hfind, rfl⟩ := Option.map_eq_some_iff.mp h
  have hmem := List.mem_reverse.mp (List.mem_of_find?_eq_some hfind)
  have hfound : reg.method.asStr = token ∧ reg.path = path := by
    simpa using List.find?_some hfind
  exact ⟨reg, hmem, hfound.1, hfound.2, rfl⟩

def notFound : Response := .new .NOT_FOUND

def methodNotAllowed (allow : Text) : Response :=
  { Response.new .METHOD_NOT_ALLOWED with
    headers := Headers.empty.insert HeaderKeys.allow allow }

def notImplemented : Response := .new .NOT_IMPLEMENTED

def targetKey (request : Request) : Text :=
  match request.target with
  | .origin path => path
  | .absolute path => path
  | .authority path => path
  | .asterisk => ascii "*"

def isExtension : Method → Bool
  | .extension _ => true
  | _ => false

namespace Router

/-- `RouterBuilder::insert_route`; the builder has the fields of the router. -/
def insertRoute (router : Router σ) (reg : Registration σ) : Router σ :=
  let entry := (router.routes.lookup reg.path).getD .empty
  { router with routes := router.routes.insert reg.path (entry.insert reg.method reg.handler) }

/-- The router of a builder on which these handlers were registered in this order. -/
def build (autoHead : Bool) (registrations : List (Registration σ)) : Router σ :=
  registrations.foldl insertRoute ⟨∅, autoHead⟩

def handle (router : Router σ) : Handler σ := fun request s =>
  match router.routes.lookup (targetKey request) with
  | some route =>
      match route.resolve request.method.asStr router.autoHead with
      | .matched handler headFallback =>
          let (response, s) := handler request s
          (if headFallback then response.stripBodyForHead else response, s)
      | .methodNotAllowed allow =>
          if isExtension request.method then (notImplemented, s) else (methodNotAllowed allow, s)
  | none => if isExtension request.method then (notImplemented, s) else (notFound, s)

/-! ### What a built router holds -/

def entry (router : Router σ) (path : Text) : RouteEntry σ :=
  (router.routes.lookup path).getD .empty

theorem entry_insertRoute (router : Router σ) (reg : Registration σ) (path : Text) :
    (router.insertRoute reg).entry path =
      if path = reg.path then (router.entry reg.path).insert reg.method reg.handler
      else router.entry path := by
  split
  · rename_i h
    rw [h, entry, insertRoute, AList.lookup_insert]
    rfl
  · rename_i h
    rw [entry, insertRoute, AList.lookup_insert_ne h]
    rfl

structure Holds (router : Router σ) (registrations : List (Registration σ)) : Prop where
  known : ∀ path, (router.routes.lookup path).isSome ↔ ∃ reg ∈ registrations, reg.path = path
  handlers : ∀ path token,
    (router.entry path).handlers.lookup token = lastRegistered registrations token path
  methods : ∀ path token,
    token ∈ (router.entry path).methods ↔ (lastRegistered registrations token path).isSome
  sorted : ∀ path, (router.entry path).methods.Pairwise (· < ·)

theorem holds_insertRoute {router : Router σ} {registrations : List (Registration σ)}
    (h : router.Holds registrations) (reg : Registration σ) :
    (router.insertRoute reg).Holds (registrations ++ [reg]) := by
  refine ⟨fun path => ?_, fun path token => ?_, fun path token => ?_, fun path => ?_⟩
  · by_cases hpath : path = reg.path
    · subst hpath
      simp [insertRoute]
    · rw [insertRoute, AList.lookup_insert_ne hpath, h.known]
      simp [Ne.symm hpath]
  · rw [entry_insertRoute, lastRegistered_append]
    by_cases hpath : path = reg.path
    · subst hpath
      rw [if_pos rfl, RouteEntry.insert]
      by_cases htoken : token = reg.method.asStr
      · subst htoken
        simp
      · rw [AList.lookup_insert_ne htoken, h.handlers, if_neg fun hc => htoken hc.1.symm]
    · rw [if_neg hpath, h.handlers, if_neg fun hc => hpath hc.2.symm]
  · rw [entry_insertRoute, lastRegistered_append]
    by_cases hpath : path = reg.path
    · subst hpath
      rw [if_pos rfl, RouteEntry.insert, mem_insertToken, h.methods]
      by_cases htoken : token = reg.method.asStr
      · subst htoken
        simp
      · rw [if_neg fun hc => htoken hc.1.symm]
        simp [htoken]
    · rw [if_neg hpath, h.methods, if_neg fun hc => hpath hc.2.symm]
  · rw [entry_insertRoute]
    split
    · exact sorted_insertToken (h.sorted _)
    · exact h.sorted path

theorem holds_build (autoHead : Bool) (registrations : List (Registration σ)) :
    (build autoHead registrations).Holds registrations := by
  induction registrations using List.reverseRecOn with
  | nil =>
      refine ⟨fun path => ?_, fun path token => rfl, fun path token => ?_, fun path => ?_⟩
      · simp [build]
      · simp [build, entry, RouteEntry.empty, lastRegistered]
      · simp [build, entry, RouteEntry.empty]
  | append_singleton registrations reg ih =>
      rw [build, List.foldl_append]
      exact holds_insertRoute ih reg

/-- Every handler and every method token of the router was registered. -/
structure HoldsOnly (router : Router σ) (registrations : List (Registration σ)) : Prop where
  handlers : ∀ path entry token handler, router.routes.lookup path = some entry →
    entry.handlers.lookup token = some handler →
      ∃ reg ∈ registrations, reg.method.asStr = token ∧ reg.path = path ∧ reg.handler = handler
  methods : ∀ path entry token, router.routes.lookup path = some entry →
    token ∈ entry.methods → ∃ reg ∈ registrations, reg.method.asStr = token

theorem Holds.holdsOnly {router : Router σ} {registrations : List (Registration σ)}
    (h : router.Holds registrations) : router.HoldsOnly registrations := by
  have hentry : ∀ {path entry}, router.routes.lookup path = some entry →
      router.entry path = entry := by
    intro path entry hpath
    rw [Router.entry, hpath, Option.getD_some]
  refine ⟨fun path entry token handler hpath htoken => ?_, fun path entry token hpath htoken => ?_⟩
  · rw [← hentry hpath, h.handlers] at htoken
    exact exists_of_lastRegistered htoken
  · rw [← hentry hpath, h.methods] at htoken
    obtain ⟨handler, hlast⟩ := Option.isSome_iff_exists.mp htoken
    obtain ⟨reg, hreg, hmethod, -, -⟩ := exists_of_lastRegistered hlast
    exact ⟨reg, hreg, hmethod⟩

theorem build_holdsOnly (autoHead : Bool) (registrations : List (Registration σ)) :
    (build autoHead registrations).HoldsOnly registrations :=
  (holds_build autoHead registrations).holdsOnly

@[simp] theorem build_autoHead (autoHead : Bool) (registrations : List (Registration σ)) :
    (build autoHead registrations).autoHead = autoHead := by
  induction registrations using List.reverseRecOn with
  | nil => rfl
  | append_singleton registrations reg ih =>
      rw [build, List.foldl_append]
      exact ih

/-- A GET handler that answers a request for which only GET is registered, on behalf
of a method that reads `HEAD` in some letter case. -/
def fallback (router : Router σ) (request : Request) : Option (Handler σ) :=
  match router.routes.lookup (targetKey request) with
  | some route =>
      if (route.handlers.lookup request.method.asStr).isNone && router.autoHead &&
          eqIgnoreAsciiCase request.method.asStr (ascii "HEAD") then
        route.handlers.lookup (ascii "GET")
      else none
  | none => none

inductive Canned (registrations : List (Registration σ)) : Response → Prop
  | notFound : Canned registrations notFound
  | notImplemented : Canned registrations notImplemented
  | methodNotAllowed (tokens : List Text)
      (h : ∀ t ∈ tokens, t = ascii "HEAD" ∨ ∃ reg ∈ registrations, reg.method.asStr = t) :
      Canned registrations (methodNotAllowed (joinComma tokens))

inductive Answers (router : Router σ) (registrations : List (Registration σ))
    (request : Request) (s : σ) : Response × σ → Prop
  | own (reg : Registration σ) (hreg : reg ∈ registrations)
      (h : router.fallback request = none) :
      Answers router registrations request s (reg.handler request s)
  | head (reg : Registration σ) (hreg : reg ∈ registrations)
      (h : router.fallback request = some reg.handler) :
      Answers router registrations request s
        ((reg.handler request s).1.stripBodyForHead, (reg.handler request s).2)
  | canned (response : Response) (hcanned : Canned registrations response)
      (h : router.fallback request = none) :
      Answers router registrations request s (response, s)

theorem canned_methodNotAllowed {router : Router σ} {registrations : List (Registration σ)}
    {path : Text} {route : RouteEntry σ} (hholds : router.HoldsOnly registrations)
    (hroute : router.routes.lookup path = some route) :
    Canned registrations (GooseHttp.methodNotAllowed (route.allowHeader router.autoHead)) := by
  refine .methodNotAllowed _ fun t ht => ?_
  split at ht
  · rcases mem_insertToken.mp ht with rfl | ht
    · exact Or.inl rfl
    · exact Or.inr (hholds.methods _ route t hroute ht)
  · exact Or.inr (hholds.methods _ route t hroute ht)

theorem handle_answers {router : Router σ} {registrations : List (Registration σ)}
    (hholds : router.HoldsOnly registrations) (request : Request) (s : σ) :
    Answers router registrations request s (router.handle request s) := by
  cases hroute : router.routes.lookup (targetKey request) with
  | none =>
      have hnone : router.fallback request = none := by
        rw [fallback, hroute]
      rw [handle, hroute]
      dsimp only
      split
      · exact .canned _ .notImplemented hnone
      · exact .canned _ .notFound hnone
  | some route =>
      cases hown : route.handlers.lookup request.method.asStr with
      | some handler =>
          obtain ⟨reg, hreg, -, -, rfl⟩ := hholds.handlers _ route _ handler hroute hown
          have hnone : router.fallback request = none := by
            rw [fallback, hroute]
            simp [hown]
          have hhandle : router.handle request s = reg.handler request s := by
            rw [handle, hroute]
            simp [RouteEntry.resolve, hown]
          rw [hhandle]
          exact .own reg hreg hnone
      | none =>
          have hfallback : router.fallback request =
              if router.autoHead && eqIgnoreAsciiCase request.method.asStr (ascii "HEAD") then
                route.handlers.lookup (ascii "GET")
              else none := by
            rw [fallback, hroute]
            simp [hown]
          cases hmatch : router.fallback request with
          | some handler =>
              rw [hfallback] at hmatch
              split at hmatch
              · rename_i hhead
                obtain ⟨reg, hreg, -, -, rfl⟩ := hholds.handlers _ route _ handler hroute hmatch
                have hhandle : router.handle request s =
                    ((reg.handler request s).1.stripBodyForHead,
                      (reg.handler request s).2) := by
                  rw [handle, hroute]
                  simp [RouteEntry.resolve, hown, hhead, hmatch]
                rw [hhandle]
                exact .head reg hreg (by rw [hfallback, if_pos hhead, hmatch])
              · cases hmatch
          | none =>
              have hresolve : route.resolve request.method.asStr router.autoHead =
                  .methodNotAllowed (route.allowHeader router.autoHead) := by
                rw [RouteEntry.resolve, hown]
                rw [hfallback] at hmatch
                dsimp only
                split
                · rename_i hhead
                  rw [if_pos hhead] at hmatch
                  rw [hmatch]
                · rfl
              rw [handle, hroute]
              dsimp only
              rw [hresolve]
              dsimp only
              split
              · exact .canned _ .notImplemented hmatch
              · exact .canned _ (canned_methodNotAllowed hholds hroute) hmatch

end Router

end GooseHttp
