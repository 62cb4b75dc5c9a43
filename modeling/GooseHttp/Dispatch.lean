import GooseHttp.Routing
/-!
# Dispatch

Which handler answers a request, and what `Allow` offers when none does, said of the
registrations of a router.  A table of routes names its handlers, so that the one that is
called can be told from the others; spellings of HEAD in other letters are where the router
departs from the table.
-/

namespace GooseHttp

open Lib

variable {σ : Type}

/-! ## Joined tokens -/

theorem length_joinComma {tokens : List Text} (h : tokens ≠ []) :
    (joinComma tokens).length + 2 = (tokens.map fun t => t.length + 2).sum := by
  induction tokens with
  | nil => exact absurd rfl h
  | cons t tokens ih =>
      cases tokens with
      | nil => simp [joinComma]
      | cons u tokens =>
          have ih := ih (by simp)
          have hseparator : (ascii ", ").length = 2 := rfl
          rw [List.map_cons, List.sum_cons, ← ih, joinComma, List.length_append, List.length_append,
            hseparator]
          omega

theorem subset_of_joinComma_eq {part tokens : List Text} (hne : part ≠ []) (hnodup : part.Nodup)
    (hsub : part ⊆ tokens) (h : joinComma part = joinComma tokens) : tokens ⊆ part := by
  obtain ⟨rest, hrest⟩ : ∃ rest, tokens.Perm (part ++ rest) := by
    obtain ⟨part', hperm, hsublist⟩ := hnodup.subperm hsub
    obtain ⟨rest, hrest⟩ := hsublist.exists_perm_append
    exact ⟨rest, hrest.trans (hperm.append_right rest)⟩
  have htokens : tokens ≠ [] := fun hnil => hne (List.subset_nil.mp (hnil ▸ hsub))
  have hlength := length_joinComma hne
  have hsum := (hrest.map fun t => t.length + 2).sum_eq
  rw [h, length_joinComma htokens, hsum, List.map_append, List.sum_append] at hlength
  cases rest with
  | nil =>
      rw [List.append_nil] at hrest
      exact hrest.subset
  | cons t rest =>
      rw [List.map_cons, List.sum_cons] at hlength
      omega

/-! ## How a request is answered -/

namespace Router

def allowed (router : Router σ) (path : Text) : List Text :=
  if router.autoHead && (router.entry path).methods.contains (ascii "GET") then
    insertToken (ascii "HEAD") (router.entry path).methods
  else (router.entry path).methods

theorem allowHeader_eq (router : Router σ) (path : Text) :
    (router.entry path).allowHeader router.autoHead = joinComma (router.allowed path) := rfl

def Reaches (router : Router σ) (path token : Text) : Prop :=
  ∃ route handler headFallback, router.routes.lookup path = some route ∧
    route.resolve token router.autoHead = .matched handler headFallback

variable {router : Router σ} {registrations : List (Registration σ)} {request : Request}

theorem sorted_allowed (h : router.Holds registrations) (path : Text) :
    (router.allowed path).Pairwise (· < ·) := by
  unfold allowed
  split
  · exact sorted_insertToken (h.sorted path)
  · exact h.sorted path

theorem mem_allowed (h : router.Holds registrations) {path token : Text} :
    token ∈ router.allowed path ↔ (lastRegistered registrations token path).isSome ∨
      router.autoHead = true ∧ token = ascii "HEAD" ∧
        (lastRegistered registrations (ascii "GET") path).isSome := by
  unfold allowed
  split
  · rename_i hget
    simp only [Bool.and_eq_true, List.contains_iff_mem, h.methods] at hget
    rw [mem_insertToken, h.methods]
    simp [hget, or_comm]
  · rename_i hget
    simp only [Bool.and_eq_true, List.contains_iff_mem, h.methods, not_and] at hget
    rw [h.methods]
    exact ⟨Or.inl, fun hcases => hcases.elim id fun hc => absurd hc.2.2 (hget hc.1)⟩

theorem resolve_entry (h : router.Holds registrations) (path token : Text) :
    (router.entry path).resolve token router.autoHead =
      match lastRegistered registrations token path with
      | some handler => .matched handler false
      | none =>
          if router.autoHead && eqIgnoreAsciiCase token (ascii "HEAD") then
            match lastRegistered registrations (ascii "GET") path with
            | some handler => .matched handler true
            | none => .methodNotAllowed (joinComma (router.allowed path))
          else .methodNotAllowed (joinComma (router.allowed path)) := by
  unfold RouteEntry.resolve
  cases htoken : lastRegistered registrations token path with
  | some handler => simp only [h.handlers, htoken]
  | none =>
      cases hget : lastRegistered registrations (ascii "GET") path with
      | some handler => simp only [h.handlers, htoken, hget, allowHeader_eq]
      | none => simp only [h.handlers, htoken, hget, allowHeader_eq]

theorem handle_eq (router : Router σ) (request : Request) (s : σ) :
    router.handle request s =
      match (router.entry (targetKey request)).resolve request.method.asStr router.autoHead with
      | .matched handler headFallback =>
          let (response, s) := handler request s
          (if headFallback then response.stripBodyForHead else response, s)
      | .methodNotAllowed allow =>
          if isExtension request.method then (notImplemented, s)
          else if (router.routes.lookup (targetKey request)).isSome then
            (GooseHttp.methodNotAllowed allow, s)
          else (GooseHttp.notFound, s) := by
  rw [handle, entry]
  cases hroute : router.routes.lookup (targetKey request) with
  | some route => rfl
  | none =>
      have hempty : ∃ allow, (RouteEntry.empty : RouteEntry σ).resolve request.method.asStr
          router.autoHead = .methodNotAllowed allow := by
        simp [RouteEntry.resolve, RouteEntry.empty]
      obtain ⟨allow, hallow⟩ := hempty
      rw [Option.getD_none, hallow]
      rfl

theorem reaches_iff_resolve {path token : Text} :
    router.Reaches path token ↔ ∃ handler headFallback,
      (router.entry path).resolve token router.autoHead = .matched handler headFallback := by
  unfold Reaches entry
  cases hroute : router.routes.lookup path with
  | some route => simp
  | none => simp [RouteEntry.resolve, RouteEntry.empty]

theorem resolve_of_not_reaches {path token : Text} (h : ¬ router.Reaches path token) :
    (router.entry path).resolve token router.autoHead =
      .methodNotAllowed (joinComma (router.allowed path)) := by
  rw [reaches_iff_resolve] at h
  rw [← allowHeader_eq]
  unfold RouteEntry.resolve at h ⊢
  split
  · rename_i handler hown
    exact absurd ⟨handler, false, by rw [hown]⟩ h
  · rename_i hown
    split
    · rename_i hhead
      split
      · rename_i handler hget
        refine absurd ⟨handler, true, ?_⟩ h
        rw [hown]
        dsimp only
        rw [if_pos hhead, hget]
      · rfl
    · rfl

theorem reaches_iff (h : router.Holds registrations) {path token : Text} :
    router.Reaches path token ↔ (lastRegistered registrations token path).isSome ∨
      router.autoHead = true ∧ eqIgnoreAsciiCase token (ascii "HEAD") = true ∧
        (lastRegistered registrations (ascii "GET") path).isSome := by
  rw [reaches_iff_resolve, resolve_entry h]
  cases hown : lastRegistered registrations token path with
  | some handler => simp
  | none =>
      cases hget : lastRegistered registrations (ascii "GET") path with
      | some handler =>
          dsimp only
          split
          · rename_i hhead
            rw [Bool.and_eq_true] at hhead
            simp [hhead]
          · rename_i hhead
            rw [Bool.and_eq_true] at hhead
            simp only [Option.isSome_none, Option.isSome_some, Bool.false_eq_true, false_or, and_true]
            constructor
            · rintro ⟨_, _, hmatched⟩
              cases hmatched
            · exact fun hc => absurd hc hhead
      | none => simp

end Router

/-! ## Dispatch as it is meant -/

structure NamedRoute (ι : Type) where
  method : Method
  path : Text
  handler : ι
  deriving DecidableEq, Repr

variable {ι : Type}

def NamedRoute.registration (handlers : ι → Handler σ) (route : NamedRoute ι) : Registration σ :=
  ⟨route.method, route.path, handlers route.handler⟩

def lastRoute (table : List (NamedRoute ι)) (token path : Text) : Option ι :=
  (table.reverse.find? fun route => route.method.asStr = token ∧ route.path = path).map
    NamedRoute.handler

theorem lastRegistered_map (handlers : ι → Handler σ) (table : List (NamedRoute ι))
    (token path : Text) :
    lastRegistered (table.map (NamedRoute.registration handlers)) token path =
      (lastRoute table token path).map handlers := by
  rw [lastRegistered, lastRoute, ← List.map_reverse, List.find?_map, Option.map_map, Option.map_map]
  rfl

/-- The router of a table, once its names stand for handlers. -/
def Router.ofTable (autoHead : Bool) (table : List (NamedRoute ι)) (handlers : ι → Handler σ) :
    Router σ := .build autoHead (table.map (NamedRoute.registration handlers))

/-- Methods that have a handler on a path: those registered for it, and HEAD where GET is
registered and stands in for it. -/
def Served (autoHead : Bool) (table : List (NamedRoute ι)) (path token : Text) : Prop :=
  (lastRoute table token path).isSome ∨
    autoHead = true ∧ token = ascii "HEAD" ∧ (lastRoute table (ascii "GET") path).isSome

/-- How a request is to be answered, where `offered` are the methods that `Allow` lists. -/
inductive Dispatched (autoHead : Bool) (table : List (NamedRoute ι)) (handlers : ι → Handler σ)
    (offered : Text → Prop) (request : Request) (s : σ) : Response × σ → Prop
  | own (i : ι) (h : lastRoute table request.method.asStr (targetKey request) = some i) :
      Dispatched autoHead table handlers offered request s (handlers i request s)
  | head (i : ι) (hon : autoHead = true) (hmethod : request.method.asStr = ascii "HEAD")
      (hnone : lastRoute table (ascii "HEAD") (targetKey request) = none)
      (h : lastRoute table (ascii "GET") (targetKey request) = some i) :
      Dispatched autoHead table handlers offered request s
        ((handlers i request s).1.stripBodyForHead, (handlers i request s).2)
  | notImplemented
      (hserved : ¬ Served autoHead table (targetKey request) request.method.asStr)
      (hextension : isExtension request.method = true) :
      Dispatched autoHead table handlers offered request s (notImplemented, s)
  | notFound (hextension : isExtension request.method = false)
      (h : ∀ route ∈ table, route.path ≠ targetKey request) :
      Dispatched autoHead table handlers offered request s (notFound, s)
  | notAllowed (hserved : ¬ Served autoHead table (targetKey request) request.method.asStr)
      (hextension : isExtension request.method = false)
      (hknown : ∃ route ∈ table, route.path = targetKey request)
      (tokens : List Text) (hsorted : tokens.Pairwise (· < ·))
      (hoffered : ∀ token, token ∈ tokens ↔ offered token) :
      Dispatched autoHead table handlers offered request s
        (methodNotAllowed (joinComma tokens), s)

/-- A token that reads HEAD in other letters, and that nobody registered for the path. -/
def IsStray (table : List (NamedRoute ι)) (path token : Text) : Prop :=
  eqIgnoreAsciiCase token (ascii "HEAD") = true ∧ token ≠ ascii "HEAD" ∧
    lastRoute table token path = none

namespace Router

variable (autoHead : Bool) (table : List (NamedRoute ι)) (handlers : ι → Handler σ)

theorem holds_ofTable : (ofTable autoHead table handlers).Holds
    (table.map (NamedRoute.registration handlers)) := holds_build _ _

@[simp] theorem autoHead_ofTable : (ofTable autoHead table handlers).autoHead = autoHead :=
  build_autoHead _ _

theorem known_ofTable (path : Text) :
    ((ofTable autoHead table handlers).routes.lookup path).isSome ↔
      ∃ route ∈ table, route.path = path := by
  rw [(holds_ofTable autoHead table handlers).known]
  simp [NamedRoute.registration]

theorem mem_allowed_ofTable {path token : Text} :
    token ∈ (ofTable autoHead table handlers).allowed path ↔
      Served autoHead table path token := by
  rw [mem_allowed (holds_ofTable autoHead table handlers), lastRegistered_map, lastRegistered_map,
    autoHead_ofTable, Option.isSome_map, Option.isSome_map, Served]

theorem reaches_ofTable {path token : Text} :
    (ofTable autoHead table handlers).Reaches path token ↔
      Served autoHead table path token ∨
        autoHead = true ∧ (lastRoute table (ascii "GET") path).isSome ∧
          IsStray table path token := by
  rw [reaches_iff (holds_ofTable autoHead table handlers), lastRegistered_map, lastRegistered_map,
    autoHead_ofTable, Option.isSome_map, Option.isSome_map, Served, IsStray]
  have hhead : eqIgnoreAsciiCase (ascii "HEAD") (ascii "HEAD") = true := by decide
  by_cases hown : (lastRoute table token path).isSome
  · simp [hown]
  · have hnone : lastRoute table token path = none := by simpa using hown
    by_cases htoken : token = ascii "HEAD"
    · simp [htoken, hhead]
    · simp [hnone, htoken, and_comm]

variable {autoHead table handlers} {request : Request} {s : σ}

theorem handle_own {i : ι}
    (h : lastRoute table request.method.asStr (targetKey request) = some i) :
    (ofTable autoHead table handlers).handle request s = handlers i request s := by
  have hlast : lastRegistered (table.map (NamedRoute.registration handlers))
      request.method.asStr (targetKey request) = some (handlers i) := by
    rw [lastRegistered_map, h]
    rfl
  rw [handle_eq, resolve_entry (holds_ofTable autoHead table handlers), hlast]
  rfl

theorem handle_fallback {i : ι}
    (hnone : lastRoute table request.method.asStr (targetKey request) = none)
    (hon : autoHead = true) (hhead : eqIgnoreAsciiCase request.method.asStr (ascii "HEAD") = true)
    (h : lastRoute table (ascii "GET") (targetKey request) = some i) :
    (ofTable autoHead table handlers).handle request s =
      ((handlers i request s).1.stripBodyForHead, (handlers i request s).2) := by
  have hlast : lastRegistered (table.map (NamedRoute.registration handlers))
      request.method.asStr (targetKey request) = none := by
    rw [lastRegistered_map, hnone]
    rfl
  have hget : lastRegistered (table.map (NamedRoute.registration handlers)) (ascii "GET")
      (targetKey request) = some (handlers i) := by
    rw [lastRegistered_map, h]
    rfl
  rw [handle_eq, resolve_entry (holds_ofTable autoHead table handlers), hlast, hget,
    autoHead_ofTable, hon, hhead]
  rfl

theorem handle_unreached
    (h : ¬ (ofTable autoHead table handlers).Reaches (targetKey request) request.method.asStr) :
    (ofTable autoHead table handlers).handle request s =
      if isExtension request.method then (notImplemented, s)
      else if ((ofTable autoHead table handlers).routes.lookup (targetKey request)).isSome then
        (GooseHttp.methodNotAllowed
          (joinComma ((ofTable autoHead table handlers).allowed (targetKey request))), s)
      else (GooseHttp.notFound, s) := by
  rw [handle_eq, resolve_of_not_reaches h]

theorem sorted_allowed_ofTable (path : Text) :
    ((ofTable autoHead table handlers).allowed path).Pairwise (· < ·) :=
  sorted_allowed (holds_ofTable autoHead table handlers) path

/-- A request is answered as it should be if it is not a stray spelling of HEAD, and if
what is offered is what `Allow` lists. -/
theorem dispatched_of_not_stray {offered : Text → Prop}
    (hstray : ¬ (autoHead = true ∧ (lastRoute table (ascii "GET") (targetKey request)).isSome ∧
      IsStray table (targetKey request) request.method.asStr))
    (hoffered : isExtension request.method = false →
      ¬ Served autoHead table (targetKey request) request.method.asStr →
        ∀ token, offered token ↔ Served autoHead table (targetKey request) token) :
    Dispatched autoHead table handlers offered request s
      ((ofTable autoHead table handlers).handle request s) := by
  cases hown : lastRoute table request.method.asStr (targetKey request) with
  | some i =>
      rw [handle_own hown]
      exact .own i hown
  | none =>
      by_cases hserved : Served autoHead table (targetKey request) request.method.asStr
      · obtain hsome | ⟨hon, hmethod, hget⟩ := hserved
        · rw [hown] at hsome
          cases hsome
        · obtain ⟨i, hi⟩ := Option.isSome_iff_exists.mp hget
          rw [handle_fallback hown hon (by rw [hmethod]; decide) hi]
          exact .head i hon hmethod (by rw [← hmethod, hown]) hi
      · have hunreached : ¬ (ofTable autoHead table handlers).Reaches (targetKey request)
            request.method.asStr := by
          rw [reaches_ofTable]
          exact not_or.mpr ⟨hserved, hstray⟩
        rw [handle_unreached hunreached]
        cases hextension : isExtension request.method with
        | true => exact .notImplemented hserved hextension
        | false =>
            simp only [Bool.false_eq_true, if_false]
            split
            · rename_i hknown
              rw [known_ofTable] at hknown
              refine .notAllowed hserved hextension hknown _ (sorted_allowed_ofTable _) ?_
              intro token
              rw [mem_allowed_ofTable, hoffered hextension hserved]
            · rename_i hunknown
              rw [known_ofTable] at hunknown
              exact .notFound hextension fun route hroute hpath =>
                hunknown ⟨route, hroute, hpath⟩

theorem not_dispatched_of_stray {offered : Text → Prop} (hon : autoHead = true)
    (hget : (lastRoute table (ascii "GET") (targetKey request)).isSome)
    (hstray : IsStray table (targetKey request) request.method.asStr) :
    ¬ Dispatched autoHead table (fun _ _ s => (Response.new .OK, s)) offered request s
      ((ofTable autoHead table fun _ _ s => (Response.new .OK, s)).handle request s) := by
  obtain ⟨hhead, hne, hnone⟩ := hstray
  obtain ⟨i, hi⟩ := Option.isSome_iff_exists.mp hget
  rw [handle_fallback hnone hon hhead hi]
  generalize hanswer : ((Response.new .OK).stripBodyForHead, s) = answer
  have hstatus : answer.1.status = .OK := by
    rw [← hanswer]
    rfl
  intro hdispatched
  cases hdispatched with
  | own j h =>
      rw [hnone] at h
      cases h
  | head j _ hmethod _ _ => exact hne hmethod
  | notImplemented => cases hstatus
  | notFound => cases hstatus
  | notAllowed => cases hstatus

theorem known_of_lastRoute {token path : Text} (h : (lastRoute table token path).isSome) :
    ∃ route ∈ table, route.path = path := by
  rw [lastRoute, Option.isSome_map, List.find?_isSome] at h
  obtain ⟨route, hroute, heq⟩ := h
  exact ⟨route, List.mem_reverse.mp hroute, (of_decide_eq_true heq).2⟩

theorem not_served_of_stray {path token : Text} (h : IsStray table path token) :
    ¬ Served autoHead table path token := by
  rintro (hsome | ⟨-, hhead, -⟩)
  · rw [h.2.2] at hsome
    cases hsome
  · exact h.2.1 hhead

theorem methodNotAllowed_inj {a b : Text}
    (h : GooseHttp.methodNotAllowed a = GooseHttp.methodNotAllowed b) : a = b := by
  have hvalues := congrArg (fun r => r.headers.getAll HeaderKeys.allow) h
  simpa [GooseHttp.methodNotAllowed] using hvalues

theorem not_dispatched_of_unlisted (hon : autoHead = true)
    (hget : (lastRoute table (ascii "GET") (targetKey request)).isSome)
    (hunreached : ¬ (ofTable autoHead table handlers).Reaches (targetKey request)
      request.method.asStr)
    (hextension : isExtension request.method = false) {token : Text}
    (htoken : IsStray table (targetKey request) token) :
    ¬ Dispatched autoHead table handlers
      ((ofTable autoHead table handlers).Reaches (targetKey request)) request s
      ((ofTable autoHead table handlers).handle request s) := by
  have hknown := known_of_lastRoute hget
  have hserved : ¬ Served autoHead table (targetKey request) request.method.asStr :=
    fun h => hunreached ((reaches_ofTable autoHead table handlers).mpr (Or.inl h))
  rw [handle_unreached hunreached, hextension, if_neg (by simp),
    if_pos ((known_ofTable autoHead table handlers _).mpr hknown)]
  generalize hanswer : (GooseHttp.methodNotAllowed
    (joinComma ((ofTable autoHead table handlers).allowed (targetKey request))), s) = answer
  intro hdispatched
  cases hdispatched with
  | own i h => exact hserved (Or.inl (by rw [h]; rfl))
  | head i _ hmethod _ h => exact hserved (Or.inr ⟨hon, hmethod, hget⟩)
  | notImplemented _ h =>
      rw [hextension] at h
      cases h
  | notFound _ h =>
      obtain ⟨route, hroute, hpath⟩ := hknown
      exact h route hroute hpath
  | notAllowed _ _ _ tokens hsorted hoffered =>
      have hjoined := methodNotAllowed_inj (congrArg Prod.fst hanswer)
      have hlisted : ∀ t, t ∈ (ofTable autoHead table handlers).allowed (targetKey request) ↔
          Served autoHead table (targetKey request) t :=
        fun t => mem_allowed_ofTable autoHead table handlers
      have hne : (ofTable autoHead table handlers).allowed (targetKey request) ≠ [] :=
        List.ne_nil_of_mem ((hlisted (ascii "GET")).mpr (Or.inl hget))
      have hnodup : ((ofTable autoHead table handlers).allowed (targetKey request)).Nodup :=
        (sorted_allowed_ofTable _).imp fun hlt => by
          rintro rfl
          exact List.lt_irrefl _ hlt
      have hsub : (ofTable autoHead table handlers).allowed (targetKey request) ⊆ tokens := by
        intro t ht
        rw [hoffered, reaches_ofTable]
        exact Or.inl ((hlisted t).mp ht)
      have hmem : token ∈ tokens := by
        rw [hoffered, reaches_ofTable]
        exact Or.inr ⟨hon, hget, htoken⟩
      have hback := subset_of_joinComma_eq hne hnodup hsub hjoined hmem
      exact not_served_of_stray htoken ((hlisted token).mp hback)

end Router

/-- A router answers as it should, with `Allow` listing the methods that should have a
handler, unless the method is a stray spelling of HEAD that the automatic HEAD takes for
it; the methods listed are those that get to a handler unless there is such a spelling. -/
theorem router_dispatched_iff [Inhabited σ] (autoHead : Bool) (table : List (NamedRoute ι))
    (request : Request) :
    ((∀ (handlers : ι → Handler σ) (s : σ),
        Dispatched autoHead table handlers (Served autoHead table (targetKey request)) request s
          ((Router.ofTable autoHead table handlers).handle request s)) ↔
      ¬ (autoHead = true ∧ (lastRoute table (ascii "GET") (targetKey request)).isSome ∧
        IsStray table (targetKey request) request.method.asStr)) ∧
    ((∀ (handlers : ι → Handler σ) (s : σ),
        Dispatched autoHead table handlers
          ((Router.ofTable autoHead table handlers).Reaches (targetKey request)) request s
          ((Router.ofTable autoHead table handlers).handle request s)) ↔
      ¬ (autoHead = true ∧ (lastRoute table (ascii "GET") (targetKey request)).isSome ∧
        (IsStray table (targetKey request) request.method.asStr ∨
          isExtension request.method = false ∧
          ¬ Served autoHead table (targetKey request) request.method.asStr ∧
          ∃ token, IsStray table (targetKey request) token))) := by
  refine ⟨⟨?_, ?_⟩, ?_, ?_⟩
  · rintro hall ⟨hon, hget, hstray⟩
    exact Router.not_dispatched_of_stray hon hget hstray (hall _ default)
  · exact fun hstray handlers s => Router.dispatched_of_not_stray hstray fun _ _ _ => Iff.rfl
  · rintro hall ⟨hon, hget, hstray⟩
    by_cases hmethod : IsStray table (targetKey request) request.method.asStr
    · exact Router.not_dispatched_of_stray hon hget hmethod (hall _ default)
    · obtain hstray | ⟨hextension, hserved, token, htoken⟩ := hstray
      · exact hmethod hstray
      · refine Router.not_dispatched_of_unlisted hon hget ?_ hextension htoken
          (hall (fun _ _ s => (Response.new .OK, s)) default)
        rw [Router.reaches_ofTable]
        exact not_or.mpr ⟨hserved, fun h => hmethod h.2.2⟩
  · intro hstray handlers s
    apply Router.dispatched_of_not_stray
    · exact fun h => hstray ⟨h.1, h.2.1, Or.inl h.2.2⟩
    · intro hextension hserved token
      rw [Router.reaches_ofTable]
      constructor
      · rintro (h | ⟨hon, hget, htoken⟩)
        · exact h
        · exact absurd ⟨hon, hget, Or.inr ⟨hextension, hserved, token, htoken⟩⟩ hstray
      · exact Or.inl

def rootTable : List (NamedRoute Unit) := [⟨.get, ascii "/", ()⟩]

def lowercaseHead : Request := .new (.extension (ascii "head")) (.origin (ascii "/"))

theorem router_lowercaseHead :
    ((Router.ofTable true rootTable fun _ => Handler.always (.new .OK)).handle lowercaseHead
      ()).1.status = .OK ∧
    ¬ Dispatched true rootTable (fun _ => Handler.always (.new .OK))
      (Served true rootTable (ascii "/")) lowercaseHead ()
      ((Router.ofTable true rootTable fun _ => Handler.always (.new .OK)).handle
        lowercaseHead ()) := by
  refine ⟨by decide +kernel, Router.not_dispatched_of_stray rfl (by decide) ?_⟩
  exact ⟨by decide, by decide, by decide⟩

end GooseHttp
