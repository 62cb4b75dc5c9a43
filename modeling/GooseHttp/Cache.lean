import GooseHttp.Lib.Accumulate
import GooseHttp.Precondition
/-!
# Cache metadata

What the server reads out of the header fields that govern caching.  Only the first value
of a field is looked at, and `Cache-Control` is cut at every comma.
-/

namespace GooseHttp

open Lib

structure CacheControl where
  noStore : Bool
  noCache : Bool
  mustRevalidate : Bool
  maxAge : Option Nat
  other : List Text
  deriving DecidableEq, Repr

/-- `CacheControl::default`. -/
def CacheControl.initial : CacheControl := ⟨false, false, false, none, []⟩

structure CachePolicy where
  control : Option CacheControl
  age : Option Nat
  expires : Option Nat
  vary : List Text

/-- `trim_matches('"')`. -/
def trimQuotes (s : Text) : Text := (s.dropWhile fun b => b = 34).rdropWhile fun b => b = 34

/-- `splitn(2, '=')`. -/
def splitDirective (directive : Text) : Text × Option Text :=
  match splitOnce 61 directive with
  | some (token, param) => (token, some param)
  | none => (directive, none)

/-- What one directive does to the control. -/
def noteDirective (control : CacheControl) (directive : Text) : CacheControl :=
  let token := asciiLowercase (trim (splitDirective directive).1)
  let param := (splitDirective directive).2.map trimQuotes
  if token = ascii "no-store" then { control with noStore := true }
  else if token = ascii "no-cache" then { control with noCache := true }
  else if token = ascii "must-revalidate" then { control with mustRevalidate := true }
  else if token = ascii "max-age" then
    match param.bind parseU64 with
    | some value => { control with maxAge := some value }
    | none => control
  else { control with other := control.other ++ [directive] }

/-- The text between the commas, without white space around it and unless it is empty. -/
def cacheDirectives (value : Text) : List Text :=
  ((splitAll 44 value).map trim).filter fun directive => directive ≠ []

def parseCacheControl (value : Text) : CacheControl :=
  (cacheDirectives value).foldl noteDirective .initial

def policyFromHeaders (env : Env) (headers : Headers) : CachePolicy where
  control := (headers.get HeaderKeys.cacheControl).map parseCacheControl
  age := (headers.get HeaderKeys.age).bind parseU64
  expires := (headers.get HeaderKeys.expires).bind env.parseHttpDate
  vary :=
    match headers.get HeaderKeys.vary with
    | some value => (splitAll 44 value).map trim
    | none => []

/-- The times are in whole seconds, as HTTP dates are. -/
def freshnessLifetime (policy : CachePolicy) (date : Option Nat) : Option Nat :=
  match policy.control.bind CacheControl.maxAge with
  | some maxAge => some maxAge
  | none =>
      match policy.expires, date with
      | some expires, some date => if date ≤ expires then some (expires - date) else none
      | _, _ => none

def ensureAgeHeader (headers : Headers) : Headers :=
  if headers.contains HeaderKeys.age then headers
  else headers.insert HeaderKeys.age (ascii "0")

/-! ## The freshness lifetime -/

def directiveMaxAge (directive : Text) : Option Nat :=
  if asciiLowercase (trim (splitDirective directive).1) = ascii "max-age" then
    ((splitDirective directive).2.map trimQuotes).bind parseU64
  else none

theorem noteDirective_maxAge (control : CacheControl) (directive : Text) :
    (noteDirective control directive).maxAge =
      (directiveMaxAge directive).or control.maxAge := by
  unfold noteDirective directiveMaxAge
  dsimp only
  generalize asciiLowercase (trim (splitDirective directive).1) = token
  by_cases hage : token = ascii "max-age"
  · rw [hage, if_neg (by decide), if_neg (by decide), if_neg (by decide), if_pos rfl,
      if_pos rfl]
    cases ((splitDirective directive).2.map trimQuotes).bind parseU64 <;> rfl
  · rw [if_neg hage, if_neg hage]
    split
    · rfl
    · split
      · rfl
      · split <;> rfl

theorem parseCacheControl_maxAge (value : Text) :
    (parseCacheControl value).maxAge =
      ((cacheDirectives value).filterMap directiveMaxAge).getLast? := by
  rw [parseCacheControl, foldl_last noteDirective_maxAge]
  exact Option.or_none

/-- How long the fields say a response stays fresh: the last `max-age` of the first
`Cache-Control` line, and where there is none the time from `Date` to `Expires`, unless it
is already over. -/
theorem freshnessLifetime_eq_some_iff (env : Env) (h : Headers) (date : Option Nat) (n : Nat) :
    freshnessLifetime (policyFromHeaders env h) date = some n ↔
      let maxAge := (h.get HeaderKeys.cacheControl).bind fun value =>
        ((cacheDirectives value).filterMap directiveMaxAge).getLast?
      maxAge = some n ∨ maxAge = none ∧ ∃ d, date = some d ∧
        (h.get HeaderKeys.expires).bind env.parseHttpDate = some (d + n) := by
  have hmaxAge : (policyFromHeaders env h).control.bind CacheControl.maxAge =
      (h.get HeaderKeys.cacheControl).bind fun value =>
        ((cacheDirectives value).filterMap directiveMaxAge).getLast? := by
    rw [policyFromHeaders]
    cases h.get HeaderKeys.cacheControl with
    | none => rfl
    | some value => exact parseCacheControl_maxAge value
  have hexpires : (policyFromHeaders env h).expires =
      (h.get HeaderKeys.expires).bind env.parseHttpDate := rfl
  unfold freshnessLifetime
  rw [hmaxAge, hexpires]
  generalize (h.get HeaderKeys.cacheControl).bind _ = maxAge
  generalize (h.get HeaderKeys.expires).bind env.parseHttpDate = expires
  cases maxAge with
  | some maxAge => simp
  | none =>
      cases expires with
      | none => simp
      | some expires =>
          cases date with
          | none => simp
          | some d =>
              by_cases hle : d ≤ expires
              · simp only [if_pos hle, Option.some.injEq, reduceCtorEq, false_or, true_and,
                  exists_eq_left']
                omega
              · simp only [if_neg hle, Option.some.injEq, reduceCtorEq, false_or, true_and,
                  exists_eq_left', false_iff]
                omega

end GooseHttp
