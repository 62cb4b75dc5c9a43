import GooseHttp.Text
/-!
# Methods, versions and status codes

The typed start-line components shared by requests and responses.
-/

namespace GooseHttp

open Lib

/-! ## Tokens -/

def isTchar (b : UInt8) : Bool :=
  (ascii "!#$%&'*+-.^_`|~").contains b || isDigit b || isUpper b || isLower b

def isToken (value : Text) : Bool := value ≠ [] && value.all isTchar

theorem isGraphic_of_isTchar {b : UInt8} (h : isTchar b = true) : isGraphic b = true := by
  have hpunctuation : ∀ c ∈ ascii "!#$%&'*+-.^_`|~", isGraphic c = true := by decide +kernel
  simp only [isTchar, Bool.or_eq_true, List.contains_iff_mem] at h
  rcases h with ((h | h) | h) | h
  · exact hpunctuation b h
  all_goals
    simp only [isDigit, isUpper, isLower, isGraphic, Bool.and_eq_true, decide_eq_true_eq,
      UInt8.le_iff_toNat_le, UInt8.reduceToNat] at h ⊢
    omega

theorem isToken_iff {value : Text} :
    isToken value = true ↔ value ≠ [] ∧ ∀ b ∈ value, isTchar b = true := by
  simp [isToken]

theorem isTchar_toAsciiLower : ∀ b, isTchar (toAsciiLower b) = isTchar b := by
  decide +kernel

theorem isToken_asciiLowercase (name : Text) : isToken (asciiLowercase name) = isToken name := by
  simp [isToken, asciiLowercase, isTchar_toAsciiLower, Function.comp_def]

theorem not_mem_of_isToken {value : Text} {b : UInt8} (h : isToken value = true)
    (hb : isTchar b = false) : b ∉ value := by
  intro hmem
  have := (isToken_iff.mp h).2 b hmem
  rw [hb] at this
  cases this

/-! ## Methods -/

inductive Method
  | get
  | head
  | post
  | put
  | delete
  | connect
  | options
  | trace
  | patch
  | extension (token : Text)
  deriving DecidableEq, Repr

namespace Method

def asStr : Method → Text
  | get => ascii "GET"
  | head => ascii "HEAD"
  | post => ascii "POST"
  | put => ascii "PUT"
  | delete => ascii "DELETE"
  | connect => ascii "CONNECT"
  | options => ascii "OPTIONS"
  | trace => ascii "TRACE"
  | patch => ascii "PATCH"
  | extension token => token

/-- `Method::from_token`; `none` is `MethodError::InvalidToken`. -/
def fromToken (token : Text) : Option Method :=
  if token = ascii "GET" then some get
  else if token = ascii "HEAD" then some head
  else if token = ascii "POST" then some post
  else if token = ascii "PUT" then some put
  else if token = ascii "DELETE" then some delete
  else if token = ascii "CONNECT" then some connect
  else if token = ascii "OPTIONS" then some options
  else if token = ascii "TRACE" then some trace
  else if token = ascii "PATCH" then some patch
  else if isToken token then some (extension token)
  else none

theorem of_ite_eq_some {α : Type} {c : Prop} [Decidable c] {a m : α} {x : Option α}
    (h : (if c then some a else x) = some m) : c ∧ a = m ∨ x = some m := by
  split at h
  · exact Or.inl ⟨‹c›, Option.some.inj h⟩
  · exact Or.inr h

theorem fromToken_ok {token : Text} {m : Method} (h : fromToken token = some m) :
    m.asStr = token ∧ isToken token = true := by
  unfold fromToken at h
  iterate 9
    rcases of_ite_eq_some h with ⟨rfl, rfl⟩ | h
    · exact ⟨rfl, by decide +kernel⟩
  rcases of_ite_eq_some h with ⟨htoken, rfl⟩ | h
  · exact ⟨rfl, htoken⟩
  · cases h

end Method

/-! ## Versions -/

inductive HttpVersion
  | http10
  | http11
  | other (major minor : Nat)
  deriving DecidableEq, Repr

namespace HttpVersion

def display : HttpVersion → Text
  | http10 => ascii "HTTP/1.0"
  | http11 => ascii "HTTP/1.1"
  | other major minor => ascii "HTTP/" ++ toDecimal major ++ ascii "." ++ toDecimal minor

inductive Error
  | invalidPrefix
  | invalidFormat
  | invalidNumber
  deriving DecidableEq, Repr

def fromStr (s : Text) : Except Error HttpVersion :=
  if (ascii "HTTP/").isPrefixOf s = false then .error .invalidPrefix
  else
    match splitAll 46 (s.drop 5) with
    | [] => .error .invalidFormat
    | major :: parts =>
        match parseU8 major with
        | none => .error .invalidNumber
        | some major =>
            match parts with
            | [] => .error .invalidFormat
            | minor :: parts =>
                match parseU8 minor with
                | none => .error .invalidNumber
                | some minor =>
                    if parts ≠ [] then .error .invalidFormat
                    else if (major, minor) = (1, 0) then .ok http10
                    else if (major, minor) = (1, 1) then .ok http11
                    else .ok (other major minor)

end HttpVersion

/-! ## Status codes -/

/-- A status code; `from_u16` is the only way to make one from a number. -/
structure StatusCode where
  code : Nat
  lower : 100 ≤ code
  upper : code ≤ 599
  deriving DecidableEq, Repr

namespace StatusCode

/-- `StatusCode::from_u16`; `none` is `StatusCodeError::OutOfRange`. -/
def fromU16 (code : Nat) : Option StatusCode :=
  if h : 100 ≤ code ∧ code ≤ 599 then some ⟨code, h.1, h.2⟩ else none

def asU16 (status : StatusCode) : Nat := status.code

def canonicalReason (status : StatusCode) : Option Text :=
  match status.code with
  | 100 => some (ascii "Continue")
  | 101 => some (ascii "Switching Protocols")
  | 102 => some (ascii "Processing")
  | 103 => some (ascii "Early Hints")
  | 200 => some (ascii "OK")
  | 201 => some (ascii "Created")
  | 202 => some (ascii "Accepted")
  | 203 => some (ascii "Non-Authoritative Information")
  | 204 => some (ascii "No Content")
  | 205 => some (ascii "Reset Content")
  | 206 => some (ascii "Partial Content")
  | 300 => some (ascii "Multiple Choices")
  | 301 => some (ascii "Moved Permanently")
  | 302 => some (ascii "Found")
  | 303 => some (ascii "See Other")
  | 304 => some (ascii "Not Modified")
  | 305 => some (ascii "Use Proxy")
  | 307 => some (ascii "Temporary Redirect")
  | 308 => some (ascii "Permanent Redirect")
  | 400 => some (ascii "Bad Request")
  | 401 => some (ascii "Unauthorized")
  | 402 => some (ascii "Payment Required")
  | 403 => some (ascii "Forbidden")
  | 404 => some (ascii "Not Found")
  | 405 => some (ascii "Method Not Allowed")
  | 406 => some (ascii "Not Acceptable")
  | 407 => some (ascii "Proxy Authentication Required")
  | 408 => some (ascii "Request Timeout")
  | 409 => some (ascii "Conflict")
  | 410 => some (ascii "Gone")
  | 411 => some (ascii "Length Required")
  | 412 => some (ascii "Precondition Failed")
  | 413 => some (ascii "Content Too Large")
  | 414 => some (ascii "URI Too Long")
  | 415 => some (ascii "Unsupported Media Type")
  | 416 => some (ascii "Range Not Satisfiable")
  | 417 => some (ascii "Expectation Failed")
  | 418 => some (ascii "I'm a teapot")
  | 421 => some (ascii "Misdirected Request")
  | 422 => some (ascii "Unprocessable Content")
  | 426 => some (ascii "Upgrade Required")
  | 428 => some (ascii "Precondition Required")
  | 429 => some (ascii "Too Many Requests")
  | 431 => some (ascii "Request Header Fields Too Large")
  | 451 => some (ascii "Unavailable For Legal Reasons")
  | 500 => some (ascii "Internal Server Error")
  | 501 => some (ascii "Not Implemented")
  | 502 => some (ascii "Bad Gateway")
  | 503 => some (ascii "Service Unavailable")
  | 504 => some (ascii "Gateway Timeout")
  | 505 => some (ascii "HTTP Version Not Supported")
  | 511 => some (ascii "Network Authentication Required")
  | _ => none

def OK : StatusCode := ⟨200, by decide, by decide⟩
def PARTIAL_CONTENT : StatusCode := ⟨206, by decide, by decide⟩
def NOT_FOUND : StatusCode := ⟨404, by decide, by decide⟩
def NOT_MODIFIED : StatusCode := ⟨304, by decide, by decide⟩
def BAD_REQUEST : StatusCode := ⟨400, by decide, by decide⟩
def REQUEST_TIMEOUT : StatusCode := ⟨408, by decide, by decide⟩
def METHOD_NOT_ALLOWED : StatusCode := ⟨405, by decide, by decide⟩
def PRECONDITION_FAILED : StatusCode := ⟨412, by decide, by decide⟩
def RANGE_NOT_SATISFIABLE : StatusCode := ⟨416, by decide, by decide⟩
def NOT_IMPLEMENTED : StatusCode := ⟨501, by decide, by decide⟩

theorem canonicalReason_clean {status : StatusCode} {reason : Text}
    (h : status.canonicalReason = some reason) :
    CR ∉ reason ∧ LF ∉ reason ∧ trimOws reason = reason := by
  unfold canonicalReason at h
  split at h
  all_goals first
    | (obtain rfl := Option.some.inj h; decide +kernel)
    | cases h

end StatusCode

end GooseHttp
