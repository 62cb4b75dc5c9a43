import GooseHttp.Headers
/-!
# Requests and responses

The message types handlers see.  A response body that is streamed is the list of
items the stream yields before it ends, each a chunk or an I/O error.
-/

namespace GooseHttp

open Lib

/-- `std::io::Error`, of which the server only passes the identity on. -/
structure IoError where
  code : Nat
  deriving DecidableEq, Repr

/-! ## Requests -/

inductive Body
  | empty
  | fixed (length : Nat)
  | chunked
  deriving DecidableEq, Repr

inductive RequestTarget
  | origin (path : Text)
  | absolute (uri : Text)
  | authority (hostPort : Text)
  | asterisk
  deriving DecidableEq, Repr

def RequestTarget.asStr : RequestTarget → Text
  | .origin s => s
  | .absolute s => s
  | .authority s => s
  | .asterisk => ascii "*"

structure Request where
  method : Method
  target : RequestTarget
  version : HttpVersion
  headers : Headers
  body : Body
  payload : Bytes

namespace Request

def new (method : Method) (target : RequestTarget) : Request where
  method := method
  target := target
  version := .http11
  headers := .empty
  body := .empty
  payload := []

def header (r : Request) (name : HeaderName) : Option Text := r.headers.get name

def expect100Continue (r : Request) : Bool :=
  match r.header HeaderKeys.expect with
  | some value =>
      (splitAll 44 value).any fun token => eqIgnoreAsciiCase (trim token) (ascii "100-continue")
  | none => false

def ifNoneMatch (r : Request) : Option Text := (r.header HeaderKeys.ifNoneMatch).map trim

def ifMatch (r : Request) : Option Text := (r.header HeaderKeys.ifMatch).map trim

end Request

/-! ## Responses -/

inductive ResponseBody
  | empty
  | full (bytes : Bytes)
  | stream (items : List (Except IoError Bytes))

structure Response where
  version : HttpVersion
  status : StatusCode
  reason : Option Text
  headers : Headers
  body : ResponseBody
  trailers : Option Headers

namespace Response

def new (status : StatusCode) : Response where
  version := .http11
  status := status
  reason := none
  headers := .empty
  body := .empty
  trailers := none

def reasonPhrase (r : Response) : Text :=
  (r.reason.or r.status.canonicalReason).getD []

def setBodyBytes (r : Response) (bytes : Bytes) : Response := { r with body := .full bytes }

def stripBodyForHead (r : Response) : Response :=
  let headers :=
    match r.body with
    | .full bytes =>
        if r.headers.contains HeaderKeys.contentLength then r.headers
        else r.headers.insert HeaderKeys.contentLength (toDecimal bytes.length)
    | _ => r.headers
  { r with headers := headers, body := .empty }

@[simp] theorem stripBodyForHead_body (r : Response) : r.stripBodyForHead.body = .empty := rfl

@[simp] theorem stripBodyForHead_status (r : Response) :
    r.stripBodyForHead.status = r.status := rfl

theorem stripBodyForHead_headers {r : Response} {bytes : Bytes} (hbody : r.body = .full bytes)
    (hlength : r.headers.contains HeaderKeys.contentLength = false) :
    r.stripBodyForHead.headers =
      r.headers.insert HeaderKeys.contentLength (toDecimal bytes.length) := by
  simp only [stripBodyForHead, hbody, hlength, Bool.false_eq_true, if_false]

theorem values_stripBodyForHead (r : Response) {name : HeaderName}
    (hname : name ≠ HeaderKeys.contentLength) :
    r.stripBodyForHead.headers.values name = r.headers.values name := by
  unfold stripBodyForHead
  dsimp only
  split
  · split
    · rfl
    · rw [Headers.values_insert, if_neg (Ne.symm hname)]
  · rfl

def StreamsCleanly (r : Response) : Prop :=
  ∀ items, r.body = .stream items → ∀ item ∈ items, ∃ bytes, item = .ok bytes

end Response

/-- An application handler, as a function of the request and the state it shares
with earlier calls. -/
abbrev Handler (σ : Type) := Request → σ → Response × σ

def Handler.always (response : Response) : Handler Unit := fun _ s => (response, s)

end GooseHttp
