import GooseHttp.Message
/-!
# Parsing a request head

The head parser of the server: start line, field lines and the decision how the
body is framed.  Every function follows the one of the same name in the source,
checks in the same order and with the same errors.
-/

namespace GooseHttp

open Lib

def HEADER_LIMIT : Nat := 64 * 1024
def LINE_LIMIT : Nat := 8 * 1024

inductive ParseError
  | incomplete
  | requestLineTooLong
  | invalidRequestLine
  | invalidMethod
  | invalidVersion
  | invalidRequestTarget
  | headerTooLarge
  | headerLineTooLong
  | obsoleteLineFolding
  | invalidHeaderName
  | invalidHeaderValue
  | invalidHost
  | multipleHostValues
  | missingHost
  | invalidContentLength
  | conflictingContentLength
  | invalidTransferEncoding
  | conflictingLengthAndTransferEncoding
  | unsupportedTransferEncoding
  | invalidHeaderEncoding
  deriving DecidableEq, Repr

inductive BodyMode
  | none
  | fixed (length : Nat)
  | chunked
  deriving DecidableEq, Repr

/-! ## Finding the end of the head -/

/-- The index just past the first empty line. -/
def findHeadersEnd (buffer : Bytes) : Option Nat :=
  (findWindow CRLFCRLF buffer).map (· + 4)

def findCrlf (buffer : Bytes) : Option Nat := findWindow CRLF buffer

def needsMoreHead (buffer : Bytes) : Bool := (findHeadersEnd buffer).isNone

def incompleteHeadExceedsLimit (buffer : Bytes) : Bool :=
  (findHeadersEnd buffer).isNone && HEADER_LIMIT < buffer.length

/-! ## The start line -/

def isUriScheme (value : Text) : Bool :=
  match value with
  | [] => false
  | first :: bytes =>
      isAlphabetic first && bytes.all fun b => isAlphanumeric b || b = 43 || b = 46 || b = 45

def isPort (s : Text) : Bool :=
  match s with
  | [] => false
  | colon :: port => colon = 58 && port ≠ [] && port.all isDigit

def isAuthorityForm (value : Text) : Bool :=
  if value = [] then false
  else if value.head? = some 91 then
    match splitOnce 93 value with
    | some (_, rest) => isPort rest
    | none => false
  else
    match splitOnce 58 value with
    | some (host, port) => host ≠ [] && port ≠ [] && port.all isDigit
    | none => false

def parseRequestTarget (method : Method) (target : Text) : Except ParseError RequestTarget :=
  if target = ascii "*" then
    if method = .options then .ok .asterisk else .error .invalidRequestTarget
  else if target.head? = some 47 then .ok (.origin target)
  else if method = .connect then
    if isAuthorityForm target then .ok (.authority target) else .error .invalidRequestTarget
  else
    match findWindow (ascii "://") target with
    | some schemeEnd =>
        if isUriScheme (target.take schemeEnd) then .ok (.absolute target)
        else .error .invalidRequestTarget
    | none => .error .invalidRequestTarget

def parseRequestLine (line : Text) : Except ParseError (Method × RequestTarget × HttpVersion) :=
  match splitOnce 32 line with
  | none => .error .invalidRequestLine
  | some (methodStr, rest) =>
      if methodStr = [] then .error .invalidMethod
      else
        match splitOnce 32 rest with
        | none => .error .invalidRequestLine
        | some (targetStr, versionStr) =>
            if targetStr = [] then .error .invalidRequestTarget
            else if versionStr = [] || versionStr.contains 32 then .error .invalidVersion
            else
              match Method.fromToken methodStr with
              | none => .error .invalidMethod
              | some method =>
                  match parseRequestTarget method targetStr with
                  | .error e => .error e
                  | .ok target =>
                      match HttpVersion.fromStr versionStr with
                      | .error _ => .error .invalidVersion
                      | .ok version =>
                          if version = .http10 || version = .http11 then
                            .ok (method, target, version)
                          else .error .invalidVersion

/-! ## Field lines -/

def splitHeaderLine (line : Text) : Except ParseError (Text × Text) :=
  match splitOnce 58 line with
  | some pair => .ok pair
  | none => .error .invalidHeaderName

def isFieldName (name : Text) : Bool := name ≠ [] && name.all isTchar

def containsInvalidHeaderValue (value : Text) : Bool :=
  value.any fun b => b ≤ 8 || (10 ≤ b && b ≤ 31) || b = 127

def isValidHost (value : Text) : Bool :=
  if value = [] || value.contains 32 || value.contains 9 then false
  else if value.head? = some 91 then
    match splitOnce 93 value with
    | none => false
    | some (front, remainder) =>
        let addr := front.drop 1
        if addr = [] || !addr.all (fun c => isHexDigit c || c = 58) then false
        else if remainder = [] then true
        else isPort remainder
  else
    let host := match splitOnce 58 value with | some (host, _) => host | none => value
    if host = [] || !host.all (fun c => isAlphanumeric c || c = 45 || c = 46) then false
    else
      match splitOnce 58 value with
      | some (_, port) => port ≠ [] && port.all isDigit
      | none => true

def parseContentLength (value : Text) : Except ParseError Nat :=
  if value = [] then .error .invalidContentLength
  else
    match parseU64 value with
    | some length => .ok length
    | none => .error .invalidContentLength

/-- The loop over the elements of `parse_transfer_encoding`. -/
def parseCodings : List Text → Except ParseError (List Text)
  | [] => .ok []
  | coding :: rest =>
      let token := trim coding
      if token = [] || !isToken token then .error .invalidTransferEncoding
      else
        match parseCodings rest with
        | .error e => .error e
        | .ok codings => .ok (asciiLowercase token :: codings)

def parseTransferEncoding (value : Text) : Except ParseError (List Text) :=
  match parseCodings (splitAll 44 value) with
  | .error e => .error e
  | .ok codings => if codings = [] then .error .invalidTransferEncoding else .ok codings

def isChunkedCoding (coding : Text) : Bool := eqIgnoreAsciiCase coding (ascii "chunked")

def determineBodyMode (contentLength : Option Nat) (transferEncodings : List Text) :
    Except ParseError BodyMode :=
  if transferEncodings ≠ [] then
    let chunkedPositions :=
      (transferEncodings.zipIdx.filter fun p => isChunkedCoding p.1).map Prod.snd
    if chunkedPositions = [] then .error .unsupportedTransferEncoding
    else if 1 < chunkedPositions.length ∨
        chunkedPositions.getLast? ≠ some (transferEncodings.length - 1) then
      .error .invalidTransferEncoding
    else if contentLength.isSome then .error .conflictingLengthAndTransferEncoding
    else .ok .chunked
  else
    match contentLength with
    | some length => .ok (.fixed length)
    | none => .ok .none

/-! ## The header loop -/

/-- What the header loop accumulates. -/
structure HeadState where
  headers : Headers
  hostValue : Option Text
  hostSeen : Bool
  contentLength : Option Nat
  transferEncodings : List Text

def HeadState.start : HeadState := ⟨.empty, none, false, none, []⟩

/-- The checks every field line passes, giving its name and trimmed value. -/
def checkFieldLine (line : Text) : Except ParseError (HeaderName × Text) :=
  if LINE_LIMIT < line.length then .error .headerLineTooLong
  else if line.head? = some 32 || line.head? = some 9 then .error .obsoleteLineFolding
  else
    match splitHeaderLine line with
    | .error e => .error e
    | .ok (nameStr, valueStr) =>
        if !isFieldName nameStr then .error .invalidHeaderName
        else
          let value := trimOws valueStr
          if LINE_LIMIT < value.length then .error .headerLineTooLong
          else if containsInvalidHeaderValue value then .error .invalidHeaderValue
          else .ok (HeaderName.new nameStr, value)

/-- The fields the framing decision depends on, by the name of the field. -/
def noteField (st : HeadState) (name : HeaderName) (value : Text) :
    Except ParseError HeadState :=
  if name = HeaderKeys.host then
    if st.hostSeen then .error .multipleHostValues
    else if !isValidHost value then .error .invalidHost
    else .ok { st with hostSeen := true, hostValue := some value }
  else if name = HeaderKeys.contentLength then
    match parseContentLength value with
    | .error e => .error e
    | .ok length =>
        match st.contentLength with
        | some existing =>
            if existing ≠ length then .error .conflictingContentLength else .ok st
        | none => .ok { st with contentLength := some length }
  else if name = HeaderKeys.transferEncoding then
    match parseTransferEncoding value with
    | .error e => .error e
    | .ok codings => .ok { st with transferEncodings := st.transferEncodings ++ codings }
  else .ok st

/-- One round of the header loop on a non-empty line. -/
def headerLine (st : HeadState) (line : Text) : Except ParseError HeadState :=
  match checkFieldLine line with
  | .error e => .error e
  | .ok (name, value) =>
      match noteField st name value with
      | .error e => .error e
      | .ok st => .ok { st with headers := st.headers.append name value }

def headerLoop (st : HeadState) : List Text → Except ParseError HeadState
  | [] => .ok st
  | line :: lines =>
      if line = [] then .ok st
      else
        match headerLine st line with
        | .error e => .error e
        | .ok st => headerLoop st lines

def BodyMode.toBody : BodyMode → Body
  | .none => .empty
  | .fixed length => .fixed length
  | .chunked => .chunked

/-- The part of `parse_request_head` behind the size and encoding checks. -/
def parseHeadText (headStr : Text) : Except ParseError (Request × BodyMode) :=
  match splitPair CR LF headStr with
  | [] => .error .invalidRequestLine
  | requestLine :: lines =>
      if LINE_LIMIT < requestLine.length then .error .requestLineTooLong
      else
        match parseRequestLine requestLine with
        | .error e => .error e
        | .ok (method, target, version) =>
            match headerLoop .start lines with
            | .error e => .error e
            | .ok st =>
                if st.hostValue.isNone then .error .missingHost
                else
                  match determineBodyMode st.contentLength st.transferEncodings with
                  | .error e => .error e
                  | .ok mode =>
                      let request : Request :=
                        { Request.new method target with
                          version := version, body := mode.toBody, headers := st.headers }
                      .ok (request, mode)

def parseRequestHead (buffer : Bytes) : Except ParseError (Request × BodyMode × Nat) :=
  match findHeadersEnd buffer with
  | none => .error .incomplete
  | some headEnd =>
      if HEADER_LIMIT < headEnd then .error .headerTooLarge
      else if !utf8Valid (buffer.take headEnd) then .error .invalidHeaderEncoding
      else
        match parseHeadText (buffer.take headEnd) with
        | .error e => .error e
        | .ok (request, mode) => .ok (request, mode, headEnd)

theorem ok_of_mem_toOption {ε α : Type} {x : Except ε α} {a : α} (h : a ∈ x.toOption) :
    x = .ok a := by
  cases x with
  | error e => cases h
  | ok b => rw [show b = a from Option.some.inj h]

/-! ## The parser on a growing buffer -/

theorem findHeadersEnd_append {buffer : Bytes} {n : Nat} (more : Bytes)
    (h : findHeadersEnd buffer = some n) : findHeadersEnd (buffer ++ more) = some n := by
  obtain ⟨i, hi, rfl⟩ := Option.map_eq_some_iff.mp h
  rw [findHeadersEnd, findWindow_append more hi]
  rfl

theorem findHeadersEnd_le {buffer : Bytes} {n : Nat} (h : findHeadersEnd buffer = some n) :
    4 ≤ n ∧ n ≤ buffer.length := by
  obtain ⟨i, hi, rfl⟩ := Option.map_eq_some_iff.mp h
  have hle := findWindow_some_le hi
  simp only [CRLFCRLF, List.length_cons, List.length_nil] at hle
  omega

theorem length_lt_findHeadersEnd {buffer more : Bytes} {n : Nat}
    (hnone : findHeadersEnd buffer = none) (h : findHeadersEnd (buffer ++ more) = some n) :
    buffer.length < n := by
  obtain ⟨i, hi, rfl⟩ := Option.map_eq_some_iff.mp h
  by_contra hle
  have hin : findWindow CRLFCRLF buffer = some i := by
    apply findWindow_of_append hi
    · simp only [CRLFCRLF, List.length_cons, List.length_nil]
      omega
    · simp [CRLFCRLF]
  rw [findHeadersEnd, hin] at hnone
  cases hnone

/-- A complete head is parsed alike whatever follows it. -/
theorem parseRequestHead_append {buffer : Bytes} {n : Nat} (more : Bytes)
    (h : findHeadersEnd buffer = some n) :
    parseRequestHead (buffer ++ more) = parseRequestHead buffer := by
  have htake : (buffer ++ more).take n = buffer.take n :=
    List.take_append_of_le_length (findHeadersEnd_le h).2
  rw [parseRequestHead, parseRequestHead, findHeadersEnd_append more h, h]
  simp only [htake]

theorem parseRequestHead_ok {buffer : Bytes} {request : Request} {mode : BodyMode} {n : Nat}
    (h : parseRequestHead buffer = .ok (request, mode, n)) :
    findHeadersEnd buffer = some n ∧ n ≤ HEADER_LIMIT ∧ utf8Valid (buffer.take n) = true ∧
      parseHeadText (buffer.take n) = .ok (request, mode) := by
  unfold parseRequestHead at h
  split at h
  · cases h
  · rename_i headEnd hend
    split at h
    · cases h
    · split at h
      · cases h
      · rename_i hlimit hutf
        split at h
        · cases h
        · rename_i req m htext
          simp only [Except.ok.injEq, Prod.mk.injEq] at h
          obtain ⟨rfl, rfl, rfl⟩ := h
          exact ⟨hend, by omega, by simpa using hutf, htext⟩

theorem parseRequestHead_of_text {buffer : Bytes} {request : Request} {mode : BodyMode}
    {n : Nat} (hend : findHeadersEnd buffer = some n) (hlimit : n ≤ HEADER_LIMIT)
    (hutf : utf8Valid (buffer.take n) = true)
    (htext : parseHeadText (buffer.take n) = .ok (request, mode)) :
    parseRequestHead buffer = .ok (request, mode, n) := by
  rw [parseRequestHead, hend]
  simp only [hutf, htext, Nat.not_lt.mpr hlimit, if_false, Bool.not_true, Bool.false_eq_true]

end GooseHttp
