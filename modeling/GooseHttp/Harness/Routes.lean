import GooseHttp.Cache
import GooseHttp.Message
import GooseHttp.Range
/-!
# The compliance harness

The service that the compliance harness puts on the server: a few fixed resources, an echo,
a resource with validators, and one that can be fetched in ranges.  Where the source would
panic on a slice, the functions here give `none`; `harnessHandler_isSome` says that no
request gets there, and `HarnessService.handle` is total by it.
-/

namespace GooseHttp

open Lib

namespace Harness

/-! ## Constants -/

def HARNESS_ETAG : Text := ascii "\"compliance-validator\""
def HARNESS_IMMUTABLE_ETAG : Text := ascii "\"compliance-immutable\""
def LAST_MODIFIED_STAMP : Text := ascii "Wed, 21 Oct 2015 07:28:00 GMT"

def STATIC_ASSET : Bytes := ascii "Static asset served by Goose HTTP compliance harness.\n"
def CACHE_BODY : Bytes := ascii "Cache validation payload from Goose HTTP.\n"
def IMMUTABLE_BODY : Bytes := ascii "Immutable cache resource from Goose HTTP.\n"

structure Fixtures where
  /-- `INDEX_HTML` -/
  indexHtml : Bytes
  /-- `RANGE_BYTES`; a slice is at most `isize::MAX` bytes long. -/
  rangeBytes : Bytes
  rangeBytes_length : rangeBytes.length < 2 ^ 63

/-- `RANGE_BYTES.len() as u64` -/
def Fixtures.rangeLength (files : Fixtures) : UInt64 := UInt64.ofNat files.rangeBytes.length

theorem Fixtures.toNat_rangeLength (files : Fixtures) :
    files.rangeLength.toNat = files.rangeBytes.length := by
  have hlength := files.rangeBytes_length
  rw [rangeLength, UInt64.toNat_ofNat']
  exact Nat.mod_eq_of_lt (by omega)

/-! ## Building responses -/

/-- `response.headers_mut().insert(name, value)` -/
def withField (r : Response) (name : HeaderName) (value : Text) : Response :=
  { r with headers := r.headers.insert name value }

/-- `cache::ensure_age_header(response.headers_mut())` -/
def withAge (r : Response) : Response := { r with headers := ensureAgeHeader r.headers }

def setBody (r : Response) (body : ResponseBody) : Response := { r with body := body }

def statusNoContent : StatusCode := (StatusCode.fromU16 204).get rfl

def statusNotFound : StatusCode := (StatusCode.fromU16 404).get rfl

def fresh (contentType cacheControl : Text) (body : Bytes) : Response :=
  (withAge (withField (withField (.new .OK) HeaderKeys.contentType contentType)
    HeaderKeys.cacheControl cacheControl)).setBodyBytes body

def allowing (status : StatusCode) : Response :=
  setBody (withAge (withField (withField (.new status) HeaderKeys.allow
    (ascii "GET, HEAD, OPTIONS")) HeaderKeys.cacheControl (ascii "no-store"))) .empty

def methodNotAllowed : Response := allowing .METHOD_NOT_ALLOWED

def notImplementedResponse : Response :=
  setBody (withAge (withField (.new .NOT_IMPLEMENTED) HeaderKeys.cacheControl
    (ascii "no-store"))) .empty

/-! ## Resources -/

def serveIndex (files : Fixtures) (_request : Request) : Response :=
  fresh (ascii "text/html; charset=utf-8") (ascii "no-store") files.indexHtml

def serveHealth (_request : Request) : Response := .new statusNoContent

def serveStaticAsset (_request : Request) : Response :=
  fresh (ascii "text/plain; charset=utf-8") (ascii "max-age=120") STATIC_ASSET

/-- `{:09}` -/
def nineDigits (n : Nat) : Text := (toDecimal n).leftpad 9 48

/-- `now` is the time since the epoch in seconds and nanoseconds. -/
def serveTimeJson (now : Nat × Nat) (_request : Request) : Response :=
  fresh (ascii "application/json; charset=utf-8") (ascii "no-store")
    (ascii "\x7b\"epoch_seconds\": " ++ toDecimal now.1 ++ ascii "." ++ nineDigits now.2 ++
      ascii "\x7d")

def servePostEcho (request : Request) : Response :=
  fresh (ascii "application/octet-stream") (ascii "no-store") request.payload

def matchesIfNoneMatch (request : Request) (etag : Text) : Bool :=
  match request.ifNoneMatch with
  | some raw =>
      ((splitAll 44 raw).map trim).any fun candidate => candidate = ascii "*" || candidate = etag
  | none => false

def serveCacheValidator (request : Request) : Response :=
  let response := withField (withField (withField (withField (.new .OK)
    HeaderKeys.contentType (ascii "text/plain; charset=utf-8"))
    HeaderKeys.cacheControl (ascii "max-age=60, must-revalidate"))
    HeaderKeys.etag HARNESS_ETAG)
    HeaderKeys.lastModified LAST_MODIFIED_STAMP
  if matchesIfNoneMatch request HARNESS_ETAG then
    withAge (withField (withField (withField (.new .NOT_MODIFIED)
      HeaderKeys.etag HARNESS_ETAG)
      HeaderKeys.lastModified LAST_MODIFIED_STAMP)
      HeaderKeys.cacheControl (ascii "max-age=60, must-revalidate"))
  else (withAge response).setBodyBytes CACHE_BODY

def serveCacheImmutable (_request : Request) : Response :=
  (withAge (withField (withField (withField (.new .OK)
    HeaderKeys.contentType (ascii "text/plain; charset=utf-8"))
    HeaderKeys.cacheControl (ascii "max-age=31536000, immutable"))
    HeaderKeys.etag HARNESS_IMMUTABLE_ETAG)).setBodyBytes IMMUTABLE_BODY

inductive Language
  | fr
  | es
  | en
  deriving DecidableEq, Repr

def parseLanguageTag (header : Text) : Option Language :=
  let tags := (splitAll 44 header).map fun entry =>
    trim (((splitOnce 59 entry).map Prod.fst).getD entry)
  (tags.find? fun tag => tag ≠ []).map fun tag =>
    if tag = ascii "fr" ∨ tag = ascii "fr-FR" then .fr
    else if tag = ascii "es" ∨ tag = ascii "es-ES" ∨ tag = ascii "es-MX" then .es
    else .en

def greeting : Language → Bytes
  | .fr => ascii "Bonjour du harnais de conformit" ++ [0xC3, 0xA9] ++ ascii " Goose HTTP.\n"
  | .es => ascii "Saludos desde el arn" ++ [0xC3, 0xA9] ++ ascii "s de conformidad de Goose HTTP.\n"
  | .en => ascii "Hello from the Goose HTTP compliance harness.\n"

def serveVaryAcceptLanguage (request : Request) : Response :=
  let response := withField (withField (withField (.new .OK)
    HeaderKeys.contentType (ascii "text/plain; charset=utf-8"))
    HeaderKeys.cacheControl (ascii "max-age=30"))
    HeaderKeys.vary (ascii "Accept-Language")
  let preference := ((request.header HeaderKeys.acceptLanguage).bind parseLanguageTag).getD .en
  (withAge response).setBodyBytes (greeting preference)

def applyRangeDemoHeaders (response : Response) : Response :=
  withAge (withField (withField (withField (withField (withField response
    HeaderKeys.contentType (ascii "text/plain; charset=utf-8"))
    HeaderKeys.acceptRanges (ascii "bytes"))
    HeaderKeys.etag HARNESS_IMMUTABLE_ETAG)
    HeaderKeys.lastModified LAST_MODIFIED_STAMP)
    HeaderKeys.cacheControl (ascii "max-age=120, must-revalidate"))

def wholeFile (files : Fixtures) : Response :=
  (applyRangeDemoHeaders (.new .OK)).setBodyBytes files.rangeBytes

def unsatisfied (files : Fixtures) : Response :=
  setBody (withField (applyRangeDemoHeaders (.new .RANGE_NOT_SATISFIABLE))
    HeaderKeys.contentRange (formatUnsatisfiedRange files.rangeLength)) .empty

def partialFile (files : Fixtures) (range : SatisfiableRange) (slice : Bytes) : Response :=
  setBody (withField (applyRangeDemoHeaders (.new .PARTIAL_CONTENT))
    HeaderKeys.contentRange (formatContentRange range files.rangeLength)) (.full slice)

def serveRangeDemo (files : Fixtures) (request : Request) : Option Response :=
  match (request.header HeaderKeys.range).map parseRangeHeader with
  | some (.ok specs) =>
      match computeSatisfiableRanges specs files.rangeLength with
      | none => none
      | some [] => some (unsatisfied files)
      | some (range :: _) =>
          (sliceInclusive files.rangeBytes range.start.toNat range.stop.toNat).map
            (partialFile files range)
  | _ => some (wholeFile files)

def serveOptions (_request : Request) : Response := allowing statusNoContent

/-! ## Routing -/

def normalizeHeadResponse (response : Response) : Response :=
  let bodyLen :=
    match response.body with
    | .full bytes => some bytes.length
    | _ => none
  let headers :=
    match bodyLen with
    | some len =>
        if response.headers.contains HeaderKeys.contentLength then response.headers
        else response.headers.insert HeaderKeys.contentLength (toDecimal len)
    | none => response.headers
  { response with headers := headers, body := .empty }

section
variable (files : Fixtures) (now : Nat × Nat)

def handleGetRoute (path : Text) (request : Request) : Option Response :=
  if path = ascii "/" then some (serveIndex files request)
  else if path = ascii "/__health" then some (serveHealth request)
  else if path = ascii "/static/hello.txt" then some (serveStaticAsset request)
  else if path = ascii "/json/time" then some (serveTimeJson now request)
  else if path = ascii "/cache/validator" then some (serveCacheValidator request)
  else if path = ascii "/cache/immutable" then some (serveCacheImmutable request)
  else if path = ascii "/vary/accept-language" then some (serveVaryAcceptLanguage request)
  else if path = ascii "/range/demo" then serveRangeDemo files request
  else some (.new statusNotFound)

def handleGet (target : RequestTarget) (request : Request) : Option Response :=
  match target with
  | .origin path => handleGetRoute files now path request
  | .asterisk => some (.new .BAD_REQUEST)
  | .absolute _ | .authority _ => some (.new statusNotFound)

def handleHead (target : RequestTarget) (request : Request) : Option Response :=
  match target with
  | .origin path => (handleGetRoute files now path request).map normalizeHeadResponse
  | .asterisk => some (normalizeHeadResponse methodNotAllowed)
  | .absolute _ | .authority _ => some (.new statusNotFound)

def handlePost (target : RequestTarget) (request : Request) : Response :=
  match target with
  | .origin path => if path = ascii "/" then servePostEcho request else .new statusNotFound
  | .asterisk => .new .BAD_REQUEST
  | .absolute _ | .authority _ => .new statusNotFound

def dispatchRequest (method : Method) (target : RequestTarget) (request : Request) :
    Option Response :=
  match method with
  | .get => handleGet files now target request
  | .head => handleHead files now target request
  | .post => some (handlePost target request)
  | .options => some (serveOptions request)
  | .extension _ => some notImplementedResponse
  | .put | .delete | .connect | .trace | .patch => some methodNotAllowed

def harnessHandler (request : Request) : Option Response :=
  dispatchRequest files now request.method request.target request

end

/-! ## No request makes the harness panic -/

theorem ordered_of_parseRangePart {part : Text} {spec : RangeSpec}
    (h : parseRangePart part = .ok spec) : spec.Ordered := by
  rw [parseRangePart] at h
  split at h
  · split at h <;> cases h
    trivial
  · split at h
    · cases h
    · split at h
      · cases h
        trivial
      · split at h
        · cases h
          trivial
        · split at h
          · cases h
          · split at h <;> cases h
            rename_i hstop
            exact UInt64.not_lt.mp hstop

theorem ordered_of_parseRangeParts {parts : List Text} {specs : List RangeSpec}
    (h : parseRangeParts parts = .ok specs) : ∀ spec ∈ specs, spec.Ordered := by
  induction parts generalizing specs with
  | nil =>
      cases h
      exact List.forall_mem_nil _
  | cons part parts ih =>
      rw [parseRangeParts] at h
      split at h
      · exact ih h
      · split at h
        · cases h
        · rename_i spec hpart
          split at h <;> cases h
          rename_i specs hparts
          exact List.forall_mem_cons.mpr ⟨ordered_of_parseRangePart hpart, ih hparts⟩

theorem ordered_of_parseRangeHeader {value : Text} {specs : List RangeSpec}
    (h : parseRangeHeader value = .ok specs) : ∀ spec ∈ specs, spec.Ordered := by
  rw [parseRangeHeader] at h
  split at h
  · cases h
  · split at h
    · cases h
    · split at h
      · cases h
      · rename_i specs' hparts
        split at h <;> cases h
        exact ordered_of_parseRangeParts hparts

inductive RangeAnswer (files : Fixtures) (asked : Option (Except RangeParseError (List RangeSpec))) :
    Response → Prop
  | whole (hasked : ∀ specs, asked ≠ some (.ok specs)) : RangeAnswer files asked (wholeFile files)
  | unsatisfied (specs : List RangeSpec) (hasked : asked = some (.ok specs))
      (hnone : ∀ spec ∈ specs, spec.positions files.rangeBytes.length = ∅) :
      RangeAnswer files asked (unsatisfied files)
  | slice (front : List RangeSpec) (spec : RangeSpec) (back : List RangeSpec)
      (range : SatisfiableRange) (hasked : asked = some (.ok (front ++ spec :: back)))
      (hfront : ∀ spec ∈ front, spec.positions files.rangeBytes.length = ∅)
      (hrange : range.Denotes files.rangeLength spec) :
      RangeAnswer files asked (partialFile files range (spec.selection files.rangeBytes))

theorem exists_of_filter_eq_cons {α : Type} {p : α → Prop} [DecidablePred p] {as : List α} {a : α}
    {rest : List α} (h : as.filter (fun a => p a) = a :: rest) :
    ∃ front back, as = front ++ a :: back ∧ (∀ a ∈ front, ¬ p a) ∧ p a := by
  obtain ⟨front, back, happ, hfront, ha, -⟩ := List.filter_eq_cons_iff.mp h
  exact ⟨front, back, happ, fun a ha => by simpa using hfront a ha, by simpa using ha⟩

/-- The range demo always has an answer: neither the arithmetic on lengths nor the slice of
the file fails, whatever was asked for. -/
theorem serveRangeDemo_answer (files : Fixtures) (request : Request) :
    ∃ r, serveRangeDemo files request = some r ∧
      RangeAnswer files ((request.header HeaderKeys.range).map parseRangeHeader) r := by
  rw [serveRangeDemo]
  generalize hasked : (request.header HeaderKeys.range).map parseRangeHeader = asked
  match asked with
  | none => exact ⟨_, rfl, .whole fun specs h => by cases h⟩
  | some (.error e) => exact ⟨_, rfl, .whole fun specs h => by cases h⟩
  | some (.ok specs) =>
      obtain ⟨value, -, hvalue⟩ := Option.map_eq_some_iff.mp hasked
      obtain ⟨ranges, hranges, hdenotes⟩ :=
        computeSatisfiableRanges_eq files.rangeLength (ordered_of_parseRangeHeader hvalue)
      rw [files.toNat_rangeLength] at hdenotes
      dsimp only
      rw [hranges]
      cases ranges with
      | nil =>
          refine ⟨_, rfl, .unsatisfied specs rfl fun spec hspec => ?_⟩
          have hempty := List.forall₂_nil_right_iff.mp hdenotes
          rw [List.filter_eq_nil_iff] at hempty
          simpa [Finset.not_nonempty_iff_eq_empty] using hempty spec hspec
      | cons range ranges =>
          obtain ⟨spec, rest, hrange, -, hfilter⟩ := List.forall₂_cons_right_iff.mp hdenotes
          obtain ⟨front, back, happ, hfront, -⟩ := exists_of_filter_eq_cons hfilter
          have hslice := hrange.slice_eq files.toNat_rangeLength.symm
          dsimp only
          rw [hslice]
          refine ⟨_, rfl, .slice front spec back range (happ ▸ rfl) (fun spec hspec => ?_) hrange⟩
          exact Finset.not_nonempty_iff_eq_empty.mp (hfront spec hspec)

section
variable (files : Fixtures) (now : Nat × Nat)

theorem handleGetRoute_isSome (path : Text) (request : Request) :
    (handleGetRoute files now path request).isSome := by
  obtain ⟨r, hr, -⟩ := serveRangeDemo_answer files request
  simp only [handleGetRoute, hr]
  split_ifs <;> rfl

/-- No request makes the harness panic. -/
theorem harnessHandler_isSome (request : Request) : (harnessHandler files now request).isSome := by
  have hroute := handleGetRoute_isSome files now
  unfold harnessHandler dispatchRequest
  cases request.method with
  | get =>
      dsimp only
      cases request.target <;> first | exact hroute _ _ | rfl
  | head =>
      dsimp only
      cases request.target <;> first | exact (Option.isSome_map ..).trans (hroute _ _) | rfl
  | post | put | delete | connect | options | trace | patch | extension => rfl

end

/-- The harness with its files and the readings of the clock, one for each request. -/
structure HarnessService where
  files : Fixtures
  clock : Nat → Nat × Nat

def HarnessService.handle (service : HarnessService) : Handler Nat := fun request n =>
  ((harnessHandler service.files (service.clock n) request).get
    (harnessHandler_isSome service.files (service.clock n) request), n + 1)

end Harness

end GooseHttp
