import GooseHttp.Harness.InStep
import GooseHttp.Replies
/-!
# Fetching a file in ranges

A client that asks for parts of the file, over one connection and by the `Range` field, gets
just these parts: through the parser of its requests, the answer, the preconditions, the
writer, and its own reading of what comes back.  Consecutive parts put together are the file
(`download`).
-/

namespace GooseHttp

open Lib Client

/-! ## Parts of a file -/

theorem RangeSpec.selection_fromTo {α : Type} (start stop : UInt64) (body : List α) :
    (RangeSpec.fromTo start stop).selection body =
      (body.take (stop.toNat + 1)).drop start.toNat := by
  rw [← filter_zipIdx_interval, selection]
  congr 1
  refine List.filter_congr fun p hp => ?_
  have hlt : p.2 < body.length := (List.mem_zipIdx hp).2.1.trans_eq (Nat.zero_add _)
  rw [decide_eq_decide, mem_positions]
  exact and_iff_right hlt

theorem RangeSpec.selection_eq_nil {α : Type} {spec : RangeSpec} {body : List α}
    (h : spec.positions body.length = ∅) : spec.selection body = [] := by
  simp [selection, h]

/-- Consecutive ranges from `lo` on, each given by how far its last position is from its
first. -/
def consecutive (lo : Nat) : List Nat → List RangeSpec
  | [] => []
  | n :: ns => .fromTo (.ofNat lo) (.ofNat (lo + n)) :: consecutive (lo + n + 1) ns

def covered (ns : List Nat) : Nat := (ns.map (· + 1)).sum

theorem toNat_ofNat_of_lt {n : Nat} (h : n < 2 ^ 64) : (UInt64.ofNat n).toNat = n := by
  rw [UInt64.toNat_ofNat']
  exact Nat.mod_eq_of_lt h

theorem covered_cons (n : Nat) (ns : List Nat) : covered (n :: ns) = n + 1 + covered ns := by
  simp [covered]

theorem consecutive_ordered {lo : Nat} {ns : List Nat} (h : lo + covered ns ≤ 2 ^ 64) :
    ∀ spec ∈ consecutive lo ns, spec.Ordered := by
  induction ns generalizing lo with
  | nil => exact List.forall_mem_nil _
  | cons n ns ih =>
      rw [covered_cons] at h
      refine List.forall_mem_cons.mpr ⟨?_, ih (by omega)⟩
      show UInt64.ofNat lo ≤ UInt64.ofNat (lo + n)
      rw [UInt64.le_iff_toNat_le, toNat_ofNat_of_lt (by omega), toNat_ofNat_of_lt (by omega)]
      omega

theorem flatMap_selection_consecutive {α : Type} {lo : Nat} {ns : List Nat} (body : List α)
    (h : lo + covered ns ≤ 2 ^ 64) :
    (consecutive lo ns).flatMap (fun spec => spec.selection body) =
      (body.drop lo).take (covered ns) := by
  induction ns generalizing lo with
  | nil => rfl
  | cons n ns ih =>
      rw [covered_cons] at h ⊢
      rw [consecutive, List.flatMap_cons, ih (by omega), RangeSpec.selection_fromTo,
        toNat_ofNat_of_lt (by omega), toNat_ofNat_of_lt (by omega), List.drop_take,
        show lo + n + 1 - lo = n + 1 by omega, show lo + n + 1 = lo + (n + 1) by omega,
        ← List.drop_drop, ← List.take_add]

namespace Harness

/-! ## One part -/

structure IsRangeRequest (spec : RangeSpec) (request : Request) : Prop where
  method : request.method = .get
  target : request.target = .origin (ascii "/range/demo")
  persistent : IsPersistent request
  range : request.header HeaderKeys.range = some (rangeHeader [spec])
  unconditional : ∀ name ∈ [HeaderKeys.ifMatch, HeaderKeys.ifUnmodifiedSince,
    HeaderKeys.ifNoneMatch, HeaderKeys.ifModifiedSince], request.headers.contains name = false

/-- A reply holds the part of the file that was asked for, and says so. -/
structure IsPart (files : Fixtures) (spec : RangeSpec) (reply : Reply) : Prop where
  body : reply.body = spec.selection files.rangeBytes
  status : (∃ range, range.Denotes files.rangeLength spec ∧ reply.status = 206 ∧
      (HeaderKeys.contentRange, formatContentRange range files.rangeLength) ∈ reply.fields) ∨
    (spec.positions files.rangeBytes.length = ∅ ∧ reply.status = 416 ∧
      (HeaderKeys.contentRange, formatUnsatisfiedRange files.rangeLength) ∈ reply.fields)

theorem not_replaced_of_unconditional (env : Env) {request : Request} (answer : Response)
    (h : ∀ name ∈ [HeaderKeys.ifMatch, HeaderKeys.ifUnmodifiedSince, HeaderKeys.ifNoneMatch,
      HeaderKeys.ifModifiedSince], request.headers.contains name = false) :
    Replaced env request answer = false := by
  have hnoneMatch : request.ifNoneMatch = none := by
    rw [Request.ifNoneMatch, Request.header, Headers.get_of_contains (h _ (by simp))]
    rfl
  have hothers : ∀ name ∈ [HeaderKeys.ifMatch, HeaderKeys.ifUnmodifiedSince,
      HeaderKeys.ifModifiedSince], request.headers.contains name = false := by
    intro name hname
    exact h name (by simp only [List.mem_cons, List.not_mem_nil, or_false] at hname ⊢; tauto)
  rw [Replaced, preconditionDecision_of_absent env answer hothers, hnoneMatch]
  exact Bool.and_false _

theorem toDecimal_concat (n : Nat) : ∃ front c, toDecimal n = front ++ [c] ∧
    isGraphic c = true := by
  obtain ⟨front, c, hfront⟩ := (List.eq_nil_or_concat (toDecimal n)).resolve_left
    (formatRadix_ne_nil 10 n)
  rw [List.concat_eq_append] at hfront
  have hdecimal : ∀ b ∈ toDecimal n, isGraphic b = true :=
    isGraphic_formatRadix (by decide) (by decide)
  exact ⟨front, c, hfront, hdecimal c (by simp [hfront])⟩

theorem isPlainField_contentRange {value front : Text} {n : Nat}
    (hvalue : value = ascii "bytes " ++ front ++ ascii "/" ++ toDecimal n)
    (hfront : ∀ b ∈ front, isGraphic b = true) : IsPlainField (HeaderKeys.contentRange, value) := by
  have hdecimal : ∀ b ∈ toDecimal n, isGraphic b = true :=
    isGraphic_formatRadix (by decide) (by decide)
  have habsent : ∀ b : UInt8, isGraphic b = false → b ∉ ascii "bytes " → b ∉ value := by
    intro b hb hbytes
    have hslash : b ∉ ascii "/" := by
      intro hmem
      rw [show b = 47 by simpa [ascii] using hmem] at hb
      exact absurd hb (by decide)
    rw [hvalue]
    simp [hbytes, hslash, not_mem_of_graphic hfront hb, not_mem_of_graphic hdecimal hb]
  have hname : isToken HeaderKeys.contentRange.text = true := by decide
  refine ⟨hname, habsent CR (by decide) (by decide), habsent LF (by decide) (by decide), ?_⟩
  obtain ⟨digits, c, hdigits, hc⟩ := toDecimal_concat n
  have hends : value = 98 :: ((ascii "ytes " ++ front ++ ascii "/" ++ digits) ++ [c]) := by
    rw [hvalue, hdigits, show ascii "bytes " = 98 :: ascii "ytes " by decide]
    simp
  show trimOws value = value
  rw [hends, trimOws_of_ends _ (by decide) hc]

theorem isPlainField_formatContentRange (range : SatisfiableRange) (total : UInt64) :
    IsPlainField (HeaderKeys.contentRange, formatContentRange range total) := by
  have hvalue : formatContentRange range total = ascii "bytes " ++
      (toDecimal range.start.toNat ++ ascii "-" ++ toDecimal range.stop.toNat) ++ ascii "/" ++
        toDecimal total.toNat := by
    simp [formatContentRange]
  have hdigits : ∀ n, ∀ b ∈ toDecimal n, isGraphic b = true := fun n =>
    isGraphic_formatRadix (by decide) (by decide)
  refine isPlainField_contentRange hvalue fun b hb => ?_
  simp only [List.mem_append] at hb
  rcases hb with (hb | hb) | hb
  · exact hdigits _ b hb
  · rw [show b = 45 by simpa [ascii] using hb]
    decide
  · exact hdigits _ b hb

theorem isPlainField_formatUnsatisfiedRange (total : UInt64) :
    IsPlainField (HeaderKeys.contentRange, formatUnsatisfiedRange total) := by
  have hbytes : ascii "bytes */" = ascii "bytes " ++ [42] ++ ascii "/" := by decide
  have hvalue : formatUnsatisfiedRange total =
      ascii "bytes " ++ [42] ++ ascii "/" ++ toDecimal total.toNat := by
    rw [formatUnsatisfiedRange, hbytes]
  have hstar : isGraphic 42 = true := by decide
  exact isPlainField_contentRange hvalue (List.forall_mem_singleton.mpr hstar)

theorem contentRange_mem_unsatisfied (files : Fixtures) :
    (HeaderKeys.contentRange, formatUnsatisfiedRange files.rangeLength) ∈
      (unsatisfied files).headers.lines := by
  rw [Headers.mem_lines_iff, unsatisfied, setBody, withField, Headers.values_insert, if_pos rfl]
  exact List.mem_singleton_self _

theorem contentRange_mem_partialFile (files : Fixtures) (range : SatisfiableRange)
    (slice : Bytes) : (HeaderKeys.contentRange, formatContentRange range files.rangeLength) ∈
      (partialFile files range slice).headers.lines := by
  rw [Headers.mem_lines_iff, partialFile, setBody, withField, Headers.values_insert, if_pos rfl]
  exact List.mem_singleton_self _

/-- A request for a part of the file is answered with it. -/
theorem serve_part (service : HarnessService) (env : Env) {spec : RangeSpec} {request : Request}
    (hordered : spec.Ordered) (h : IsRangeRequest spec request) (n s : Nat) :
    ∃ reply, (serve env service.handle n s request).1.Reads reply ∧
      IsPart service.files spec reply := by
  obtain ⟨answer, hserved, hrange⟩ :=
    serveRangeDemo_answer service.files { request with body := .empty }
  have hasked : (({ request with body := .empty } : Request).header HeaderKeys.range).map
      parseRangeHeader = some (.ok [spec]) := by
    have hheader : ({ request with body := .empty } : Request).header HeaderKeys.range =
        some (rangeHeader [spec]) := h.range
    rw [hheader, Option.map_some, parseRangeHeader_rangeHeader (by simp)
      (List.forall_mem_singleton.mpr hordered)]
  rw [hasked] at hrange
  have hanswer : (service.handle { request with body := .empty } s).1 = answer := by
    have hsome := service.handle_eq { request with body := .empty } s
    have hroute : harnessHandler service.files (service.clock s) { request with body := .empty } =
        serveRangeDemo service.files { request with body := .empty } := by
      simp only [harnessHandler, dispatchRequest, handleGet, h.method, h.target]
      rfl
    rw [hroute, hserved] at hsome
    exact (Option.some.inj hsome).symm
  have hresponse : (serve env service.handle n s request).1.response = answer := by
    rw [← prepare_of_not_replaced (not_replaced_of_unconditional env answer h.unconditional),
      ← hanswer]
    rfl
  have hreads := serve_reads env (hanswer ▸ hrange.leaves) h.persistent n
  rw [hresponse, h.method] at hreads
  refine ⟨_, hreads, ?_⟩
  have hdate : HeaderKeys.contentRange ≠ HeaderKeys.date := by decide
  have hconnection : HeaderKeys.contentRange ≠ HeaderKeys.connection := by decide
  cases hrange with
  | whole hother => exact absurd rfl (hother [spec])
  | unsatisfied specs hspecs hnone =>
      cases hspecs
      have hempty := hnone spec (List.mem_singleton_self _)
      refine ⟨?_, Or.inr ⟨hempty, rfl, ?_⟩⟩
      · rw [RangeSpec.selection_eq_nil hempty]
        rfl
      · exact mem_replyTo _ _ (contentRange_mem_unsatisfied _)
          (isPlainField_formatUnsatisfiedRange _) hdate hconnection
  | slice front spec' back range hspecs hfront hdenotes =>
      have hsplit : [spec] = front ++ spec' :: back := Except.ok.inj (Option.some.inj hspecs)
      obtain ⟨rfl, rfl⟩ : front = [] ∧ spec' = spec := by
        cases front with
        | nil => exact ⟨rfl, (List.cons.inj hsplit).1.symm⟩
        | cons _ front => simp at hsplit
      refine ⟨rfl, Or.inl ⟨range, hdenotes, rfl, ?_⟩⟩
      exact mem_replyTo _ _ (contentRange_mem_partialFile _ _ _)
        (isPlainField_formatContentRange _ _) hdate hconnection

/-! ## The whole exchange -/

theorem serveAll_parts (service : HarnessService) (env : Env) {specs : List RangeSpec}
    {requests : List Request} (hordered : ∀ spec ∈ specs, spec.Ordered)
    (h : List.Forall₂ IsRangeRequest specs requests) (n s : Nat) :
    ∃ replies, List.Forall₂ Exchange.Reads (serveAll env service.handle n s requests).1 replies ∧
      List.Forall₂ (IsPart service.files) specs replies := by
  induction h generalizing n s with
  | nil => exact ⟨[], .nil, .nil⟩
  | cons hrequest _ ih =>
      obtain ⟨hspec, hspecs⟩ := List.forall_mem_cons.mp hordered
      obtain ⟨reply, hreads, hpart⟩ := serve_part service env hspec hrequest n s
      obtain ⟨replies, hreplies, hparts⟩ := ih hspecs (n + 1) (serve env service.handle n s _).2
      exact ⟨reply :: replies, serveAll_cons .. ▸ .cons hreads hreplies, .cons hpart hparts⟩

theorem serveAll_keepsOpen (service : HarnessService) (env : Env) {requests : List Request}
    (hrequests : ∀ request ∈ requests, IsPersistent request) (n s : Nat) :
    ∀ x ∈ (serveAll env service.handle n s requests).1, x.KeepsOpen := by
  have hstep : ∀ request ∈ requests, service.handle.KeepsStep env request :=
    fun request hrequest => service.keepsStep env (hrequests request hrequest)
  exact fun x hx => (serveAll_keepsStep hstep n s x hx).1

theorem persistent_of_ranges {specs : List RangeSpec} {requests : List Request}
    (h : List.Forall₂ IsRangeRequest specs requests) :
    ∀ request ∈ requests, IsPersistent request := by
  intro request hrequest
  obtain ⟨i, hi, rfl⟩ := List.getElem_of_mem hrequest
  exact (h.get (h.length_eq ▸ hi) hi).persistent

/-- A client that asks for parts of the file on one connection reads one reply for each, in
order and with nothing left over: the part, with the status and the field that say which one
it is, or that there is no such part. -/
theorem fetch_parts (service : HarnessService) (env : Env) (s : Nat) {input : Input}
    {specs : List RangeSpec} {requests : List Request} (hclean : input.Clean)
    (hinput : Pipelined input.all requests) (hordered : ∀ spec ∈ specs, spec.Ordered)
    (h : List.Forall₂ IsRangeRequest specs requests) :
    ∃ replies, lenient.readFinals (requests.map Request.method)
        (Connection.run env service.handle input s).progress.written = .ok (replies, []) ∧
      List.Forall₂ (IsPart service.files) specs replies := by
  obtain ⟨replies, hreads, hparts⟩ := serveAll_parts service env hordered h 0 s
  have hopen := serveAll_keepsOpen service env (persistent_of_ranges h) 0 s
  exact ⟨replies, readFinals_run env service.handle s hclean hinput hopen hreads, hparts⟩

theorem flatMap_body {files : Fixtures} {specs : List RangeSpec} {replies : List Reply}
    (h : List.Forall₂ (IsPart files) specs replies) :
    replies.flatMap Reply.body = specs.flatMap fun spec => spec.selection files.rangeBytes := by
  induction h with
  | nil => rfl
  | cons hpart _ ih => rw [List.flatMap_cons, List.flatMap_cons, hpart.body, ih]

/-- The bodies of the replies to requests for consecutive ranges, put together, are the file
from the first position on, as far as the ranges cover it; so a client gets the file, if they
reach its end, without knowing its length. -/
theorem download (service : HarnessService) (env : Env) (s : Nat) {input : Input} {lo : Nat}
    {ns : List Nat} {requests : List Request} (hclean : input.Clean)
    (hinput : Pipelined input.all requests) (hbound : lo + covered ns ≤ 2 ^ 64)
    (h : List.Forall₂ IsRangeRequest (consecutive lo ns) requests) :
    ∃ replies, lenient.readFinals (requests.map Request.method)
        (Connection.run env service.handle input s).progress.written = .ok (replies, []) ∧
      replies.flatMap Reply.body = (service.files.rangeBytes.drop lo).take (covered ns) := by
  obtain ⟨replies, hreads, hparts⟩ :=
    serveAll_parts service env (consecutive_ordered hbound) h 0 s
  have hopen := serveAll_keepsOpen service env (persistent_of_ranges h) 0 s
  refine ⟨replies, readFinals_run env service.handle s hclean hinput hopen hreads, ?_⟩
  rw [flatMap_body hparts, flatMap_selection_consecutive _ hbound]

def wireFront : WireRequest :=
  { wireGet with
    targetText := ascii "/range/demo"
    fields := [(ascii "Host", ascii "a"), (ascii "Range", ascii "bytes=0-3")]
    target := .origin (ascii "/range/demo")
    targetText_ok := ⟨by decide, by decide +kernel, by decide⟩
    target_ok := by decide +kernel
    fields_ok := by
      intro f hf
      simp only [List.mem_cons, List.not_mem_nil, or_false] at hf
      rcases hf with rfl | rfl <;> exact ⟨by decide, by decide, by decide⟩
    host_ok := ⟨ascii "a", by decide, by decide⟩
    announced := ⟨by decide, by decide⟩
    line_short := by decide
    head_short := by decide }

def wireBack : WireRequest :=
  { wireFront with
    fields := [(ascii "Host", ascii "a"), (ascii "Range", ascii "bytes=4-11")]
    fields_ok := by
      intro f hf
      simp only [List.mem_cons, List.not_mem_nil, or_false] at hf
      rcases hf with rfl | rfl <;> exact ⟨by decide, by decide, by decide⟩
    host_ok := ⟨ascii "a", by decide, by decide⟩
    announced := ⟨by decide, by decide⟩
    head_short := by decide }

theorem wireFront_isRangeRequest : IsRangeRequest (.fromTo 0 3) wireFront.request where
  method := rfl
  target := rfl
  persistent := by unfold IsPersistent; decide +kernel
  range := by decide +kernel
  unconditional := by decide +kernel

theorem wireBack_isRangeRequest : IsRangeRequest (.fromTo 4 11) wireBack.request where
  method := rfl
  target := rfl
  persistent := by unfold IsPersistent; decide +kernel
  range := by decide +kernel
  unconditional := by decide +kernel

theorem pipelined_frontBack :
    Pipelined (Input.all ⟨wireFront.bytes ++ wireBack.bytes, []⟩)
      [wireFront.request, wireBack.request] := by
  have hbytes := pipelined_bytes [wireFront, wireBack]
  rw [List.flatMap_cons, List.flatMap_singleton] at hbytes
  rwa [Input.all_of_incoming_nil rfl]

/-- The second range goes on behind the end of the file. -/
theorem fetch_parts_two :
    ∃ replies, lenient.readFinals [.get, .get] (Connection.run .atEpoch tenBytes.handle
        ⟨wireFront.bytes ++ wireBack.bytes, []⟩ 0).progress.written = .ok (replies, []) ∧
      List.Forall₂ (IsPart tenBytes.files) [.fromTo 0 3, .fromTo 4 11] replies := by
  have hordered : ∀ spec ∈ [RangeSpec.fromTo 0 3, .fromTo 4 11], spec.Ordered :=
    consecutive_ordered (show 0 + covered [3, 7] ≤ 2 ^ 64 by decide)
  have hparts := fetch_parts tenBytes .atEpoch 0 (by decide) pipelined_frontBack hordered
    (.cons wireFront_isRangeRequest (.cons wireBack_isRangeRequest .nil))
  exact hparts

theorem download_two :
    ∃ replies, lenient.readFinals [.get, .get] (Connection.run .atEpoch tenBytes.handle
        ⟨wireFront.bytes ++ wireBack.bytes, []⟩ 0).progress.written = .ok (replies, []) ∧
      replies.flatMap Reply.body = ascii "0123456789" := by
  have hrequests : List.Forall₂ IsRangeRequest (consecutive 0 [3, 7])
      [wireFront.request, wireBack.request] :=
    .cons wireFront_isRangeRequest (.cons wireBack_isRangeRequest .nil)
  have hwhole : (tenBytes.files.rangeBytes.drop 0).take (covered [3, 7]) =
      ascii "0123456789" := by decide
  have hdownload := download tenBytes .atEpoch 0 (by decide) pipelined_frontBack (by decide)
    hrequests
  rw [hwhole] at hdownload
  exact hdownload

end Harness

end GooseHttp
