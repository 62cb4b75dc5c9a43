import GooseHttp.Parse.Reading
/-!
# The fixed-length reader takes exactly its bytes

A fixed-length body is read from the buffer first and then from the socket, in pieces as
short as the reads bring them.  Whatever the cuts, the pieces are the announced number of
bytes from the front of the stream and the rest stays where it is; a stream that ends too
early is handed out as far as it goes.
-/

namespace GooseHttp

open Lib

/-! ## The bytes in front of the first fault -/

/-- The bytes a socket delivers until a read brings none. -/
def deliveredFirst : List ReadEvent → Bytes
  | [] => []
  | .data first rest :: events => first :: rest ++ deliveredFirst events
  | .error _ :: _ => []
  | .timeout :: _ => []

def firstFault : List ReadEvent → ReadFault
  | [] => .eof
  | .data _ _ :: events => firstFault events
  | .error e :: _ => .error e
  | .timeout :: _ => .timeout

theorem deliveredFirst_of_data {events : List ReadEvent} (h : ∀ e ∈ events, e.isData = true) :
    deliveredFirst events = delivered events ∧ firstFault events = .eof := by
  induction events with
  | nil => exact ⟨rfl, rfl⟩
  | cons e events ih =>
      obtain ⟨he, hrest⟩ := List.forall_mem_cons.mp h
      obtain ⟨hbytes, hfault⟩ := ih hrest
      cases e with
      | data first rest =>
          refine ⟨?_, hfault⟩
          rw [deliveredFirst, hbytes, delivered_cons]
          rfl
      | error e => cases he
      | timeout => cases he

namespace Input

def ready (i : Input) : Bytes := i.buffer ++ deliveredFirst i.incoming

def fault (i : Input) : ReadFault := firstFault i.incoming

theorem ready_of_clean {i : Input} (h : i.Clean) : i.ready = i.all ∧ i.fault = .eof := by
  obtain ⟨hbytes, hfault⟩ := deliveredFirst_of_data h
  refine ⟨?_, hfault⟩
  rw [ready, hbytes, all]

structure Takes (i : Input) (bytes : Bytes) (i' : Input) : Prop where
  all : i.all = bytes ++ i'.all
  ready : i.ready = bytes ++ i'.ready
  fault : i'.fault = i.fault

theorem takes_buffered (i : Input) (n : Nat) : i.Takes (i.buffer.take n) (i.advance n) where
  all := by
    rw [Input.all, Input.all, buffer_advance, incoming_advance, ← List.append_assoc,
      List.take_append_drop]
  ready := by
    rw [Input.ready, Input.ready, buffer_advance, incoming_advance, ← List.append_assoc,
      List.take_append_drop]
  fault := rfl

theorem ready_readInto {i i' : Input} {bound : Nat} {bytes : Bytes} (hempty : i.buffer = [])
    (h : i.readInto bound = (.ok bytes, i')) : i.ready = bytes ++ i'.ready ∧ i'.fault = i.fault := by
  unfold readInto at h
  split at h
  · cases h
  · rename_i first rest events hin
    split at h
    · cases h
      rw [ready, ready, fault, fault, hempty, hin]
      exact ⟨rfl, rfl⟩
    · rename_i b bs hdrop
      cases h
      have hsplit := List.take_append_drop bound (first :: rest)
      rw [hdrop] at hsplit
      rw [ready, ready, fault, fault, hempty, hin, List.nil_append, List.nil_append,
        deliveredFirst, deliveredFirst, ← List.append_assoc, hsplit]
      exact ⟨rfl, rfl⟩
  · cases h
  · cases h

theorem takes_readInto {i i' : Input} {bound : Nat} {bytes : Bytes} (hempty : i.buffer = [])
    (hbound : 0 < bound) (h : i.readInto bound = (.ok bytes, i')) : i.Takes bytes i' where
  all := (readInto_ok hempty hbound h).all
  ready := (ready_readInto hempty h).1
  fault := (ready_readInto hempty h).2

theorem readInto_fault {i i' : Input} {bound : Nat} {fault : ReadFault} (hempty : i.buffer = [])
    (h : i.readInto bound = (.error fault, i')) : i.ready = [] ∧ fault = i.fault := by
  unfold readInto at h
  split at h
  · rename_i hin
    cases h
    rw [ready, Input.fault, hempty, hin]
    exact ⟨rfl, rfl⟩
  · split at h <;> cases h
  · rename_i e events hin
    cases h
    rw [ready, Input.fault, hempty, hin]
    exact ⟨rfl, rfl⟩
  · rename_i events hin
    cases h
    rw [ready, Input.fault, hempty, hin]
    exact ⟨rfl, rfl⟩

end Input

/-! ## One call -/

namespace FixedBodyReader

/-- A call hands out the next bytes, no more than are left, or fails where there are none. -/
inductive Step (r : FixedBodyReader) : Except Interrupt (Option Bytes) × FixedBodyReader → Prop
  | finished (hzero : r.remaining = 0) : Step r (.ok none, r)
  | piece (bytes : Bytes) (next : FixedBodyReader) (htakes : r.input.Takes bytes next.input)
      (hremaining : next.remaining + bytes.length = r.remaining) :
      Step r (.ok (some bytes), next)
  | fault (next : FixedBodyReader) (hleft : r.remaining ≠ 0) (hready : r.input.ready = [])
      (hremaining : next.remaining = r.remaining) :
      Step r (.error r.input.fault.interrupt, next)

theorem readNext_step (r : FixedBodyReader) : r.Step r.readNext := by
  unfold readNext
  split
  · rename_i hzero
    exact .finished hzero
  · rename_i hleft
    split
    · apply Step.piece _ _ (r.input.takes_buffered _)
      rw [List.length_take]
      dsimp only
      omega
    · rename_i hbuffer
      have hempty : r.input.buffer = [] := by simpa using hbuffer
      split
      · rename_i fault input hread
        obtain ⟨hready, rfl⟩ := Input.readInto_fault hempty hread
        exact .fault _ hleft hready rfl
      · rename_i bytes input hread
        have hbound : 0 < min r.remaining (8 * 1024) := by omega
        have hle := (Input.readInto_ok hempty hbound hread).length_le
        apply Step.piece _ _ (Input.takes_readInto hempty hbound hread)
        dsimp only
        omega

/-! ## A whole reading -/

/-- What reading to the end comes to: all the bytes that are due, or all there are. -/
inductive Outcome (r : FixedBodyReader) (pieces : List Bytes) :
    Except Interrupt Unit → BodyReader → Prop
  | complete (input : Input) (hready : r.remaining ≤ r.input.ready.length)
      (hlength : pieces.flatten.length = r.remaining)
      (hall : r.input.all = pieces.flatten ++ input.all) :
      Outcome r pieces (.ok ()) (.fixed ⟨input, 0⟩)
  | short (reader : BodyReader) (hready : r.input.ready.length < r.remaining)
      (hpieces : pieces.flatten = r.input.ready) :
      Outcome r pieces (.error r.input.fault.interrupt) reader

theorem Outcome.cons {r next : FixedBodyReader} {bytes : Bytes} {pieces : List Bytes}
    {last : Except Interrupt Unit} {reader : BodyReader}
    (htakes : r.input.Takes bytes next.input)
    (hremaining : next.remaining + bytes.length = r.remaining)
    (h : next.Outcome pieces last reader) : r.Outcome (bytes :: pieces) last reader := by
  have hready := congrArg List.length htakes.ready
  rw [List.length_append] at hready
  cases h with
  | complete input hle hlength hall =>
      refine .complete input (by omega) ?_ ?_
      · rw [List.flatten_cons, List.length_append]
        omega
      · rw [htakes.all, hall, List.flatten_cons, List.append_assoc]
  | short reader hlt hpieces =>
      rw [htakes.fault]
      refine .short reader (by omega) ?_
      rw [List.flatten_cons, hpieces, htakes.ready]

theorem step_of_readNext {r : FixedBodyReader} {reader : BodyReader}
    {res : Except Interrupt (Option Bytes)} (h : (BodyReader.fixed r).readNext = (res, reader)) :
    ∃ next, reader = .fixed next ∧ r.Step (res, next) := by
  cases h
  exact ⟨r.readNext.2, rfl, r.readNext_step⟩

theorem outcome_of_reads {start reader : BodyReader} {pieces : List Bytes}
    {last : Except Interrupt Unit} (h : start.Reads pieces last reader) :
    ∀ r : FixedBodyReader, start = .fixed r → r.Outcome pieces last reader := by
  induction h with
  | finished hnext =>
      rintro r rfl
      obtain ⟨next, rfl, hstep⟩ := step_of_readNext hnext
      cases hstep with
      | finished hzero =>
          obtain ⟨input, remaining⟩ := r
          obtain rfl : remaining = 0 := hzero
          exact .complete input (Nat.zero_le _) rfl rfl
  | error hnext =>
      rintro r rfl
      obtain ⟨next, rfl, hstep⟩ := step_of_readNext hnext
      cases hstep with
      | fault _ hleft hready hremaining =>
          refine .short _ ?_ hready.symm
          rw [hready, List.length_nil]
          omega
  | piece hnext _ ih =>
      rintro r rfl
      obtain ⟨next, rfl, hstep⟩ := step_of_readNext hnext
      cases hstep with
      | piece _ _ htakes hremaining => exact (ih next rfl).cons htakes hremaining

end FixedBodyReader

def handedOut : Except Interrupt (Option Bytes) → Bytes
  | .ok (some piece) => piece
  | .ok none => []
  | .error _ => []

theorem FixedBodyReader.remaining_readNext (r : FixedBodyReader) :
    r.readNext.2.remaining + (handedOut r.readNext.1).length = r.remaining := by
  have hstep := r.readNext_step
  generalize r.readNext = res at hstep
  cases hstep with
  | finished hzero => rfl
  | piece bytes next htakes hremaining => exact hremaining
  | fault next hleft hready hremaining => exact hremaining

theorem BodyReader.after_fixed (r : FixedBodyReader) (k : Nat) :
    ∃ reader, (BodyReader.fixed r).after k = .fixed reader := by
  induction k with
  | zero => exact ⟨r, rfl⟩
  | succ k ih =>
      obtain ⟨reader, hreader⟩ := ih
      exact ⟨reader.readNext.2, by rw [after, hreader, readNext]⟩

/-- Reading a body of `n` bytes to its end hands out the next `n` bytes of the stream in
pieces that are not empty and leaves the rest, or all there is if that is less, and then
fails.  Every call takes off the count what it hands out, and behind the end no call does
anything. -/
theorem bodyReader_fixed_reads (n : Nat) (input : Input) :
    (∃ pieces last reader, (bodyReader (.fixed n) input).Reads pieces last reader ∧
      (∀ piece ∈ pieces, piece ≠ []) ∧
      (n ≤ input.ready.length →
        last = .ok () ∧ pieces.flatten = input.all.take n ∧ reader.isFinished = true ∧
          reader.input.all = input.all.drop n) ∧
      (input.ready.length < n →
        pieces.flatten = input.ready ∧ last = .error input.fault.interrupt)) ∧
    (input.Clean →
      input.ready = input.all ∧ input.fault.interrupt = .error .unexpectedEof) ∧
    (∀ k, ∃ reader next : FixedBodyReader,
      (bodyReader (.fixed n) input).after k = .fixed reader ∧
      (bodyReader (.fixed n) input).after (k + 1) = .fixed next ∧
      next.remaining + (handedOut ((bodyReader (.fixed n) input).result k)).length =
        reader.remaining) ∧
    ∀ k j, (bodyReader (.fixed n) input).result k = .ok none → k < j →
      (bodyReader (.fixed n) input).result j = .ok none ∧
      (bodyReader (.fixed n) input).after j = (bodyReader (.fixed n) input).after (k + 1) := by
  refine ⟨?_, fun hclean => ?_, fun k => ?_,
    fun k j hnone hlt => (bodyReader (.fixed n) input).settled hnone hlt⟩
  · obtain ⟨pieces, hreads⟩ := (bodyReader (.fixed n) input).reads_drain
    have houtcome := FixedBodyReader.outcome_of_reads hreads ⟨input, n⟩ rfl
    refine ⟨pieces, _, _, hreads, hreads.pieces_ne_nil, ?_⟩
    generalize (bodyReader (.fixed n) input).drain.1 = last at houtcome
    generalize (bodyReader (.fixed n) input).drain.2 = reader at houtcome
    cases houtcome with
    | complete rest hready hlength hall =>
        dsimp only at hready hlength hall
        refine ⟨fun _ => ⟨rfl, ?_, rfl, ?_⟩, fun hlt => by omega⟩
        · rw [hall, ← hlength, List.take_left]
        · rw [hall, ← hlength, List.drop_left]
          rfl
    | short reader hready hpieces =>
        dsimp only at hready hpieces
        exact ⟨fun hle => by omega, fun _ => ⟨hpieces, rfl⟩⟩
  · obtain ⟨hready, hfault⟩ := Input.ready_of_clean hclean
    rw [hfault]
    exact ⟨hready, rfl⟩
  · obtain ⟨reader, hreader⟩ := BodyReader.after_fixed ⟨input, n⟩ k
    have hafter : (bodyReader (.fixed n) input).after k = .fixed reader := hreader
    refine ⟨reader, reader.readNext.2, hafter, ?_, ?_⟩
    · rw [BodyReader.after, hafter, BodyReader.readNext]
    · rw [BodyReader.result, hafter, BodyReader.readNext]
      exact reader.remaining_readNext

end GooseHttp
