import GooseHttp.Parse.Body
/-!
# Reading a body to its end

A body is read by calling `read_next` until it hands out no further piece.  `Reads` names
the pieces of such a reading and what ends it, and `after` is the reader behind a number
of calls.  Every reading comes to its end, and behind the end nothing happens any more.
-/

namespace GooseHttp

open Lib

namespace BodyReader

/-- The pieces `read_next` hands out, the result that ends them, and the reader left. -/
inductive Reads : BodyReader → List Bytes → Except Interrupt Unit → BodyReader → Prop
  | finished {r r' : BodyReader} (h : r.readNext = (.ok none, r')) : Reads r [] (.ok ()) r'
  | error {r r' : BodyReader} {x : Interrupt} (h : r.readNext = (.error x, r')) :
      Reads r [] (.error x) r'
  | piece {r r' reader : BodyReader} {piece : Bytes} {pieces : List Bytes}
      {last : Except Interrupt Unit} (h : r.readNext = (.ok (some piece), r'))
      (hrest : Reads r' pieces last reader) : Reads r (piece :: pieces) last reader

def after (r : BodyReader) : Nat → BodyReader
  | 0 => r
  | k + 1 => (r.after k).readNext.2

def result (r : BodyReader) (k : Nat) : Except Interrupt (Option Bytes) := (r.after k).readNext.1

/-- Every reading comes to an end, and `drain` returns what ends it. -/
theorem reads_drain (r : BodyReader) :
    ∃ pieces, Reads r pieces r.drain.1 r.drain.2 := by
  refine drainLoop.run_induction
    (motive := fun r res => ∃ pieces, Reads r pieces res.1 res.2) ?_ ?_ r
  · intro r res h
    change drainRound r = .done res at h
    unfold drainRound at h
    split at h
    · rename_i x reader hnext
      cases h
      exact ⟨[], .error hnext⟩
    · rename_i reader hnext
      cases h
      exact ⟨[], .finished hnext⟩
    · cases h
  · intro r r' h ih
    obtain ⟨piece, hnext⟩ := drainRound_next h
    obtain ⟨pieces, hreads⟩ := ih
    exact ⟨piece :: pieces, .piece hnext hreads⟩

theorem Reads.pieces_ne_nil {r reader : BodyReader} {pieces : List Bytes}
    {last : Except Interrupt Unit} (h : Reads r pieces last reader) :
    ∀ piece ∈ pieces, piece ≠ [] := by
  induction h with
  | finished => simp
  | error => simp
  | piece hnext _ ih => exact List.forall_mem_cons.mpr ⟨ne_nil_of_readNext hnext, ih⟩

end BodyReader

/-! ## Behind the end -/

theorem FixedBodyReader.readNext_of_finished {r : FixedBodyReader} (h : r.remaining = 0) :
    r.readNext = (.ok none, r) := if_pos h

theorem FixedBodyReader.finished_of_none {r : FixedBodyReader} (h : r.readNext.1 = .ok none) :
    r.remaining = 0 := by
  have hcase := r.readNext_case
  generalize r.readNext = res at h hcase
  cases hcase with
  | finished hzero => exact hzero
  | piece => cases h
  | fault => cases h

namespace ChunkedBodyReader

theorem readNext_of_done {r : ChunkedBodyReader} (h : r.state = .done) :
    r.readNext = (.ok none, r) := by
  apply loop.run_done
  change r.round = _
  unfold round
  rw [h]

theorem done_of_none (r : ChunkedBodyReader) :
    r.readNext.1 = .ok none → r.readNext.2.state = .done := by
  refine loop.run_induction
    (motive := fun _ res => res.1 = .ok none → res.2.state = .done) ?_ ?_ r
  · intro r res h hnone
    have hcase := r.round_case
    rw [show r.round = .done res from h] at hcase
    cases hcase with
    | bodyEnd input hstate hread => rfl
    | finished hstate => exact hstate
    | _ => cases hnone
  · intro r r' _ ih
    exact ih

end ChunkedBodyReader

namespace BodyReader

theorem readNext_of_none {r r' : BodyReader} (h : r.readNext = (.ok none, r')) :
    r'.readNext = (.ok none, r') := by
  cases r with
  | empty input =>
      cases h
      rfl
  | fixed reader =>
      have hzero := reader.finished_of_none (congrArg Prod.fst h)
      have hnext := FixedBodyReader.readNext_of_finished hzero
      rw [readNext, hnext] at h
      cases h
      rw [readNext, hnext]
  | chunked reader =>
      obtain ⟨hresult, rfl⟩ := Prod.mk.inj h
      rw [readNext, ChunkedBodyReader.readNext_of_done (reader.done_of_none hresult)]

theorem after_of_finished {r : BodyReader} (h : r.readNext = (.ok none, r)) (k : Nat) :
    r.after k = r := by
  induction k with
  | zero => rfl
  | succ k ih => rw [after, ih, h]

theorem after_add (r : BodyReader) (j k : Nat) : r.after (j + k) = (r.after j).after k := by
  induction k with
  | zero => rfl
  | succ k ih => rw [← Nat.add_assoc, after, ih, after]

/-- Behind a call that returned no piece, every call returns none and leaves the reader, its
buffer and the socket as they are. -/
theorem settled (r : BodyReader) {k j : Nat} (h : r.result k = .ok none) (hlt : k < j) :
    r.result j = .ok none ∧ r.after j = r.after (k + 1) := by
  have hnext : (r.after (k + 1)).readNext = (.ok none, r.after (k + 1)) :=
    readNext_of_none (Prod.ext h rfl)
  have hafter : r.after j = r.after (k + 1) := by
    have hadd := r.after_add (k + 1) (j - (k + 1))
    rw [Nat.add_sub_of_le hlt, after_of_finished hnext] at hadd
    exact hadd
  refine ⟨?_, hafter⟩
  rw [result, hafter, hnext]

end BodyReader

end GooseHttp
