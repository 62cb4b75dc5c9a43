import Mathlib.Tactic.Common
/-!
# A sink that fails

Something that takes what is written to it until it has no more room, and then fails for
good: the write that goes over the end leaves the part that still fits.  Writes made one
after the other, up to the first that fails, are one write of everything.
-/

namespace GooseHttp.Lib

structure Sink (α ε : Type) where
  taken : List α
  room : Nat
  fault : ε

namespace Sink

variable {α ε : Type}

def writeAll (k : Sink α ε) (xs : List α) : Except ε Unit × Sink α ε :=
  if xs.length ≤ k.room then (.ok (), ⟨k.taken ++ xs, k.room - xs.length, k.fault⟩)
  else (.error k.fault, ⟨k.taken ++ xs.take k.room, 0, k.fault⟩)

def writeEach (k : Sink α ε) : List (List α) → Except ε Unit × Sink α ε
  | [] => (.ok (), k)
  | xs :: pieces =>
      match k.writeAll xs with
      | (.ok (), k) => writeEach k pieces
      | (.error e, k) => (.error e, k)

theorem writeAll_fits {k : Sink α ε} {xs : List α} (h : xs.length ≤ k.room) :
    k.writeAll xs = (.ok (), ⟨k.taken ++ xs, k.room - xs.length, k.fault⟩) := if_pos h

theorem writeAll_fails {k : Sink α ε} {xs : List α} (h : k.room < xs.length) :
    k.writeAll xs = (.error k.fault, ⟨k.taken ++ xs.take k.room, 0, k.fault⟩) :=
  if_neg (Nat.not_le_of_lt h)

@[simp] theorem writeAll_nil (k : Sink α ε) : k.writeAll [] = (.ok (), k) := by
  rw [writeAll_fits (Nat.zero_le _), List.append_nil]
  rfl

theorem writeAll_append (k : Sink α ε) (xs ys : List α) :
    k.writeAll (xs ++ ys) =
      match k.writeAll xs with
      | (.ok (), k) => k.writeAll ys
      | (.error e, k) => (.error e, k) := by
  by_cases hxs : xs.length ≤ k.room
  · rw [writeAll_fits hxs]
    by_cases hys : ys.length ≤ k.room - xs.length
    · rw [writeAll_fits (by rw [List.length_append]; omega)]
      dsimp only
      rw [writeAll_fits hys, List.append_assoc, List.length_append, Nat.sub_add_eq]
    · rw [writeAll_fails (by rw [List.length_append]; omega)]
      dsimp only
      rw [writeAll_fails (by dsimp only; omega), List.take_append,
        List.take_of_length_le hxs, List.append_assoc]
  · rw [writeAll_fails (Nat.lt_of_not_le hxs),
      writeAll_fails (by rw [List.length_append]; omega),
      List.take_append_of_le_length (by omega)]

/-- Writing piece by piece is writing everything. -/
theorem writeEach_eq (k : Sink α ε) (pieces : List (List α)) :
    k.writeEach pieces = k.writeAll pieces.flatten := by
  induction pieces generalizing k with
  | nil => rw [List.flatten_nil, writeAll_nil, writeEach]
  | cons xs pieces ih =>
      rw [List.flatten_cons, writeAll_append, writeEach]
      rcases k.writeAll xs with ⟨_ | _, k'⟩
      · rfl
      · exact ih k'

end Sink

end GooseHttp.Lib
