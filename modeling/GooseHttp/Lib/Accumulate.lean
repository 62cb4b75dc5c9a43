import Mathlib.Tactic.Common
/-!
# What a loop accumulates

A loop over a list that keeps a record of what it has seen: flags that an element can set,
a slot that later elements overwrite, a list that grows at its end.  Each field of the
record is followed on its own: from what one round does to it comes what the loop does.
-/

namespace GooseHttp.Lib

variable {σ α β : Type} {step : σ → α → σ}

theorem foldl_flag {flag : σ → Bool} {sets : α → Bool}
    (h : ∀ s x, flag (step s x) = (flag s || sets x)) (s : σ) (xs : List α) :
    flag (xs.foldl step s) = (flag s || xs.any sets) := by
  induction xs generalizing s with
  | nil => simp
  | cons x xs ih => rw [List.foldl_cons, ih, h, List.any_cons, Bool.or_assoc]

theorem foldl_last {slot : σ → Option β} {writes : α → Option β}
    (h : ∀ s x, slot (step s x) = (writes x).or (slot s)) (s : σ) (xs : List α) :
    slot (xs.foldl step s) = (xs.filterMap writes).getLast?.or (slot s) := by
  induction xs generalizing s with
  | nil => rfl
  | cons x xs ih =>
      rw [List.foldl_cons, ih, h, List.filterMap_cons]
      cases writes x with
      | none => rfl
      | some b =>
          rw [List.getLast?_cons]
          cases (xs.filterMap writes).getLast? <;> rfl

theorem foldl_grows {list : σ → List β} {adds : α → List β}
    (h : ∀ s x, list (step s x) = list s ++ adds x) (s : σ) (xs : List α) :
    list (xs.foldl step s) = list s ++ xs.flatMap adds := by
  induction xs generalizing s with
  | nil => simp
  | cons x xs ih => rw [List.foldl_cons, ih, h, List.flatMap_cons, List.append_assoc]

end GooseHttp.Lib
