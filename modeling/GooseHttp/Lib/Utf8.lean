import Mathlib.Tactic.Common
/-!
# Well-formed UTF-8

A scanner over the byte ranges of the Unicode standard's table of well-formed
UTF-8: no overlong form, no surrogate, nothing above U+10FFFF.  Because it is a
fold, text put together from well-formed pieces is well-formed at once.
-/

namespace GooseHttp.Lib

/-- Between two characters, or inside one whose next byte must lie in a range and
be followed by `more` plain continuation bytes. -/
inductive Utf8State
  | boundary
  | expect (low high : UInt8) (more : Nat)
  | malformed
  deriving DecidableEq, Repr

def Utf8State.step : Utf8State → UInt8 → Utf8State
  | .boundary, b =>
      if b < 0x80 then .boundary
      else if 0xC2 ≤ b ∧ b ≤ 0xDF then .expect 0x80 0xBF 0
      else if b = 0xE0 then .expect 0xA0 0xBF 1
      else if b = 0xED then .expect 0x80 0x9F 1
      else if 0xE1 ≤ b ∧ b ≤ 0xEF then .expect 0x80 0xBF 1
      else if b = 0xF0 then .expect 0x90 0xBF 2
      else if 0xF1 ≤ b ∧ b ≤ 0xF3 then .expect 0x80 0xBF 2
      else if b = 0xF4 then .expect 0x80 0x8F 2
      else .malformed
  | .expect low high more, b =>
      if low ≤ b ∧ b ≤ high then
        match more with
        | 0 => .boundary
        | n + 1 => .expect 0x80 0xBF n
      else .malformed
  | .malformed, _ => .malformed

def utf8Valid (xs : List UInt8) : Bool :=
  xs.foldl Utf8State.step .boundary = .boundary

theorem utf8Valid_cons_ascii {a : UInt8} (rest : List UInt8) (ha : a < 0x80) :
    utf8Valid (a :: rest) = utf8Valid rest := by
  rw [utf8Valid, utf8Valid, List.foldl_cons, Utf8State.step, if_pos ha]

theorem utf8Valid_append_of_ascii {xs : List UInt8} (rest : List UInt8)
    (hxs : ∀ b ∈ xs, b < 0x80) : utf8Valid (xs ++ rest) = utf8Valid rest := by
  induction xs with
  | nil => rfl
  | cons a xs ih =>
      rw [List.cons_append, utf8Valid_cons_ascii _ (hxs a (by simp)),
        ih (fun b hb => hxs b (by simp [hb]))]

theorem utf8Valid_of_ascii {xs : List UInt8} (hxs : ∀ b ∈ xs, b < 0x80) :
    utf8Valid xs = true := by
  have h := utf8Valid_append_of_ascii [] hxs
  rwa [List.append_nil] at h

theorem utf8Valid_append_left {xs : List UInt8} (ys : List UInt8)
    (hxs : utf8Valid xs = true) : utf8Valid (xs ++ ys) = utf8Valid ys := by
  have hstate : xs.foldl Utf8State.step .boundary = .boundary := by
    simpa [utf8Valid] using hxs
  rw [utf8Valid, utf8Valid, List.foldl_append, hstate]

theorem utf8Valid_append {xs ys : List UInt8} (hxs : utf8Valid xs = true)
    (hys : utf8Valid ys = true) : utf8Valid (xs ++ ys) = true := by
  rw [utf8Valid_append_left ys hxs, hys]

/-! ## Cutting at ASCII -/

def Utf8State.Reached : Utf8State → Prop
  | .boundary => True
  | .expect low _ _ => 0x80 ≤ low
  | .malformed => True

theorem Utf8State.reached_step {st : Utf8State} (h : st.Reached) (b : UInt8) :
    (st.step b).Reached := by
  cases st with
  | boundary =>
      simp only [step]
      split_ifs <;> simp [Reached]
  | expect low high more =>
      simp only [step]
      split
      · cases more <;> simp [Reached]
      · trivial
  | malformed => trivial

theorem Utf8State.reached_foldl {st : Utf8State} (h : st.Reached) (xs : List UInt8) :
    (xs.foldl step st).Reached := by
  induction xs generalizing st with
  | nil => exact h
  | cons b xs ih => exact ih (reached_step h b)

theorem Utf8State.foldl_malformed (xs : List UInt8) :
    xs.foldl step .malformed = .malformed := by
  induction xs with
  | nil => rfl
  | cons b xs ih => exact ih

theorem Utf8State.step_ascii {st : Utf8State} {a : UInt8} (h : st.Reached) (ha : a < 0x80) :
    st = .boundary ∨ st.step a = .malformed := by
  cases st with
  | boundary => exact Or.inl rfl
  | expect low high more =>
      right
      apply if_neg
      intro hrange
      exact absurd (UInt8.le_trans h hrange.1) (UInt8.not_le.mpr ha)
  | malformed => exact Or.inr rfl

theorem utf8Valid_of_append_ascii {xs ys : List UInt8} {a : UInt8}
    (h : utf8Valid (xs ++ a :: ys) = true) (ha : a < 0x80) :
    utf8Valid xs = true ∧ utf8Valid ys = true := by
  have hreached := Utf8State.reached_foldl (show Utf8State.boundary.Reached from trivial) xs
  have hxs : utf8Valid xs = true := by
    rw [utf8Valid, decide_eq_true_eq] at h ⊢
    rcases Utf8State.step_ascii hreached ha with hst | hst
    · exact hst
    · rw [List.foldl_append, List.foldl_cons, hst, Utf8State.foldl_malformed] at h
      cases h
  refine ⟨hxs, ?_⟩
  rwa [utf8Valid_append_left _ hxs, utf8Valid_cons_ascii _ ha] at h

end GooseHttp.Lib
