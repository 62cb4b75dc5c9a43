import GooseHttp.Text
/-!
# Decimal numbers

A number on the wire is `1*DIGIT` with a value that fits 64 bits.  The number parser of the
server reads these as they are meant, and one form more: digits behind a plus sign.
-/

namespace GooseHttp

open Lib

def decimalValue (digits : Text) : Nat := numeralValue 10 (digits.map fun b => b.toNat - 48)

/-- Digits and nothing else, with a value that fits 64 bits. -/
structure IsLength (value : Text) (length : Nat) : Prop where
  ne_nil : value ≠ []
  digits : ∀ b ∈ value, isDigit b = true
  eq : decimalValue value = length
  lt : length < 2 ^ 64

theorem toDigit_ten (b : UInt8) :
    toDigit 10 b = if isDigit b then some (b.toNat - 48) else none := by
  revert b
  decide +kernel

theorem toDigits_ten (s : Text) :
    toDigits 10 s =
      if ∀ b ∈ s, isDigit b = true then some (s.map fun b => b.toNat - 48) else none := by
  induction s with
  | nil => simp [toDigits]
  | cons b s ih =>
      rw [toDigits, toDigit_ten, ih]
      by_cases hb : isDigit b = true
      · by_cases hs : ∀ c ∈ s, isDigit c = true
        · have hall : ∀ c ∈ b :: s, isDigit c = true := List.forall_mem_cons.mpr ⟨hb, hs⟩
          rw [if_pos hb, if_pos hs, if_pos hall]
          rfl
        · have hall : ¬ ∀ c ∈ b :: s, isDigit c = true :=
            fun hall => hs (List.forall_mem_cons.mp hall).2
          rw [if_pos hb, if_neg hs, if_neg hall]
      · have hall : ¬ ∀ c ∈ b :: s, isDigit c = true :=
          fun hall => hb (List.forall_mem_cons.mp hall).1
        rw [if_neg hb, if_neg hall]

theorem parseU64_ok_iff {value : Text} {length : Nat} (hsign : value.head? ≠ some 43) :
    parseU64 value = some length ↔ IsLength value length := by
  rw [parseU64, fromStrRadix_eq_some_iff hsign, toDigits_ten]
  constructor
  · rintro ⟨hne, ds, hds, heq, hlt⟩
    by_cases hdigits : ∀ b ∈ value, isDigit b = true
    · rw [if_pos hdigits, Option.some.injEq] at hds
      exact ⟨hne, hdigits, by rw [decimalValue, hds, heq], hlt⟩
    · rw [if_neg hdigits] at hds
      cases hds
  · intro h
    exact ⟨h.ne_nil, _, if_pos h.digits, h.eq, h.lt⟩

theorem IsLength.head?_ne {value : Text} {length : Nat} (h : IsLength value length) :
    value.head? ≠ some 43 := by
  intro hhead
  have hplus := h.digits 43 (List.mem_of_head? hhead)
  revert hplus
  decide

theorem IsLength.parseU64 {value : Text} {length : Nat} (h : IsLength value length) :
    parseU64 value = some length := (parseU64_ok_iff h.head?_ne).mpr h

def IsSigned (value : Text) (length : Nat) : Prop :=
  ∃ digits, value = 43 :: digits ∧ IsLength digits length

theorem parseU64_plus {digits : Text} (hsign : digits.head? ≠ some 43) :
    parseU64 (43 :: digits) = parseU64 digits := by
  simp only [parseU64, fromStrRadix, List.head?_cons, List.tail_cons, if_true, if_neg hsign]

theorem parseU64_plus_plus (s : Text) : parseU64 (43 :: 43 :: s) = none := by
  have hdigits : toDigits 10 (43 :: s) = none := by
    rw [toDigits_ten, if_neg]
    intro hall
    exact absurd (hall 43 (by simp)) (by decide)
  simp only [parseU64, fromStrRadix, List.head?_cons, List.tail_cons, if_true, hdigits]
  exact if_neg (List.cons_ne_nil _ _)

/-- Everything the number parser takes. -/
theorem parseU64_eq_some_iff {value : Text} {length : Nat} :
    parseU64 value = some length ↔ IsLength value length ∨ IsSigned value length := by
  constructor
  · intro h
    by_cases hsign : value.head? = some 43
    · obtain ⟨digits, rfl⟩ := List.head?_eq_some_iff.mp hsign
      refine Or.inr ⟨digits, rfl, ?_⟩
      by_cases htwice : digits.head? = some 43
      · obtain ⟨s, rfl⟩ := List.head?_eq_some_iff.mp htwice
        rw [parseU64_plus_plus] at h
        cases h
      · rw [parseU64_plus htwice] at h
        exact (parseU64_ok_iff htwice).mp h
    · exact Or.inl ((parseU64_ok_iff hsign).mp h)
  · rintro (h | ⟨digits, rfl, h⟩)
    · exact h.parseU64
    · rw [parseU64_plus h.head?_ne]
      exact h.parseU64

def readLength (value : Text) : Option Nat :=
  if value ≠ [] ∧ (∀ b ∈ value, isDigit b = true) ∧ decimalValue value < 2 ^ 64 then
    some (decimalValue value)
  else none

def dropPlus (value : Text) : Text := if value.head? = some 43 then value.tail else value

theorem readLength_eq_some_iff {value : Text} {length : Nat} :
    readLength value = some length ↔ IsLength value length := by
  unfold readLength
  split
  · rename_i h
    obtain ⟨hne, hdigits, hlt⟩ := h
    rw [Option.some.injEq]
    constructor
    · rintro rfl
      exact ⟨hne, hdigits, rfl, hlt⟩
    · exact fun h => h.eq
  · rename_i h
    refine ⟨fun hnone => (by cases hnone), fun hlength => absurd ?_ h⟩
    exact ⟨hlength.ne_nil, hlength.digits, hlength.eq ▸ hlength.lt⟩

theorem parseU64_eq_readLength (value : Text) : parseU64 value = readLength (dropPlus value) := by
  apply Option.ext
  intro length
  rw [parseU64_eq_some_iff, readLength_eq_some_iff, dropPlus]
  by_cases hsign : value.head? = some 43
  · obtain ⟨digits, rfl⟩ := List.head?_eq_some_iff.mp hsign
    rw [if_pos hsign, List.tail_cons]
    constructor
    · rintro (h | ⟨ds, heq, h⟩)
      · exact absurd hsign h.head?_ne
      · rw [(List.cons.inj heq).2]
        exact h
    · exact fun h => Or.inr ⟨digits, rfl, h⟩
  · rw [if_neg hsign]
    constructor
    · rintro (h | ⟨ds, rfl, -⟩)
      · exact h
      · exact absurd rfl hsign
    · exact Or.inl

theorem IsLength.isGraphic {value : Text} {length : Nat} (h : IsLength value length) :
    ∀ b ∈ value, isGraphic b = true := by
  intro b hb
  have hdigit := toDigit_ten b
  rw [if_pos (h.digits b hb)] at hdigit
  exact isGraphic_of_toDigit hdigit

end GooseHttp
