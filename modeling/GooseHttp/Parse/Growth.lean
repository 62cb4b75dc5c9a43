import GooseHttp.Parse.Head
/-!
# The head parser on a growing buffer

The connection asks three things of its buffer whenever it has grown: whether more bytes
are needed, whether the head is too large already, and what the head is.  The answers hang
on the first empty line alone, so no answer is taken back when more bytes arrive.
-/

namespace GooseHttp

open Lib

theorem needsMoreHead_iff {buffer : Bytes} :
    needsMoreHead buffer = true ↔ findHeadersEnd buffer = none := by
  rw [needsMoreHead, Option.isNone_iff_eq_none]

theorem incompleteHeadExceedsLimit_iff {buffer : Bytes} :
    incompleteHeadExceedsLimit buffer = true ↔
      findHeadersEnd buffer = none ∧ HEADER_LIMIT < buffer.length := by
  simp [incompleteHeadExceedsLimit]

theorem parseRequestHead_of_none {buffer : Bytes} (h : findHeadersEnd buffer = none) :
    parseRequestHead buffer = .error .incomplete := by
  rw [parseRequestHead, h]

theorem parseRequestHead_of_large {buffer : Bytes} {n : Nat}
    (hend : findHeadersEnd buffer = some n) (hlarge : HEADER_LIMIT < n) :
    parseRequestHead buffer = .error .headerTooLarge := by
  rw [parseRequestHead, hend]
  simp only [if_pos hlarge]

/-- A head that is decided stays as it is decided. -/
theorem parseRequestHead_stable {buffer : Bytes}
    (h : parseRequestHead buffer ≠ .error .incomplete) (more : Bytes) :
    parseRequestHead (buffer ++ more) = parseRequestHead buffer := by
  cases hend : findHeadersEnd buffer with
  | none => exact absurd (parseRequestHead_of_none hend) h
  | some n => exact parseRequestHead_append more hend

theorem findHeadersEnd_of_front {buffer front : Bytes} {n : Nat}
    (hend : findHeadersEnd buffer = some n) (hfront : front <+: buffer)
    (hshort : front.length < n) : findHeadersEnd front = none := by
  cases hfound : findHeadersEnd front with
  | none => rfl
  | some m =>
      obtain ⟨more, rfl⟩ := hfront
      have hsame := findHeadersEnd_append more hfound
      have hle := (findHeadersEnd_le hfound).2
      rw [hend, Option.some.injEq] at hsame
      omega

theorem incomplete_of_front {buffer front : Bytes} {request : Request} {mode : BodyMode}
    {n : Nat} (h : parseRequestHead buffer = .ok (request, mode, n))
    (hfront : front <+: buffer.take n) (hne : front ≠ buffer.take n) :
    parseRequestHead front = .error .incomplete ∧ needsMoreHead front = true ∧
      incompleteHeadExceedsLimit front = false := by
  obtain ⟨hend, hlimit, -, -⟩ := parseRequestHead_ok h
  have hlength : (buffer.take n).length = n :=
    List.length_take_of_le (findHeadersEnd_le hend).2
  have hshort : front.length < n := by
    have hle := hfront.length_le
    have hdiffer : front.length ≠ (buffer.take n).length :=
      fun heq => hne (hfront.eq_of_length heq)
    omega
  have hnone := findHeadersEnd_of_front hend (hfront.trans (List.take_prefix n buffer)) hshort
  refine ⟨parseRequestHead_of_none hnone, needsMoreHead_iff.mpr hnone, ?_⟩
  rw [Bool.eq_false_iff]
  intro hexceeds
  have hlarge := (incompleteHeadExceedsLimit_iff.mp hexceeds).2
  omega

/-- A head that is too large before its end has come is never accepted. -/
theorem large_of_exceeds {buffer : Bytes} (h : incompleteHeadExceedsLimit buffer = true)
    (more : Bytes) :
    parseRequestHead (buffer ++ more) = .error .incomplete ∨
      parseRequestHead (buffer ++ more) = .error .headerTooLarge := by
  obtain ⟨hnone, hlarge⟩ := incompleteHeadExceedsLimit_iff.mp h
  cases hend : findHeadersEnd (buffer ++ more) with
  | none => exact Or.inl (parseRequestHead_of_none hend)
  | some n =>
      have hlt := length_lt_findHeadersEnd hnone hend
      exact Or.inr (parseRequestHead_of_large hend (hlarge.trans hlt))

/-- What is said of a buffer agrees with what is said of it when it has grown: a decided
head is decided alike, an accepted one is incomplete up to its last byte, and one that is
too large stays refused. -/
theorem parseRequestHead_growth (buffer : Bytes) :
    (parseRequestHead buffer ≠ .error .incomplete →
      ∀ more, parseRequestHead (buffer ++ more) = parseRequestHead buffer) ∧
    (∀ request mode n, parseRequestHead buffer = .ok (request, mode, n) →
      ∀ front, front <+: buffer.take n → front ≠ buffer.take n →
        parseRequestHead front = .error .incomplete ∧ needsMoreHead front = true ∧
          incompleteHeadExceedsLimit front = false) ∧
    (incompleteHeadExceedsLimit buffer = true →
      ∀ more, parseRequestHead (buffer ++ more) = .error .incomplete ∨
        parseRequestHead (buffer ++ more) = .error .headerTooLarge) :=
  ⟨parseRequestHead_stable, fun _ _ _ h _ => incomplete_of_front h, large_of_exceeds⟩

end GooseHttp
