import Mathlib.Data.List.Infix
import Mathlib.Tactic.Common
/-!
# Searching and splitting lists

First occurrences of a pattern and splits at a separator, as scanners of a byte
stream use them.  `findWindow` is the position of the first window equal to a
pattern; `splitOnce`, `splitAll` and `splitPair` cut at one element or at a pair
of adjacent elements.  The lemmas say what a scan of `a ++ separator ++ b` gives
when the separator cannot start inside `a`, and that a hit is not moved by what
is appended behind it.
-/

namespace GooseHttp.Lib

variable {α : Type} [DecidableEq α]

/-! ## The first window equal to a pattern -/

def findWindow (pat : List α) : List α → Option Nat
  | [] => none
  | x :: xs =>
      if pat.isPrefixOf (x :: xs) then some 0
      else (findWindow pat xs).map (· + 1)

theorem findWindow_front {pat xs : List α} (hpat : pat ≠ [])
    (h : pat <+: xs) : findWindow pat xs = some 0 := by
  cases xs with
  | nil => exact absurd (List.prefix_nil.mp h) hpat
  | cons x xs => rw [findWindow, if_pos (List.isPrefixOf_iff_prefix.mpr h)]

theorem findWindow_cons_of_not_front {pat xs : List α} {x : α}
    (h : ¬ pat <+: x :: xs) :
    findWindow pat (x :: xs) = (findWindow pat xs).map (· + 1) := by
  rw [findWindow, if_neg (fun hp => h (List.isPrefixOf_iff_prefix.mp hp))]

theorem findWindow_some {pat xs : List α} {i : Nat}
    (h : findWindow pat xs = some i) :
    ∃ b, xs = xs.take i ++ pat ++ b ∧ i + pat.length ≤ xs.length := by
  induction xs generalizing i with
  | nil => simp [findWindow] at h
  | cons x xs ih =>
      by_cases hp : pat <+: x :: xs
      · rw [findWindow, if_pos (List.isPrefixOf_iff_prefix.mpr hp)] at h
        obtain rfl : 0 = i := by simpa using h
        obtain ⟨b, hb⟩ := hp
        refine ⟨b, by simpa using hb.symm, ?_⟩
        rw [← hb]
        simp
      · rw [findWindow_cons_of_not_front hp] at h
        obtain ⟨j, hj, rfl⟩ := Option.map_eq_some_iff.mp h
        obtain ⟨b, hb, hlen⟩ := ih hj
        refine ⟨b, ?_, by simp only [List.length_cons]; omega⟩
        simp only [List.take_succ_cons, List.cons_append]
        rw [← hb]

theorem findWindow_some_le {pat xs : List α} {i : Nat}
    (h : findWindow pat xs = some i) : i + pat.length ≤ xs.length := by
  obtain ⟨-, -, hle⟩ := findWindow_some h
  exact hle

theorem findWindow_first {pat xs : List α} {i : Nat}
    (h : findWindow pat xs = some i) {a b : List α} (hab : xs = a ++ pat ++ b) :
    i ≤ a.length := by
  induction xs generalizing i a with
  | nil => simp [findWindow] at h
  | cons x xs ih =>
      by_cases hp : pat <+: x :: xs
      · rw [findWindow, if_pos (List.isPrefixOf_iff_prefix.mpr hp)] at h
        obtain rfl : 0 = i := by simpa using h
        omega
      · rw [findWindow_cons_of_not_front hp] at h
        obtain ⟨j, hj, rfl⟩ := Option.map_eq_some_iff.mp h
        cases a with
        | nil => exact absurd ⟨b, by simpa using hab.symm⟩ hp
        | cons y a =>
            have htail : xs = a ++ pat ++ b := by simpa using (List.cons.inj hab).2
            simpa using ih hj htail

theorem findWindow_eq_none_iff {pat xs : List α} (hpat : pat ≠ []) :
    findWindow pat xs = none ↔ ¬ pat <:+: xs := by
  induction xs with
  | nil => simpa [findWindow] using hpat
  | cons x xs ih =>
      by_cases hp : pat <+: x :: xs
      · simp [findWindow_front hpat hp, hp.isInfix]
      · rw [findWindow_cons_of_not_front hp, Option.map_eq_none_iff, ih,
          List.infix_cons_iff]
        simp [hp]

theorem findWindow_append {pat xs : List α} {i : Nat} (ys : List α)
    (h : findWindow pat xs = some i) : findWindow pat (xs ++ ys) = some i := by
  induction xs generalizing i with
  | nil => simp [findWindow] at h
  | cons x xs ih =>
      by_cases hp : pat <+: x :: xs
      · rw [findWindow, if_pos (List.isPrefixOf_iff_prefix.mpr hp)] at h
        rw [List.cons_append, findWindow, if_pos]
        · exact h
        · exact List.isPrefixOf_iff_prefix.mpr (hp.trans (List.prefix_append _ _))
      · rw [findWindow_cons_of_not_front hp] at h
        obtain ⟨j, hj, rfl⟩ := Option.map_eq_some_iff.mp h
        have hle := findWindow_some_le hj
        have hnot : ¬ pat <+: x :: (xs ++ ys) := by
          intro hlong
          apply hp
          apply List.prefix_of_prefix_length_le hlong (List.prefix_append (x :: xs) ys)
          simp only [List.length_cons]
          omega
        rw [List.cons_append, findWindow_cons_of_not_front hnot, ih hj]
        rfl

theorem findWindow_of_append {pat xs ys : List α} {i : Nat}
    (h : findWindow pat (xs ++ ys) = some i) (hle : i + pat.length ≤ xs.length)
    (hpat : pat ≠ []) : findWindow pat xs = some i := by
  cases hxs : findWindow pat xs with
  | some j =>
      have := findWindow_append ys hxs
      rw [h] at this
      exact this.symm
  | none =>
      obtain ⟨b, hb, -⟩ := findWindow_some h
      rw [findWindow_eq_none_iff hpat] at hxs
      refine absurd ?_ hxs
      have hi : (xs ++ ys).take i = xs.take i := by
        rw [List.take_append_of_le_length (by omega)]
      have hpre : xs.take i ++ pat <+: xs := by
        have hwhole : xs.take i ++ pat <+: xs ++ ys := ⟨b, by rw [← hi]; exact hb.symm⟩
        apply List.prefix_of_prefix_length_le hwhole (List.prefix_append xs ys)
        rw [List.length_append, List.length_take]
        omega
      obtain ⟨c, hc⟩ := hpre
      exact ⟨xs.take i, c, hc⟩

theorem findWindow_append_cons {p : α} {ps a : List α} (b : List α) (ha : p ∉ a) :
    findWindow (p :: ps) (a ++ p :: ps ++ b) = some a.length := by
  induction a with
  | nil =>
      rw [List.nil_append]
      exact findWindow_front (by simp) (List.prefix_append _ _)
  | cons x a ih =>
      have hx : p ≠ x := fun h => ha (by simp [h])
      have hnot : ¬ p :: ps <+: x :: (a ++ p :: ps ++ b) := by
        intro hp
        exact hx (List.cons_prefix_cons.mp hp).1
      rw [List.cons_append, List.cons_append, findWindow_cons_of_not_front hnot,
        ih (fun h => ha (by simp [h]))]
      rfl

/-- A pair is found behind a list without it: no occurrence straddles the boundary. -/
theorem findWindow_append_pair {p q : α} (hpq : p ≠ q) {a : List α} (b : List α)
    (ha : ¬ [p, q] <:+: a) : findWindow [p, q] (a ++ [p, q] ++ b) = some a.length := by
  induction a with
  | nil => exact findWindow_front (List.cons_ne_nil p [q]) (List.prefix_append [p, q] b)
  | cons x a ih =>
      have hfront : ¬ [p, q] <+: x :: (a ++ [p, q] ++ b) := by
        intro hpre
        obtain ⟨hx, hq⟩ := List.cons_prefix_cons.mp hpre
        cases a with
        | nil =>
            have heq := (List.cons_prefix_cons.mp hq).1
            exact hpq heq.symm
        | cons y a =>
            have heq := (List.cons_prefix_cons.mp hq).1
            apply ha
            rw [hx, heq]
            exact List.infix_append [] [x, y] a
      have htail : ¬ [p, q] <:+: a := fun h => ha (h.trans (List.suffix_cons x a).isInfix)
      change findWindow [p, q] (x :: (a ++ [p, q] ++ b)) = _
      rw [findWindow_cons_of_not_front hfront, ih htail]
      rfl

/-! ## Splitting at one element -/

def splitOnce (sep : α) : List α → Option (List α × List α)
  | [] => none
  | x :: xs =>
      if x = sep then some ([], xs)
      else (splitOnce sep xs).map fun p => (x :: p.1, p.2)

theorem splitOnce_append {sep : α} {a : List α} (b : List α) (ha : sep ∉ a) :
    splitOnce sep (a ++ sep :: b) = some (a, b) := by
  induction a with
  | nil => simp [splitOnce]
  | cons x a ih =>
      have hx : x ≠ sep := fun h => ha (by simp [h])
      rw [List.cons_append, splitOnce, if_neg hx, ih (fun h => ha (by simp [h]))]
      rfl

theorem splitOnce_some {sep : α} {xs a b : List α} (h : splitOnce sep xs = some (a, b)) :
    xs = a ++ sep :: b ∧ sep ∉ a := by
  induction xs generalizing a with
  | nil => simp [splitOnce] at h
  | cons x xs ih =>
      rw [splitOnce] at h
      split at h
      · rename_i hx
        simp only [Option.some.injEq, Prod.mk.injEq] at h
        obtain ⟨rfl, rfl⟩ := h
        simp [hx]
      · rename_i hx
        obtain ⟨⟨c, d⟩, hcd, hpair⟩ := Option.map_eq_some_iff.mp h
        simp only [Prod.mk.injEq] at hpair
        obtain ⟨rfl, rfl⟩ := hpair
        obtain ⟨hxs, hc⟩ := ih hcd
        refine ⟨by rw [hxs, List.cons_append], ?_⟩
        simp only [List.mem_cons, not_or]
        exact ⟨fun h => hx h.symm, hc⟩

theorem splitOnce_eq_none_iff {sep : α} {xs : List α} :
    splitOnce sep xs = none ↔ sep ∉ xs := by
  induction xs with
  | nil => simp [splitOnce]
  | cons x xs ih =>
      rw [splitOnce]
      split
      · rename_i hx
        simp [hx]
      · rename_i hx
        simp only [Option.map_eq_none_iff, ih, List.mem_cons, not_or]
        exact ⟨fun h => ⟨fun h' => hx h'.symm, h⟩, fun h => h.2⟩

def consHead (x : α) : List (List α) → List (List α)
  | [] => [[x]]
  | p :: ps => (x :: p) :: ps

omit [DecidableEq α] in
@[simp] theorem consHead_ne_nil (x : α) (ps : List (List α)) : consHead x ps ≠ [] := by
  cases ps <;> simp [consHead]

/-- Every piece between occurrences of `sep`; at least one piece. -/
def splitAll (sep : α) : List α → List (List α)
  | [] => [[]]
  | x :: xs => if x = sep then [] :: splitAll sep xs else consHead x (splitAll sep xs)

@[simp] theorem splitAll_ne_nil (sep : α) (xs : List α) : splitAll sep xs ≠ [] := by
  cases xs with
  | nil => simp [splitAll]
  | cons x xs =>
      rw [splitAll]
      split <;> simp

theorem splitAll_of_not_mem {sep : α} {xs : List α} (h : sep ∉ xs) :
    splitAll sep xs = [xs] := by
  induction xs with
  | nil => rfl
  | cons x xs ih =>
      have hx : x ≠ sep := fun hx => h (by simp [hx])
      rw [splitAll, if_neg hx, ih (fun hm => h (by simp [hm]))]
      rfl

theorem splitAll_append {sep : α} {a : List α} (b : List α) (ha : sep ∉ a) :
    splitAll sep (a ++ sep :: b) = a :: splitAll sep b := by
  induction a with
  | nil => simp [splitAll]
  | cons x a ih =>
      have hx : x ≠ sep := fun h => ha (by simp [h])
      rw [List.cons_append, splitAll, if_neg hx, ih (fun h => ha (by simp [h]))]
      rfl

omit [DecidableEq α] in
theorem consHead_append {x : α} {ps : List (List α)} (qs : List (List α)) (h : ps ≠ []) :
    consHead x (ps ++ qs) = consHead x ps ++ qs := by
  cases ps with
  | nil => exact absurd rfl h
  | cons p ps => rfl

theorem splitAll_append_sep (sep : α) (xs ys : List α) :
    splitAll sep (xs ++ sep :: ys) = splitAll sep xs ++ splitAll sep ys := by
  induction xs with
  | nil => simp [splitAll]
  | cons x xs ih =>
      rw [List.cons_append, splitAll, splitAll, ih]
      split
      · rfl
      · exact consHead_append _ (splitAll_ne_nil sep xs)

theorem splitAll_intercalate (sep : α) {xss : List (List α)} (h : xss ≠ []) :
    splitAll sep ([sep].intercalate xss) = xss.flatMap (splitAll sep) := by
  induction xss with
  | nil => exact absurd rfl h
  | cons xs xss ih =>
      cases xss with
      | nil => simp
      | cons ys xss =>
          rw [List.intercalate_cons_cons, List.append_assoc, List.singleton_append,
            splitAll_append_sep, ih (by simp)]
          rfl

theorem splitAll_append_front {sep : α} {a xs piece : List α} {pieces : List (List α)}
    (ha : sep ∉ a) (h : splitAll sep xs = piece :: pieces) :
    splitAll sep (a ++ xs) = (a ++ piece) :: pieces := by
  induction a with
  | nil => exact h
  | cons x a ih =>
      have hx : x ≠ sep := fun hx => ha (by simp [hx])
      rw [List.cons_append, splitAll, if_neg hx, ih (fun hm => ha (by simp [hm]))]
      rfl

theorem splitAll_append_back {sep : α} {xs b piece : List α} {pieces : List (List α)}
    (hb : sep ∉ b) (h : splitAll sep xs = pieces ++ [piece]) :
    splitAll sep (xs ++ b) = pieces ++ [piece ++ b] := by
  induction xs generalizing piece pieces with
  | nil =>
      obtain ⟨rfl, hpiece⟩ := List.append_eq_singleton_iff.mp h.symm |>.resolve_right (by simp)
      rw [List.singleton_inj.mp hpiece]
      exact splitAll_of_not_mem hb
  | cons x xs ih =>
      obtain ⟨front, last, hlast⟩ :=
        (List.eq_nil_or_concat (splitAll sep xs)).resolve_left (splitAll_ne_nil sep xs)
      rw [List.concat_eq_append] at hlast
      rw [List.cons_append, splitAll, ih hlast]
      rw [splitAll, hlast] at h
      split at h
      · rename_i hx
        rw [← List.cons_append, List.append_singleton_inj] at h
        rw [if_pos hx, ← h.1, ← h.2]
        rfl
      · rename_i hx
        rw [if_neg hx]
        cases front with
        | nil =>
            obtain ⟨rfl, hpiece⟩ :=
              List.append_eq_singleton_iff.mp h.symm |>.resolve_right (by simp)
            rw [List.singleton_inj.mp hpiece]
            rfl
        | cons p front =>
            rw [List.cons_append, consHead, ← List.cons_append, List.append_singleton_inj] at h
            rw [← h.1, ← h.2]
            rfl

/-- What a reader of the pieces does not see may stand at both ends of the whole. -/
theorem map_splitAll_pad {sep : α} {f : List α → β} {front back : List α}
    (hfront : sep ∉ front) (hback : sep ∉ back) (hleft : ∀ xs, f (front ++ xs) = f xs)
    (hright : ∀ xs, f (xs ++ back) = f xs) (xs : List α) :
    (splitAll sep (front ++ xs ++ back)).map f = (splitAll sep xs).map f := by
  obtain ⟨piece, pieces, hpieces⟩ := List.exists_cons_of_ne_nil (splitAll_ne_nil sep xs)
  obtain ⟨pieces', last, hlast⟩ :=
    (List.eq_nil_or_concat (splitAll sep (front ++ xs))).resolve_left (splitAll_ne_nil sep _)
  rw [List.concat_eq_append] at hlast
  calc (splitAll sep (front ++ xs ++ back)).map f
      = (splitAll sep (front ++ xs)).map f := by
        rw [splitAll_append_back hback hlast, hlast, List.map_append, List.map_append,
          List.map_singleton, List.map_singleton, hright]
    _ = (splitAll sep xs).map f := by
        rw [splitAll_append_front hfront hpieces, hpieces, List.map_cons, List.map_cons, hleft]

omit [DecidableEq α] in
theorem sublist_intercalate {sep xs : List α} {xss : List (List α)} (h : xs ∈ xss) :
    xs.Sublist (sep.intercalate xss) := by
  induction xss with
  | nil => cases h
  | cons ys xss ih =>
      cases xss with
      | nil => rw [List.mem_singleton.mp h, List.intercalate_singleton]
      | cons zs xss =>
          rw [List.intercalate_cons_cons, List.append_assoc]
          rcases List.mem_cons.mp h with rfl | h
          · exact List.sublist_append_left _ _
          · exact (ih h).trans ((List.sublist_append_right _ _).trans (List.sublist_append_right _ _))

theorem intercalate_splitAll (sep : α) (xs : List α) :
    [sep].intercalate (splitAll sep xs) = xs := by
  have hcons : ∀ x ps, ps ≠ [] →
      [sep].intercalate (consHead x ps) = x :: [sep].intercalate ps := by
    intro x ps hps
    cases ps with
    | nil => exact absurd rfl hps
    | cons p ps => cases ps <;> simp [consHead, List.intercalate]
  induction xs with
  | nil => rfl
  | cons x xs ih =>
      rw [splitAll]
      split
      · rename_i hx
        cases hps : splitAll sep xs with
        | nil => exact absurd hps (splitAll_ne_nil sep xs)
        | cons p ps =>
            rw [hps] at ih
            rw [hx, ← ih]
            simp [List.intercalate]
      · rw [hcons x _ (splitAll_ne_nil sep xs), ih]

theorem sublist_of_mem_splitAll {sep : α} {xs piece : List α} (h : piece ∈ splitAll sep xs) :
    piece.Sublist xs := by
  induction xs generalizing piece with
  | nil =>
      rw [List.mem_singleton.mp h]
  | cons x xs ih =>
      rw [splitAll] at h
      split at h
      · rcases List.mem_cons.mp h with rfl | h
        · exact List.nil_sublist _
        · exact (ih h).cons x
      · cases hps : splitAll sep xs with
        | nil => exact absurd hps (splitAll_ne_nil sep xs)
        | cons p ps =>
            rw [hps] at h ih
            rcases List.mem_cons.mp h with rfl | h
            · exact (ih List.mem_cons_self).cons_cons x
            · exact (ih (List.mem_cons_of_mem p h)).cons x

theorem mem_splitAll_of_mem {sep x : α} {xs : List α} (hx : x ∈ xs) (hne : x ≠ sep) :
    ∃ piece ∈ splitAll sep xs, x ∈ piece := by
  induction xs with
  | nil => cases hx
  | cons y xs ih =>
      rw [splitAll]
      obtain ⟨p, ps, hps⟩ := List.exists_cons_of_ne_nil (splitAll_ne_nil sep xs)
      rcases List.mem_cons.mp hx with rfl | hx
      · rw [if_neg hne, hps]
        exact ⟨x :: p, by simp [consHead], by simp⟩
      · obtain ⟨piece, hpiece, hmem⟩ := ih hx
        split
        · exact ⟨piece, by simp [hpiece], hmem⟩
        · rw [hps] at hpiece ⊢
          rcases List.mem_cons.mp hpiece with rfl | hpiece
          · exact ⟨y :: piece, by simp [consHead], by simp [hmem]⟩
          · exact ⟨piece, by simp [consHead, hpiece], hmem⟩

/-! ## Splitting at a pair of adjacent elements -/

/-- Every piece between non-overlapping occurrences of `a` followed by `b`, found
from the left. -/
def splitPair (a b : α) : List α → List (List α)
  | [] => [[]]
  | [x] => [[x]]
  | x :: y :: rest =>
      if x = a ∧ y = b then [] :: splitPair a b rest
      else consHead x (splitPair a b (y :: rest))

end GooseHttp.Lib
