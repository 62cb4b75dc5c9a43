import GooseHttp.Lib.Search
/-!
# Lines ended by a pair

Text cut into lines at a pair of adjacent elements, and put together again.  A line is
a piece without the pair; a line that merely ends or starts with one half of it is a line
all the same, so nothing here asks that the halves be absent.
-/

namespace GooseHttp.Lib

variable {α : Type} [DecidableEq α]

/-! ## Cutting -/

@[simp] theorem splitPair_ne_nil (a b : α) (xs : List α) : splitPair a b xs ≠ [] := by
  fun_cases splitPair a b xs <;> simp_all

theorem splitPair_append_pair {a b : α} (hab : a ≠ b) (xs rest : List α) :
    splitPair a b (xs ++ a :: b :: rest) = splitPair a b xs ++ splitPair a b rest := by
  have hrest : splitPair a b (a :: b :: rest) = [] :: splitPair a b rest := by
    simp [splitPair]
  fun_induction splitPair a b xs with
  | case1 => exact hrest
  | case2 x =>
      rw [List.cons_append, List.nil_append, splitPair, if_neg (fun h => hab h.2), hrest]
      rfl
  | case3 x y ys h ih =>
      rw [List.cons_append, List.cons_append, splitPair, if_pos h, ih]
      rfl
  | case4 x y ys h ih =>
      rw [List.cons_append] at ih
      rw [List.cons_append, List.cons_append, splitPair, if_neg h, ih,
        consHead_append _ (splitPair_ne_nil a b _)]

theorem splitPair_of_not_infix {a b : α} {xs : List α} (h : ¬ [a, b] <:+: xs) :
    splitPair a b xs = [xs] := by
  fun_induction splitPair a b xs with
  | case1 => rfl
  | case2 x => rfl
  | case3 x y ys hxy =>
      obtain ⟨rfl, rfl⟩ := hxy
      exact absurd ⟨[], ys, rfl⟩ h
  | case4 x y ys hxy ih =>
      rw [ih fun hin => h (List.infix_cons hin)]
      rfl

theorem splitPair_front (a b : α) (xs : List α) :
    ∃ p ps, splitPair a b xs = p :: ps ∧ p <+: xs := by
  fun_induction splitPair a b xs with
  | case1 => exact ⟨[], [], rfl, List.prefix_refl _⟩
  | case2 x => exact ⟨[x], [], rfl, List.prefix_refl _⟩
  | case3 x y ys hxy => exact ⟨[], _, rfl, List.nil_prefix⟩
  | case4 x y ys hxy ih =>
      obtain ⟨p, ps, hps, hp⟩ := ih
      exact ⟨x :: p, ps, by rw [hps]; rfl, List.cons_prefix_cons.mpr ⟨rfl, hp⟩⟩

omit [DecidableEq α] in
theorem not_pair_infix_nil (a b : α) : ¬ [a, b] <:+: [] :=
  fun h => by simpa using h.length_le

omit [DecidableEq α] in
theorem not_pair_infix_singleton (a b x : α) : ¬ [a, b] <:+: [x] :=
  fun h => by simpa using h.length_le

theorem not_infix_of_mem_splitPair {a b : α} {xs piece : List α}
    (h : piece ∈ splitPair a b xs) : ¬ [a, b] <:+: piece := by
  fun_induction splitPair a b xs generalizing piece with
  | case1 =>
      rw [List.mem_singleton.mp h]
      exact not_pair_infix_nil a b
  | case2 x =>
      rw [List.mem_singleton.mp h]
      exact not_pair_infix_singleton a b x
  | case3 x y ys hxy ih =>
      rcases List.mem_cons.mp h with rfl | h
      · exact not_pair_infix_nil a b
      · exact ih h
  | case4 x y ys hxy ih =>
      obtain ⟨p, ps, hps, hfront⟩ := splitPair_front a b (y :: ys)
      rw [hps] at h ih
      rcases List.mem_cons.mp h with rfl | h
      · rw [List.infix_cons_iff, not_or]
        refine ⟨fun hpre => hxy ?_, ih (by simp)⟩
        obtain ⟨rfl, hb⟩ := List.cons_prefix_cons.mp hpre
        exact ⟨rfl, (List.cons_prefix_cons.mp (hb.trans hfront)).1.symm⟩
      · exact ih (by simp [h])

omit [DecidableEq α] in
theorem pair_infix_of_append {a b : α} {xs ys : List α} (hb : b ∉ ys)
    (h : [a, b] <:+: xs ++ ys) : [a, b] <:+: xs := by
  induction xs with
  | nil => exact absurd (h.subset (by simp)) hb
  | cons x xs ih =>
      rw [List.cons_append, List.infix_cons_iff] at h
      rcases h with hpre | hin
      · obtain ⟨rfl, htail⟩ := List.cons_prefix_cons.mp hpre
        cases xs with
        | nil => exact absurd (htail.subset (by simp)) hb
        | cons y xs =>
            obtain ⟨rfl, -⟩ := List.cons_prefix_cons.mp htail
            exact ⟨[], xs, rfl⟩
      · exact List.infix_cons (ih hin)

omit [DecidableEq α] in
theorem pair_infix_append_cons {a b s : α} {xs ys : List α} (ha : a ≠ s) (hb : b ≠ s) :
    [a, b] <:+: xs ++ s :: ys ↔ [a, b] <:+: xs ∨ [a, b] <:+: ys := by
  induction xs with
  | nil =>
      have hfront : ¬ [a, b] <+: s :: ys := fun h => ha (List.cons_prefix_cons.mp h).1
      rw [List.nil_append, List.infix_cons_iff, or_iff_right hfront,
        or_iff_right (not_pair_infix_nil a b)]
  | cons x xs ih =>
      have hfront : [a, b] <+: x :: (xs ++ s :: ys) ↔ [a, b] <+: x :: xs := by
        cases xs with
        | nil => simp [hb]
        | cons y xs => simp
      rw [List.cons_append, List.infix_cons_iff, List.infix_cons_iff, hfront, ih, or_assoc]

/-! ## Putting together -/

def unlines (a b : α) (lines : List (List α)) : List α := lines.flatMap (· ++ [a, b])

omit [DecidableEq α] in
@[simp] theorem unlines_nil (a b : α) : unlines a b [] = [] := rfl

omit [DecidableEq α] in
theorem unlines_cons (a b : α) (line : List α) (lines : List (List α)) :
    unlines a b (line :: lines) = line ++ a :: b :: unlines a b lines := by
  simp [unlines]

omit [DecidableEq α] in
theorem unlines_append (a b : α) (lines lines' : List (List α)) :
    unlines a b (lines ++ lines') = unlines a b lines ++ unlines a b lines' := by
  simp [unlines]

omit [DecidableEq α] in
theorem unlines_consHead (a b x : α) {ps : List (List α)} (h : ps ≠ []) :
    unlines a b (consHead x ps) = x :: unlines a b ps := by
  cases ps with
  | nil => exact absurd rfl h
  | cons p ps => simp [consHead, unlines_cons]

theorem unlines_splitPair (a b : α) (xs : List α) :
    unlines a b (splitPair a b xs) = xs ++ [a, b] := by
  fun_induction splitPair a b xs with
  | case1 => rfl
  | case2 x => rfl
  | case3 x y ys hxy ih =>
      obtain ⟨rfl, rfl⟩ := hxy
      rw [unlines_cons, ih]
      rfl
  | case4 x y ys hxy ih =>
      rw [unlines_consHead a b x (splitPair_ne_nil a b _), ih]
      rfl

/-- Lines are cut as they were put together. -/
theorem splitPair_unlines {a b : α} (hab : a ≠ b) {lines : List (List α)} (rest : List α)
    (h : ∀ line ∈ lines, ¬ [a, b] <:+: line) :
    splitPair a b (unlines a b lines ++ rest) = lines ++ splitPair a b rest := by
  induction lines with
  | nil => rfl
  | cons line lines ih =>
      rw [unlines_cons, List.append_assoc]
      show splitPair a b (line ++ a :: b :: (unlines a b lines ++ rest)) = _
      rw [splitPair_append_pair hab, splitPair_of_not_infix (h line (by simp)),
        ih fun l hl => h l (by simp [hl])]
      rfl

theorem splitPair_unlines_texts {a b : α} (hab : a ≠ b) (texts : List (List α))
    (rest : List α) :
    splitPair a b (unlines a b texts ++ rest) =
      texts.flatMap (splitPair a b) ++ splitPair a b rest := by
  induction texts with
  | nil => rfl
  | cons text texts ih =>
      rw [unlines_cons, List.append_assoc, List.cons_append, List.cons_append,
        splitPair_append_pair hab, ih, List.flatMap_cons, List.append_assoc]

theorem unlines_flatMap_splitPair (a b : α) (texts : List (List α)) :
    unlines a b (texts.flatMap (splitPair a b)) = unlines a b texts := by
  induction texts with
  | nil => rfl
  | cons text texts ih =>
      rw [List.flatMap_cons, unlines_append, unlines_splitPair, ih, unlines_cons,
        List.append_assoc]
      rfl

theorem head?_of_splitPair_nil {a b x : α} {xs : List α}
    (h : (splitPair a b (x :: xs)).head? = some []) : x = a := by
  obtain ⟨ps, hps⟩ : ∃ ps, splitPair a b (x :: xs) = [] :: ps := by
    cases hsplit : splitPair a b (x :: xs) with
    | nil => exact absurd hsplit (splitPair_ne_nil a b _)
    | cons p ps =>
        rw [hsplit] at h
        exact ⟨ps, by rw [Option.some.inj h]⟩
  have hwhole := unlines_splitPair a b (x :: xs)
  rw [hps, unlines_cons] at hwhole
  exact (List.cons.inj hwhole).1.symm

/-! ## The end of a section -/

omit [DecidableEq α] in
theorem not_front_of_line {a b : α} {line : List α} (ps rest : List α) (hab : a ≠ b)
    (hne : line ≠ []) (h : ¬ [a, b] <:+: line) : ¬ a :: b :: ps <+: line ++ a :: rest := by
  intro hpre
  match line, hne with
  | [x], _ =>
      have htail := (List.cons_prefix_cons.mp hpre).2
      exact hab (List.cons_prefix_cons.mp htail).1.symm
  | x :: y :: line, _ =>
      obtain ⟨hx, htail⟩ := List.cons_prefix_cons.mp hpre
      have hy := (List.cons_prefix_cons.mp htail).1
      exact h ⟨[], line, by rw [hx, hy]; rfl⟩

theorem findWindow_skip_line {a b : α} {line : List α} (ps rest : List α) (hab : a ≠ b)
    (h : ¬ [a, b] <:+: line) :
    findWindow (a :: b :: ps) (line ++ a :: rest) =
      (findWindow (a :: b :: ps) (a :: rest)).map (· + line.length) := by
  induction line with
  | nil => simp
  | cons x line ih =>
      have hnot := not_front_of_line ps rest hab (List.cons_ne_nil x line) h
      rw [List.cons_append] at hnot ⊢
      rw [findWindow_cons_of_not_front hnot, ih fun hin => h (List.infix_cons hin),
        Option.map_map]
      rfl

/-- A section of non-empty lines ends at its first empty line. -/
theorem findWindow_unlines {a b : α} (hab : a ≠ b) {lines : List (List α)} (rest : List α)
    (hne : lines ≠ []) (h : ∀ line ∈ lines, line ≠ [] ∧ ¬ [a, b] <:+: line) :
    (findWindow [a, b, a, b] (unlines a b lines ++ a :: b :: rest)).map (· + 2) =
      some (unlines a b lines).length := by
  induction lines with
  | nil => exact absurd rfl hne
  | cons line lines ih =>
      obtain ⟨-, hline⟩ := h line (by simp)
      have hskip := findWindow_skip_line [a, b]
        (b :: (unlines a b lines ++ a :: b :: rest)) hab hline
      rw [unlines_cons, List.append_assoc]
      simp only [List.cons_append]
      rw [hskip]
      cases lines with
      | nil =>
          have hfront : findWindow [a, b, a, b] (a :: b :: a :: b :: rest) = some 0 :=
            findWindow_front (by simp) ⟨rest, rfl⟩
          rw [unlines_nil, List.nil_append, hfront]
          simp
      | cons next lines =>
          have ih := ih (by simp) fun l hl => h l (by simp [hl])
          obtain ⟨hnext, hpair⟩ := h next (by simp)
          have htail : ¬ [a, b] <+: unlines a b (next :: lines) ++ a :: b :: rest := by
            rw [unlines_cons, List.append_assoc]
            exact not_front_of_line [] _ hab hnext hpair
          have hfirst : ¬ [a, b, a, b] <+:
              a :: b :: (unlines a b (next :: lines) ++ a :: b :: rest) := by
            intro hpre
            exact htail (List.cons_prefix_cons.mp (List.cons_prefix_cons.mp hpre).2).2
          have hsecond : ¬ [a, b, a, b] <+:
              b :: (unlines a b (next :: lines) ++ a :: b :: rest) := by
            intro hpre
            exact hab (List.cons_prefix_cons.mp hpre).1
          obtain ⟨i, hi, hlen⟩ := Option.map_eq_some_iff.mp ih
          rw [findWindow_cons_of_not_front hfirst, findWindow_cons_of_not_front hsecond, hi]
          simp only [Option.map_some, List.length_append, List.length_cons, Option.some.injEq]
          omega

end GooseHttp.Lib
