import GooseHttp.Parse.AcceptedHead
/-!
# Heads as they stand on the wire

The head of a message ends at its first empty line, whoever wrote that line.  A text with a
line end inside makes lines of its own, and one with two in a row ends the head early; here
is what a reader of the bytes finds then.  A line is a field of its own: folded lines, which
HTTP/1.1 gave up, are not put together.
-/

namespace GooseHttp

open Lib

/-! ## Texts with line ends inside -/

def linesOf (texts : List Text) : List Text := texts.flatMap (splitPair CR LF)

/-- The fields they make, up to the first empty line. -/
def shownFields (texts : List Text) : List (HeaderName × Text) :=
  ((linesOf texts).tail.takeWhile fun line => line ≠ []).filterMap rawField

/-- What they put behind that line. -/
def cutOff (texts : List Text) : Bytes :=
  match (linesOf texts).dropWhile fun line => line ≠ [] with
  | [] => []
  | _ :: lines => headText lines

def contentOf (bytes : Bytes) : Option Bytes := (findHeadersEnd bytes).map bytes.drop

theorem linesOf_cons (text : Text) (texts : List Text) :
    linesOf (text :: texts) = splitPair CR LF text ++ linesOf texts := List.flatMap_cons

theorem linesOf_append (texts texts' : List Text) :
    linesOf (texts ++ texts') = linesOf texts ++ linesOf texts' := List.flatMap_append

theorem linesOf_ne_nil {texts : List Text} (h : texts ≠ []) : linesOf texts ≠ [] := by
  cases texts with
  | nil => exact absurd rfl h
  | cons text texts =>
      rw [linesOf_cons]
      exact List.append_ne_nil_of_left_ne_nil (splitPair_ne_nil _ _ _) _

theorem headText_linesOf (texts : List Text) : headText (linesOf texts) = headText texts := by
  rw [headText_eq, linesOf, unlines_flatMap_splitPair, headText_eq]

theorem splitPair_headText (texts : List Text) (rest : Bytes) :
    splitPair CR LF (headText texts ++ rest) =
      linesOf texts ++ [] :: splitPair CR LF rest := by
  rw [headText_eq, List.append_assoc, splitPair_unlines_texts cr_ne_lf, linesOf]
  exact congrArg _ (splitPair_append_pair cr_ne_lf [] rest)

theorem takeWhile_append_nil (lines more : List Text) :
    (lines ++ [] :: more).takeWhile (fun line => line ≠ []) =
      lines.takeWhile fun line => line ≠ [] := by
  induction lines with
  | nil => rfl
  | cons line lines ih =>
      rw [List.cons_append, List.takeWhile_cons, List.takeWhile_cons, ih]

theorem rawFields_headText_texts {texts : List Text} (rest : Bytes) (h : texts ≠ []) :
    rawFields (headText texts ++ rest) = shownFields texts := by
  rw [rawFields, fieldLines, splitPair_headText, List.tail_append_of_ne_nil (linesOf_ne_nil h),
    takeWhile_append_nil, shownFields]

/-- A head that an empty line ends early leaves the rest of its texts to the body. -/
theorem contentOf_headText {text : Text} {texts : List Text} (rest : Bytes)
    (hfirst : (splitPair CR LF text).head? ≠ some []) :
    contentOf (headText (text :: texts) ++ rest) = some (cutOff (text :: texts) ++ rest) := by
  obtain ⟨front, hfront⟩ : ∃ front, front = (linesOf (text :: texts)).takeWhile
    fun line => line ≠ [] := ⟨_, rfl⟩
  obtain ⟨back, hback⟩ : ∃ back, back = (linesOf (text :: texts)).dropWhile
    fun line => line ≠ [] := ⟨_, rfl⟩
  have hlines : linesOf (text :: texts) = front ++ back := by
    rw [hfront, hback, List.takeWhile_append_dropWhile]
  have hne : front ≠ [] := by
    rw [hfront, linesOf_cons]
    cases hsplit : splitPair CR LF text with
    | nil => exact absurd hsplit (splitPair_ne_nil _ _ _)
    | cons line lines =>
        rw [hsplit] at hfirst
        have hline : line ≠ [] := fun hnil => hfirst (congrArg some hnil)
        simp [hline]
  have hsection : ∀ line ∈ front, line ≠ [] ∧ ¬ CRLF <:+: line := by
    intro line hline
    rw [hfront] at hline
    obtain ⟨t, -, hmem⟩ := List.mem_flatMap.mp ((List.takeWhile_sublist _).subset hline)
    exact ⟨by simpa using List.mem_takeWhile_imp hline, not_infix_of_mem_splitPair hmem⟩
  have hcontent : headText (text :: texts) = headText front ++ cutOff (text :: texts) := by
    rw [← headText_linesOf, hlines, cutOff, ← hback]
    cases hcase : back with
    | nil => simp
    | cons line lines =>
        have hnil : line = [] := by
          have hhead := List.head?_dropWhile_not (fun line : Text => decide (line ≠ []))
            (linesOf (text :: texts))
          rw [← hback, hcase] at hhead
          simpa using hhead
        rw [hnil]
        simp [headText]
  rw [contentOf, hcontent, List.append_assoc, findHeadersEnd_section _ hne hsection,
    Option.map_some, List.drop_left]

/-! ## Texts that make no empty line -/

theorem cutOff_eq_nil_iff {texts : List Text} : cutOff texts = [] ↔ [] ∉ linesOf texts := by
  rw [cutOff]
  have hhead : ∀ lines, headText lines ≠ [] := fun lines => by simp [headText, CRLF]
  split
  · rename_i hnil
    rw [List.dropWhile_eq_nil_iff] at hnil
    simp only [true_iff]
    exact fun hmem => by simpa using hnil _ hmem
  · rename_i line lines hcons
    have hnot : ¬ ∀ x ∈ linesOf texts, decide (x ≠ []) = true := by
      rw [← List.dropWhile_eq_nil_iff, hcons]
      exact List.cons_ne_nil _ _
    simp only [hhead, false_iff, not_not]
    by_contra hmem
    refine hnot fun x hx => decide_eq_true ?_
    rintro rfl
    exact hmem hx

theorem shownFields_of_no_empty {text : Text} {texts : List Text}
    (h : [] ∉ linesOf (text :: texts)) :
    shownFields (text :: texts) =
      ((splitPair CR LF text).tail ++ linesOf texts).filterMap rawField := by
  rw [shownFields, linesOf_cons, List.tail_append_of_ne_nil (splitPair_ne_nil _ _ _),
    List.takeWhile_eq_self_iff.mpr]
  intro line hline
  refine decide_eq_true ?_
  rintro rfl
  refine h ?_
  rw [linesOf_cons, ← List.tail_append_of_ne_nil (splitPair_ne_nil CR LF text)] at *
  exact List.mem_of_mem_tail hline

end GooseHttp
