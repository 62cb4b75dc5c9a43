import GooseHttp.Text
/-!
# What trimming takes off

`trim` strips whole white-space characters.  Their encodings form a code in which none is
the beginning or the end of another, so how often and in what order they are stripped
makes no difference, and text is trimmed alike with and without white space around it.
-/

namespace GooseHttp

open Lib

/-! ## Stripping patterns -/

def IsMadeOf (patterns : List Text) (w : Text) : Prop :=
  ∃ ps : List Text, (∀ p ∈ ps, p ∈ patterns) ∧ w = ps.flatten

/-- No pattern is the beginning of another, and none is empty. -/
def IsCode (patterns : List Text) : Prop :=
  (∀ p ∈ patterns, p ≠ []) ∧ ∀ p ∈ patterns, ∀ q ∈ patterns, p <+: q → p = q

theorem stripOne_some {patterns : List Text} {s rest : Text}
    (h : stripOne patterns s = some rest) : ∃ p ∈ patterns, s = p ++ rest := by
  obtain ⟨p, hp, rfl⟩ := Option.map_eq_some_iff.mp h
  have hprefix : p <+: s := List.isPrefixOf_iff_prefix.mp (by simpa using List.find?_some hp)
  exact ⟨p, List.mem_of_find?_eq_some hp, (List.prefix_iff_eq_append.mp hprefix).symm⟩

theorem stripOne_append {patterns : List Text} (hcode : IsCode patterns) {p : Text}
    (hp : p ∈ patterns) (s : Text) : stripOne patterns (p ++ s) = some s := by
  cases hone : stripOne patterns (p ++ s) with
  | none => exact absurd (List.prefix_append p s) (stripOne_eq_none_iff.mp hone p hp)
  | some rest =>
      obtain ⟨q, hq, heq⟩ := stripOne_some hone
      have hpq : p = q := by
        rcases List.prefix_or_prefix_of_prefix (List.prefix_append p s)
          (heq ▸ List.prefix_append q rest) with h | h
        · exact hcode.2 p hp q hq h
        · exact (hcode.2 q hq p hp h).symm
      rw [hpq, List.append_cancel_left_eq] at heq
      rw [heq]

theorem length_lt_of_stripOne {patterns : List Text} (hcode : IsCode patterns) {s rest : Text}
    (h : stripOne patterns s = some rest) : rest.length < s.length := by
  obtain ⟨p, hp, rfl⟩ := stripOne_some h
  have hpos := List.length_pos_iff.mpr (hcode.1 p hp)
  rw [List.length_append]
  omega

theorem stripMany_fuel {patterns : List Text} (hcode : IsCode patterns) {s : Text} {n m : Nat}
    (hn : s.length ≤ n) (hm : s.length ≤ m) :
    stripMany patterns n s = stripMany patterns m s := by
  induction n generalizing m s with
  | zero =>
      obtain rfl := List.length_eq_zero_iff.mp (Nat.le_zero.mp hn)
      have hnone : stripOne patterns [] = none := by
        rw [stripOne_eq_none_iff]
        exact fun p hp hprefix => hcode.1 p hp (List.prefix_nil.mp hprefix)
      rw [stripMany_of_none _ hnone, stripMany_of_none _ hnone]
  | succ n ih =>
      cases hone : stripOne patterns s with
      | none => rw [stripMany_of_none _ hone, stripMany_of_none _ hone]
      | some rest =>
          have hlt := length_lt_of_stripOne hcode hone
          cases m with
          | zero => omega
          | succ m =>
              rw [stripMany, stripMany, hone]
              exact ih (by omega) (by omega)

theorem stripMany_append {patterns : List Text} (hcode : IsCode patterns) {w : Text}
    (hw : IsMadeOf patterns w) (s : Text) :
    stripMany patterns (w ++ s).length (w ++ s) = stripMany patterns s.length s := by
  obtain ⟨ps, hps, rfl⟩ := hw
  induction ps with
  | nil => rfl
  | cons p ps ih =>
      have hp := hps p (by simp)
      have hpos := List.length_pos_iff.mpr (hcode.1 p hp)
      rw [← ih fun q hq => hps q (by simp [hq]), List.flatten_cons, List.append_assoc]
      obtain ⟨n, hn⟩ : ∃ n, (p ++ (ps.flatten ++ s)).length = n + 1 :=
        ⟨(p ++ (ps.flatten ++ s)).length - 1, by rw [List.length_append]; omega⟩
      rw [hn, stripMany, stripOne_append hcode hp]
      apply stripMany_fuel hcode
      · rw [List.length_append] at hn
        omega
      · exact Nat.le_refl _

/-- What is stripped is made of patterns, and no pattern is left in front. -/
theorem stripMany_eq {patterns : List Text} (hcode : IsCode patterns) (s : Text) :
    ∃ w, IsMadeOf patterns w ∧ s = w ++ stripMany patterns s.length s ∧
      stripOne patterns (stripMany patterns s.length s) = none := by
  induction hlen : s.length using Nat.strongRecOn generalizing s with
  | ind n ih =>
      cases hone : stripOne patterns s with
      | none =>
          rw [stripMany_of_none _ hone]
          exact ⟨[], ⟨[], by simp, rfl⟩, rfl, hone⟩
      | some rest =>
          obtain ⟨p, hp, rfl⟩ := stripOne_some hone
          have hlt := length_lt_of_stripOne hcode hone
          obtain ⟨w, ⟨ps, hps, rfl⟩, hrest, hnone⟩ := ih rest.length (by omega) rest rfl
          have hsame : stripMany patterns n (p ++ rest) = stripMany patterns rest.length rest := by
            rw [← hlen]
            exact stripMany_append hcode ⟨[p], by simpa using hp, by simp⟩ rest
          rw [hsame]
          refine ⟨p ++ ps.flatten, ⟨p :: ps, ?_, rfl⟩, ?_, hnone⟩
          · exact List.forall_mem_cons.mpr ⟨hp, hps⟩
          · rw [List.append_assoc, ← hrest]

theorem stripMany_append_cons {patterns : List Text} (hcode : IsCode patterns) {b : UInt8}
    (hb : ∀ p ∈ patterns, b ∉ p) (a c : Text) :
    stripMany patterns (a ++ b :: c).length (a ++ b :: c) =
      stripMany patterns a.length a ++ b :: c := by
  obtain ⟨w, hw, heq, hnone⟩ := stripMany_eq hcode a
  have hkeep : stripOne patterns (stripMany patterns a.length a ++ b :: c) = none := by
    rw [stripOne_eq_none_iff] at hnone ⊢
    intro p hp hprefix
    by_cases hlen : p.length ≤ (stripMany patterns a.length a).length
    · exact hnone p hp (List.prefix_of_prefix_length_le hprefix (List.prefix_append _ _) hlen)
    · have hfront : stripMany patterns a.length a ++ [b] <+: p := by
        refine List.prefix_of_prefix_length_le ⟨c, by simp⟩ hprefix ?_
        rw [List.length_append, List.length_singleton]
        omega
      exact hb p hp (hfront.subset (by simp))
  conv_lhs => rw [heq, List.append_assoc, stripMany_append hcode hw]
  exact stripMany_of_none _ hkeep

/-! ## White space -/

def IsSpace (w : Text) : Prop := IsMadeOf whiteSpace w

theorem isCode_whiteSpace : IsCode whiteSpace := by
  have hfree : ∀ p ∈ whiteSpace, ∀ q ∈ whiteSpace, p.isPrefixOf q = true → p = q := by
    decide +kernel
  refine ⟨by decide, fun p hp q hq hprefix => ?_⟩
  exact hfree p hp q hq (List.isPrefixOf_iff_prefix.mpr hprefix)

theorem isCode_whiteSpace_reverse : IsCode (whiteSpace.map List.reverse) := by
  have hfree : ∀ p ∈ whiteSpace.map List.reverse, ∀ q ∈ whiteSpace.map List.reverse,
      p.isPrefixOf q = true → p = q := by
    decide +kernel
  refine ⟨by decide, fun p hp q hq hprefix => ?_⟩
  exact hfree p hp q hq (List.isPrefixOf_iff_prefix.mpr hprefix)

theorem isSpace_of_ows {ows : Text} (h : ∀ c ∈ ows, isOws c = true) : IsSpace ows := by
  refine ⟨ows.map fun c => [c], fun p hp => ?_, by simp [← List.flatMap_def]⟩
  obtain ⟨c, hc, rfl⟩ := List.mem_map.mp hp
  rcases isOws_iff.mp (h c hc) with rfl | rfl <;> decide

theorem IsSpace.reverse {w : Text} (h : IsSpace w) :
    IsMadeOf (whiteSpace.map List.reverse) w.reverse := by
  obtain ⟨ps, hps, rfl⟩ := h
  refine ⟨(ps.map List.reverse).reverse, fun p hp => ?_, List.reverse_flatten⟩
  obtain ⟨q, hq, rfl⟩ := List.mem_map.mp (List.mem_reverse.mp hp)
  exact List.mem_map_of_mem (hps q hq)

theorem isSpace_of_reverse {w : Text} (h : IsMadeOf (whiteSpace.map List.reverse) w) :
    IsSpace w.reverse := by
  obtain ⟨ps, hps, rfl⟩ := h
  refine ⟨(ps.map List.reverse).reverse, fun p hp => ?_, List.reverse_flatten⟩
  obtain ⟨q, hq, rfl⟩ := List.mem_map.mp (List.mem_reverse.mp hp)
  obtain ⟨r, hr, rfl⟩ := List.mem_map.mp (hps q hq)
  rwa [List.reverse_reverse]

theorem not_mem_of_isSpace {w : Text} {b : UInt8} (h : IsSpace w) (hb : isGraphic b = true) :
    b ∉ w := by
  have hall : ∀ p ∈ whiteSpace, ∀ c ∈ p, isGraphic c = false := by
    simp [whiteSpace, isGraphic]
  obtain ⟨ps, hps, rfl⟩ := h
  intro hmem
  obtain ⟨p, hp, hbp⟩ := List.mem_flatten.mp hmem
  rw [hall p (hps p hp) b hbp] at hb
  cases hb

theorem head_ne_of_mem_tail : ∀ p ∈ whiteSpace, ∀ b ∈ p.tail, ∀ q ∈ whiteSpace,
    q.head? ≠ some b := by
  simp [whiteSpace]

/-- White space behind text does not complete a character that starts inside it. -/
theorem stripOne_append_space {s w : Text} (hw : IsSpace w) (hne : s ≠ [])
    (h : stripOne whiteSpace s = none) : stripOne whiteSpace (s ++ w) = none := by
  rw [stripOne_eq_none_iff] at h ⊢
  intro p hp hprefix
  by_cases hlen : p.length ≤ s.length
  · exact h p hp (List.prefix_of_prefix_length_le hprefix (List.prefix_append s w) hlen)
  · -- the rest of the character would start with the first byte of the next one
    obtain ⟨u, rfl⟩ : s <+: p :=
      List.prefix_of_prefix_length_le (List.prefix_append s w) hprefix (by omega)
    obtain ⟨ps, hps, rfl⟩ := hw
    obtain ⟨rest, hrest⟩ := hprefix
    rw [List.append_assoc, List.append_cancel_left_eq] at hrest
    cases u with
    | nil => simp at hlen
    | cons b u =>
        cases ps with
        | nil => simp at hrest
        | cons q ps =>
            have hq := hps q (by simp)
            have hhead : q.head? = some b := by
              cases q with
              | nil => exact absurd rfl (isCode_whiteSpace.1 [] hq)
              | cons c q => simpa using (List.cons.inj hrest).1.symm
            refine head_ne_of_mem_tail _ hp b ?_ q hq hhead
            cases s with
            | nil => exact absurd rfl hne
            | cons a s => simp

theorem trimStart_append {w : Text} (hw : IsSpace w) (s : Text) :
    trimStart (w ++ s) = trimStart s := stripMany_append isCode_whiteSpace hw s

theorem trimEnd_append {w : Text} (hw : IsSpace w) (s : Text) :
    trimEnd (s ++ w) = trimEnd s := by
  have h := stripMany_append isCode_whiteSpace_reverse hw.reverse s.reverse
  rw [← List.reverse_append, List.length_reverse, List.length_reverse] at h
  rw [trimEnd, trimEnd, h]

theorem trimStart_eq (s : Text) :
    ∃ w, IsSpace w ∧ s = w ++ trimStart s ∧ stripOne whiteSpace (trimStart s) = none :=
  stripMany_eq isCode_whiteSpace s

theorem trimEnd_eq (s : Text) : ∃ w, IsSpace w ∧ s = trimEnd s ++ w := by
  obtain ⟨w, hw, heq, -⟩ := stripMany_eq isCode_whiteSpace_reverse s.reverse
  refine ⟨w.reverse, isSpace_of_reverse hw, ?_⟩
  rw [List.length_reverse] at heq
  have h := congrArg List.reverse heq
  rwa [List.reverse_reverse, List.reverse_append] at h

theorem trimStart_space {w : Text} (hw : IsSpace w) : trimStart w = [] := by
  have h := trimStart_append hw []
  rwa [List.append_nil] at h

theorem trim_append_left {w : Text} (hw : IsSpace w) (s : Text) : trim (w ++ s) = trim s := by
  rw [trim, trimStart_append hw, trim]

theorem trim_append_right {w : Text} (hw : IsSpace w) (s : Text) : trim (s ++ w) = trim s := by
  obtain ⟨front, hfront, heq, hnone⟩ := trimStart_eq s
  have hstart : trimStart (s ++ w) = trimStart (trimStart s ++ w) := by
    conv_lhs => rw [heq, List.append_assoc, trimStart_append hfront]
  rw [trim, hstart, trim]
  by_cases hne : trimStart s = []
  · rw [hne, List.nil_append, trimStart_space hw]
  · have hkeep : trimStart (trimStart s ++ w) = trimStart s ++ w :=
      stripMany_of_none _ (stripOne_append_space hw hne hnone)
    rw [hkeep, trimEnd_append hw]

theorem trim_of_ends {s front rest : Text} {b c : UInt8} (hfront : s = b :: rest)
    (hback : s = front ++ [c]) (hb : isGraphic b = true) (hc : isGraphic c = true) :
    trim s = s := by
  have hstart : trimStart s = s := by
    have h := @trimStart_ows_graphic [] b rest (by simp) hb
    rw [List.nil_append, ← hfront] at h
    exact h
  have hend : trimEnd s = s := by
    have h := @trimEnd_graphic_ows [] c front (by simp) hc
    rw [← hback] at h
    exact h
  rw [trim, hstart, hend]

theorem trim_eq (s : Text) : ∃ w w', IsSpace w ∧ IsSpace w' ∧ s = w ++ trim s ++ w' := by
  obtain ⟨w, hw, hstart, -⟩ := trimStart_eq s
  obtain ⟨w', hw', hend⟩ := trimEnd_eq (trimStart s)
  refine ⟨w, w', hw, hw', ?_⟩
  rw [List.append_assoc, trim, ← hend, ← hstart]

theorem trim_append_cons {b : UInt8} (hb : isGraphic b = true) (a c : Text) :
    trim (a ++ b :: c) = trimStart a ++ b :: trimEnd c := by
  have hspace : ∀ p ∈ whiteSpace, b ∉ p := by
    intro p hp
    apply not_mem_of_isSpace ⟨[p], by simpa using hp, by simp⟩ hb
  have hstart : trimStart (a ++ b :: c) = trimStart a ++ b :: c :=
    stripMany_append_cons isCode_whiteSpace hspace a c
  have hback : ∀ p ∈ whiteSpace.map List.reverse, b ∉ p := by
    intro p hp
    obtain ⟨q, hq, rfl⟩ := List.mem_map.mp hp
    simpa using hspace q hq
  have hend := stripMany_append_cons isCode_whiteSpace_reverse hback c.reverse
    (trimStart a).reverse
  have hrev : (trimStart a ++ b :: c).reverse = c.reverse ++ b :: (trimStart a).reverse := by
    simp
  rw [trim, hstart, trimEnd, ← List.length_reverse, hrev, hend, List.reverse_append,
    List.reverse_cons, List.reverse_reverse, List.length_reverse, List.append_assoc]
  rfl

theorem trim_trimStart (s : Text) : trim (trimStart s) = trim s := by
  obtain ⟨w, hw, heq, -⟩ := trimStart_eq s
  have h := trim_append_left hw (trimStart s)
  rw [← heq] at h
  exact h.symm

theorem trim_trimEnd (s : Text) : trim (trimEnd s) = trim s := by
  obtain ⟨w, hw, heq⟩ := trimEnd_eq s
  have h := trim_append_right hw (trimEnd s)
  rw [← heq] at h
  exact h.symm

theorem trim_eq_nil_iff {s : Text} : trim s = [] ↔ IsSpace s := by
  constructor
  · intro h
    obtain ⟨w, w', ⟨ps, hps, rfl⟩, ⟨qs, hqs, rfl⟩, heq⟩ := trim_eq s
    rw [h, List.append_nil] at heq
    refine ⟨ps ++ qs, fun p hp => ?_, by rw [heq, List.flatten_append]⟩
    rcases List.mem_append.mp hp with hp | hp
    · exact hps p hp
    · exact hqs p hp
  · intro h
    have htrim := trim_append_left h []
    rw [List.append_nil] at htrim
    rw [htrim]
    rfl

theorem trim_idem (s : Text) : trim (trim s) = trim s := by
  obtain ⟨w, w', hw, hw', heq⟩ := trim_eq s
  have h := trim_append_right hw' (w ++ trim s)
  rw [← heq, trim_append_left hw] at h
  exact h.symm

theorem trim_trimOws (s : Text) : trim (trimOws s) = trim s := by
  obtain ⟨ows, ows', heq, hows, hows'⟩ := trimOws_eq s
  have h := trim_append_right (isSpace_of_ows hows') (ows ++ trimOws s)
  rw [← heq, trim_append_left (isSpace_of_ows hows)] at h
  exact h.symm

theorem trim_sublist (s : Text) : (trim s).Sublist s := by
  obtain ⟨w, w', -, -, heq⟩ := trim_eq s
  conv_rhs => rw [heq]
  exact (List.sublist_append_right w _).trans (List.sublist_append_left _ w')

theorem count_trim (s : Text) {b : UInt8} (hb : isGraphic b = true) :
    (trim s).count b = s.count b := by
  obtain ⟨w, w', hw, hw', heq⟩ := trim_eq s
  conv_rhs => rw [heq]
  rw [List.count_append, List.count_append, List.count_eq_zero.mpr (not_mem_of_isSpace hw hb),
    List.count_eq_zero.mpr (not_mem_of_isSpace hw' hb), Nat.zero_add, Nat.add_zero]

theorem trimStart_eq_nil_iff {s : Text} : trimStart s = [] ↔ IsSpace s := by
  refine ⟨fun h => ?_, trimStart_space⟩
  rw [← trim_eq_nil_iff, ← trim_trimStart, h]
  rfl

theorem trimEnd_eq_nil_iff {s : Text} : trimEnd s = [] ↔ IsSpace s := by
  constructor
  · intro h
    rw [← trim_eq_nil_iff, ← trim_trimEnd, h]
    rfl
  · intro h
    have hend := trimEnd_append h []
    rw [List.nil_append] at hend
    exact hend

theorem trimOws_trim (s : Text) : trimOws (trim s) = trim s := by
  obtain ⟨ows, ows', heq, -, -⟩ := trimOws_eq (trim s)
  have hshort := (trim_sublist (trimOws (trim s))).length_le
  rw [trim_trimOws, trim_idem] at hshort
  have hlen := congrArg List.length heq
  simp only [List.length_append] at hlen
  obtain rfl : ows = [] := List.length_eq_zero_iff.mp (by omega)
  obtain rfl : ows' = [] := List.length_eq_zero_iff.mp (by omega)
  rw [List.nil_append, List.append_nil] at heq
  exact heq.symm

theorem ows_of_isSpace {w : Text} (hw : IsSpace w)
    (h : ∀ b ∈ w, isOws b = true ∨ isGraphic b = true) : ∀ b ∈ w, isOws b = true := by
  intro b hb
  exact (h b hb).resolve_right fun hgraphic => not_mem_of_isSpace hw hgraphic hb

theorem trim_eq_of_visible {s : Text} (h : ∀ b ∈ s, isOws b = true ∨ isGraphic b = true) :
    ∃ w w', (∀ b ∈ w, isOws b = true) ∧ (∀ b ∈ w', isOws b = true) ∧ s = w ++ trim s ++ w' := by
  obtain ⟨w, w', hw, hw', heq⟩ := trim_eq s
  have hmem : ∀ b, b ∈ w ∨ b ∈ w' → b ∈ s := by
    intro b hb
    rw [heq, List.append_assoc, List.mem_append, List.mem_append]
    exact hb.imp_right Or.inr
  refine ⟨w, w', ?_, ?_, heq⟩
  · exact ows_of_isSpace hw fun b hb => h b (hmem b (Or.inl hb))
  · exact ows_of_isSpace hw' fun b hb => h b (hmem b (Or.inr hb))

/-- Visible text with spaces and tabs is trimmed alike for both notions of white space. -/
theorem trimOws_eq_trim {s : Text} (h : ∀ b ∈ s, isOws b = true ∨ isGraphic b = true) :
    trimOws s = trim s := by
  obtain ⟨w, w', hfront, hback, heq⟩ := trim_eq_of_visible h
  conv_lhs => rw [heq]
  exact trimOws_pad hfront (trimOws_trim s) hback

/-! ## Lists whose members are trimmed -/

theorem splitAll_trim (s : Text) :
    (splitAll 44 (trim s)).map trim = (splitAll 44 s).map trim := by
  obtain ⟨w, w', hw, hw', heq⟩ := trim_eq s
  conv_rhs => rw [heq]
  exact (map_splitAll_pad (not_mem_of_isSpace hw (by decide)) (not_mem_of_isSpace hw' (by decide))
    (trim_append_left hw) (trim_append_right hw') _).symm

theorem splitAll_trimOws (s : Text) :
    (splitAll 44 (trimOws s)).map trim = (splitAll 44 s).map trim := by
  rw [← splitAll_trim, trim_trimOws, splitAll_trim]

theorem trimOws_append {ows ows' : Text} (hows : ∀ c ∈ ows, isOws c = true)
    (hows' : ∀ c ∈ ows', isOws c = true) (s : Text) : trimOws (ows ++ s ++ ows') = trimOws s := by
  obtain ⟨front, back, heq, hfront, hback⟩ := trimOws_eq s
  have hall : ows ++ s ++ ows' = (ows ++ front) ++ trimOws s ++ (back ++ ows') := by
    conv_lhs => rw [heq]
    simp only [List.append_assoc]
  rw [hall]
  exact trimOws_pad (List.forall_mem_append.mpr ⟨hows, hfront⟩) (trimOws_idem s)
    (List.forall_mem_append.mpr ⟨hback, hows'⟩)

theorem splitAll_trimOws_trimOws (s : Text) :
    (splitAll 44 (trimOws s)).map trimOws = (splitAll 44 s).map trimOws := by
  obtain ⟨ows, ows', heq, hows, hows'⟩ := trimOws_eq s
  have hcomma : ∀ w : Text, (∀ c ∈ w, isOws c = true) → (44 : UInt8) ∉ w :=
    fun w hw hmem => absurd (hw 44 hmem) (by decide)
  conv_rhs => rw [heq]
  refine (map_splitAll_pad (hcomma ows hows) (hcomma ows' hows') (fun xs => ?_)
    (fun xs => ?_) _).symm
  · simpa using trimOws_append hows (List.forall_mem_nil _) xs
  · simpa using trimOws_append (List.forall_mem_nil _) hows' xs

end GooseHttp
