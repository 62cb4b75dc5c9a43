import GooseHttp.EntityTag
/-!
# Comparing entity tags

A list of tags is cut at its commas, whether they stand between tags or inside of quotes,
and weak tags are compared with strong ones by their text.  The two comparisons of the
server are therefore those of entity tags for some lists and tags only.
-/

namespace GooseHttp

open Lib

/-- A field value that spells a list of tags out, with any optional white space around its
commas and any empty elements. -/
def IsListOf (value : Text) (tags : List EntityTag) : Prop :=
  ∃ items : List Text, items ≠ [] ∧ value = [44].intercalate items ∧
    (items.map trimOws).filter (fun item => item ≠ []) = tags.map EntityTag.text

namespace EntityTag

def quoted (tag : EntityTag) : Text := 34 :: tag.characters ++ [34]

theorem text_eq (tag : EntityTag) :
    tag.text = (if tag.weak then ascii "W/" else []) ++ tag.quoted := List.append_assoc _ _ _

theorem not_mem_characters (tag : EntityTag) : (34 : UInt8) ∉ tag.characters := by
  intro hmem
  have hvalid := tag.valid 34 hmem
  revert hvalid
  decide

theorem count_quoted (tag : EntityTag) : tag.quoted.count 34 = 2 := by
  rw [quoted, List.cons_append, List.count_cons_self, List.count_append,
    List.count_eq_zero_of_not_mem tag.not_mem_characters]
  rfl

theorem quoted_inj {a b : EntityTag} : a.quoted = b.quoted ↔ a.characters = b.characters := by
  simp [quoted]

theorem weak_of_text_eq {a b : EntityTag} (h : a.text = b.text) : a.weak = b.weak := by
  have hhead := congrArg List.head? h
  cases ha : a.weak <;> cases hb : b.weak <;>
    simp [text, ha, hb, ascii] at hhead ⊢

theorem trimOws_text (tag : EntityTag) : trimOws tag.text = tag.text := by
  rw [text_eq, quoted]
  split
  · exact trimOws_of_ends (b := 87) (c := 34) (47 :: 34 :: tag.characters) (by decide) (by decide)
  · exact trimOws_of_ends (b := 34) (c := 34) tag.characters (by decide) (by decide)

theorem isCode_weakPrefix : IsCode [ascii "W/"] := by
  refine ⟨by decide, fun p hp q hq _ => ?_⟩
  rw [List.mem_singleton.mp hp, List.mem_singleton.mp hq]

theorem trimWeak_quoted (tag : EntityTag) : trimWeak tag.quoted = tag.quoted :=
  @trimWeak_of_strong ⟨false, tag.characters, tag.valid⟩ rfl

theorem trimWeak_text (tag : EntityTag) : trimWeak tag.text = tag.quoted := by
  have hmade : IsMadeOf [ascii "W/"] (if tag.weak then ascii "W/" else []) := by
    split
    · exact ⟨[ascii "W/"], by simp, by simp⟩
    · exact ⟨[], by simp, rfl⟩
  rw [text_eq, trimWeak, stripMany_append isCode_weakPrefix hmade]
  exact tag.trimWeak_quoted

theorem sameTag_weak_iff {a b : EntityTag} :
    sameTag false a.text b.text = true ↔ a.characters = b.characters := by
  simp only [sameTag, Bool.false_eq_true, if_false]
  rw [weakEtagEqual_iff, trimWeak_text, trimWeak_text, quoted_inj]

theorem sameTag_strong_iff {a b : EntityTag} :
    sameTag true a.text b.text = true ↔ a = b := by
  simp only [sameTag, if_true, decide_eq_true_eq]
  exact ⟨fun h => text_injective h (weak_of_text_eq h), congrArg text⟩

theorem count_of_sameTag {m : Text} {tag : EntityTag} {strong : Bool}
    (h : sameTag strong m tag.text = true) : 2 ≤ m.count 34 := by
  cases strong with
  | true =>
      simp only [sameTag, if_true, decide_eq_true_eq] at h
      rw [h, text_eq, List.count_append, tag.count_quoted]
      omega
  | false =>
      simp only [sameTag, Bool.false_eq_true, if_false] at h
      rw [weakEtagEqual_iff, trimWeak_text] at h
      obtain ⟨w, -, heq, -⟩ := stripMany_eq isCode_weakPrefix m
      have hcount := congrArg (List.count 34) heq
      rw [← trimWeak, h, List.count_append, tag.count_quoted] at hcount
      omega

end EntityTag

/-! ## The members of a list of tags -/

theorem count_ows {s : Text} (h : ∀ c ∈ s, isOws c = true) (b : UInt8) (hb : isOws b = false) :
    s.count b = 0 := by
  apply List.count_eq_zero_of_not_mem
  intro hmem
  rw [h b hmem] at hb
  cases hb

theorem isOws_of_trimOws_nil {s : Text} (h : trimOws s = []) : ∀ c ∈ s, isOws c = true := by
  obtain ⟨ows, ows', heq, hows, hows'⟩ := trimOws_eq s
  rw [h, List.append_nil] at heq
  intro c hc
  rw [heq] at hc
  exact (List.mem_append.mp hc).elim (hows c) (hows' c)

theorem count_piece_of_comma {item piece : Text} {tag : EntityTag}
    (hitem : trimOws item = tag.text) (hcomma : (44 : UInt8) ∈ tag.characters)
    (hpiece : piece ∈ splitAll 44 item) : piece.count 34 ≤ 1 := by
  obtain ⟨ows, ows', heq, hows, hows'⟩ := trimOws_eq item
  obtain ⟨a, b, hchars⟩ := List.append_of_mem hcomma
  have hnot := tag.not_mem_characters
  rw [hchars] at hnot
  have ha : a.count 34 = 0 := List.count_eq_zero_of_not_mem fun h => hnot (by simp [h])
  have hb : b.count 34 = 0 := List.count_eq_zero_of_not_mem fun h => hnot (by simp [h])
  have hows₀ := count_ows hows 34 (by decide)
  have hows₁ := count_ows hows' 34 (by decide)
  have hweak : ((if tag.weak then ascii "W/" else []) : Text).count 34 = 0 := by
    split <;> decide
  have hcut : item = ows ++ ((if tag.weak then ascii "W/" else []) ++ 34 :: a) ++
      44 :: (b ++ 34 :: ows') := by
    rw [heq, hitem, EntityTag.text_eq, EntityTag.quoted, hchars]
    simp
  rw [hcut, splitAll_append_sep] at hpiece
  rcases List.mem_append.mp hpiece with h | h
  · have hle := (sublist_of_mem_splitAll h).count_le 34
    rw [List.count_append, List.count_append, List.count_cons_self, ha, hows₀, hweak] at hle
    omega
  · have hle := (sublist_of_mem_splitAll h).count_le 34
    rw [List.count_append, List.count_cons_self, hb, hows₁] at hle
    omega

theorem splitAll_of_no_comma {item : Text} {tag : EntityTag} (hitem : trimOws item = tag.text)
    (hcomma : (44 : UInt8) ∉ tag.characters) : splitAll 44 item = [item] := by
  apply splitAll_of_not_mem
  obtain ⟨ows, ows', heq, hows, hows'⟩ := trimOws_eq item
  have hout : ∀ s : Text, (∀ c ∈ s, isOws c = true) → (44 : UInt8) ∉ s := by
    intro s hs hmem
    exact absurd (hs 44 hmem) (by decide)
  have htext : (44 : UInt8) ∉ tag.text := by
    rw [EntityTag.text_eq, EntityTag.quoted]
    split <;> simp [hcomma, ascii]
  rw [heq, hitem]
  simp [htext, hout ows hows, hout ows' hows']

namespace IsListOf

theorem item_cases {items : List Text} {tags : List EntityTag}
    (h : (items.map trimOws).filter (fun item => item ≠ []) = tags.map EntityTag.text)
    {item : Text} (hitem : item ∈ items) :
    (∀ c ∈ item, isOws c = true) ∨ ∃ tag ∈ tags, trimOws item = tag.text := by
  by_cases hnil : trimOws item = []
  · exact Or.inl (isOws_of_trimOws_nil hnil)
  · have hmem : trimOws item ∈ tags.map EntityTag.text := by
      rw [← h]
      exact List.mem_filter.mpr ⟨List.mem_map_of_mem hitem, by simpa using hnil⟩
    obtain ⟨tag, htag, heq⟩ := List.mem_map.mp hmem
    exact Or.inr ⟨tag, htag, heq.symm⟩

variable {value : Text} {tags : List EntityTag}

theorem trim_ne_star (h : IsListOf value tags) : trim value ≠ ascii "*" := by
  obtain ⟨items, hne, rfl, hitems⟩ := h
  intro hstar
  have hquote : (34 : UInt8) ∉ [44].intercalate items := by
    obtain ⟨w, w', hw, hw', heq⟩ := trim_eq ([44].intercalate items)
    rw [heq, hstar]
    have hleft := not_mem_of_isSpace (b := 34) hw (by decide)
    have hright := not_mem_of_isSpace (b := 34) hw' (by decide)
    simp [hleft, hright, ascii]
  have hmember : ascii "*" ∈ listMembers ([44].intercalate items) := by
    rw [← listMembers_trim, hstar]
    decide
  rw [listMembers, splitAll_intercalate 44 hne] at hmember
  obtain ⟨piece, hpiece, hpiece_star⟩ := List.mem_map.mp (List.mem_of_mem_filter hmember)
  obtain ⟨item, hitem, hcut⟩ := List.mem_flatMap.mp hpiece
  rcases item_cases hitems hitem with hows | ⟨tag, -, htag⟩
  · have hpiece_ows : ∀ c ∈ piece, isOws c = true :=
      fun c hc => hows c ((sublist_of_mem_splitAll hcut).subset hc)
    rw [trim_ows hpiece_ows] at hpiece_star
    cases hpiece_star
  · apply hquote
    apply (sublist_intercalate hitem).subset
    obtain ⟨ows, ows', heq, -, -⟩ := trimOws_eq item
    rw [heq, htag, EntityTag.text_eq, EntityTag.quoted]
    simp

/-- The members of the list that have two quotes are the tags without a comma. -/
theorem mem_listMembers_iff (h : IsListOf value tags) {m : Text} (hm : 2 ≤ m.count 34) :
    m ∈ listMembers value ↔ ∃ tag ∈ tags, (44 : UInt8) ∉ tag.characters ∧ m = tag.text := by
  obtain ⟨items, hne, rfl, hitems⟩ := h
  rw [listMembers, splitAll_intercalate 44 hne]
  constructor
  · intro hmem
    obtain ⟨piece, hpiece, rfl⟩ := List.mem_map.mp (List.mem_of_mem_filter hmem)
    obtain ⟨item, hitem, hcut⟩ := List.mem_flatMap.mp hpiece
    have hquotes : 2 ≤ piece.count 34 := hm.trans ((trim_sublist piece).count_le 34)
    rcases item_cases hitems hitem with hows | ⟨tag, htag, heq⟩
    · have hle := (sublist_of_mem_splitAll hcut).count_le 34
      rw [count_ows hows 34 (by decide)] at hle
      omega
    · refine ⟨tag, htag, fun hcomma => ?_, ?_⟩
      · have hone := count_piece_of_comma heq hcomma hcut
        omega
      · have hwhole := splitAll_of_no_comma heq fun hcomma => by
          have hone := count_piece_of_comma heq hcomma hcut
          omega
        rw [hwhole, List.mem_singleton] at hcut
        rw [hcut, ← trim_trimOws, heq, tag.trim_text]
  · rintro ⟨tag, htag, hcomma, rfl⟩
    have hmem : tag.text ∈ (items.map trimOws).filter (fun item => item ≠ []) := by
      rw [hitems]
      exact List.mem_map_of_mem htag
    obtain ⟨item, hitem, heq⟩ := List.mem_map.mp (List.mem_of_mem_filter hmem)
    have htrim : trim item = tag.text := by rw [← trim_trimOws, heq, tag.trim_text]
    refine List.mem_filter.mpr ⟨List.mem_map.mpr ⟨item, ?_, htrim⟩, ?_⟩
    · apply List.mem_flatMap.mpr
      exact ⟨item, hitem, by rw [splitAll_of_no_comma heq hcomma]; simp⟩
    · simpa using tag.text_ne_nil

/-- A tag is found among those that hold no comma. -/
theorem etagListMatches_iff (h : IsListOf value tags) (current : EntityTag) (strong : Bool) :
    etagListMatches value (some current.text) strong = true ↔
      ∃ tag ∈ tags, (44 : UInt8) ∉ tag.characters ∧
        sameTag strong tag.text current.text = true := by
  rw [etagListMatches_some_iff h.trim_ne_star, current.trim_text]
  constructor
  · rintro ⟨-, m, hm, hsame⟩
    obtain ⟨tag, htag, hcomma, rfl⟩ :=
      (h.mem_listMembers_iff (EntityTag.count_of_sameTag hsame)).mp hm
    exact ⟨tag, htag, hcomma, hsame⟩
  · rintro ⟨tag, htag, hcomma, hsame⟩
    refine ⟨current.text_ne_nil, tag.text, ?_, hsame⟩
    exact (h.mem_listMembers_iff (EntityTag.count_of_sameTag hsame)).mpr
      ⟨tag, htag, hcomma, rfl⟩

end IsListOf

/-! ## Strong comparison -/

/-- What `If-Match` asks of the current tag: the list and the response have it, and it is
not weak. -/
def StronglyMatches (tags : List EntityTag) (current : Option EntityTag) : Prop :=
  ∃ c, current = some c ∧ c.weak = false ∧
    ∃ tag ∈ tags, tag.weak = false ∧ tag.characters = c.characters

/-- Strong comparison against a list is right unless the current tag is weak and stands in
the list. -/
theorem etagListMatches_strong_iff {tags : List EntityTag}
    (hcommas : ∀ tag ∈ tags, (44 : UInt8) ∉ tag.characters) {value : Text}
    (hvalue : IsListOf value tags) (current : Option EntityTag) :
    (etagListMatches value (current.map EntityTag.text) true = true ↔
        StronglyMatches tags current) ↔
      ¬ ∃ c ∈ current, c.weak = true ∧ c ∈ tags := by
  cases current with
  | none => simp [etagListMatches_none, StronglyMatches]
  | some c =>
      have hcode : etagListMatches value (some c.text) true = true ↔ c ∈ tags := by
        rw [hvalue.etagListMatches_iff c true]
        constructor
        · rintro ⟨tag, htag, -, hsame⟩
          rwa [← EntityTag.sameTag_strong_iff.mp hsame]
        · exact fun hc => ⟨c, hc, hcommas c hc, sameTag_refl _ _⟩
      have hspec : StronglyMatches tags (some c) ↔ c.weak = false ∧ c ∈ tags := by
        constructor
        · rintro ⟨c', hc', hweak, tag, htag, htagWeak, hchars⟩
          obtain rfl := Option.some.inj hc'
          have heq : tag = c := by
            apply EntityTag.text_injective
            · rw [EntityTag.text_of_strong htagWeak, EntityTag.text_of_strong hweak, hchars]
            · rw [htagWeak, hweak]
          exact ⟨hweak, heq ▸ htag⟩
        · exact fun ⟨hweak, hc⟩ => ⟨c, rfl, hweak, c, hc, hweak, rfl⟩
      rw [Option.map_some, hcode, hspec]
      cases hweak : c.weak <;> simp [hweak]

def weakTag : EntityTag := ⟨true, ascii "v1", by decide +kernel⟩

def strongTag : EntityTag := ⟨false, ascii "v1", by decide +kernel⟩

theorem etagListMatches_weakCurrent :
    IsListOf (ascii "W/\"v1\"") [weakTag] ∧
    etagListMatches (ascii "W/\"v1\"") (some weakTag.text) true = true ∧
    ¬ StronglyMatches [weakTag] (some weakTag) := by
  refine ⟨⟨[ascii "W/\"v1\""], by simp, by decide, by decide +kernel⟩, by decide +kernel, ?_⟩
  rintro ⟨c, hc, hweak, -⟩
  obtain rfl := Option.some.inj hc
  cases hweak

theorem etagListMatches_strong_iff_listed :
    etagListMatches (ascii " W/\"v1\"\t,, \"v1\"") (some strongTag.text) true = true ∧
    etagListMatches (ascii " W/\"v1\"\t,, \"v1\"") none true = false := by
  have hcommas : ∀ tag ∈ [weakTag, strongTag], (44 : UInt8) ∉ tag.characters := by decide +kernel
  have hvalue : IsListOf (ascii " W/\"v1\"\t,, \"v1\"") [weakTag, strongTag] :=
    ⟨[ascii " W/\"v1\"\t", [], ascii " \"v1\""], by simp, by decide, by decide +kernel⟩
  have hpresent := (etagListMatches_strong_iff hcommas hvalue (some strongTag)).mpr (by
    rintro ⟨c, hc, hweak, -⟩
    obtain rfl := Option.some.inj hc
    cases hweak)
  have habsent := (etagListMatches_strong_iff hcommas hvalue none).mpr (by simp)
  refine ⟨hpresent.mpr ⟨strongTag, rfl, rfl, strongTag, by simp, rfl, rfl⟩, ?_⟩
  apply Bool.eq_false_iff.mpr
  intro hmatch
  obtain ⟨c, hc, -⟩ := habsent.mp hmatch
  cases hc

/-! ## Weak comparison -/

/-- Weak comparison against a list is right unless the tag that is looked for holds a comma
and is in the list. -/
theorem etagListMatches_weak_iff {tags : List EntityTag} {value : Text}
    (hvalue : IsListOf value tags) (current : EntityTag) :
    ((etagListMatches value (some current.text) false = true ↔
        ∃ tag ∈ tags, tag.characters = current.characters) ↔
      ¬ ((44 : UInt8) ∈ current.characters ∧
        ∃ tag ∈ tags, tag.characters = current.characters)) ∧
    ∀ star, trimOws star = ascii "*" → ∀ tag : Option Text,
      etagListMatches star tag false = tag.isSome := by
  constructor
  · have hcode : etagListMatches value (some current.text) false = true ↔
        (44 : UInt8) ∉ current.characters ∧
          ∃ tag ∈ tags, tag.characters = current.characters := by
      rw [hvalue.etagListMatches_iff current false]
      constructor
      · rintro ⟨tag, htag, hcomma, hsame⟩
        have hchars := EntityTag.sameTag_weak_iff.mp hsame
        exact ⟨hchars ▸ hcomma, tag, htag, hchars⟩
      · rintro ⟨hcomma, tag, htag, hchars⟩
        exact ⟨tag, htag, hchars ▸ hcomma, EntityTag.sameTag_weak_iff.mpr hchars⟩
    rw [hcode]
    by_cases hcomma : (44 : UInt8) ∈ current.characters <;> simp [hcomma]
  · intro star hstar tag
    exact etagListMatches_star (TagList.trim_of_any hstar) tag false

def commaTag : EntityTag := ⟨false, ascii "a,b", by decide +kernel⟩

theorem etagListMatches_commaTag :
    IsListOf (ascii "\"a,b\"") [commaTag] ∧
    etagListMatches (ascii "\"a,b\"") (some commaTag.text) false = false ∧
    ∃ tag ∈ [commaTag], tag.characters = commaTag.characters := by
  refine ⟨?_, by decide +kernel, commaTag, by simp, rfl⟩
  exact ⟨[ascii "\"a,b\""], by simp, by decide, by decide +kernel⟩

theorem etagListMatches_weak_iff_listed :
    etagListMatches (ascii "\"a,b\" ,, W/\"v1\"") (some strongTag.text) false = true ∧
    etagListMatches (ascii " *") (some strongTag.text) false = true := by
  have hvalue : IsListOf (ascii "\"a,b\" ,, W/\"v1\"") [commaTag, weakTag] :=
    ⟨[ascii "\"a,b\" ", [], ascii " W/\"v1\""], by simp, by decide, by decide +kernel⟩
  obtain ⟨hlist, hstar⟩ := etagListMatches_weak_iff hvalue strongTag
  have hcomma : (44 : UInt8) ∉ strongTag.characters := by decide
  refine ⟨(hlist.mpr fun h => hcomma h.1).mpr ⟨weakTag, by simp, rfl⟩, ?_⟩
  rw [hstar (ascii " *") (by decide +kernel)]
  rfl

end GooseHttp
