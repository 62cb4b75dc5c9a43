import GooseHttp.Precondition
import GooseHttp.Trim
/-!
# Entity tags and lists of them

The server compares entity tags as text: a list is cut at its commas and its members are
trimmed.  Tags are given a type here, and the comparison of the server is membership
when the list and the tag it is compared with are strong.
-/

namespace GooseHttp

open Lib

/-! ## Members of a list -/

/-- The members of a comma-separated list. -/
def listMembers (value : Text) : List Text :=
  ((splitAll 44 value).map trim).filter fun m => m ≠ []

theorem listMembers_trim (value : Text) : listMembers (trim value) = listMembers value := by
  rw [listMembers, splitAll_trim, listMembers]

/-- The comparison of one member. -/
def sameTag (strong : Bool) (a b : Text) : Bool := if strong then a = b else weakEtagEqual a b

theorem weakEtagEqual_iff {a b : Text} : weakEtagEqual a b = true ↔ trimWeak a = trimWeak b := by
  rw [weakEtagEqual]
  split
  · rename_i h
    simp [h]
  · exact decide_eq_true_iff

theorem sameTag_refl (strong : Bool) (a : Text) : sameTag strong a a = true := by
  cases strong <;> simp [sameTag, weakEtagEqual]

theorem etagListMatches_trim (value : Text) (tag : Option Text) (strong : Bool) :
    etagListMatches (trim value) tag strong = etagListMatches value tag strong := by
  rw [etagListMatches, trim_idem, etagListMatches]

theorem etagListMatches_star {value : Text} (h : trim value = ascii "*")
    (tag : Option Text) (strong : Bool) : etagListMatches value tag strong = tag.isSome := by
  rw [etagListMatches, h, if_pos rfl]

theorem etagListMatches_none (value : Text) (strong : Bool) :
    etagListMatches value none strong = false := by
  rw [etagListMatches]
  split <;> rfl

/-- A list matches a tag that one of its members is equal to. -/
theorem etagListMatches_some_iff {value : Text} (h : trim value ≠ ascii "*") {tag : Text}
    {strong : Bool} : etagListMatches value (some tag) strong = true ↔
      trim tag ≠ [] ∧ ∃ m ∈ listMembers value, sameTag strong m (trim tag) = true := by
  have hmembers : ((splitAll 44 (trim value)).map trim).filter (fun m => m ≠ []) =
      listMembers value := listMembers_trim value
  rw [etagListMatches, if_neg h, hmembers]
  by_cases hempty : trim tag = []
  · have hfilter : ((some tag).map trim).filter (fun v => v ≠ []) = none := by
      simp [hempty]
    rw [hfilter]
    simp [hempty]
  · have hfilter : ((some tag).map trim).filter (fun v => v ≠ []) = some (trim tag) := by
      simp [hempty]
    rw [hfilter]
    simp [hempty, sameTag]

/-! ## Entity tags -/

/-- `etagc` of the grammar: visible, and no double quote. -/
def isEtagc (b : UInt8) : Bool := b = 0x21 || (0x23 ≤ b && b ≤ 0x7E) || 0x80 ≤ b

structure EntityTag where
  weak : Bool
  characters : Text
  valid : ∀ b ∈ characters, isEtagc b = true
  deriving DecidableEq

namespace EntityTag

def text (tag : EntityTag) : Text :=
  (if tag.weak then ascii "W/" else []) ++ 34 :: tag.characters ++ [34]

theorem text_of_strong {tag : EntityTag} (h : tag.weak = false) :
    tag.text = 34 :: tag.characters ++ [34] := by
  rw [text, h]
  rfl

theorem text_ne_nil (tag : EntityTag) : tag.text ≠ [] := by
  simp [text]

theorem text_ne_star (tag : EntityTag) : tag.text ≠ ascii "*" := by
  intro h
  have hlast := congrArg List.getLast? h
  rw [text, List.getLast?_concat] at hlast
  cases hlast

theorem trim_text (tag : EntityTag) : trim tag.text = tag.text := by
  have hends : ∀ (b : UInt8) (rest : Text), isGraphic b = true →
      trim (b :: rest ++ [34]) = b :: rest ++ [34] := by
    intro b rest hb
    have hstart := @trimStart_ows_graphic [] b (rest ++ [34]) (by simp) hb
    rw [List.nil_append, ← List.cons_append] at hstart
    rw [trim, hstart]
    exact @trimEnd_graphic_ows [] 34 (b :: rest) (by simp) (by decide)
  unfold text
  split
  · exact hends 87 (47 :: 34 :: tag.characters) (by decide)
  · exact hends 34 tag.characters (by decide)

theorem text_injective {a b : EntityTag} (h : a.text = b.text) (hweak : a.weak = b.weak) :
    a = b := by
  rw [text, text, hweak, List.append_assoc, List.append_assoc, List.append_cancel_left_eq] at h
  have hcharacters : a.characters = b.characters := by simpa using h
  cases a
  cases b
  simp_all

theorem trimWeak_of_strong {tag : EntityTag} (h : tag.weak = false) :
    trimWeak tag.text = tag.text := by
  apply stripMany_of_none
  rw [stripOne_eq_none_iff]
  intro p hp hprefix
  rw [List.mem_singleton.mp hp, text_of_strong h] at hprefix
  exact absurd (List.cons_prefix_cons.mp hprefix).1 (by decide)

theorem sameTag_text {a b : EntityTag} (ha : a.weak = false) (hb : b.weak = false)
    {strong : Bool} : sameTag strong a.text b.text = true ↔ a = b := by
  have htext : a.text = b.text ↔ a = b :=
    ⟨fun h => text_injective h (ha.trans hb.symm), congrArg text⟩
  cases strong with
  | true => simp [sameTag, htext]
  | false =>
      simp only [sameTag, Bool.false_eq_true, if_false]
      rw [weakEtagEqual_iff, trimWeak_of_strong ha, trimWeak_of_strong hb, htext]

end EntityTag

/-! ## Lists -/

inductive TagList
  | any
  | tags (list : List EntityTag)
  deriving DecidableEq

namespace TagList

/-- `*` stands for whatever tag there is. -/
def Matches : TagList → Option EntityTag → Prop
  | .any, tag => tag.isSome = true
  | .tags list, tag => ∃ t ∈ list, tag = some t

instance (list : TagList) (tag : Option EntityTag) : Decidable (list.Matches tag) := by
  cases list with
  | any => exact inferInstanceAs (Decidable (_ = _))
  | tags list => exact inferInstanceAs (Decidable (∃ t ∈ list, _))

/-- A field value that spells a list of strong tags out, with any white space and empty
members. -/
def IsReadFrom (value : Text) : TagList → Prop
  | .any => trimOws value = ascii "*"
  | .tags list => (∀ tag ∈ list, tag.weak = false) ∧
      ((splitAll 44 value).map trimOws).filter (fun m => m ≠ []) = list.map EntityTag.text

theorem trim_of_any {value : Text} (h : IsReadFrom value .any) : trim value = ascii "*" := by
  rw [← trim_trimOws, show trimOws value = ascii "*" from h]
  decide

theorem listMembers_of_tags {value : Text} {list : List EntityTag}
    (h : IsReadFrom value (.tags list)) : listMembers value = list.map EntityTag.text := by
  have htrim : (splitAll 44 value).map trim = (splitAll 44 value).map trimOws := by
    apply List.map_congr_left
    intro piece hpiece
    rw [← trim_trimOws]
    by_cases hempty : trimOws piece = []
    · rw [hempty]
      rfl
    · have hmem : trimOws piece ∈ list.map EntityTag.text := by
        rw [← h.2]
        exact List.mem_filter.mpr ⟨List.mem_map_of_mem hpiece, by simpa using hempty⟩
      obtain ⟨tag, -, htag⟩ := List.mem_map.mp hmem
      rw [← htag, tag.trim_text]
  rw [listMembers, htrim, h.2]

theorem trim_of_tags {value : Text} {list : List EntityTag}
    (h : IsReadFrom value (.tags list)) : trim value ≠ ascii "*" := by
  intro hstar
  have hmembers : listMembers value = [ascii "*"] := by
    rw [← listMembers_trim, hstar]
    decide
  have hmem : ascii "*" ∈ list.map EntityTag.text := by
    rw [← listMembers_of_tags h, hmembers]
    simp
  obtain ⟨tag, -, htag⟩ := List.mem_map.mp hmem
  exact tag.text_ne_star htag

/-- The server's comparison is membership. -/
theorem etagListMatches_iff {value : Text} {list : TagList} (h : IsReadFrom value list)
    {written : Option Text} {tag : Option EntityTag}
    (htag : written.map trim = tag.map EntityTag.text) (hstrong : ∀ t ∈ tag, t.weak = false)
    {strong : Bool} : etagListMatches value written strong = true ↔ list.Matches tag := by
  cases list with
  | any =>
      have hsome : written.isSome = tag.isSome := by
        simpa using congrArg Option.isSome htag
      rw [etagListMatches_star (trim_of_any h), hsome]
      rfl
  | tags list =>
      have hstar := trim_of_tags h
      cases tag with
      | none =>
          obtain rfl : written = none := by simpa using htag
          simp [etagListMatches_none, Matches]
      | some t =>
          obtain ⟨w, rfl, hw⟩ := Option.map_eq_some_iff.mp htag
          rw [etagListMatches_some_iff hstar, hw, listMembers_of_tags h]
          constructor
          · rintro ⟨-, m, hm, hsame⟩
            obtain ⟨t', ht', rfl⟩ := List.mem_map.mp hm
            rw [EntityTag.sameTag_text (h.1 t' ht') (hstrong t rfl)] at hsame
            exact ⟨t', ht', by rw [hsame]⟩
          · rintro ⟨t', ht', heq⟩
            obtain rfl := Option.some.inj heq
            exact ⟨t.text_ne_nil, t.text, List.mem_map_of_mem ht', sameTag_refl _ _⟩

end TagList

end GooseHttp
