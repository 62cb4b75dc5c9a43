import GooseHttp.Decimal
import GooseHttp.Range
import GooseHttp.Trim
/-!
# The grammar of range headers

What the parser of range headers accepts, said of the text alone.  It is the grammar of
the header with two additions: a number may carry a plus sign, and an element may be a
number without a dash.  Everything else outside the grammar is refused.
-/

namespace GooseHttp

open Lib

/-! ## The grammar -/

def IsNumber (s : Text) (n : UInt64) : Prop :=
  ∃ w digits w', IsSpace w ∧ IsSpace w' ∧ s = w ++ digits ++ w' ∧ IsLength digits n.toNat

/-- What stands on the two sides of the dash, for a given form of numbers. -/
inductive IsBounds (number : Text → UInt64 → Prop) : Text → Text → RangeSpec → Prop
  | fromTo {first last : Text} {start stop : UInt64} (hfirst : number first start)
      (hlast : number last stop) (hle : start ≤ stop) :
      IsBounds number first last (.fromTo start stop)
  | «from» {first last : Text} {start : UInt64} (hfirst : number first start)
      (hlast : IsSpace last) : IsBounds number first last (.from start)
  | suffix {first last : Text} {length : UInt64} (hfirst : IsSpace first)
      (hlast : number last length) : IsBounds number first last (.suffix length)

def IsElement (part : Text) (spec : RangeSpec) : Prop :=
  ∃ first last, part = first ++ 45 :: last ∧ IsBounds IsNumber first last spec

/-- A list of elements and the specifications they denote; elements may be empty. -/
inductive IsElementList (element : Text → RangeSpec → Prop) :
    List Text → List RangeSpec → Prop
  | nil : IsElementList element [] []
  | blank {part : Text} {parts : List Text} {specs : List RangeSpec} (hpart : IsSpace part)
      (hparts : IsElementList element parts specs) :
      IsElementList element (part :: parts) specs
  | element {part : Text} {parts : List Text} {spec : RangeSpec} {specs : List RangeSpec}
      (hpart : element part spec) (hparts : IsElementList element parts specs) :
      IsElementList element (part :: parts) (spec :: specs)

def IsBytesUnit (unit : Text) : Prop :=
  ∃ w name w', IsSpace w ∧ IsSpace w' ∧ unit = w ++ name ++ w' ∧
    eqIgnoreAsciiCase name (ascii "bytes") = true

structure IsRangeSet (element : Text → RangeSpec → Prop) (value : Text) (parts : List Text)
    (specs : List RangeSpec) : Prop where
  eq : ∃ unit, value = unit ++ 61 :: [44].intercalate parts ∧ IsBytesUnit unit
  elements : IsElementList element parts specs
  ne_nil : specs ≠ []

def IsRangeHeader (value : Text) (specs : List RangeSpec) : Prop :=
  ∃ parts, IsRangeSet IsElement value parts specs

/-! ## What the parser lets through besides -/

def IsLooseNumber (s : Text) (n : UInt64) : Prop :=
  ∃ w digits w', IsSpace w ∧ IsSpace w' ∧ s = w ++ digits ++ w' ∧
    (IsLength digits n.toNat ∨ IsSigned digits n.toNat)

/-- An element as the parser takes it: numbers may have a plus sign, and a number alone is
read as an open range. -/
def IsLooseElement (part : Text) (spec : RangeSpec) : Prop :=
  (∃ first last, part = first ++ 45 :: last ∧ IsBounds IsLooseNumber first last spec) ∨
    ∃ start, spec = .from start ∧ IsLooseNumber part start

/-- An element with a plus sign, or one that is not empty and has no dash. -/
def IsSlip (part : Text) : Prop := 43 ∈ part ∨ (¬ IsSpace part ∧ 45 ∉ part)

/-- A range header but for plus signs and missing dashes, with at least one of them. -/
def IsSlipped (value : Text) : Prop :=
  ∃ parts specs, IsRangeSet IsLooseElement value parts specs ∧ ∃ part ∈ parts, IsSlip part

/-! ## Numbers -/

theorem parseRangeNumber_ok_iff {s : Text} {n : UInt64} :
    parseRangeNumber s = .ok n ↔ IsLooseNumber s n := by
  have hread : parseRangeNumber s = .ok n ↔ parseU64 (trim s) = some n.toNat := by
    unfold parseRangeNumber
    cases hparse : parseU64 (trim s) with
    | none => simp
    | some m =>
        have hlt : m < u64Bound := by
          rcases parseU64_eq_some_iff.mp hparse with h | ⟨digits, -, h⟩
          · exact h.lt
          · exact h.lt
        simp only [Except.ok.injEq, Option.some.injEq]
        constructor
        · rintro rfl
          exact (UInt64.toNat_ofNat_of_lt' hlt).symm
        · rintro rfl
          exact UInt64.ofNat_toNat
  rw [hread, parseU64_eq_some_iff]
  constructor
  · intro h
    obtain ⟨w, w', hw, hw', heq⟩ := trim_eq s
    exact ⟨w, trim s, w', hw, hw', heq, h⟩
  · rintro ⟨w, digits, w', hw, hw', rfl, h⟩
    have hgraphic : ∀ b ∈ digits, isGraphic b = true := by
      rcases h with h | ⟨ds, rfl, h⟩
      · exact h.isGraphic
      · exact List.forall_mem_cons.mpr ⟨by decide, h.isGraphic⟩
    rw [trim_append_right hw', trim_append_left hw, trim_graphic hgraphic]
    exact h

theorem parseRangeNumber_congr {s t : Text} (h : trim s = trim t) :
    parseRangeNumber s = parseRangeNumber t := by
  rw [parseRangeNumber, h, parseRangeNumber]

theorem IsLooseNumber.mem {s : Text} {n : UInt64} (h : IsLooseNumber s n) {b : UInt8}
    (hb : b ∈ s) (hgraphic : isGraphic b = true) : isDigit b = true ∨ b = 43 := by
  obtain ⟨w, digits, w', hw, hw', rfl, h⟩ := h
  have hmem : b ∈ digits := by
    rcases List.mem_append.mp hb with hb | hb
    · exact (List.mem_append.mp hb).resolve_left (not_mem_of_isSpace hw hgraphic)
    · exact absurd hb (not_mem_of_isSpace hw' hgraphic)
  rcases h with h | ⟨ds, rfl, h⟩
  · exact Or.inl (h.digits b hmem)
  · rcases List.mem_cons.mp hmem with rfl | hmem
    · exact Or.inr rfl
    · exact Or.inl (h.digits b hmem)

theorem IsLooseNumber.not_mem {s : Text} {n : UInt64} (h : IsLooseNumber s n) {b : UInt8}
    (hgraphic : isGraphic b = true) (hdigit : isDigit b = false) (hplus : b ≠ 43) : b ∉ s := by
  intro hb
  rcases h.mem hb hgraphic with hb | hb
  · rw [hdigit] at hb
    cases hb
  · exact hplus hb

theorem IsLooseNumber.not_isSpace {s : Text} {n : UInt64} (h : IsLooseNumber s n) :
    ¬ IsSpace s := by
  intro hspace
  have hread := parseRangeNumber_ok_iff.mpr h
  rw [parseRangeNumber, trim_eq_nil_iff.mpr hspace] at hread
  cases hread

theorem IsNumber.loose {s : Text} {n : UInt64} (h : IsNumber s n) : IsLooseNumber s n := by
  obtain ⟨w, digits, w', hw, hw', heq, h⟩ := h
  exact ⟨w, digits, w', hw, hw', heq, Or.inl h⟩

theorem isNumber_iff {s : Text} {n : UInt64} : IsNumber s n ↔ IsLooseNumber s n ∧ 43 ∉ s := by
  constructor
  · intro h
    refine ⟨h.loose, fun hmem => ?_⟩
    obtain ⟨w, digits, w', hw, hw', rfl, h⟩ := h
    rcases List.mem_append.mp hmem with hmem | hmem
    · have hdigit := (List.mem_append.mp hmem).resolve_left (not_mem_of_isSpace hw (by decide))
      exact absurd (h.digits 43 hdigit) (by decide)
    · exact not_mem_of_isSpace hw' (by decide) hmem
  · rintro ⟨⟨w, digits, w', hw, hw', rfl, h⟩, hplus⟩
    rcases h with h | ⟨ds, rfl, h⟩
    · exact ⟨w, digits, w', hw, hw', rfl, h⟩
    · exact absurd (by simp) hplus

/-! ## Elements -/

theorem IsBounds.imp {number number' : Text → UInt64 → Prop} {first last : Text}
    {spec : RangeSpec} (h : IsBounds number first last spec)
    (hfirst : ∀ n, number first n → number' first n)
    (hlast : ∀ n, number last n → number' last n) : IsBounds number' first last spec := by
  cases h with
  | fromTo hf hl hle => exact .fromTo (hfirst _ hf) (hlast _ hl) hle
  | «from» hf hspace => exact .from (hfirst _ hf) hspace
  | suffix hspace hl => exact .suffix hspace (hlast _ hl)

theorem IsBounds.not_mem {first last : Text} {spec : RangeSpec}
    (h : IsBounds IsLooseNumber first last spec) {b : UInt8} (hgraphic : isGraphic b = true)
    (hdigit : isDigit b = false) (hplus : b ≠ 43) : b ∉ first ∧ b ∉ last := by
  cases h with
  | fromTo hfirst hlast hle =>
      exact ⟨hfirst.not_mem hgraphic hdigit hplus, hlast.not_mem hgraphic hdigit hplus⟩
  | «from» hfirst hlast =>
      exact ⟨hfirst.not_mem hgraphic hdigit hplus, not_mem_of_isSpace hlast hgraphic⟩
  | suffix hfirst hlast =>
      exact ⟨not_mem_of_isSpace hfirst hgraphic, hlast.not_mem hgraphic hdigit hplus⟩

theorem IsLooseElement.comma_not_mem {part : Text} {spec : RangeSpec}
    (h : IsLooseElement part spec) : 44 ∉ part := by
  rcases h with ⟨first, last, rfl, h⟩ | ⟨start, -, h⟩
  · have hnot := h.not_mem (b := 44) (by decide) (by decide) (by decide)
    simp [hnot]
  · exact h.not_mem (by decide) (by decide) (by decide)

theorem parseRangePart_bare {part : Text} {spec : RangeSpec} (hdash : 45 ∉ part) :
    parseRangePart (trim part) = .ok spec ↔
      ∃ start, spec = .from start ∧ IsLooseNumber part start := by
  have hnot : 45 ∉ trim part := fun h => hdash ((trim_sublist part).subset h)
  have hhead : (trim part).head? ≠ some 45 := fun h => hnot (List.mem_of_head? h)
  have hbounds : splitBounds (trim part) = (trim part, none) := by
    rw [splitBounds, splitOnce_eq_none_iff.mpr hnot]
  rw [parseRangePart, if_neg hhead, hbounds, parseRangeNumber_congr (trim_idem part)]
  constructor
  · intro h
    cases hnumber : parseRangeNumber part with
    | error e =>
        rw [hnumber] at h
        cases h
    | ok start =>
        rw [hnumber] at h
        cases h
        exact ⟨start, rfl, parseRangeNumber_ok_iff.mp hnumber⟩
  · rintro ⟨start, rfl, h⟩
    rw [parseRangeNumber_ok_iff.mpr h]

theorem parseRangePart_suffix {rest : Text} {spec : RangeSpec} :
    parseRangePart (45 :: rest) = .ok spec ↔
      ∃ length, parseRangeNumber rest = .ok length ∧ spec = .suffix length := by
  rw [parseRangePart, List.head?_cons, if_pos rfl, List.tail_cons]
  cases parseRangeNumber rest with
  | error e => simp
  | ok n => simp [eq_comm]

theorem parseRangePart_bounds {start stop : Text} {spec : RangeSpec} (hne : start ≠ [])
    (hdash : 45 ∉ start) :
    parseRangePart (start ++ 45 :: stop) = .ok spec ↔
      ∃ n, parseRangeNumber start = .ok n ∧
        ((stop = [] ∧ spec = .from n) ∨
          stop ≠ [] ∧ ∃ m, parseRangeNumber stop = .ok m ∧ n ≤ m ∧ spec = .fromTo n m) := by
  have hhead : (start ++ 45 :: stop).head? ≠ some 45 := by
    obtain ⟨b, s, rfl⟩ := List.exists_cons_of_ne_nil hne
    intro h
    apply hdash
    rw [← Option.some.inj h]
    simp
  have hbounds : splitBounds (start ++ 45 :: stop) = (start, some stop) := by
    rw [splitBounds, splitOnce_append _ hdash]
  rw [parseRangePart, if_neg hhead, hbounds]
  cases parseRangeNumber start with
  | error e => simp
  | ok n =>
      dsimp only
      by_cases hstop : stop = []
      · simp [hstop, eq_comm]
      · cases parseRangeNumber stop with
        | error e => simp [hstop]
        | ok m =>
            by_cases hle : m < n
            · simp [hstop, hle]
            · simp [hstop, hle, UInt64.not_lt.mp hle, eq_comm]

theorem parseRangePart_dash {first last : Text} {spec : RangeSpec} (hdash : 45 ∉ first) :
    parseRangePart (trim (first ++ 45 :: last)) = .ok spec ↔
      IsBounds IsLooseNumber first last spec := by
  have hfirst : ∀ n, parseRangeNumber (trimStart first) = .ok n ↔ IsLooseNumber first n := by
    intro n
    rw [parseRangeNumber_congr (trim_trimStart first), parseRangeNumber_ok_iff]
  have hlast : ∀ n, parseRangeNumber (trimEnd last) = .ok n ↔ IsLooseNumber last n := by
    intro n
    rw [parseRangeNumber_congr (trim_trimEnd last), parseRangeNumber_ok_iff]
  rw [trim_append_cons (by decide) first last]
  by_cases hspace : IsSpace first
  · rw [trimStart_eq_nil_iff.mpr hspace, List.nil_append, parseRangePart_suffix]
    constructor
    · rintro ⟨length, hlength, rfl⟩
      exact .suffix hspace ((hlast length).mp hlength)
    · intro h
      cases h with
      | fromTo hf hl hle => exact absurd hspace hf.not_isSpace
      | «from» hf hl => exact absurd hspace hf.not_isSpace
      | suffix hf hl => exact ⟨_, (hlast _).mpr hl, rfl⟩
  · have hstart : 45 ∉ trimStart first := by
      obtain ⟨w, -, heq, -⟩ := trimStart_eq first
      intro h
      apply hdash
      rw [heq]
      exact List.mem_append_right _ h
    have hne : trimStart first ≠ [] := fun h => hspace (trimStart_eq_nil_iff.mp h)
    rw [parseRangePart_bounds hne hstart]
    constructor
    · rintro ⟨start, hread, ⟨hend, rfl⟩ | ⟨hend, stop, hstop, hle, rfl⟩⟩
      · exact .from ((hfirst start).mp hread) (trimEnd_eq_nil_iff.mp hend)
      · exact .fromTo ((hfirst start).mp hread) ((hlast stop).mp hstop) hle
    · intro h
      cases h with
      | fromTo hf hl hle =>
          have hend : trimEnd last ≠ [] := fun h => hl.not_isSpace (trimEnd_eq_nil_iff.mp h)
          exact ⟨_, (hfirst _).mpr hf, Or.inr ⟨hend, _, (hlast _).mpr hl, hle, rfl⟩⟩
      | «from» hf hl =>
          exact ⟨_, (hfirst _).mpr hf, Or.inl ⟨trimEnd_eq_nil_iff.mpr hl, rfl⟩⟩
      | suffix hf hl => exact absurd hf hspace

/-- Everything the loop body takes. -/
theorem parseRangePart_ok_iff {part : Text} {spec : RangeSpec} :
    parseRangePart (trim part) = .ok spec ↔ IsLooseElement part spec := by
  cases hsplit : splitOnce 45 part with
  | none =>
      have hdash := splitOnce_eq_none_iff.mp hsplit
      rw [parseRangePart_bare hdash, IsLooseElement]
      refine ⟨Or.inr, fun h => h.resolve_left ?_⟩
      rintro ⟨first, last, rfl, -⟩
      exact hdash (by simp)
  | some bounds =>
      obtain ⟨rfl, hdash⟩ := splitOnce_some (a := bounds.1) (b := bounds.2) hsplit
      rw [parseRangePart_dash hdash]
      constructor
      · exact fun h => Or.inl ⟨_, _, rfl, h⟩
      · rintro (⟨first, last, heq, h⟩ | ⟨start, -, h⟩)
        · have hfirst := (h.not_mem (b := 45) (by decide) (by decide) (by decide)).1
          have hsame := splitOnce_append last hfirst
          rw [← heq, splitOnce_append _ hdash, Option.some.injEq, Prod.mk.injEq] at hsame
          rw [hsame.1, hsame.2]
          exact h
        · exact absurd (by simp) (h.not_mem (b := 45) (by decide) (by decide) (by decide))

/-! ## Lists -/

theorem IsLooseElement.not_isSpace {part : Text} {spec : RangeSpec}
    (h : IsLooseElement part spec) : ¬ IsSpace part := by
  rcases h with ⟨first, last, rfl, -⟩ | ⟨start, -, h⟩
  · exact fun hspace => not_mem_of_isSpace hspace (b := 45) (by decide) (by simp)
  · exact h.not_isSpace

theorem parseRangeParts_ok_iff {parts : List Text} {specs : List RangeSpec} :
    parseRangeParts parts = .ok specs ↔ IsElementList IsLooseElement parts specs := by
  induction parts generalizing specs with
  | nil =>
      constructor
      · rintro ⟨⟩
        exact .nil
      · rintro ⟨⟩
        rfl
  | cons part parts ih =>
      rw [parseRangeParts]
      by_cases hblank : trim part = []
      · rw [if_pos hblank, ih]
        have hspace := trim_eq_nil_iff.mp hblank
        constructor
        · exact .blank hspace
        · intro h
          cases h with
          | blank _ hparts => exact hparts
          | element hpart _ => exact absurd hspace hpart.not_isSpace
      · rw [if_neg hblank]
        constructor
        · intro h
          split at h
          · cases h
          · rename_i spec hpart
            split at h
            · cases h
            · rename_i rest hrest
              cases h
              exact .element (parseRangePart_ok_iff.mp hpart) (ih.mp hrest)
        · intro h
          cases h with
          | blank hspace _ => exact absurd (trim_eq_nil_iff.mpr hspace) hblank
          | element hpart hparts =>
              rw [parseRangePart_ok_iff.mpr hpart, ih.mpr hparts]

theorem IsElementList.comma_not_mem {parts : List Text} {specs : List RangeSpec}
    (h : IsElementList IsLooseElement parts specs) : ∀ part ∈ parts, 44 ∉ part := by
  induction h with
  | nil => simp
  | blank hpart _ ih =>
      exact List.forall_mem_cons.mpr ⟨not_mem_of_isSpace hpart (by decide), ih⟩
  | element hpart _ ih => exact List.forall_mem_cons.mpr ⟨hpart.comma_not_mem, ih⟩

theorem IsElementList.imp {element element' : Text → RangeSpec → Prop} {parts : List Text}
    {specs : List RangeSpec} (h : IsElementList element parts specs)
    (himp : ∀ part ∈ parts, ∀ spec, element part spec → element' part spec) :
    IsElementList element' parts specs := by
  induction h with
  | nil => exact .nil
  | blank hpart _ ih => exact .blank hpart (ih fun p hp => himp p (by simp [hp]))
  | element hpart _ ih =>
      exact .element (himp _ (by simp) _ hpart) (ih fun p hp => himp p (by simp [hp]))

/-! ## Headers -/

theorem isGraphic_of_bytes : ∀ {b : UInt8}, toAsciiLower b ∈ ascii "bytes" →
    isGraphic b = true ∧ b ≠ 61 := by
  decide +kernel

theorem isGraphic_of_eq_bytes {name : Text} (h : eqIgnoreAsciiCase name (ascii "bytes") = true) :
    ∀ b ∈ name, isGraphic b = true ∧ b ≠ 61 := by
  intro b hb
  apply isGraphic_of_bytes
  have heq : asciiLowercase name = asciiLowercase (ascii "bytes") := by
    simpa [eqIgnoreAsciiCase] using h
  have hlower : asciiLowercase (ascii "bytes") = ascii "bytes" := by decide
  rw [← hlower, ← heq]
  exact List.mem_map_of_mem hb

theorem isBytesUnit_iff {unit : Text} :
    IsBytesUnit unit ↔ eqIgnoreAsciiCase (trim unit) (ascii "bytes") = true := by
  constructor
  · rintro ⟨w, name, w', hw, hw', rfl, h⟩
    rw [trim_append_right hw', trim_append_left hw,
      trim_graphic fun b hb => (isGraphic_of_eq_bytes h b hb).1]
    exact h
  · intro h
    obtain ⟨w, w', hw, hw', heq⟩ := trim_eq unit
    exact ⟨w, trim unit, w', hw, hw', heq, h⟩

theorem IsBytesUnit.not_mem {unit : Text} (h : IsBytesUnit unit) : 61 ∉ unit := by
  obtain ⟨w, name, w', hw, hw', rfl, h⟩ := h
  have hname : 61 ∉ name := fun hb => (isGraphic_of_eq_bytes h 61 hb).2 rfl
  have hfront : 61 ∉ w := not_mem_of_isSpace hw (by decide)
  have hback : 61 ∉ w' := not_mem_of_isSpace hw' (by decide)
  simp [hname, hfront, hback]

theorem IsRangeSet.split {value : Text} {parts : List Text} {specs : List RangeSpec}
    (h : IsRangeSet IsLooseElement value parts specs) :
    ∃ unit ranges, splitOnce 61 value = some (unit, ranges) ∧ IsBytesUnit unit ∧
      splitAll 44 ranges = parts := by
  obtain ⟨unit, rfl, hunit⟩ := h.eq
  refine ⟨unit, _, splitOnce_append _ hunit.not_mem, hunit, ?_⟩
  have hne : parts ≠ [] := by
    rintro rfl
    cases h.elements
    exact h.ne_nil rfl
  have hone : ∀ part ∈ parts, splitAll 44 part = [part] := fun part hpart =>
    splitAll_of_not_mem (h.elements.comma_not_mem part hpart)
  rw [splitAll_intercalate 44 hne, List.flatMap_congr hone, List.flatMap_singleton']

/-- Everything the parser accepts. -/
theorem parseRangeHeader_ok_iff {value : Text} {specs : List RangeSpec} :
    parseRangeHeader value = .ok specs ↔ ∃ parts, IsRangeSet IsLooseElement value parts specs := by
  constructor
  · intro h
    unfold parseRangeHeader at h
    split at h
    · cases h
    · rename_i unit ranges hsplit
      obtain ⟨rfl, -⟩ := splitOnce_some hsplit
      split at h
      · cases h
      · rename_i hunit
        split at h
        · cases h
        · rename_i found hparts
          split at h
          · cases h
          · rename_i hne
            cases h
            refine ⟨splitAll 44 ranges, ⟨unit, ?_, ?_⟩, parseRangeParts_ok_iff.mp hparts, hne⟩
            · rw [intercalate_splitAll]
            · exact isBytesUnit_iff.mpr (by simpa using hunit)
  · rintro ⟨parts, h⟩
    obtain ⟨unit, ranges, hsplit, hunit, hparts⟩ := h.split
    have hread := parseRangeParts_ok_iff.mpr h.elements
    rw [parseRangeHeader, hsplit]
    simp only [isBytesUnit_iff.mp hunit, hparts, hread, if_neg h.ne_nil, Bool.true_eq_false,
      if_false]

/-! ## Where the two differ -/

theorem IsElement.loose {part : Text} {spec : RangeSpec} (h : IsElement part spec) :
    IsLooseElement part spec := by
  obtain ⟨first, last, heq, h⟩ := h
  exact Or.inl ⟨first, last, heq, h.imp (fun _ => IsNumber.loose) fun _ => IsNumber.loose⟩

theorem IsElement.not_isSlip {part : Text} {spec : RangeSpec} (h : IsElement part spec) :
    ¬ IsSlip part := by
  obtain ⟨first, last, rfl, h⟩ := h
  have hplus : 43 ∉ first ∧ 43 ∉ last := by
    cases h with
    | fromTo hf hl hle => exact ⟨(isNumber_iff.mp hf).2, (isNumber_iff.mp hl).2⟩
    | «from» hf hl => exact ⟨(isNumber_iff.mp hf).2, not_mem_of_isSpace hl (by decide)⟩
    | suffix hf hl => exact ⟨not_mem_of_isSpace hf (by decide), (isNumber_iff.mp hl).2⟩
  rintro (h | ⟨-, h⟩)
  · simp [hplus] at h
  · simp at h

theorem IsLooseElement.isElement {part : Text} {spec : RangeSpec} (h : IsLooseElement part spec)
    (hslip : ¬ IsSlip part) : IsElement part spec := by
  have hspace := h.not_isSpace
  simp only [IsSlip, hspace, not_false_eq_true, true_and, not_or, not_not] at hslip
  rcases h with ⟨first, last, rfl, h⟩ | ⟨start, -, h⟩
  · have hplus : 43 ∉ first ∧ 43 ∉ last := by simpa using hslip.1
    exact ⟨first, last, rfl, h.imp (fun _ hn => isNumber_iff.mpr ⟨hn, hplus.1⟩)
      fun _ hn => isNumber_iff.mpr ⟨hn, hplus.2⟩⟩
  · exact absurd hslip.2 (h.not_mem (by decide) (by decide) (by decide))

theorem IsElementList.not_isSlip {parts : List Text} {specs : List RangeSpec}
    (h : IsElementList IsElement parts specs) : ∀ part ∈ parts, ¬ IsSlip part := by
  induction h with
  | nil => simp
  | blank hpart _ ih =>
      refine List.forall_mem_cons.mpr ⟨?_, ih⟩
      rintro (hplus | ⟨hspace, -⟩)
      · exact not_mem_of_isSpace hpart (by decide) hplus
      · exact hspace hpart
  | element hpart _ ih => exact List.forall_mem_cons.mpr ⟨hpart.not_isSlip, ih⟩

theorem IsRangeSet.loose {value : Text} {parts : List Text} {specs : List RangeSpec}
    (h : IsRangeSet IsElement value parts specs) : IsRangeSet IsLooseElement value parts specs :=
  ⟨h.eq, h.elements.imp fun _ _ _ => IsElement.loose, h.ne_nil⟩

theorem IsRangeHeader.parse {value : Text} {specs : List RangeSpec}
    (h : IsRangeHeader value specs) : parseRangeHeader value = .ok specs := by
  obtain ⟨parts, h⟩ := h
  exact parseRangeHeader_ok_iff.mpr ⟨parts, h.loose⟩

theorem IsRangeHeader.not_isSlipped {value : Text} {specs : List RangeSpec}
    (h : IsRangeHeader value specs) : ¬ IsSlipped value := by
  obtain ⟨parts, h⟩ := h
  rintro ⟨parts', specs', hloose, part, hpart, hslip⟩
  obtain ⟨unit, ranges, hsplit, -, hparts⟩ := h.loose.split
  obtain ⟨unit', ranges', hsplit', -, hparts'⟩ := hloose.split
  rw [hsplit, Option.some.injEq, Prod.mk.injEq] at hsplit'
  rw [← hparts', ← hsplit'.2, hparts] at hpart
  exact h.elements.not_isSlip part hpart hslip

/-- Only range headers of the grammar are accepted, each as the list it denotes, unless a
number has a plus sign or an element is a number without a dash. -/
theorem parseRangeHeader_isRangeHeader_iff (value : Text) :
    (∀ specs, parseRangeHeader value = .ok specs → IsRangeHeader value specs) ↔
      ¬ IsSlipped value := by
  constructor
  · rintro h ⟨parts, specs, hloose, part, hpart, hslip⟩
    have hheader := h specs (parseRangeHeader_ok_iff.mpr ⟨parts, hloose⟩)
    exact hheader.not_isSlipped ⟨parts, specs, hloose, part, hpart, hslip⟩
  · intro h specs hparse
    obtain ⟨parts, hloose⟩ := parseRangeHeader_ok_iff.mp hparse
    refine ⟨parts, hloose.eq, ?_, hloose.ne_nil⟩
    apply hloose.elements.imp
    intro part hpart spec helement
    apply helement.isElement
    exact fun hslip => h ⟨parts, specs, hloose, part, hpart, hslip⟩

/-- A number without a dash is read as an open range. -/
theorem parseRangeHeader_isRangeHeader_iff_bare :
    parseRangeHeader (ascii "bytes=5") = .ok [.from 5] ∧
      ¬ ∃ specs, IsRangeHeader (ascii "bytes=5") specs := by
  refine ⟨by decide, ?_⟩
  rintro ⟨specs, parts, h⟩
  have hslip := h.elements.not_isSlip
  obtain ⟨unit, ranges, hsplit, -, rfl⟩ := h.loose.split
  have hvalue : splitOnce 61 (ascii "bytes=5") = some (ascii "bytes", [53]) := by decide
  rw [hvalue, Option.some.injEq, Prod.mk.injEq] at hsplit
  rw [← hsplit.2] at hslip
  refine hslip [53] (by decide) (Or.inr ⟨?_, by decide⟩)
  rw [← trim_eq_nil_iff]
  decide

end GooseHttp
