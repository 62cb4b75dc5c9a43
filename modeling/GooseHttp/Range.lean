import GooseHttp.Text
import Mathlib.Data.Finset.Sort
import Mathlib.Order.Interval.Finset.Nat
/-!
# Byte ranges

Parsing of the `Range` field and the ranges it selects from a representation of known
length.  Lengths and positions are `u64`; the arithmetic that would panic in the server is
checked here, and the positions a specification selects say what the result must be.
-/

namespace GooseHttp

open Lib

inductive RangeSpec
  | fromTo (start stop : UInt64)
  | «from» (start : UInt64)
  | suffix (length : UInt64)
  deriving DecidableEq, Repr

structure SatisfiableRange where
  start : UInt64
  stop : UInt64
  deriving DecidableEq, Repr

inductive RangeParseError
  | invalidUnit
  | invalidSyntax
  | invalidBounds
  | invalidNumber
  | empty
  deriving DecidableEq, Repr

/-! ## Checked arithmetic -/

/-- `a - b`; `none` is the panic of an underflow. -/
def checkedSub (a b : UInt64) : Option UInt64 := if b ≤ a then some (a - b) else none

/-- `a + b`; `none` is the panic of an overflow. -/
def checkedAdd (a b : UInt64) : Option UInt64 :=
  if a.toNat + b.toNat < u64Bound then some (a + b) else none

theorem checkedSub_of_le {a b : UInt64} (h : b ≤ a) : checkedSub a b = some (a - b) := if_pos h

theorem checkedAdd_of_lt {a b : UInt64} (h : a.toNat + b.toNat < u64Bound) :
    checkedAdd a b = some (a + b) := if_pos h

def SatisfiableRange.len (range : SatisfiableRange) : Option UInt64 :=
  (checkedSub range.stop range.start).bind fun n => checkedAdd n 1

/-- `&body[start..=stop]`, with a `usize` of 64 bits; `none` is a panic. -/
def sliceInclusive {α : Type} (body : List α) (start stop : Nat) : Option (List α) :=
  if stop + 1 < u64Bound ∧ start ≤ stop + 1 ∧ stop + 1 ≤ body.length then
    some ((body.take (stop + 1)).drop start)
  else none

/-! ## Parsing -/

/-- `trim().parse::<u64>()`. -/
def parseRangeNumber (s : Text) : Except RangeParseError UInt64 :=
  match parseU64 (trim s) with
  | some n => .ok (UInt64.ofNat n)
  | none => .error .invalidNumber

/-- `splitn(2, '-')`. -/
def splitBounds (part : Text) : Text × Option Text :=
  match splitOnce 45 part with
  | some (start, stop) => (start, some stop)
  | none => (part, none)

/-- One non-empty element of the list. -/
def parseRangePart (part : Text) : Except RangeParseError RangeSpec :=
  if part.head? = some 45 then
    match parseRangeNumber part.tail with
    | .ok length => .ok (.suffix length)
    | .error e => .error e
  else
    match parseRangeNumber (splitBounds part).1 with
    | .error e => .error e
    | .ok start =>
        match (splitBounds part).2 with
        | none => .ok (.from start)
        | some stop =>
            if stop = [] then .ok (.from start)
            else
              match parseRangeNumber stop with
              | .error e => .error e
              | .ok stop =>
                  if stop < start then .error .invalidBounds else .ok (.fromTo start stop)

def parseRangeParts : List Text → Except RangeParseError (List RangeSpec)
  | [] => .ok []
  | part :: parts =>
      if trim part = [] then parseRangeParts parts
      else
        match parseRangePart (trim part) with
        | .error e => .error e
        | .ok spec =>
            match parseRangeParts parts with
            | .error e => .error e
            | .ok specs => .ok (spec :: specs)

def parseRangeHeader (value : Text) : Except RangeParseError (List RangeSpec) :=
  match splitOnce 61 value with
  | none => .error .invalidSyntax
  | some (unit, ranges) =>
      if eqIgnoreAsciiCase (trim unit) (ascii "bytes") = false then .error .invalidUnit
      else
        match parseRangeParts (splitAll 44 ranges) with
        | .error e => .error e
        | .ok specs => if specs = [] then .error .empty else .ok specs

/-! ## Applying to a representation -/

/-- The range a specification comes to in a representation that is not empty. -/
def satisfiableRange (total : UInt64) : RangeSpec → Option (Option SatisfiableRange)
  | .fromTo start stop =>
      if total ≤ start then some none
      else
        (checkedSub total 1).map fun last => some ⟨start, max start (min stop last)⟩
  | .from start =>
      if total ≤ start then some none
      else (checkedSub total 1).map fun last => some ⟨start, last⟩
  | .suffix length =>
      if min length total = 0 then some none
      else
        (checkedSub total (min length total)).bind fun start =>
          (checkedSub total 1).map fun last => some ⟨start, last⟩

def satisfiableRanges (total : UInt64) : List RangeSpec → Option (List SatisfiableRange)
  | [] => some []
  | spec :: specs =>
      match satisfiableRange total spec, satisfiableRanges total specs with
      | some range, some ranges => some (range.toList ++ ranges)
      | _, _ => none

def computeSatisfiableRanges (specs : List RangeSpec) (total : UInt64) :
    Option (List SatisfiableRange) :=
  if total = 0 then some [] else satisfiableRanges total specs

def formatContentRange (range : SatisfiableRange) (totalLength : UInt64) : Text :=
  ascii "bytes " ++ toDecimal range.start.toNat ++ ascii "-" ++ toDecimal range.stop.toNat ++
    ascii "/" ++ toDecimal totalLength.toNat

def formatUnsatisfiedRange (totalLength : UInt64) : Text :=
  ascii "bytes */" ++ toDecimal totalLength.toNat

/-! ## What a specification means -/

namespace RangeSpec

def text : RangeSpec → Text
  | fromTo start stop => toDecimal start.toNat ++ 45 :: toDecimal stop.toNat
  | .from start => toDecimal start.toNat ++ [45]
  | suffix length => 45 :: toDecimal length.toNat

def Ordered : RangeSpec → Prop
  | fromTo start stop => start ≤ stop
  | .from _ => True
  | suffix _ => True

def Selects (total i : Nat) : RangeSpec → Prop
  | fromTo start stop => start.toNat ≤ i ∧ i ≤ stop.toNat
  | .from start => start.toNat ≤ i
  | suffix length => total ≤ i + length.toNat

instance (total i : Nat) : (spec : RangeSpec) → Decidable (spec.Selects total i)
  | fromTo _ _ => instDecidableAnd
  | .from start => Nat.decLe start.toNat i
  | suffix length => Nat.decLe total (i + length.toNat)

def positions (total : Nat) (spec : RangeSpec) : Finset Nat :=
  (Finset.range total).filter fun i => spec.Selects total i

def selection {α : Type} (spec : RangeSpec) (body : List α) : List α :=
  (body.zipIdx.filter fun p => decide (p.2 ∈ spec.positions body.length)).map Prod.fst

theorem mem_positions {total i : Nat} {spec : RangeSpec} :
    i ∈ spec.positions total ↔ i < total ∧ spec.Selects total i := by
  simp [positions]

end RangeSpec

def rangeHeader (specs : List RangeSpec) : Text :=
  ascii "bytes=" ++ [44].intercalate (specs.map RangeSpec.text)

/-! ## The parser reads the textual form -/

theorem RangeSpec.isGraphic_text {spec : RangeSpec} :
    ∀ b ∈ spec.text, isGraphic b = true ∧ b ≠ 44 := by
  have hdecimal : ∀ n : Nat, ∀ b ∈ toDecimal n, isGraphic b = true ∧ b ≠ 44 := by
    intro n b hb
    have hdigits := toDigits_formatRadix n (show 1 < 10 by omega) (by omega)
    refine ⟨isGraphic_of_toDigits hdigits b hb, fun hcomma => ?_⟩
    rw [hcomma] at hb
    exact not_mem_of_toDigits hdigits rfl hb
  have hdash : isGraphic 45 = true ∧ (45 : UInt8) ≠ 44 := by decide
  intro b hb
  cases spec with
  | fromTo start stop =>
      rcases List.mem_append.mp hb with hb | hb
      · exact hdecimal _ b hb
      · rcases List.mem_cons.mp hb with rfl | hb
        · exact hdash
        · exact hdecimal _ b hb
  | «from» start =>
      rcases List.mem_append.mp hb with hb | hb
      · exact hdecimal _ b hb
      · rw [List.mem_singleton.mp hb]
        exact hdash
  | suffix length =>
      rcases List.mem_cons.mp hb with rfl | hb
      · exact hdash
      · exact hdecimal _ b hb

theorem dash_not_mem_toDecimal (n : Nat) : (45 : UInt8) ∉ toDecimal n :=
  not_mem_of_toDigits (toDigits_formatRadix n (by omega) (by omega)) rfl

theorem head?_toDecimal_ne_dash (n : Nat) (rest : Text) :
    (toDecimal n ++ rest).head? ≠ some 45 := by
  obtain ⟨b, s, hs⟩ := List.exists_cons_of_ne_nil (formatRadix_ne_nil 10 n)
  have hb : b ≠ 45 := by
    rintro rfl
    exact dash_not_mem_toDecimal n (by rw [toDecimal, hs]; simp)
  rw [toDecimal, hs]
  simpa using hb

theorem parseRangeNumber_toDecimal (n : UInt64) :
    parseRangeNumber (toDecimal n.toNat) = .ok n := by
  have hread : parseU64 (toDecimal n.toNat) = some n.toNat :=
    fromStrRadix_formatRadix (by omega) (by omega) n.toNat_lt
  have hgraphic : ∀ b ∈ toDecimal n.toNat, isGraphic b = true :=
    isGraphic_formatRadix (by omega) (by omega)
  rw [parseRangeNumber, trim_graphic hgraphic, hread]
  simp

theorem parseRangePart_text {spec : RangeSpec} (h : spec.Ordered) :
    parseRangePart spec.text = .ok spec := by
  cases spec with
  | fromTo start stop =>
      have hbounds : splitBounds (toDecimal start.toNat ++ 45 :: toDecimal stop.toNat) =
          (toDecimal start.toNat, some (toDecimal stop.toNat)) := by
        rw [splitBounds, splitOnce_append _ (dash_not_mem_toDecimal _)]
      have hstop : toDecimal stop.toNat ≠ [] := formatRadix_ne_nil 10 _
      have hordered : ¬ stop < start := UInt64.not_lt.mpr h
      rw [RangeSpec.text, parseRangePart, if_neg (head?_toDecimal_ne_dash _ _), hbounds]
      simp only [parseRangeNumber_toDecimal, if_neg hstop, if_neg hordered]
  | «from» start =>
      have hbounds : splitBounds (toDecimal start.toNat ++ [45]) =
          (toDecimal start.toNat, some []) := by
        rw [splitBounds, splitOnce_append _ (dash_not_mem_toDecimal _)]
      rw [RangeSpec.text, parseRangePart, if_neg (head?_toDecimal_ne_dash _ _), hbounds]
      simp only [parseRangeNumber_toDecimal, if_true]
  | suffix length =>
      rw [RangeSpec.text, parseRangePart, List.head?_cons, if_pos rfl, List.tail_cons,
        parseRangeNumber_toDecimal]

theorem RangeSpec.text_ne_nil (spec : RangeSpec) : spec.text ≠ [] := by
  cases spec <;> simp [RangeSpec.text]

theorem parseRangeParts_text {specs : List RangeSpec} (h : ∀ spec ∈ specs, spec.Ordered) :
    parseRangeParts (specs.map RangeSpec.text) = .ok specs := by
  induction specs with
  | nil => rfl
  | cons spec specs ih =>
      have htrim : trim spec.text = spec.text :=
        trim_graphic fun b hb => (RangeSpec.isGraphic_text b hb).1
      rw [List.map_cons, parseRangeParts, htrim, if_neg spec.text_ne_nil,
        parseRangePart_text (h spec (by simp)), ih fun s hs => h s (by simp [hs])]

theorem parseRangeHeader_rangeHeader {specs : List RangeSpec} (hne : specs ≠ [])
    (h : ∀ spec ∈ specs, spec.Ordered) : parseRangeHeader (rangeHeader specs) = .ok specs := by
  have hunit : splitOnce 61 (rangeHeader specs) =
      some (ascii "bytes", [44].intercalate (specs.map RangeSpec.text)) :=
    splitOnce_append (a := ascii "bytes") _ (by decide)
  have hbytes : eqIgnoreAsciiCase (trim (ascii "bytes")) (ascii "bytes") = true := by decide
  have hparts : splitAll 44 ([44].intercalate (specs.map RangeSpec.text)) =
      specs.map RangeSpec.text := by
    rw [splitAll_intercalate 44 (by simpa using hne), List.flatMap_map]
    have hone : ∀ spec ∈ specs, splitAll 44 spec.text = [spec.text] := fun spec _ =>
      splitAll_of_not_mem fun hmem => (RangeSpec.isGraphic_text 44 hmem).2 rfl
    rw [List.flatMap_congr hone, ← List.map_eq_flatMap]
  rw [parseRangeHeader, hunit]
  simp only [hbytes, hparts, parseRangeParts_text h, if_neg hne]
  rfl

/-! ## The ranges are the positions -/

structure SatisfiableRange.Denotes (range : SatisfiableRange) (total : UInt64)
    (spec : RangeSpec) : Prop where
  positions_eq : Finset.Icc range.start.toNat range.stop.toNat = spec.positions total.toNat
  ordered : range.start.toNat ≤ range.stop.toNat
  lt : range.stop.toNat < total.toNat

theorem one_le_of_ne_zero {n : UInt64} (h : n ≠ 0) : 1 ≤ n.toNat := by
  have hnat : n.toNat ≠ 0 := fun hzero => h (UInt64.toNat_inj.mp hzero)
  omega

theorem toNat_sub_one {total : UInt64} (h : total ≠ 0) :
    (total - 1).toNat = total.toNat - 1 :=
  UInt64.toNat_sub_of_le _ _ (UInt64.le_iff_toNat_le.mpr (one_le_of_ne_zero h))

theorem checkedSub_one {total : UInt64} (h : total ≠ 0) :
    checkedSub total 1 = some (total - 1) :=
  checkedSub_of_le (UInt64.le_iff_toNat_le.mpr (one_le_of_ne_zero h))

theorem toNat_min (a b : UInt64) : (min a b).toNat = min a.toNat b.toNat := by
  change (if a ≤ b then a else b).toNat = _
  split <;> rename_i hle <;> rw [UInt64.le_iff_toNat_le] at hle <;> omega

theorem toNat_max (a b : UInt64) : (max a b).toNat = max a.toNat b.toNat := by
  change (if a ≤ b then b else a).toNat = _
  split <;> rename_i hle <;> rw [UInt64.le_iff_toNat_le] at hle <;> omega

theorem denotes_of_mem_iff {start stop total : UInt64} {spec : RangeSpec}
    (hmem : ∀ i, start.toNat ≤ i ∧ i ≤ stop.toNat ↔
      i < total.toNat ∧ spec.Selects total.toNat i)
    (hordered : start.toNat ≤ stop.toNat) (hlt : stop.toNat < total.toNat) :
    SatisfiableRange.Denotes ⟨start, stop⟩ total spec := by
  refine ⟨?_, hordered, hlt⟩
  ext i
  rw [Finset.mem_Icc, RangeSpec.mem_positions]
  exact hmem i

theorem positions_eq_empty {total : Nat} {spec : RangeSpec}
    (h : ∀ i < total, ¬ spec.Selects total i) : spec.positions total = ∅ :=
  Finset.filter_eq_empty_iff.mpr fun i hi => h i (Finset.mem_range.mp hi)

/-- Nothing for a specification that selects nothing, and for any other its range. -/
def IsRangeOf (total : UInt64) (spec : RangeSpec)
    (result : Option (Option SatisfiableRange)) : Prop :=
  (result = some none ∧ spec.positions total.toNat = ∅) ∨
    ∃ range, result = some (some range) ∧ range.Denotes total spec

section Specifications

variable {total : UInt64} (htotal : total ≠ 0)
include htotal

theorem satisfiableRange_fromTo {start stop : UInt64} (h : start ≤ stop) :
    IsRangeOf total (.fromTo start stop) (satisfiableRange total (.fromTo start stop)) := by
  have hpos := one_le_of_ne_zero htotal
  have hlast := toNat_sub_one htotal
  have hbounds : start.toNat ≤ stop.toNat := UInt64.le_iff_toNat_le.mp h
  rw [satisfiableRange, checkedSub_one htotal]
  split
  · rename_i hle
    rw [UInt64.le_iff_toNat_le] at hle
    refine Or.inl ⟨rfl, positions_eq_empty fun i hi => ?_⟩
    rw [RangeSpec.Selects]
    omega
  · rename_i hle
    rw [UInt64.le_iff_toNat_le] at hle
    have hend : (max start (min stop (total - 1))).toNat =
        max start.toNat (min stop.toNat (total.toNat - 1)) := by
      rw [toNat_max, toNat_min, hlast]
    refine Or.inr ⟨_, rfl, denotes_of_mem_iff (fun i => ?_) ?_ ?_⟩
    · rw [hend, RangeSpec.Selects]
      omega
    · omega
    · omega

theorem satisfiableRange_from (start : UInt64) :
    IsRangeOf total (.from start) (satisfiableRange total (.from start)) := by
  have hpos := one_le_of_ne_zero htotal
  have hlast := toNat_sub_one htotal
  rw [satisfiableRange, checkedSub_one htotal]
  split
  · rename_i hle
    rw [UInt64.le_iff_toNat_le] at hle
    refine Or.inl ⟨rfl, positions_eq_empty fun i hi => ?_⟩
    rw [RangeSpec.Selects]
    omega
  · rename_i hle
    rw [UInt64.le_iff_toNat_le] at hle
    refine Or.inr ⟨_, rfl, denotes_of_mem_iff (fun i => ?_) ?_ ?_⟩
    · rw [hlast, RangeSpec.Selects]
      omega
    · omega
    · omega

theorem satisfiableRange_suffix (length : UInt64) :
    IsRangeOf total (.suffix length) (satisfiableRange total (.suffix length)) := by
  have hpos := one_le_of_ne_zero htotal
  have hlast := toNat_sub_one htotal
  have hmin := toNat_min length total
  rw [satisfiableRange, checkedSub_one htotal]
  split
  · rename_i hzero
    have hnat : (min length total).toNat = 0 := by rw [hzero]; rfl
    refine Or.inl ⟨rfl, positions_eq_empty fun i hi => ?_⟩
    rw [RangeSpec.Selects]
    omega
  · rename_i hzero
    have hne := one_le_of_ne_zero hzero
    have hle : min length total ≤ total := by
      rw [UInt64.le_iff_toNat_le]
      omega
    have hstart : (total - min length total).toNat =
        total.toNat - min length.toNat total.toNat := by
      rw [UInt64.toNat_sub_of_le _ _ hle, hmin]
    rw [checkedSub_of_le hle]
    refine Or.inr ⟨_, rfl, denotes_of_mem_iff (fun i => ?_) ?_ ?_⟩
    · rw [hstart, hlast, RangeSpec.Selects]
      omega
    · omega
    · omega

theorem satisfiableRange_isRangeOf {spec : RangeSpec} (h : spec.Ordered) :
    IsRangeOf total spec (satisfiableRange total spec) := by
  cases spec with
  | fromTo start stop => exact satisfiableRange_fromTo htotal h
  | «from» start => exact satisfiableRange_from htotal start
  | suffix length => exact satisfiableRange_suffix htotal length

end Specifications

theorem satisfiableRanges_eq {total : UInt64} (htotal : total ≠ 0) {specs : List RangeSpec}
    (h : ∀ spec ∈ specs, spec.Ordered) :
    ∃ ranges, satisfiableRanges total specs = some ranges ∧
      List.Forall₂ (fun spec range => range.Denotes total spec)
        (specs.filter fun spec => (spec.positions total.toNat).Nonempty) ranges := by
  induction specs with
  | nil => exact ⟨[], rfl, .nil⟩
  | cons spec specs ih =>
      obtain ⟨ranges, hranges, hdenote⟩ := ih fun s hs => h s (by simp [hs])
      rcases satisfiableRange_isRangeOf htotal (h spec (by simp)) with
        ⟨hnone, hempty⟩ | ⟨range, hsome, hrange⟩
      · refine ⟨ranges, by rw [satisfiableRanges, hnone, hranges]; rfl, ?_⟩
        rw [List.filter_cons_of_neg (by simp [hempty])]
        exact hdenote
      · have hnonempty : (spec.positions total.toNat).Nonempty := by
          rw [← hrange.positions_eq, Finset.nonempty_Icc]
          exact hrange.ordered
        refine ⟨range :: ranges, by rw [satisfiableRanges, hsome, hranges]; rfl, ?_⟩
        rw [List.filter_cons_of_pos (by simpa using hnonempty)]
        exact .cons hrange hdenote

theorem computeSatisfiableRanges_eq (total : UInt64) {specs : List RangeSpec}
    (h : ∀ spec ∈ specs, spec.Ordered) :
    ∃ ranges, computeSatisfiableRanges specs total = some ranges ∧
      List.Forall₂ (fun spec range => range.Denotes total spec)
        (specs.filter fun spec => (spec.positions total.toNat).Nonempty) ranges := by
  by_cases htotal : total = 0
  · have hfilter : specs.filter (fun spec => (spec.positions total.toNat).Nonempty) = [] := by
      apply List.filter_eq_nil_iff.mpr
      intro spec _
      simp [htotal, RangeSpec.positions]
    rw [computeSatisfiableRanges, if_pos htotal, hfilter]
    exact ⟨[], rfl, .nil⟩
  · rw [computeSatisfiableRanges, if_neg htotal]
    exact satisfiableRanges_eq htotal h

/-! ## Lengths and slices -/

theorem filter_zipIdx_interval {α : Type} (body : List α) (start stop : Nat) :
    (body.zipIdx.filter fun p => decide (start ≤ p.2 ∧ p.2 ≤ stop)).map Prod.fst =
      (body.take (stop + 1)).drop start := by
  have hall : ∀ k, (body.zipIdx k).filter (fun p => decide (start ≤ p.2 ∧ p.2 ≤ stop)) =
      ((body.zipIdx k).take (stop + 1 - k)).drop (start - k) := by
    induction body with
    | nil => simp
    | cons x body ih =>
        intro k
        rw [List.zipIdx_cons, List.filter_cons, ih (k + 1)]
        by_cases hstop : stop < k
        · rw [show stop + 1 - k = 0 by omega, show stop + 1 - (k + 1) = 0 by omega, if_neg]
          · simp
          · simp only [decide_eq_true_eq]
            omega
        · rw [show stop + 1 - k = stop + 1 - (k + 1) + 1 by omega, List.take_succ_cons]
          by_cases hstart : start ≤ k
          · rw [show start - k = 0 by omega, show start - (k + 1) = 0 by omega, if_pos]
            · rfl
            · simp only [decide_eq_true_eq]
              omega
          · rw [show start - k = start - (k + 1) + 1 by omega, List.drop_succ_cons, if_neg]
            simp only [decide_eq_true_eq]
            omega
  rw [hall 0, List.map_drop, List.map_take, List.zipIdx_map_fst, Nat.sub_zero, Nat.sub_zero]

namespace SatisfiableRange

theorem Denotes.len_eq {range : SatisfiableRange} {total : UInt64} {spec : RangeSpec}
    (h : range.Denotes total spec) :
    ∃ n, range.len = some n ∧ n.toNat = (spec.positions total.toNat).card := by
  have hordered := h.ordered
  have hlt := h.lt
  have htotal := total.toNat_lt
  have hle : range.start ≤ range.stop := UInt64.le_iff_toNat_le.mpr hordered
  have hsub : (range.stop - range.start).toNat = range.stop.toNat - range.start.toNat :=
    UInt64.toNat_sub_of_le _ _ hle
  have hone : (1 : UInt64).toNat = 1 := rfl
  have hfits : (range.stop - range.start).toNat + (1 : UInt64).toNat < u64Bound := by
    rw [hsub, hone, u64Bound]
    omega
  refine ⟨range.stop - range.start + 1, ?_, ?_⟩
  · rw [len, checkedSub_of_le hle, Option.bind_some, checkedAdd_of_lt hfits]
  · rw [UInt64.toNat_add, ← u64Bound, Nat.mod_eq_of_lt hfits, hsub, hone, ← h.positions_eq,
      Nat.card_Icc]
    omega

theorem Denotes.slice_eq {α : Type} {range : SatisfiableRange} {total : UInt64}
    {spec : RangeSpec} (h : range.Denotes total spec) {body : List α}
    (hbody : body.length = total.toNat) :
    sliceInclusive body range.start.toNat range.stop.toNat = some (spec.selection body) := by
  have hordered := h.ordered
  have hlt := h.lt
  have htotal := total.toNat_lt
  have hguard : range.stop.toNat + 1 < u64Bound ∧ range.start.toNat ≤ range.stop.toNat + 1 ∧
      range.stop.toNat + 1 ≤ body.length := by
    rw [u64Bound]
    omega
  have hselected : ∀ i, decide (i ∈ spec.positions body.length) =
      decide (range.start.toNat ≤ i ∧ i ≤ range.stop.toNat) := by
    intro i
    rw [hbody, ← h.positions_eq]
    simp only [Finset.mem_Icc]
  rw [sliceInclusive, if_pos hguard, RangeSpec.selection]
  simp only [hselected]
  exact congrArg some (filter_zipIdx_interval body _ _).symm

end SatisfiableRange

/-- Range specifications in their textual form are read as they are, and each that selects a
position of the representation gives the range of the positions it selects. -/
theorem rangeHeader_denotes {specs : List RangeSpec} (hne : specs ≠ [])
    (hordered : ∀ spec ∈ specs, spec.Ordered) (total : UInt64) :
    parseRangeHeader (rangeHeader specs) = .ok specs ∧
    ∃ ranges, computeSatisfiableRanges specs total = some ranges ∧
      List.Forall₂
        (fun spec range =>
          Finset.Icc range.start.toNat range.stop.toNat = spec.positions total.toNat ∧
          range.start ≤ range.stop ∧ range.stop < total ∧
          (∃ n, range.len = some n ∧ n.toNat = (spec.positions total.toNat).card) ∧
          ∀ body : Bytes, body.length = total.toNat →
            sliceInclusive body range.start.toNat range.stop.toNat = some (spec.selection body))
        (specs.filter fun spec => (spec.positions total.toNat).Nonempty) ranges := by
  refine ⟨parseRangeHeader_rangeHeader hne hordered, ?_⟩
  obtain ⟨ranges, hranges, hdenote⟩ := computeSatisfiableRanges_eq total hordered
  refine ⟨ranges, hranges, hdenote.imp fun spec range h => ?_⟩
  exact ⟨h.positions_eq, UInt64.le_iff_toNat_le.mpr h.ordered, UInt64.lt_iff_toNat_lt.mpr h.lt,
    h.len_eq, fun body hbody => h.slice_eq hbody⟩

theorem rangeHeader_denotes_three :
    parseRangeHeader (rangeHeader [.fromTo 2 9, .from 7, .suffix 3]) =
      .ok [.fromTo 2 9, .from 7, .suffix 3] ∧
    ∃ ranges, computeSatisfiableRanges [.fromTo 2 9, .from 7, .suffix 3] 5 = some ranges ∧
      ranges.length = 2 := by
  have hne : [RangeSpec.fromTo 2 9, .from 7, .suffix 3] ≠ [] := List.cons_ne_nil _ _
  have hordered : ∀ spec ∈ [RangeSpec.fromTo 2 9, .from 7, .suffix 3], spec.Ordered := by
    simp [RangeSpec.Ordered]
  obtain ⟨hparse, ranges, hranges, hdenote⟩ := rangeHeader_denotes hne hordered 5
  exact ⟨hparse, ranges, hranges, hdenote.length_eq.symm.trans (by decide)⟩

end GooseHttp
