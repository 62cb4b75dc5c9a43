import GooseHttp.Lib.Numeral
import GooseHttp.Lib.Search
import GooseHttp.Lib.Utf8
import Mathlib.Data.FinEnum
import Mathlib.Data.List.DropRight
/-!
# Text as the server sees it

A Rust `String` is its UTF-8 bytes, so text and wire data share one type here and
`len` is `List.length`.  The `str` operations of the source cut at ASCII bytes
and are therefore list operations; only `trim` looks at whole characters, through
the table of the characters with the White_Space property.
-/

namespace GooseHttp

open Lib

abbrev Bytes := List UInt8

/-- Bytes that are read as text. -/
abbrev Text := List UInt8

def ascii (s : String) : Text := s.toList.map fun c => UInt8.ofNat c.toNat

def CR : UInt8 := 13
def LF : UInt8 := 10
def CRLF : Bytes := [CR, LF]

def CRLFCRLF : Bytes := [CR, LF, CR, LF]

/-! ## ASCII classes -/

def isDigit (b : UInt8) : Bool := 48 ≤ b && b ≤ 57
def isUpper (b : UInt8) : Bool := 65 ≤ b && b ≤ 90
def isLower (b : UInt8) : Bool := 97 ≤ b && b ≤ 122
def isAlphabetic (b : UInt8) : Bool := isUpper b || isLower b
def isAlphanumeric (b : UInt8) : Bool := isAlphabetic b || isDigit b

def isHexDigit (b : UInt8) : Bool :=
  isDigit b || (65 ≤ b && b ≤ 70) || (97 ≤ b && b ≤ 102)

def toAsciiLower (b : UInt8) : UInt8 := if isUpper b then b + 32 else b

def asciiLowercase (s : Text) : Text := s.map toAsciiLower

def eqIgnoreAsciiCase (a b : Text) : Bool := asciiLowercase a = asciiLowercase b

theorem toAsciiLower_idem (b : UInt8) : toAsciiLower (toAsciiLower b) = toAsciiLower b := by
  revert b
  decide +kernel

@[simp] theorem asciiLowercase_idem (s : Text) :
    asciiLowercase (asciiLowercase s) = asciiLowercase s := by
  simp [asciiLowercase, toAsciiLower_idem]

/-! ## Trimming -/

/-- Optional white space of the HTTP grammar. -/
def isOws (b : UInt8) : Bool := b = 32 || b = 9

/-- `trim_matches(|c| matches!(c, ' ' | '\t'))`. -/
def trimOws (s : Text) : Text := (s.dropWhile isOws).rdropWhile isOws

/-- The UTF-8 encodings of the characters with the White_Space property. -/
def whiteSpace : List Text :=
  [[9], [10], [11], [12], [13], [32], [0xC2, 0x85], [0xC2, 0xA0], [0xE1, 0x9A, 0x80],
    [0xE2, 0x80, 0x80], [0xE2, 0x80, 0x81], [0xE2, 0x80, 0x82], [0xE2, 0x80, 0x83],
    [0xE2, 0x80, 0x84], [0xE2, 0x80, 0x85], [0xE2, 0x80, 0x86], [0xE2, 0x80, 0x87],
    [0xE2, 0x80, 0x88], [0xE2, 0x80, 0x89], [0xE2, 0x80, 0x8A], [0xE2, 0x80, 0xA8],
    [0xE2, 0x80, 0xA9], [0xE2, 0x80, 0xAF], [0xE2, 0x81, 0x9F], [0xE3, 0x80, 0x80]]

def stripOne (patterns : List Text) (s : Text) : Option Text :=
  (patterns.find? (·.isPrefixOf s)).map fun p => s.drop p.length

/-- Strip leading patterns, at most `fuel` of them. -/
def stripMany (patterns : List Text) : Nat → Text → Text
  | 0, s => s
  | fuel + 1, s =>
      match stripOne patterns s with
      | some rest => stripMany patterns fuel rest
      | none => s

def trimStart (s : Text) : Text := stripMany whiteSpace s.length s

def trimEnd (s : Text) : Text :=
  (stripMany (whiteSpace.map List.reverse) s.length s.reverse).reverse

def trim (s : Text) : Text := trimEnd (trimStart s)

theorem stripOne_eq_none_iff {patterns : List Text} {s : Text} :
    stripOne patterns s = none ↔ ∀ p ∈ patterns, ¬ p <+: s := by
  simp [stripOne, List.isPrefixOf_iff_prefix]

theorem stripMany_of_none {patterns : List Text} {s : Text} (fuel : Nat)
    (h : stripOne patterns s = none) : stripMany patterns fuel s = s := by
  cases fuel with
  | zero => rfl
  | succ fuel => rw [stripMany, h]

theorem stripMany_ows {patterns : List Text} {ows s : Text} {fuel : Nat}
    (hows : ∀ b ∈ ows, isOws b = true)
    (hone : ∀ b rest, isOws b = true → stripOne patterns (b :: rest) = some rest)
    (hs : stripOne patterns s = none) (hfuel : ows.length ≤ fuel) :
    stripMany patterns fuel (ows ++ s) = s := by
  induction ows generalizing fuel with
  | nil => exact stripMany_of_none fuel hs
  | cons b ows ih =>
      cases fuel with
      | zero => simp at hfuel
      | succ fuel =>
          rw [List.cons_append, stripMany, hone b _ (hows b (by simp))]
          exact ih (fun c hc => hows c (by simp [hc])) (by simpa using hfuel)

def isGraphic (b : UInt8) : Bool := 33 ≤ b && b ≤ 126

theorem isOws_iff {b : UInt8} : isOws b = true ↔ b = 32 ∨ b = 9 := by
  simp [isOws]

theorem stripOne_whiteSpace_ows {b : UInt8} (rest : Text) (h : isOws b = true) :
    stripOne whiteSpace (b :: rest) = some rest := by
  rcases isOws_iff.mp h with rfl | rfl <;> rfl

theorem stripOne_whiteSpace_reverse_ows {b : UInt8} (rest : Text) (h : isOws b = true) :
    stripOne (whiteSpace.map List.reverse) (b :: rest) = some rest := by
  rcases isOws_iff.mp h with rfl | rfl <;> rfl

theorem head_whiteSpace_not_graphic :
    ∀ p ∈ whiteSpace ++ whiteSpace.map List.reverse, ∃ b rest, p = b :: rest ∧
      isGraphic b = false := by
  have h : ∀ p ∈ whiteSpace ++ whiteSpace.map List.reverse,
      p ≠ [] ∧ p.head?.all (fun b => !isGraphic b) = true := by decide
  intro p hp
  obtain ⟨hne, hhead⟩ := h p hp
  cases p with
  | nil => exact absurd rfl hne
  | cons b rest => exact ⟨b, rest, rfl, by simpa using hhead⟩

theorem stripOne_graphic {patterns : List Text} {b : UInt8} (rest : Text)
    (hpat : ∀ p ∈ patterns, p ∈ whiteSpace ++ whiteSpace.map List.reverse)
    (hb : isGraphic b = true) : stripOne patterns (b :: rest) = none := by
  rw [stripOne_eq_none_iff]
  intro p hp hprefix
  obtain ⟨c, ps, rfl, hc⟩ := head_whiteSpace_not_graphic p (hpat p hp)
  have hcb : c = b := (List.cons_prefix_cons.mp hprefix).1
  rw [hcb, hb] at hc
  cases hc

theorem trimStart_ows_graphic {ows : Text} {b : UInt8} (rest : Text)
    (hows : ∀ c ∈ ows, isOws c = true) (hb : isGraphic b = true) :
    trimStart (ows ++ b :: rest) = b :: rest := by
  apply stripMany_ows hows
  · exact fun c rest hc => stripOne_whiteSpace_ows rest hc
  · exact stripOne_graphic rest (fun p hp => List.mem_append_left _ hp) hb
  · simp

theorem trimEnd_graphic_ows {ows : Text} {b : UInt8} (front : Text)
    (hows : ∀ c ∈ ows, isOws c = true) (hb : isGraphic b = true) :
    trimEnd (front ++ b :: ows) = front ++ [b] := by
  have hrev : (front ++ b :: ows).reverse = ows.reverse ++ b :: front.reverse := by simp
  rw [trimEnd, hrev, stripMany_ows (s := b :: front.reverse)]
  · simp
  · exact fun c hc => hows c (List.mem_reverse.mp hc)
  · exact fun c rest hc => stripOne_whiteSpace_reverse_ows rest hc
  · exact stripOne_graphic _ (fun p hp => List.mem_append_right _ hp) hb
  · simp only [List.length_reverse, List.length_append, List.length_cons]
    omega

theorem trim_ows {ows : Text} (hows : ∀ c ∈ ows, isOws c = true) : trim ows = [] := by
  have hstart : trimStart ows = [] := by
    have h := stripMany_ows (s := []) hows
      (fun c rest hc => stripOne_whiteSpace_ows rest hc) rfl (Nat.le_refl _)
    rwa [List.append_nil] at h
  rw [trim, hstart]
  rfl

theorem trim_ows_graphic {ows s ows' : Text} (hows : ∀ c ∈ ows, isOws c = true)
    (hs : ∀ c ∈ s, isGraphic c = true) (hows' : ∀ c ∈ ows', isOws c = true) :
    trim (ows ++ s ++ ows') = s := by
  rcases List.eq_nil_or_concat s with rfl | ⟨front, last, rfl⟩
  · rw [List.append_nil]
    apply trim_ows
    intro c hc
    rcases List.mem_append.mp hc with hc | hc
    · exact hows c hc
    · exact hows' c hc
  · have hstart : trimStart (ows ++ (front ++ [last]) ++ ows') = front ++ [last] ++ ows' := by
      cases front with
      | nil => simpa using trimStart_ows_graphic ows' hows (hs last (by simp))
      | cons b front =>
          simpa using trimStart_ows_graphic (front ++ [last] ++ ows') hows (hs b (by simp))
    rw [trim, List.concat_eq_append, hstart, List.append_assoc]
    exact trimEnd_graphic_ows front hows' (hs last (by simp))

theorem trim_graphic {s : Text} (hs : ∀ c ∈ s, isGraphic c = true) : trim s = s := by
  have h := @trim_ows_graphic [] s [] (by simp) hs (by simp)
  simpa using h

theorem dropWhile_of_trimOws {s : Text} (hs : trimOws s = s) : s.dropWhile isOws = s := by
  have hlen : s.length ≤ (s.dropWhile isOws).length := by
    have h := (List.rdropWhile_prefix isOws (s.dropWhile isOws)).length_le
    rwa [show (s.dropWhile isOws).rdropWhile isOws = s from hs] at h
  exact (List.dropWhile_suffix isOws).eq_of_length_le hlen

theorem trimOws_pad {ows s ows' : Text} (hows : ∀ c ∈ ows, isOws c = true)
    (hs : trimOws s = s) (hows' : ∀ c ∈ ows', isOws c = true) :
    trimOws (ows ++ s ++ ows') = s := by
  have hdrop := dropWhile_of_trimOws hs
  have hend : (s ++ ows').rdropWhile isOws = s.rdropWhile isOws := by
    rw [List.rdropWhile, List.reverse_append,
      List.dropWhile_append_of_pos (by simpa using hows'), ← List.rdropWhile]
  have hkeep : s.rdropWhile isOws = s := by
    rw [trimOws, hdrop] at hs
    exact hs
  rw [trimOws, List.append_assoc, List.dropWhile_append_of_pos hows]
  cases s with
  | nil =>
      have hall : ows'.dropWhile isOws = [] := List.dropWhile_eq_nil_iff.mpr hows'
      simp [hall]
  | cons b s =>
      have hb : isOws b ≠ true := by
        intro hb
        rw [List.dropWhile_cons_of_pos hb] at hdrop
        have hlen := (List.dropWhile_suffix isOws (l := s)).length_le
        rw [hdrop] at hlen
        simp at hlen
      rw [List.cons_append, List.dropWhile_cons_of_neg hb, ← List.cons_append, hend, hkeep]

theorem trimOws_eq (s : Text) :
    ∃ ows ows', s = ows ++ trimOws s ++ ows' ∧ (∀ c ∈ ows, isOws c = true) ∧
      ∀ c ∈ ows', isOws c = true := by
  refine ⟨s.takeWhile isOws, (s.dropWhile isOws).rtakeWhile isOws, ?_, ?_, ?_⟩
  · rw [trimOws, List.append_assoc, List.rdropWhile_append_rtakeWhile,
      List.takeWhile_append_dropWhile]
  · exact fun c hc => List.mem_takeWhile_imp hc
  · exact fun c hc => List.mem_rtakeWhile_imp hc

theorem trimOws_idem (s : Text) : trimOws (trimOws s) = trimOws s := by
  have hend : (trimOws s).rdropWhile isOws = trimOws s := List.rdropWhile_idempotent _ _
  have hstart : (trimOws s).dropWhile isOws = trimOws s := by
    rw [List.dropWhile_eq_self_iff]
    intro hpos
    have hpre : trimOws s <+: s.dropWhile isOws := List.rdropWhile_prefix _ _
    have hlen := hpos.trans_le hpre.length_le
    rw [hpre.getElem hpos]
    exact List.dropWhile_get_zero_not isOws s hlen
  rw [trimOws, hstart, hend]

theorem length_trimOws_le (s : Text) : (trimOws s).length ≤ s.length := by
  obtain ⟨ows, ows', hs, -⟩ := trimOws_eq s
  have hlen := congrArg List.length hs
  simp only [List.length_append] at hlen
  omega

theorem ascii_of_isOws {b : UInt8} (h : isOws b = true) : b < 0x80 := by
  rcases isOws_iff.mp h with rfl | rfl <;> decide

theorem utf8Valid_trimOws {s : Text} (h : utf8Valid s = true) :
    utf8Valid (trimOws s) = true := by
  obtain ⟨ows, ows', hs, hows, hows'⟩ := trimOws_eq s
  rw [hs, List.append_assoc, utf8Valid_append_of_ascii _ fun c hc => ascii_of_isOws (hows c hc)] at h
  cases ows' with
  | nil => rwa [List.append_nil] at h
  | cons a ows' => exact (utf8Valid_of_append_ascii h (ascii_of_isOws (hows' a (by simp)))).1

theorem not_isOws_of_isGraphic : ∀ {b : UInt8}, isGraphic b = true → ¬ isOws b = true := by
  decide +kernel

theorem trimOws_graphic {s : Text} (hs : ∀ b ∈ s, isGraphic b = true) : trimOws s = s := by
  have hstart : s.dropWhile isOws = s :=
    List.dropWhile_eq_self_iff.mpr fun _ => not_isOws_of_isGraphic (hs _ (List.getElem_mem _))
  rw [trimOws, hstart]
  exact List.rdropWhile_eq_self_iff.mpr fun _ => not_isOws_of_isGraphic (hs _ (List.getLast_mem _))

theorem trimOws_of_ends {b c : UInt8} (mid : Text) (hb : isGraphic b = true)
    (hc : isGraphic c = true) : trimOws (b :: (mid ++ [c])) = b :: (mid ++ [c]) := by
  rw [trimOws, List.dropWhile_cons_of_neg (not_isOws_of_isGraphic hb), ← List.cons_append,
    List.rdropWhile_concat_neg _ _ _ (not_isOws_of_isGraphic hc)]

/-! ## Numbers -/

def toDigit (radix : Nat) (b : UInt8) : Option Nat :=
  let value :=
    if isDigit b then some (b.toNat - 48)
    else if isLower b then some (b.toNat - 87)
    else if isUpper b then some (b.toNat - 55)
    else none
  value.filter (· < radix)

def toDigits (radix : Nat) : Text → Option (List Nat)
  | [] => some []
  | b :: s =>
      match toDigit radix b, toDigits radix s with
      | some d, some ds => some (d :: ds)
      | _, _ => none

/-- `from_str_radix` of an unsigned integer type whose values are below `bound`:
an optional plus sign, then at least one digit. -/
def fromStrRadix (radix bound : Nat) (s : Text) : Option Nat :=
  let digits := if s.head? = some 43 then s.tail else s
  if digits = [] then none
  else
    match toDigits radix digits with
    | none => none
    | some ds => if numeralValue radix ds < bound then some (numeralValue radix ds) else none

def u64Bound : Nat := 2 ^ 64

def parseU64 (s : Text) : Option Nat := fromStrRadix 10 u64Bound s

def parseU8 (s : Text) : Option Nat := fromStrRadix 10 256 s

def digitChar (d : Nat) : UInt8 := UInt8.ofNat (if d < 10 then 48 + d else 55 + d)

/-- Print a number with upper-case digits, as `to_string` and `{:X}` do. -/
def formatRadix (radix n : Nat) : Text := (numeral radix n).map digitChar

def toDecimal (n : Nat) : Text := formatRadix 10 n

theorem toDigit_digitChar {radix d : Nat} (hradix : radix ≤ 16) (hd : d < radix) :
    toDigit radix (digitChar d) = some d := by
  have h : ∀ d < 16, toDigit 36 (digitChar d) = some d := by decide +kernel
  have hd36 := h d (by omega)
  simp only [toDigit, Option.filter_eq_some_iff] at hd36 ⊢
  exact ⟨hd36.1, by simpa using hd⟩

theorem toDigits_map_digitChar {radix : Nat} {ds : List Nat} (hradix : radix ≤ 16)
    (hds : ∀ d ∈ ds, d < radix) : toDigits radix (ds.map digitChar) = some ds := by
  induction ds with
  | nil => rfl
  | cons d ds ih =>
      rw [List.map_cons, toDigits, toDigit_digitChar hradix (hds d (by simp)),
        ih (fun e he => hds e (by simp [he]))]

theorem toDigit_plus (radix : Nat) : toDigit radix 43 = none := rfl

theorem mem_toDigits {radix : Nat} {s : Text} {ds : List Nat} (h : toDigits radix s = some ds) :
    ∀ b ∈ s, ∃ d, toDigit radix b = some d := by
  induction s generalizing ds with
  | nil => simp
  | cons b s ih =>
      rw [toDigits] at h
      split at h
      · rename_i d ds' hd hds
        intro c hc
        rcases List.mem_cons.mp hc with rfl | hc
        · exact ⟨d, hd⟩
        · exact ih hds c hc
      · cases h

theorem not_mem_of_toDigits {radix : Nat} {s : Text} {ds : List Nat}
    (h : toDigits radix s = some ds) {b : UInt8} (hb : toDigit radix b = none) : b ∉ s := by
  intro hmem
  obtain ⟨d, hd⟩ := mem_toDigits h b hmem
  rw [hb] at hd
  cases hd

theorem fromStrRadix_digits {radix bound : Nat} {s : Text} {ds : List Nat} (hs : s ≠ [])
    (hds : toDigits radix s = some ds) (hbound : numeralValue radix ds < bound) :
    fromStrRadix radix bound s = some (numeralValue radix ds) := by
  have hsign : s.head? ≠ some 43 :=
    fun hhead => not_mem_of_toDigits hds (toDigit_plus radix) (List.mem_of_head? hhead)
  simp only [fromStrRadix, if_neg hsign, if_neg hs, hds, if_pos hbound]

theorem fromStrRadix_eq_some_iff {radix bound n : Nat} {s : Text} (hsign : s.head? ≠ some 43) :
    fromStrRadix radix bound s = some n ↔
      s ≠ [] ∧ ∃ ds, toDigits radix s = some ds ∧ numeralValue radix ds = n ∧ n < bound := by
  constructor
  · intro h
    simp only [fromStrRadix, if_neg hsign] at h
    split at h
    · cases h
    · rename_i hne
      split at h
      · cases h
      · rename_i ds hds
        split at h
        · rename_i hlt
          have heq := Option.some.inj h
          exact ⟨hne, ds, hds, heq, heq ▸ hlt⟩
        · cases h
  · rintro ⟨hne, ds, hds, rfl, hlt⟩
    exact fromStrRadix_digits hne hds hlt

theorem formatRadix_ne_nil (radix n : Nat) : formatRadix radix n ≠ [] := by
  simpa [formatRadix] using numeral_ne_nil radix n

theorem toDigits_formatRadix {radix : Nat} (n : Nat) (hone : 1 < radix) (hradix : radix ≤ 16) :
    toDigits radix (formatRadix radix n) = some (numeral radix n) :=
  toDigits_map_digitChar hradix fun _ hd => lt_of_mem_numeral hone hd

theorem fromStrRadix_formatRadix {radix bound n : Nat} (hone : 1 < radix) (hradix : radix ≤ 16)
    (hn : n < bound) : fromStrRadix radix bound (formatRadix radix n) = some n := by
  have h := fromStrRadix_digits (formatRadix_ne_nil radix n) (toDigits_formatRadix n hone hradix)
    (by rwa [numeralValue_numeral])
  rwa [numeralValue_numeral] at h

theorem isGraphic_of_toDigit {radix : Nat} {b : UInt8} {d : Nat}
    (h : toDigit radix b = some d) : isGraphic b = true := by
  have hclass : isDigit b = true ∨ isLower b = true ∨ isUpper b = true := by
    simp only [toDigit, Option.filter_eq_some_iff] at h
    by_contra hnone
    simp only [not_or, Bool.not_eq_true] at hnone
    simp [hnone.1, hnone.2.1, hnone.2.2] at h
  revert hclass
  clear h
  revert b
  decide +kernel

theorem isGraphic_of_toDigits {radix : Nat} {s : Text} {ds : List Nat}
    (h : toDigits radix s = some ds) : ∀ b ∈ s, isGraphic b = true := by
  intro b hb
  obtain ⟨d, hd⟩ := mem_toDigits h b hb
  exact isGraphic_of_toDigit hd

theorem isGraphic_formatRadix {radix n : Nat} (hone : 1 < radix) (hradix : radix ≤ 16) :
    ∀ b ∈ formatRadix radix n, isGraphic b = true :=
  isGraphic_of_toDigits (toDigits_formatRadix n hone hradix)

theorem ascii_of_isGraphic : ∀ {b : UInt8}, isGraphic b = true → b < 0x80 := by
  decide +kernel

end GooseHttp
