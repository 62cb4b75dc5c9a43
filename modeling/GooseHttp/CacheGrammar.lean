import GooseHttp.Cache
import GooseHttp.Decimal
import GooseHttp.Lib.Accumulate
import GooseHttp.Trim
/-!
# The grammar of `Cache-Control`

The lines of the field as lists of directives, and what they say when they are read as a
whole.  The server reads the first line only and cuts it at every comma; it says the same
as the grammar exactly when nothing that matters stands in a later line or is cut.
-/

namespace GooseHttp

open Lib

/-! ## Directives and lines -/

/-- The argument of a directive: a token, or a quoted string without escapes. -/
inductive CacheArgument
  | token (text : Text) (htoken : isToken text = true)
  | quoted (content : Text) (hquote : 34 ∉ content) (hescape : 92 ∉ content)

namespace CacheArgument

def value : CacheArgument → Text
  | token text _ => text
  | quoted content _ _ => content

def text : CacheArgument → Text
  | token text _ => text
  | quoted content _ _ => 34 :: content ++ [34]

end CacheArgument

structure CacheDirective where
  name : Text
  argument : Option CacheArgument
  isToken_name : isToken name = true

namespace CacheDirective

def text (d : CacheDirective) : Text :=
  match d.argument with
  | none => d.name
  | some argument => d.name ++ 61 :: argument.text

def isNamed (d : CacheDirective) (name : Text) : Bool := asciiLowercase d.name = name

def isOther (d : CacheDirective) : Bool :=
  !d.isNamed (ascii "no-store") && !d.isNamed (ascii "no-cache") &&
    !d.isNamed (ascii "must-revalidate") && !d.isNamed (ascii "max-age")

def maxAge (d : CacheDirective) : Option Nat :=
  if d.isNamed (ascii "max-age") then d.argument.bind fun a => readLength a.value else none

/-- The same with a plus sign allowed in front of the number. -/
def looseMaxAge (d : CacheDirective) : Option Nat :=
  if d.isNamed (ascii "max-age") then d.argument.bind fun a => readLength (dropPlus a.value)
  else none

end CacheDirective

structure CacheElement where
  before : Text
  directive : Option CacheDirective
  behind : Text
  ows_before : ∀ b ∈ before, isOws b = true
  ows_behind : ∀ b ∈ behind, isOws b = true

namespace CacheElement

def core (e : CacheElement) : Text := (e.directive.map CacheDirective.text).getD []

def text (e : CacheElement) : Text := e.before ++ e.core ++ e.behind

end CacheElement

structure CacheLine where
  elements : List CacheElement

namespace CacheLine

def text (line : CacheLine) : Text := [44].intercalate (line.elements.map CacheElement.text)

def directives (line : CacheLine) : List CacheDirective :=
  line.elements.filterMap CacheElement.directive

end CacheLine

def allDirectives (lines : List CacheLine) : List CacheDirective :=
  lines.flatMap CacheLine.directives

def firstDirectives (lines : List CacheLine) : List CacheDirective :=
  (lines.head?.map CacheLine.directives).getD []

def laterDirectives (lines : List CacheLine) : List CacheDirective := allDirectives lines.tail

/-! ## What the lines say -/

def countedDirectives (headers : Headers) : List Text :=
  ((headers.get HeaderKeys.cacheControl).map cacheDirectives).getD []

/-- The control says what the lines say, all of them and nothing else. -/
structure ReadsWhole (lines : List CacheLine) (counted : List Text)
    (control : Option CacheControl) : Prop where
  isSome : control.isSome = true ↔ lines ≠ []
  noStore : (∃ c ∈ control, c.noStore = true) ↔
    ∃ d ∈ allDirectives lines, d.isNamed (ascii "no-store") = true
  noCache : (∃ c ∈ control, c.noCache = true) ↔
    ∃ d ∈ allDirectives lines, d.isNamed (ascii "no-cache") = true
  mustRevalidate : (∃ c ∈ control, c.mustRevalidate = true) ↔
    ∃ d ∈ allDirectives lines, d.isNamed (ascii "must-revalidate") = true
  maxAge : control.bind CacheControl.maxAge =
    ((allDirectives lines).filterMap CacheDirective.maxAge).getLast?
  other : (control.map CacheControl.other).getD [] =
    ((allDirectives lines).filter CacheDirective.isOther).map CacheDirective.text
  quoted : ∀ piece ∈ counted, ∃ d ∈ allDirectives lines, piece = d.text

def flagNames : List Text := [ascii "no-store", ascii "no-cache", ascii "must-revalidate"]

/-- The first line, cut at every comma, says what all lines say: no comma of it is quoted, a
later line only repeats a flag or gives an age, and the last age of the first line, with a
plus sign or without, is the last age of all lines. -/
structure IsWithinReach (lines : List CacheLine) : Prop where
  uncut : ∀ d ∈ firstDirectives lines, 44 ∉ d.text
  later : ∀ d ∈ laterDirectives lines, d.isNamed (ascii "max-age") = true ∨
    ∃ name ∈ flagNames, d.isNamed name = true ∧
      ∃ e ∈ firstDirectives lines, e.isNamed name = true
  maxAge : ((firstDirectives lines).filterMap CacheDirective.looseMaxAge).getLast? =
    ((allDirectives lines).filterMap CacheDirective.maxAge).getLast?

/-! ## One directive -/

theorem trimQuotes_of_not_mem {s : Text} (h : 34 ∉ s) : trimQuotes s = s := by
  have hstart : s.dropWhile (fun b => b = 34) = s := by
    apply List.dropWhile_eq_self_iff.mpr
    intro hpos hquote
    exact h (by
      rw [← of_decide_eq_true hquote]
      exact List.getElem_mem hpos)
  rw [trimQuotes, hstart]
  apply List.rdropWhile_eq_self_iff.mpr
  intro hne hquote
  exact h (by
    rw [← of_decide_eq_true hquote]
    exact List.getLast_mem hne)

theorem trimQuotes_quoted {s : Text} (h : 34 ∉ s) : trimQuotes (34 :: s ++ [34]) = s := by
  have hkeep := trimQuotes_of_not_mem h
  cases s with
  | nil => rfl
  | cons b s =>
      have hb : b ≠ 34 := fun hb => h (by simp [hb])
      rw [trimQuotes, List.dropWhile_cons_of_neg (by simpa using hb)] at hkeep
      rw [trimQuotes, List.cons_append, List.dropWhile_cons_of_pos (by simp), List.cons_append,
        List.dropWhile_cons_of_neg (by simpa using hb), ← List.cons_append,
        List.rdropWhile_concat_pos _ _ _ (by simp)]
      exact hkeep

theorem CacheArgument.trimQuotes_text (a : CacheArgument) : trimQuotes a.text = a.value := by
  cases a with
  | token text htoken => exact trimQuotes_of_not_mem (not_mem_of_isToken htoken (by decide))
  | quoted content hquote hescape => exact trimQuotes_quoted hquote

namespace CacheDirective

theorem isGraphic_name (d : CacheDirective) : ∀ b ∈ d.name, isGraphic b = true := by
  intro b hb
  exact isGraphic_of_isTchar ((isToken_iff.mp d.isToken_name).2 b hb)

theorem splitDirective_text (d : CacheDirective) :
    splitDirective d.text = (d.name, d.argument.map CacheArgument.text) := by
  have hname : 61 ∉ d.name := not_mem_of_isToken d.isToken_name (by decide)
  rw [splitDirective, text]
  cases d.argument with
  | none =>
      rw [splitOnce_eq_none_iff.mpr hname]
      rfl
  | some argument =>
      rw [splitOnce_append _ hname]
      rfl

theorem parseU64_argument (d : CacheDirective) :
    ((d.argument.map CacheArgument.text).map trimQuotes).bind parseU64 =
      d.argument.bind fun a => readLength (dropPlus a.value) := by
  cases d.argument with
  | none => rfl
  | some argument =>
      rw [Option.map_some, Option.map_some, Option.bind_some, Option.bind_some,
        argument.trimQuotes_text, parseU64_eq_readLength]

structure Notes (c : CacheControl) (d : CacheDirective) (c' : CacheControl) : Prop where
  noStore : c'.noStore = (c.noStore || d.isNamed (ascii "no-store"))
  noCache : c'.noCache = (c.noCache || d.isNamed (ascii "no-cache"))
  mustRevalidate : c'.mustRevalidate =
    (c.mustRevalidate || d.isNamed (ascii "must-revalidate"))
  maxAge : c'.maxAge = d.looseMaxAge.or c.maxAge
  other : c'.other = c.other ++ if d.isOther then [d.text] else []

theorem noteDirective_notes (c : CacheControl) (d : CacheDirective) :
    Notes c d (noteDirective c d.text) := by
  unfold noteDirective
  rw [d.splitDirective_text]
  dsimp only
  rw [d.parseU64_argument, trim_graphic d.isGraphic_name]
  split
  · rename_i h
    constructor <;> simp +decide [isNamed, isOther, looseMaxAge, h]
  · split
    · rename_i h
      constructor <;> simp +decide [isNamed, isOther, looseMaxAge, h]
    · split
      · rename_i h
        constructor <;> simp +decide [isNamed, isOther, looseMaxAge, h]
      · split
        · rename_i h
          split
          · rename_i value hvalue
            constructor <;> simp +decide [isNamed, isOther, looseMaxAge, h, hvalue]
          · rename_i hvalue
            constructor <;> simp +decide [isNamed, isOther, looseMaxAge, h, hvalue]
        · rename_i hstore hcache hrevalidate hage
          constructor <;>
            simp [isNamed, isOther, looseMaxAge, hstore, hcache, hrevalidate, hage]

/-- What a list of directives says to the server. -/
def control (ds : List CacheDirective) : CacheControl :=
  (ds.map text).foldl noteDirective .initial

theorem control_noStore (ds : List CacheDirective) :
    (control ds).noStore = ds.any fun d => d.isNamed (ascii "no-store") := by
  rw [control, List.foldl_map, foldl_flag fun c d => (noteDirective_notes c d).noStore]
  exact Bool.false_or _

theorem control_noCache (ds : List CacheDirective) :
    (control ds).noCache = ds.any fun d => d.isNamed (ascii "no-cache") := by
  rw [control, List.foldl_map, foldl_flag fun c d => (noteDirective_notes c d).noCache]
  exact Bool.false_or _

theorem control_mustRevalidate (ds : List CacheDirective) :
    (control ds).mustRevalidate = ds.any fun d => d.isNamed (ascii "must-revalidate") := by
  rw [control, List.foldl_map, foldl_flag fun c d => (noteDirective_notes c d).mustRevalidate]
  exact Bool.false_or _

theorem control_maxAge (ds : List CacheDirective) :
    (control ds).maxAge = (ds.filterMap looseMaxAge).getLast? := by
  rw [control, List.foldl_map, foldl_last fun c d => (noteDirective_notes c d).maxAge]
  exact Option.or_none

theorem control_other (ds : List CacheDirective) :
    (control ds).other = (ds.filter isOther).map text := by
  rw [control, List.foldl_map, foldl_grows fun c d => (noteDirective_notes c d).other]
  change [] ++ ds.flatMap (fun d => if d.isOther = true then [d.text] else []) = _
  rw [List.nil_append]
  induction ds with
  | nil => rfl
  | cons d ds ih =>
      rw [List.flatMap_cons, List.filter_cons, ih]
      split <;> rfl

/-! ## The text of a directive -/

theorem exists_name (d : CacheDirective) : ∃ b rest, d.name = b :: rest ∧ isGraphic b = true := by
  obtain ⟨b, rest, hname⟩ := List.exists_cons_of_ne_nil (isToken_iff.mp d.isToken_name).1
  exact ⟨b, rest, hname, d.isGraphic_name b (by simp [hname])⟩

theorem trim_text (d : CacheDirective) : trim d.text = d.text := by
  obtain ⟨b, rest, hname, hb⟩ := d.exists_name
  cases hargument : d.argument with
  | none =>
      rw [text, hargument]
      exact trim_graphic d.isGraphic_name
  | some argument =>
      cases argument with
      | token s htoken =>
          rw [text, hargument]
          apply trim_graphic
          intro c hc
          rcases List.mem_append.mp hc with hc | hc
          · exact d.isGraphic_name c hc
          · rcases List.mem_cons.mp hc with rfl | hc
            · decide
            · exact isGraphic_of_isTchar ((isToken_iff.mp htoken).2 c hc)
      | quoted content hquote hescape =>
          have htext : d.text = d.name ++ 61 :: (34 :: content ++ [34]) := by
            rw [text, hargument]
            rfl
          rw [htext]
          apply @trim_of_ends _ (d.name ++ 61 :: 34 :: content)
            (rest ++ 61 :: (34 :: content ++ [34])) b 34
          · rw [hname, List.cons_append]
          · simp
          · exact hb
          · decide

theorem text_ne_nil (d : CacheDirective) : d.text ≠ [] := by
  obtain ⟨b, rest, hname, -⟩ := d.exists_name
  rw [text, hname]
  cases d.argument <;> simp

theorem count_quote_text (d : CacheDirective) : d.text.count 34 ≠ 1 := by
  have hname : d.name.count 34 = 0 :=
    List.count_eq_zero.mpr (not_mem_of_isToken d.isToken_name (by decide))
  rw [text]
  cases d.argument with
  | none => simp [hname]
  | some argument =>
      cases argument with
      | token s htoken =>
          have hs : s.count 34 = 0 := List.count_eq_zero.mpr (not_mem_of_isToken htoken (by decide))
          simp [CacheArgument.text, List.count_append, hname, hs]
      | quoted content hquote hescape =>
          have hcontent : content.count 34 = 0 := List.count_eq_zero.mpr hquote
          simp [CacheArgument.text, List.count_append, hname, hcontent]

theorem comma_quoted {d : CacheDirective} (h : 44 ∈ d.text) :
    ∃ front back, d.text = d.name ++ 61 :: 34 :: front ++ 44 :: back ∧ 44 ∉ front ∧
      34 ∉ front := by
  have hname : 44 ∉ d.name := not_mem_of_isToken d.isToken_name (by decide)
  rw [text] at h ⊢
  cases hargument : d.argument with
  | none =>
      rw [hargument] at h
      exact absurd h hname
  | some argument =>
      rw [hargument] at h
      cases argument with
      | token s htoken =>
          have hs : 44 ∉ s := not_mem_of_isToken htoken (by decide)
          simp [CacheArgument.text, hname, hs] at h
      | quoted content hquote hescape =>
          have hmem : 44 ∈ content := by simpa [CacheArgument.text, hname] using h
          cases hsplit : splitOnce 44 content with
          | none => exact absurd hmem (splitOnce_eq_none_iff.mp hsplit)
          | some pair =>
              obtain ⟨hcontent, hfront⟩ := splitOnce_some (a := pair.1) (b := pair.2) hsplit
              refine ⟨pair.1, pair.2 ++ [34], ?_, hfront, ?_⟩
              · dsimp only
                rw [CacheArgument.text, hcontent]
                simp
              · rw [hcontent] at hquote
                exact fun hq => hquote (List.mem_append_left _ hq)

end CacheDirective

/-! ## The pieces between the commas -/

theorem cacheDirectives_of_not_mem {s : Text} (h : 44 ∉ s) :
    cacheDirectives s = if trim s = [] then [] else [trim s] := by
  rw [cacheDirectives, splitAll_of_not_mem h, List.map_singleton]
  by_cases hblank : trim s = []
  · rw [if_pos hblank, hblank]
    rfl
  · rw [if_neg hblank, List.filter_cons_of_pos (by simpa using hblank)]
    rfl

theorem cacheDirectives_text (line : CacheLine) :
    cacheDirectives line.text = line.elements.flatMap fun e => cacheDirectives e.text := by
  rw [CacheLine.text]
  by_cases hnil : line.elements = []
  · rw [hnil]
    rfl
  · have hne : line.elements.map CacheElement.text ≠ [] := by simpa using hnil
    rw [cacheDirectives, splitAll_intercalate 44 hne, List.flatMap_map, List.map_flatMap,
      List.filter_flatMap]
    rfl

namespace CacheElement

theorem trim_text (e : CacheElement) : trim e.text = e.core := by
  rw [text, trim_append_right (isSpace_of_ows e.ows_behind),
    trim_append_left (isSpace_of_ows e.ows_before), core]
  cases e.directive with
  | none => rfl
  | some d => exact d.trim_text

theorem comma_mem {e : CacheElement} (h : 44 ∈ e.text) :
    ∃ d, e.directive = some d ∧ 44 ∈ d.text := by
  have hnot : ∀ ows : Text, (∀ b ∈ ows, isOws b = true) → 44 ∉ ows := fun ows hows =>
    not_mem_of_isSpace (isSpace_of_ows hows) (by decide)
  have hcore : 44 ∈ e.core := by
    rw [text, List.mem_append, List.mem_append] at h
    exact (h.resolve_right (hnot _ e.ows_behind)).resolve_left (hnot _ e.ows_before)
  rw [core] at hcore
  cases hdirective : e.directive with
  | none =>
      rw [hdirective] at hcore
      cases hcore
  | some d =>
      rw [hdirective] at hcore
      exact ⟨d, rfl, hcore⟩

theorem cacheDirectives_uncut {e : CacheElement} (h : ∀ d ∈ e.directive, 44 ∉ d.text) :
    cacheDirectives e.text = (e.directive.map CacheDirective.text).toList := by
  have hcomma : 44 ∉ e.text := by
    intro hmem
    obtain ⟨d, hd, hcut⟩ := comma_mem hmem
    exact h d hd hcut
  rw [cacheDirectives_of_not_mem hcomma, e.trim_text, core]
  cases e.directive with
  | none => rfl
  | some d => exact if_neg d.text_ne_nil

theorem cacheDirectives_cut {e : CacheElement} {d : CacheDirective} (he : e.directive = some d)
    (h : 44 ∈ d.text) : ∃ piece ∈ cacheDirectives e.text, ∀ d' : CacheDirective, piece ≠ d'.text := by
  obtain ⟨front, back, htext, hcomma, hquote⟩ := CacheDirective.comma_quoted h
  have hname : 44 ∉ d.name := not_mem_of_isToken d.isToken_name (by decide)
  have hbefore : ∀ b, isGraphic b = true → b ∉ e.before := fun b hb =>
    not_mem_of_isSpace (isSpace_of_ows e.ows_before) hb
  have hsplit : splitAll 44 e.text =
      (e.before ++ (d.name ++ 61 :: 34 :: front)) :: splitAll 44 (back ++ e.behind) := by
    have heq : e.text = (e.before ++ (d.name ++ 61 :: 34 :: front)) ++ 44 :: (back ++ e.behind) := by
      rw [text, core, he, Option.map_some, Option.getD_some, htext]
      simp
    rw [heq]
    apply splitAll_append
    simp [hbefore 44 (by decide), hname, hcomma]
  have hcount : (trim (e.before ++ (d.name ++ 61 :: 34 :: front))).count 34 = 1 := by
    rw [count_trim _ (by decide), List.count_append, List.count_append,
      List.count_eq_zero.mpr (hbefore 34 (by decide)),
      List.count_eq_zero.mpr (not_mem_of_isToken d.isToken_name (by decide)),
      List.count_cons_of_ne (by decide), List.count_cons_self, List.count_eq_zero.mpr hquote]
  refine ⟨trim (e.before ++ (d.name ++ 61 :: 34 :: front)), ?_, fun d' heq => ?_⟩
  · rw [cacheDirectives, hsplit, List.map_cons, List.filter_cons_of_pos]
    · exact List.mem_cons_self
    · rw [decide_eq_true_eq]
      intro hnil
      rw [hnil] at hcount
      cases hcount
  · rw [heq] at hcount
    exact d'.count_quote_text hcount

end CacheElement

/-! ## Names -/

namespace CacheDirective

theorem isNamed_unique {d : CacheDirective} {name name' : Text} (h : d.isNamed name = true)
    (h' : d.isNamed name' = true) : name = name' :=
  (of_decide_eq_true h).symm.trans (of_decide_eq_true h')

theorem isOther_iff (d : CacheDirective) :
    d.isOther = true ↔
      d.isNamed (ascii "max-age") = false ∧ ∀ name ∈ flagNames, d.isNamed name = false := by
  simp [isOther, flagNames, and_assoc, and_comm]

theorem any_iff {p : CacheDirective → Bool} {ds es : List CacheDirective} :
    (ds.any p = true ↔ ∃ d ∈ ds ++ es, p d = true) ↔
      ∀ d ∈ es, p d = true → ∃ e ∈ ds, p e = true := by
  rw [List.any_eq_true]
  constructor
  · exact fun h d hd hp => h.mpr ⟨d, List.mem_append_right _ hd, hp⟩
  · intro h
    constructor
    · rintro ⟨d, hd, hp⟩
      exact ⟨d, List.mem_append_left _ hd, hp⟩
    · rintro ⟨d, hd, hp⟩
      rcases List.mem_append.mp hd with hd | hd
      · exact ⟨d, hd, hp⟩
      · exact h d hd hp

theorem filter_iff {ds es : List CacheDirective} :
    (ds.filter isOther).map text = ((ds ++ es).filter isOther).map text ↔
      ∀ d ∈ es, d.isOther = false := by
  rw [List.filter_append, List.map_append]
  constructor
  · intro h d hd
    have hnil : (es.filter isOther).map text = [] := by
      have hlength := congrArg List.length h
      rw [List.length_append] at hlength
      exact List.length_eq_zero_iff.mp (by omega)
    rw [List.map_eq_nil_iff, List.filter_eq_nil_iff] at hnil
    simpa using hnil d hd
  · intro h
    have hnil : es.filter isOther = [] := by
      apply List.filter_eq_nil_iff.mpr
      intro d hd
      simp [h d hd]
    rw [hnil, List.map_nil, List.append_nil]

end CacheDirective

/-! ## The first line against all lines -/

namespace CacheLine

theorem cacheDirectives_uncut {line : CacheLine} (h : ∀ d ∈ line.directives, 44 ∉ d.text) :
    cacheDirectives line.text = line.directives.map CacheDirective.text := by
  have hone : ∀ e ∈ line.elements,
      cacheDirectives e.text = (e.directive.map CacheDirective.text).toList := by
    intro e he
    apply CacheElement.cacheDirectives_uncut
    intro d hd
    exact h d (List.mem_filterMap.mpr ⟨e, he, hd⟩)
  rw [cacheDirectives_text, List.flatMap_congr hone, directives, List.map_filterMap,
    ← List.filterMap_eq_flatMap_toList]

/-- Nothing but directives is counted only in a line without quoted commas. -/
theorem uncut_of_counted {line : CacheLine} {ds : List CacheDirective}
    (h : ∀ piece ∈ cacheDirectives line.text, ∃ d ∈ ds, piece = d.text) :
    ∀ d ∈ line.directives, 44 ∉ d.text := by
  intro d hd hcut
  obtain ⟨e, he, hdirective⟩ := List.mem_filterMap.mp hd
  obtain ⟨piece, hpiece, hnone⟩ := CacheElement.cacheDirectives_cut hdirective hcut
  have hmem : piece ∈ cacheDirectives line.text := by
    rw [cacheDirectives_text]
    exact List.mem_flatMap.mpr ⟨e, he, hpiece⟩
  obtain ⟨d', -, heq⟩ := h piece hmem
  exact hnone d' heq

end CacheLine

/-- A line without quoted commas says what its directives say. -/
theorem CacheLine.parseCacheControl_text {line : CacheLine}
    (h : ∀ d ∈ line.directives, 44 ∉ d.text) :
    parseCacheControl line.text = CacheDirective.control line.directives := by
  rw [parseCacheControl, cacheDirectives_uncut h, CacheDirective.control]

theorem exists_mem_some {c : CacheControl} {P : CacheControl → Prop} :
    (∃ x ∈ some c, P x) ↔ P c := by
  simp

open CacheDirective in
/-- What the first directives say is what all say when the later ones only repeat. -/
theorem readsWhole_control_iff {first : CacheLine} {rest : List CacheLine} {counted : List Text}
    (hcounted : counted = first.directives.map text) :
    ReadsWhole (first :: rest) counted (some (control first.directives)) ↔
      (∀ d ∈ allDirectives rest, d.isNamed (ascii "max-age") = true ∨
        ∃ name ∈ flagNames, d.isNamed name = true ∧
          ∃ e ∈ first.directives, e.isNamed name = true) ∧
      (first.directives.filterMap looseMaxAge).getLast? =
        ((allDirectives (first :: rest)).filterMap CacheDirective.maxAge).getLast? := by
  have hall : allDirectives (first :: rest) = first.directives ++ allDirectives rest := rfl
  constructor
  · intro h
    have hstore := h.noStore
    have hcache := h.noCache
    have hrevalidate := h.mustRevalidate
    have hother := h.other
    rw [exists_mem_some, control_noStore, hall, any_iff] at hstore
    rw [exists_mem_some, control_noCache, hall, any_iff] at hcache
    rw [exists_mem_some, control_mustRevalidate, hall, any_iff] at hrevalidate
    rw [Option.map_some, Option.getD_some, control_other, hall, filter_iff] at hother
    refine ⟨fun d hd => ?_, ?_⟩
    · have hnot := hother d hd
      rw [← Bool.not_eq_true, isOther_iff, not_and_or, Bool.not_eq_false] at hnot
      refine hnot.imp_right fun hflag => ?_
      simp only [not_forall, Bool.not_eq_false] at hflag
      obtain ⟨name, hname, hd'⟩ := hflag
      refine ⟨name, hname, hd', ?_⟩
      simp only [flagNames, List.mem_cons, List.not_mem_nil, or_false] at hname
      rcases hname with rfl | rfl | rfl
      · exact hstore d hd hd'
      · exact hcache d hd hd'
      · exact hrevalidate d hd hd'
    · rw [← control_maxAge]
      exact h.maxAge
  · rintro ⟨hlater, hage⟩
    have hflag : ∀ name ∈ flagNames, ∀ d ∈ allDirectives rest, d.isNamed name = true →
        ∃ e ∈ first.directives, e.isNamed name = true := by
      intro name hname d hd hd'
      rcases hlater d hd with hmax | ⟨name', hname', hnamed, he⟩
      · rw [isNamed_unique hd' hmax] at hname
        exact absurd hname (by decide)
      · rw [isNamed_unique hd' hnamed]
        exact he
    constructor
    · simp
    · rw [exists_mem_some, control_noStore, hall, any_iff]
      exact hflag _ (by decide)
    · rw [exists_mem_some, control_noCache, hall, any_iff]
      exact hflag _ (by decide)
    · rw [exists_mem_some, control_mustRevalidate, hall, any_iff]
      exact hflag _ (by decide)
    · rw [Option.bind_some, control_maxAge]
      exact hage
    · rw [Option.map_some, Option.getD_some, control_other, hall, filter_iff]
      intro d hd
      rw [← Bool.not_eq_true, isOther_iff]
      rintro ⟨hmax, hnone⟩
      rcases hlater d hd with hnamed | ⟨name, hname, hnamed, -⟩
      · rw [hmax] at hnamed
        cases hnamed
      · rw [hnone name hname] at hnamed
        cases hnamed
    · intro piece hpiece
      rw [hcounted] at hpiece
      obtain ⟨d, hd, rfl⟩ := List.mem_map.mp hpiece
      exact ⟨d, by rw [hall]; exact List.mem_append_left _ hd, rfl⟩

theorem readsWhole_cons_iff (first : CacheLine) (rest : List CacheLine) :
    ReadsWhole (first :: rest) (cacheDirectives first.text)
        (some (parseCacheControl first.text)) ↔ IsWithinReach (first :: rest) := by
  constructor
  · intro h
    have huncut := CacheLine.uncut_of_counted h.quoted
    rw [CacheLine.parseCacheControl_text huncut,
      readsWhole_control_iff (CacheLine.cacheDirectives_uncut huncut)] at h
    exact ⟨huncut, h.1, h.2⟩
  · intro h
    rw [CacheLine.parseCacheControl_text h.uncut,
      readsWhole_control_iff (CacheLine.cacheDirectives_uncut h.uncut)]
    exact ⟨h.later, h.maxAge⟩

theorem readsWhole_nil : ReadsWhole [] [] none where
  isSome := by simp
  noStore := by simp [allDirectives]
  noCache := by simp [allDirectives]
  mustRevalidate := by simp [allDirectives]
  maxAge := rfl
  other := rfl
  quoted := by simp

theorem isWithinReach_nil : IsWithinReach [] where
  uncut := by simp [firstDirectives]
  later := by simp [laterDirectives, allDirectives]
  maxAge := rfl

/-- `Cache-Control` is read as a whole exactly when its first line, cut at every comma, says
what all its lines say. -/
theorem policyFromHeaders_readsWhole_iff (env : Env) (h : Headers)
    (fields : List (HeaderName × Text)) (lines : List CacheLine)
    (habsent : h.values HeaderKeys.cacheControl = [])
    (hfields : fieldValues fields HeaderKeys.cacheControl = lines.map CacheLine.text) :
    ReadsWhole lines (countedDirectives (h.appendAll fields))
      (policyFromHeaders env (h.appendAll fields)).control ↔ IsWithinReach lines := by
  have hget : (h.appendAll fields).get HeaderKeys.cacheControl =
      (lines.map CacheLine.text).head? := by
    rw [Headers.get_eq_head?, Headers.values_appendAll, habsent, hfields, List.nil_append]
  rw [countedDirectives, policyFromHeaders, hget]
  cases lines with
  | nil => exact iff_of_true readsWhole_nil isWithinReach_nil
  | cons first rest => exact readsWhole_cons_iff first rest

def cacheFields (lines : List CacheLine) : List (HeaderName × Text) :=
  lines.map fun line => (HeaderKeys.cacheControl, line.text)

theorem fieldValues_cacheFields (lines : List CacheLine) :
    fieldValues (cacheFields lines) HeaderKeys.cacheControl = lines.map CacheLine.text := by
  induction lines with
  | nil => rfl
  | cons line lines ih =>
      rw [cacheFields, List.map_cons, fieldValues_cons_self]
      exact congrArg (line.text :: ·) ih

def ageLine : CacheLine :=
  ⟨[⟨[], some ⟨ascii "max-age", some (.quoted (ascii "60") (by decide) (by decide)), by decide⟩,
      [], by simp, by simp⟩,
    ⟨[32], some ⟨ascii "no-cache", none, by decide⟩, [], by simp [isOws], by simp⟩]⟩

def flagLine (name : Text) (h : isToken name = true) : CacheLine :=
  ⟨[⟨[], some ⟨name, none, h⟩, [], by simp, by simp⟩]⟩

/-- A second line with a flag that the first has not. -/
def overlooked : List CacheLine := [ageLine, flagLine (ascii "no-store") (by decide)]

def repeated : List CacheLine := [ageLine, flagLine (ascii "No-Cache") (by decide)]

/-- A flag on a second line is not seen. -/
theorem policyFromHeaders_readsWhole_iff_overlooked :
    overlooked.map CacheLine.text = [ascii "max-age=\"60\", no-cache", ascii "no-store"] ∧
    (policyFromHeaders .atEpoch (Headers.empty.appendAll (cacheFields overlooked))).control =
      some ⟨false, true, false, some 60, []⟩ ∧
    ¬ ReadsWhole overlooked
      (countedDirectives (Headers.empty.appendAll (cacheFields overlooked)))
      (policyFromHeaders .atEpoch (Headers.empty.appendAll (cacheFields overlooked))).control := by
  have hcontrol : (policyFromHeaders .atEpoch
      (Headers.empty.appendAll (cacheFields overlooked))).control =
        some ⟨false, true, false, some 60, []⟩ := by
    decide +kernel
  refine ⟨by decide +kernel, hcontrol, fun h => ?_⟩
  rw [hcontrol] at h
  have hseen := h.noStore.mpr ⟨⟨ascii "no-store", none, by decide⟩,
    by simp [allDirectives, CacheLine.directives, overlooked, flagLine], by decide⟩
  simp at hseen

theorem policyFromHeaders_readsWhole_iff_repeated :
    ReadsWhole repeated (countedDirectives (Headers.empty.appendAll (cacheFields repeated)))
      (policyFromHeaders .atEpoch (Headers.empty.appendAll (cacheFields repeated))).control := by
  apply (policyFromHeaders_readsWhole_iff .atEpoch .empty _ _ rfl
    (fieldValues_cacheFields repeated)).mpr
  constructor
  · decide +kernel
  · intro d hd
    obtain rfl := List.mem_singleton.mp hd
    exact Or.inr ⟨ascii "no-cache", by decide, by decide, ⟨ascii "no-cache", none, by decide⟩,
      by simp [firstDirectives, CacheLine.directives, repeated, ageLine], by decide⟩
  · decide +kernel

end GooseHttp
