import GooseHttp.Common
import GooseHttp.Lib.Multimap
import Mathlib.Data.List.AList
/-!
# Header fields

The header collection of the server keeps a hash map from a name to its values
and, beside it, the order in which names came.  `HeaderTable` is those two
fields with the operations of the source; `Headers` adds the invariant that keeps
them in step, so a collection whose order drops or repeats a name cannot be
built.  `Headers.iter` reads it as an ordered multimap, and each operation is the
multimap operation of the same meaning.
-/

namespace GooseHttp

open Lib

/-- A header name.  It is stored in lower case, so that equal names are equal. -/
structure HeaderName where
  text : Text
  lower : asciiLowercase text = text
  deriving DecidableEq

/-- `HeaderName::new` on ASCII names, which those of field lines and the constants are.  A
handler may pass any name, and `to_lowercase` folds it by Unicode; what it gives has no ASCII
capital, so it is a `HeaderName` here, too. -/
def HeaderName.new (name : Text) : HeaderName := ⟨asciiLowercase name, asciiLowercase_idem name⟩

@[simp] theorem HeaderName.text_new (name : Text) :
    (HeaderName.new name).text = asciiLowercase name := rfl

theorem HeaderName.new_eq_iff {name : Text} {key : HeaderName} :
    HeaderName.new name = key ↔ asciiLowercase name = key.text := by
  rw [HeaderName.mk.injEq, HeaderName.text_new]

@[simp] theorem HeaderName.new_text (name : HeaderName) : HeaderName.new name.text = name :=
  HeaderName.new_eq_iff.mpr name.lower

namespace HeaderKeys

def contentType : HeaderName := .new (ascii "content-type")
def contentLength : HeaderName := .new (ascii "content-length")
def host : HeaderName := .new (ascii "host")
def transferEncoding : HeaderName := .new (ascii "transfer-encoding")
def connection : HeaderName := .new (ascii "connection")
def date : HeaderName := .new (ascii "date")
def expect : HeaderName := .new (ascii "expect")
def etag : HeaderName := .new (ascii "etag")
def ifMatch : HeaderName := .new (ascii "if-match")
def ifModifiedSince : HeaderName := .new (ascii "if-modified-since")
def ifUnmodifiedSince : HeaderName := .new (ascii "if-unmodified-since")
def ifNoneMatch : HeaderName := .new (ascii "if-none-match")
def lastModified : HeaderName := .new (ascii "last-modified")
def allow : HeaderName := .new (ascii "allow")
def cacheControl : HeaderName := .new (ascii "cache-control")
def age : HeaderName := .new (ascii "age")
def expires : HeaderName := .new (ascii "expires")
def vary : HeaderName := .new (ascii "vary")
def range : HeaderName := .new (ascii "range")
def contentRange : HeaderName := .new (ascii "content-range")
def acceptRanges : HeaderName := .new (ascii "accept-ranges")
def acceptLanguage : HeaderName := .new (ascii "accept-language")

end HeaderKeys

/-! ## Lists of fields -/

/-- The values of one name among fields as they stand on the wire. -/
def fieldValues (fields : List (HeaderName × Text)) (key : HeaderName) : List Text :=
  (fields.filter fun f => f.1 = key).map Prod.snd

@[simp] theorem fieldValues_nil (key : HeaderName) : fieldValues [] key = [] := rfl

@[simp] theorem fieldValues_append (fields fields' : List (HeaderName × Text))
    (key : HeaderName) :
    fieldValues (fields ++ fields') key = fieldValues fields key ++ fieldValues fields' key := by
  simp [fieldValues]

@[simp] theorem fieldValues_cons_self (key : HeaderName) (value : Text)
    (fields : List (HeaderName × Text)) :
    fieldValues ((key, value) :: fields) key = value :: fieldValues fields key := by
  simp [fieldValues]

theorem fieldValues_cons_of_ne {name key : HeaderName} (value : Text)
    (fields : List (HeaderName × Text)) (h : name ≠ key) :
    fieldValues ((name, value) :: fields) key = fieldValues fields key := by
  simp [fieldValues, h]

theorem mem_fieldValues {fields : List (HeaderName × Text)} {key : HeaderName} {value : Text} :
    value ∈ fieldValues fields key ↔ (key, value) ∈ fields := by
  simp [fieldValues]

/-! ## The two fields -/

structure HeaderTable where
  map : AList fun _ : HeaderName => List Text
  order : List HeaderName

namespace HeaderTable

def empty : HeaderTable := ⟨∅, []⟩

def contains (t : HeaderTable) (name : HeaderName) : Bool := (t.map.lookup name).isSome

def insert (t : HeaderTable) (name : HeaderName) (value : Text) : HeaderTable where
  order := if t.contains name then t.order else t.order ++ [name]
  map := t.map.insert name [value]

def append (t : HeaderTable) (name : HeaderName) (value : Text) : HeaderTable where
  order := if t.contains name then t.order else t.order ++ [name]
  map := t.map.insert name ((t.map.lookup name).getD [] ++ [value])

def getAll (t : HeaderTable) (name : HeaderName) : Option (List Text) := t.map.lookup name

def get (t : HeaderTable) (name : HeaderName) : Option Text :=
  (t.map.lookup name).bind List.head?

def remove (t : HeaderTable) (name : HeaderName) : HeaderTable :=
  match t.map.lookup name with
  | some _ => ⟨t.map.erase name, t.order.filter fun n => n ≠ name⟩
  | none => t

def iter (t : HeaderTable) : List (HeaderName × List Text) :=
  t.order.filterMap fun name => (t.map.lookup name).map fun values => (name, values)

def removed (t : HeaderTable) (name : HeaderName) : Option (List Text) := t.map.lookup name

def len (t : HeaderTable) : Nat := t.map.entries.length

def isEmpty (t : HeaderTable) : Bool := t.map.entries.isEmpty

def clear (t : HeaderTable) : HeaderTable := { t with map := ∅, order := [] }

/-- The order lists every name of the map once, and no name is without a value. -/
structure Valid (t : HeaderTable) : Prop where
  nodup : t.order.Nodup
  isSome_iff : ∀ name, (t.map.lookup name).isSome ↔ name ∈ t.order
  ne_nil : ∀ name values, t.map.lookup name = some values → values ≠ []

theorem empty_valid : empty.Valid where
  nodup := List.nodup_nil
  isSome_iff := by intro name; simp [empty]
  ne_nil := by intro name values h; simp [empty] at h

theorem put_valid {t : HeaderTable} (ht : t.Valid) (name : HeaderName) {values : List Text}
    (hvalues : values ≠ []) :
    (⟨t.map.insert name values,
      if t.contains name then t.order else t.order ++ [name]⟩ : HeaderTable).Valid := by
  have hmem : name ∈ t.order ↔ t.contains name = true := (ht.isSome_iff name).symm
  refine ⟨?_, ?_, ?_⟩
  · dsimp only
    split
    · exact ht.nodup
    · rename_i h
      refine List.nodup_append.mpr ⟨ht.nodup, List.nodup_singleton _, ?_⟩
      intro a ha b hb
      rw [List.mem_singleton] at hb
      subst hb
      rintro rfl
      exact h (hmem.mp ha)
  · intro n
    by_cases hn : n = name
    · subst hn
      simp only [AList.lookup_insert, Option.isSome_some, true_iff]
      split
      · rename_i h
        exact hmem.mpr h
      · simp
    · rw [AList.lookup_insert_ne hn, ht.isSome_iff n]
      split <;> simp [hn]
  · intro n vs h
    by_cases hn : n = name
    · subst hn
      rw [AList.lookup_insert, Option.some.injEq] at h
      exact h ▸ hvalues
    · rw [AList.lookup_insert_ne hn] at h
      exact ht.ne_nil n vs h

theorem remove_valid {t : HeaderTable} (ht : t.Valid) (name : HeaderName) :
    (t.remove name).Valid := by
  unfold remove
  split
  · refine ⟨ht.nodup.filter _, ?_, ?_⟩
    · intro n
      by_cases hn : n = name
      · subst hn
        simp
      · simp [AList.lookup_erase_ne hn, ht.isSome_iff n, hn]
    · intro n vs h
      by_cases hn : n = name
      · subst hn
        simp at h
      · rw [AList.lookup_erase_ne hn] at h
        exact ht.ne_nil n vs h
  · exact ht

end HeaderTable

/-! ## Collections in step -/

structure Headers extends HeaderTable where
  valid : toHeaderTable.Valid

namespace Headers

theorem ext_table {h h' : Headers} (heq : h.toHeaderTable = h'.toHeaderTable) : h = h' := by
  cases h
  cases h'
  cases heq
  rfl

def empty : Headers := ⟨HeaderTable.empty, HeaderTable.empty_valid⟩

def insert (h : Headers) (name : HeaderName) (value : Text) : Headers :=
  ⟨h.toHeaderTable.insert name value, HeaderTable.put_valid h.valid name (by simp)⟩

def append (h : Headers) (name : HeaderName) (value : Text) : Headers :=
  ⟨h.toHeaderTable.append name value, HeaderTable.put_valid h.valid name (by simp)⟩

def remove (h : Headers) (name : HeaderName) : Headers :=
  ⟨h.toHeaderTable.remove name, HeaderTable.remove_valid h.valid name⟩

def contains (h : Headers) (name : HeaderName) : Bool := h.toHeaderTable.contains name
def getAll (h : Headers) (name : HeaderName) : Option (List Text) := h.toHeaderTable.getAll name
def get (h : Headers) (name : HeaderName) : Option Text := h.toHeaderTable.get name
def iter (h : Headers) : List (HeaderName × List Text) := h.toHeaderTable.iter

def values (h : Headers) (name : HeaderName) : List Text := (h.getAll name).getD []

/-- One pair for each stored value, in the order they are written. -/
def lines (h : Headers) : List (HeaderName × Text) := Multimap.lines h.iter

/-! ### The collection as an ordered multimap -/

theorem iter_eq_assemble (h : Headers) :
    h.iter = Multimap.assemble (fun name => h.map.lookup name) h.order := rfl

theorem map_fst_iter (h : Headers) : h.iter.map Prod.fst = h.order := by
  rw [iter_eq_assemble]
  exact Multimap.map_fst_assemble fun name hname => (h.valid.isSome_iff name).mpr hname

theorem nodup_iter (h : Headers) : (h.iter.map Prod.fst).Nodup := by
  rw [map_fst_iter]
  exact h.valid.nodup

theorem find_iter (h : Headers) (name : HeaderName) :
    Multimap.find name h.iter = h.getAll name := by
  rw [iter_eq_assemble, Multimap.find_assemble]
  split
  · rfl
  · rename_i hnot
    rw [← h.valid.isSome_iff, Option.not_isSome_iff_eq_none] at hnot
    exact hnot.symm

theorem contains_iff (h : Headers) (name : HeaderName) :
    h.contains name = true ↔ ∃ vs, h.getAll name = some vs := Option.isSome_iff_exists

theorem contains_eq_false_iff (h : Headers) (name : HeaderName) :
    h.contains name = false ↔ h.getAll name = none := by
  rw [contains, HeaderTable.contains, Option.isSome_eq_false_iff, Option.isNone_iff_eq_none]
  rfl

theorem ne_nil_of_getAll {h : Headers} {name : HeaderName} {vs : List Text}
    (hget : h.getAll name = some vs) : vs ≠ [] := h.valid.ne_nil name vs hget

theorem get_eq_head? (h : Headers) (name : HeaderName) :
    h.get name = (h.values name).head? := by
  show (h.map.lookup name).bind List.head? = ((h.map.lookup name).getD []).head?
  cases h.map.lookup name <;> rfl

theorem values_ne_nil_iff (h : Headers) (name : HeaderName) :
    h.values name ≠ [] ↔ h.contains name = true := by
  rw [contains_iff, values]
  cases hget : h.getAll name with
  | none => simp
  | some vs => simpa using ne_nil_of_getAll hget

theorem values_eq_nil_iff (h : Headers) (name : HeaderName) :
    h.values name = [] ↔ h.contains name = false := by
  rw [← not_iff_not, ← ne_eq, values_ne_nil_iff, Bool.not_eq_false]

theorem get_of_contains {h : Headers} {name : HeaderName} (habsent : h.contains name = false) :
    h.get name = none := by
  rw [get_eq_head?, (h.values_eq_nil_iff name).mpr habsent]
  rfl

@[simp] theorem getAll_empty (name : HeaderName) : empty.getAll name = none := rfl
@[simp] theorem values_empty (name : HeaderName) : empty.values name = [] := rfl
@[simp] theorem iter_empty : empty.iter = [] := rfl
@[simp] theorem lines_empty : empty.lines = [] := rfl

@[simp] theorem getAll_insert_self (h : Headers) (name : HeaderName) (value : Text) :
    (h.insert name value).getAll name = some [value] := AList.lookup_insert _

theorem getAll_insert_of_ne (h : Headers) {name name' : HeaderName} (value : Text)
    (hne : name' ≠ name) : (h.insert name value).getAll name' = h.getAll name' :=
  AList.lookup_insert_ne hne

@[simp] theorem getAll_append_self (h : Headers) (name : HeaderName) (value : Text) :
    (h.append name value).getAll name = some (h.values name ++ [value]) :=
  AList.lookup_insert _

theorem getAll_append_of_ne (h : Headers) {name name' : HeaderName} (value : Text)
    (hne : name' ≠ name) : (h.append name value).getAll name' = h.getAll name' :=
  AList.lookup_insert_ne hne

@[simp] theorem getAll_remove_self (h : Headers) (name : HeaderName) :
    (h.remove name).getAll name = none := by
  show (h.toHeaderTable.remove name).map.lookup name = none
  unfold HeaderTable.remove
  split
  · exact AList.lookup_erase _ _
  · assumption

theorem getAll_remove_of_ne (h : Headers) {name name' : HeaderName} (hne : name' ≠ name) :
    (h.remove name).getAll name' = h.getAll name' := by
  show (h.toHeaderTable.remove name).map.lookup name' = _
  unfold HeaderTable.remove
  split
  · exact AList.lookup_erase_ne hne
  · rfl

theorem iter_put (h : Headers) (name : HeaderName) {vs : List Text} {table : HeaderTable}
    (hmap : table.map = h.map.insert name vs)
    (horder : table.order = if h.contains name then h.order else h.order ++ [name]) :
    table.iter = Multimap.setValues name vs h.iter := by
  have hself : table.map.lookup name = some vs := by rw [hmap, AList.lookup_insert]
  have hother : ∀ n, n ≠ name → table.map.lookup n = h.map.lookup n := by
    intro n hn
    rw [hmap, AList.lookup_insert_ne hn]
  have hmem := h.valid.isSome_iff name
  by_cases hc : h.contains name = true
  · rw [if_pos hc] at horder
    rw [HeaderTable.iter, horder]
    exact Multimap.assemble_update hc hself hother (hmem.mp hc) h.valid.nodup
  · rw [if_neg hc] at horder
    have hnone : Multimap.find name h.iter = none := by
      rw [find_iter]
      exact (h.contains_eq_false_iff name).mp (by simpa using hc)
    have hnot : name ∉ h.order := fun hm => hc (hmem.mpr hm)
    rw [Multimap.setValues_of_find_none hnone, HeaderTable.iter, horder,
      List.filterMap_append]
    congr 1
    · apply List.filterMap_congr
      intro n hn
      rw [hother n (fun heq => hnot (heq ▸ hn))]
    · simp [hself]

theorem iter_insert (h : Headers) (name : HeaderName) (value : Text) :
    (h.insert name value).iter = Multimap.setValues name [value] h.iter :=
  h.iter_put name rfl rfl

theorem iter_append (h : Headers) (name : HeaderName) (value : Text) :
    (h.append name value).iter = Multimap.addValue name value h.iter := by
  have hput : (h.append name value).iter =
      Multimap.setValues name (h.values name ++ [value]) h.iter := h.iter_put name rfl rfl
  rw [hput]
  cases hget : Multimap.find name h.iter with
  | none =>
      rw [Multimap.addValue_of_find_none hget, Multimap.setValues_of_find_none hget]
      rw [find_iter] at hget
      simp [values, hget]
  | some vs =>
      rw [Multimap.addValue_of_find_some hget]
      rw [find_iter] at hget
      simp [values, hget]

theorem iter_remove (h : Headers) (name : HeaderName) :
    (h.remove name).iter = Multimap.removeKey name h.iter := by
  cases hget : h.map.lookup name with
  | none =>
      have hnone : Multimap.find name h.iter = none := by rw [find_iter]; exact hget
      rw [Multimap.removeKey_of_find_none hnone]
      show (h.toHeaderTable.remove name).iter = _
      rw [HeaderTable.remove, hget]
      rfl
  | some vs =>
      show (h.toHeaderTable.remove name).iter = _
      rw [HeaderTable.remove, hget]
      exact Multimap.assemble_filter fun n hn => AList.lookup_erase_ne hn

theorem lines_insert_new (h : Headers) {name : HeaderName} (value : Text)
    (hnew : h.contains name = false) :
    (h.insert name value).lines = h.lines ++ [(name, value)] := by
  have hnone : Multimap.find name h.iter = none := by
    rw [find_iter]
    exact (h.contains_eq_false_iff name).mp hnew
  rw [lines, iter_insert, Multimap.setValues_of_find_none hnone, Multimap.lines_append]
  rfl

theorem remove_absent (h : Headers) {name : HeaderName} (habsent : h.contains name = false) :
    h.remove name = h := by
  have hnone : h.map.lookup name = none := (h.contains_eq_false_iff name).mp habsent
  apply ext_table
  show h.toHeaderTable.remove name = h.toHeaderTable
  rw [HeaderTable.remove, hnone]

theorem fieldValues_lines (h : Headers) (name : HeaderName) :
    fieldValues h.lines name = h.values name := by
  rw [fieldValues, lines, Multimap.filter_lines h.nodup_iter, find_iter, values]

theorem mem_lines_iff {h : Headers} {name : HeaderName} {value : Text} :
    (name, value) ∈ h.lines ↔ value ∈ h.values name := by
  rw [← fieldValues_lines, mem_fieldValues]

theorem ne_of_mem_lines {h : Headers} {l : HeaderName × Text} {name : HeaderName}
    (hl : l ∈ h.lines) (habsent : h.contains name = false) : l.1 ≠ name := by
  rintro rfl
  have hvalues := mem_lines_iff.mp hl
  rw [(h.values_eq_nil_iff l.1).mpr habsent] at hvalues
  cases hvalues

theorem values_insert (h : Headers) (name key : HeaderName) (value : Text) :
    (h.insert name value).values key = if name = key then [value] else h.values key := by
  by_cases hk : name = key
  · subst hk
    simp [values]
  · simp [values, getAll_insert_of_ne h value (Ne.symm hk), hk]

theorem values_remove (h : Headers) (name key : HeaderName) :
    (h.remove name).values key = if name = key then [] else h.values key := by
  by_cases hk : name = key
  · subst hk
    simp [values]
  · simp [values, getAll_remove_of_ne h (Ne.symm hk), hk]

theorem forall_lines_insert {P : HeaderName × Text → Prop} {h : Headers} {name : HeaderName}
    {value : Text} (hlines : ∀ l ∈ h.lines, P l) (hnew : P (name, value)) :
    ∀ l ∈ (h.insert name value).lines, P l := by
  rintro ⟨key, v⟩ hl
  rw [mem_lines_iff, values_insert] at hl
  split at hl
  · rename_i hkey
    rw [List.mem_singleton] at hl
    rw [hl, ← hkey]
    exact hnew
  · exact hlines _ (mem_lines_iff.mpr hl)

theorem forall_lines_remove {P : HeaderName × Text → Prop} {h : Headers} (name : HeaderName)
    (hlines : ∀ l ∈ h.lines, P l) : ∀ l ∈ (h.remove name).lines, P l := by
  rintro ⟨key, v⟩ hl
  rw [mem_lines_iff, values_remove] at hl
  split at hl
  · cases hl
  · exact hlines _ (mem_lines_iff.mpr hl)

/-! ### Many fields at once -/

def appendAll (h : Headers) (fields : List (HeaderName × Text)) : Headers :=
  fields.foldl (fun h f => h.append f.1 f.2) h

@[simp] theorem appendAll_nil (h : Headers) : h.appendAll [] = h := rfl

@[simp] theorem appendAll_cons (h : Headers) (f : HeaderName × Text)
    (fields : List (HeaderName × Text)) :
    h.appendAll (f :: fields) = (h.append f.1 f.2).appendAll fields := rfl

theorem values_append (h : Headers) (name key : HeaderName) (value : Text) :
    (h.append name value).values key =
      h.values key ++ (if name = key then [value] else []) := by
  by_cases hk : name = key
  · subst hk
    simp [values]
  · simp [values, getAll_append_of_ne h value (Ne.symm hk), hk]

theorem values_appendAll (h : Headers) (fields : List (HeaderName × Text))
    (key : HeaderName) :
    (h.appendAll fields).values key = h.values key ++ fieldValues fields key := by
  induction fields generalizing h with
  | nil => simp
  | cons f fields ih =>
      rw [appendAll_cons, ih, values_append, List.append_assoc]
      by_cases hk : f.1 = key <;> simp [fieldValues, hk]

theorem appendAll_append (h : Headers) (fields fields' : List (HeaderName × Text)) :
    h.appendAll (fields ++ fields') = (h.appendAll fields).appendAll fields' := by
  simp [appendAll, List.foldl_append]

theorem iter_appendAll (h : Headers) (fields : List (HeaderName × Text)) :
    (h.appendAll fields).iter = Multimap.addLines h.iter fields := by
  induction fields generalizing h with
  | nil => rfl
  | cons f fields ih =>
      rw [appendAll_cons, ih, iter_append]
      rfl

/-- Fields are regrouped when they are collected, and none is lost or made up. -/
theorem lines_appendAll_perm (h : Headers) (fields : List (HeaderName × Text)) :
    (h.appendAll fields).lines.Perm (h.lines ++ fields) := by
  rw [lines, iter_appendAll]
  exact Multimap.lines_addLines_perm h.iter fields

theorem ne_nil_of_mem_iter {h : Headers} {e : HeaderName × List Text} (he : e ∈ h.iter) :
    e.2 ≠ [] := by
  have hfind := Multimap.find_of_mem h.nodup_iter he
  rw [find_iter] at hfind
  exact ne_nil_of_getAll hfind

/-- Reading the written lines of a collection back gives the same collection. -/
theorem iter_appendAll_lines (h : Headers) : (empty.appendAll h.lines).iter = h.iter := by
  rw [iter_appendAll, iter_empty, lines]
  exact Multimap.addLines_lines (m := []) (by simpa using h.nodup_iter)
    fun e he => ne_nil_of_mem_iter he

end Headers

end GooseHttp
