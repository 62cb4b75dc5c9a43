import GooseHttp.Headers
/-!
# Histories of a header collection

Any sequence of `insert`, `append`, `remove` and `clear` keeps the map and the order of a
collection in step, and what can be observed of it afterwards is what can be observed of
an association list under the operations of the same meaning.  Folding of names to lower
case is a parameter.
-/

namespace GooseHttp

open Lib

/-- `to_lowercase` on header names: a folded name is not changed again. -/
structure NameFolding where
  fold : Text → HeaderName
  idem : ∀ s, fold (fold s).text = fold s

def NameFolding.ascii : NameFolding := ⟨HeaderName.new, fun s => HeaderName.new_text (.new s)⟩

inductive HeaderOp
  | insert (name value : Text)
  | append (name value : Text)
  | remove (name : Text)
  | clear
  deriving DecidableEq, Repr

namespace HeaderOp

variable (folding : NameFolding)

/-- An operation on the map and the order. -/
def onTable (t : HeaderTable) : HeaderOp → HeaderTable
  | insert name value => t.insert (folding.fold name) value
  | append name value => t.append (folding.fold name) value
  | remove name => t.remove (folding.fold name)
  | clear => t.clear

/-- The operation on an association list. -/
def onList (m : List (HeaderName × List Text)) : HeaderOp → List (HeaderName × List Text)
  | insert name value => Multimap.setValues (folding.fold name) [value] m
  | append name value => Multimap.addValue (folding.fold name) value m
  | remove name => Multimap.removeKey (folding.fold name) m
  | clear => []

def table (ops : List HeaderOp) : HeaderTable := ops.foldl (onTable folding) .empty

def list (ops : List HeaderOp) : List (HeaderName × List Text) := ops.foldl (onList folding) []

end HeaderOp

/-! ## What can be observed -/

/-- A collection and an association list that cannot be told apart. -/
structure HeaderTable.Agrees (folding : NameFolding) (t : HeaderTable)
    (m : List (HeaderName × List Text)) : Prop where
  iter : t.iter = m
  getAll : ∀ name, t.getAll (folding.fold name) = Multimap.find (folding.fold name) m
  get : ∀ name,
    t.get (folding.fold name) = (Multimap.find (folding.fold name) m).bind List.head?
  contains : ∀ name,
    t.contains (folding.fold name) = (Multimap.find (folding.fold name) m).isSome
  removed : ∀ name, t.removed (folding.fold name) = Multimap.find (folding.fold name) m
  len : t.len = m.length
  isEmpty : t.isEmpty = m.isEmpty
  folded : ∀ e ∈ m, folding.fold e.1.text = e.1

namespace HeaderTable

theorem Valid.perm_keys {t : HeaderTable} (h : t.Valid) : t.map.keys.Perm t.order := by
  apply (List.perm_ext_iff_of_nodup (AList.keys_nodup t.map) h.nodup).mpr
  intro name
  rw [← AList.mem_keys, ← AList.lookup_isSome, h.isSome_iff]

theorem Valid.len_eq {t : HeaderTable} (h : t.Valid) : t.len = t.order.length := by
  rw [← h.perm_keys.length_eq, len, AList.keys, List.keys, List.length_map]

/-- The collection as an ordered multimap is all that can be observed of it. -/
theorem Valid.agrees {folding : NameFolding} {t : HeaderTable} (h : t.Valid)
    (hfolded : ∀ name ∈ t.order, folding.fold name.text = name) : t.Agrees folding t.iter := by
  have hfind : ∀ name, Multimap.find name t.iter = t.map.lookup name :=
    fun name => Headers.find_iter ⟨t, h⟩ name
  have horder : t.iter.map Prod.fst = t.order := Headers.map_fst_iter ⟨t, h⟩
  have hlen : t.len = t.iter.length := by rw [h.len_eq, ← horder, List.length_map]
  refine ⟨rfl, fun name => (hfind _).symm, fun name => ?_, fun name => ?_,
    fun name => (hfind _).symm, hlen, ?_, fun e he => hfolded e.1 ?_⟩
  · rw [hfind]
    rfl
  · rw [hfind]
    rfl
  · apply Bool.eq_iff_iff.mpr
    rw [isEmpty, List.isEmpty_iff_length_eq_zero, List.isEmpty_iff_length_eq_zero, ← hlen, len]
  · rw [← horder]
    exact List.mem_map_of_mem he

end HeaderTable

/-! ## Histories -/

/-- The state of a collection whose history gave the association list `m`. -/
structure HeaderTable.Follows (folding : NameFolding) (t : HeaderTable)
    (m : List (HeaderName × List Text)) : Prop where
  valid : t.Valid
  folded : ∀ name ∈ t.order, folding.fold name.text = name
  iter : t.iter = m

theorem HeaderTable.Follows.agrees {folding : NameFolding} {t : HeaderTable}
    {m : List (HeaderName × List Text)} (h : t.Follows folding m) : t.Agrees folding m :=
  h.iter ▸ h.valid.agrees h.folded

namespace HeaderOp

variable {folding : NameFolding} {t : HeaderTable} {m : List (HeaderName × List Text)}

theorem folded_order_put (hfolded : ∀ name ∈ t.order, folding.fold name.text = name)
    (s : Text) : ∀ name ∈ if t.contains (folding.fold s) then t.order
      else t.order ++ [folding.fold s], folding.fold name.text = name := by
  intro name hname
  split at hname
  · exact hfolded name hname
  · rcases List.mem_append.mp hname with hname | hname
    · exact hfolded name hname
    · rw [List.mem_singleton.mp hname]
      exact folding.idem s

theorem follows_step (h : t.Follows folding m) (op : HeaderOp) :
    (onTable folding t op).Follows folding (onList folding m op) := by
  obtain ⟨hvalid, hfolded, rfl⟩ := h
  cases op with
  | insert name value =>
      refine ⟨HeaderTable.put_valid hvalid _ (by simp), folded_order_put hfolded name, ?_⟩
      exact Headers.iter_insert ⟨t, hvalid⟩ (folding.fold name) value
  | append name value =>
      refine ⟨HeaderTable.put_valid hvalid _ (by simp), folded_order_put hfolded name, ?_⟩
      exact Headers.iter_append ⟨t, hvalid⟩ (folding.fold name) value
  | remove name =>
      refine ⟨HeaderTable.remove_valid hvalid _, fun key hkey => hfolded key ?_, ?_⟩
      · have hsub : (t.remove (folding.fold name)).order ⊆ t.order := by
          unfold HeaderTable.remove
          split
          · exact fun n hn => List.mem_of_mem_filter hn
          · exact List.Subset.refl _
        exact hsub hkey
      · exact Headers.iter_remove ⟨t, hvalid⟩ (folding.fold name)
  | clear => exact ⟨HeaderTable.empty_valid, fun _ hname => absurd hname List.not_mem_nil, rfl⟩

theorem follows_run (h : t.Follows folding m) (ops : List HeaderOp) :
    (ops.foldl (onTable folding) t).Follows folding (ops.foldl (onList folding) m) := by
  induction ops generalizing t m with
  | nil => exact h
  | cons op ops ih => exact ih (follows_step h op)

/-- Whatever its history, the map and the order of a collection are in step, it cannot be
told apart from the association list of that history, and a name that was removed comes
last when it is set again. -/
theorem agrees_of_history (folding : NameFolding) (ops : List HeaderOp) :
    (table folding ops).Valid ∧ (table folding ops).Agrees folding (list folding ops) ∧
    ∀ name value,
      (table folding (ops ++ [remove name, insert name value])).iter =
        Multimap.removeKey (folding.fold name) (list folding ops) ++
          [(folding.fold name, [value])] ∧
      (table folding (ops ++ [remove name, append name value])).iter =
        Multimap.removeKey (folding.fold name) (list folding ops) ++
          [(folding.fold name, [value])] := by
  have hempty : HeaderTable.empty.Follows folding [] :=
    ⟨HeaderTable.empty_valid, fun _ hname => absurd hname List.not_mem_nil, rfl⟩
  have hrun : ∀ ops, (table folding ops).Follows folding (list folding ops) :=
    fun ops => follows_run hempty ops
  refine ⟨(hrun ops).valid, (hrun ops).agrees, fun name value => ⟨?_, ?_⟩⟩
  · rw [(hrun _).iter, list, List.foldl_append]
    exact Multimap.setValues_of_find_none (Multimap.find_removeKey_self _ _)
  · rw [(hrun _).iter, list, List.foldl_append]
    exact Multimap.addValue_of_find_none (Multimap.find_removeKey_self _ _)

example : (table .ascii [insert (ascii "Vary") [1], append (ascii "Etag") [2],
    append (ascii "VARY") [3], remove (ascii "ETAG"), insert (ascii "etag") [4]]).iter =
      [(.new (ascii "vary"), [[1], [3]]), (.new (ascii "etag"), [[4]])] := by decide +kernel

end HeaderOp

end GooseHttp
