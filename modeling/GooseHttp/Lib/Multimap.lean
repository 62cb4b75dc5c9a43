import Mathlib.Data.List.Nodup
import Mathlib.Tactic.Common
/-!
# Ordered multimaps

An association list whose keys are distinct, read as a map from a key to the list
of its values that remembers the order in which keys first came.  `setValues`,
`addValue` and `removeKey` are its updates, `find` its lookup, and `lines` the
flat list of key-value pairs.  `assemble` builds such a list from a lookup
function and an order, the two structures an implementation keeps apart.
-/

namespace GooseHttp.Lib.Multimap

variable {κ ν : Type} [DecidableEq κ]

def find (k : κ) : List (κ × List ν) → Option (List ν)
  | [] => none
  | (k', vs) :: m => if k' = k then some vs else find k m

/-- Give `k` the values `vs`, in place if it is there and at the end if not. -/
def setValues (k : κ) (vs : List ν) : List (κ × List ν) → List (κ × List ν)
  | [] => [(k, vs)]
  | (k', ws) :: m => if k' = k then (k', vs) :: m else (k', ws) :: setValues k vs m

def addValue (k : κ) (v : ν) : List (κ × List ν) → List (κ × List ν)
  | [] => [(k, [v])]
  | (k', ws) :: m => if k' = k then (k', ws ++ [v]) :: m else (k', ws) :: addValue k v m

def removeKey (k : κ) (m : List (κ × List ν)) : List (κ × List ν) :=
  m.filter fun e => e.1 ≠ k

/-- One pair for each value, keys in order. -/
def lines (m : List (κ × List ν)) : List (κ × ν) :=
  m.flatMap fun e => e.2.map fun v => (e.1, v)

omit [DecidableEq κ] in
@[simp] theorem lines_nil : lines ([] : List (κ × List ν)) = [] := rfl

omit [DecidableEq κ] in
@[simp] theorem lines_cons (e : κ × List ν) (m : List (κ × List ν)) :
    lines (e :: m) = e.2.map (fun v => (e.1, v)) ++ lines m := rfl

omit [DecidableEq κ] in
@[simp] theorem lines_append (m m' : List (κ × List ν)) :
    lines (m ++ m') = lines m ++ lines m' := by
  simp [lines]

theorem find_eq_none_iff {k : κ} {m : List (κ × List ν)} :
    find k m = none ↔ k ∉ m.map Prod.fst := by
  induction m with
  | nil => simp [find]
  | cons e m ih =>
      obtain ⟨k', vs⟩ := e
      by_cases hk : k' = k
      · simp [find, hk]
      · simp [find, hk, ih, Ne.symm hk]

theorem find_of_mem {k : κ} {vs : List ν} {m : List (κ × List ν)}
    (hm : (m.map Prod.fst).Nodup) (h : (k, vs) ∈ m) : find k m = some vs := by
  induction m with
  | nil => cases h
  | cons e m ih =>
      obtain ⟨k', ws⟩ := e
      obtain ⟨hnot, hnodup⟩ := List.nodup_cons.mp hm
      rcases List.mem_cons.mp h with heq | h
      · simp only [Prod.mk.injEq] at heq
        simp [find, heq.1, heq.2]
      · have hk : k' ≠ k := by
          rintro rfl
          exact hnot (List.mem_map.mpr ⟨_, h, rfl⟩)
        rw [find, if_neg hk]
        exact ih hnodup h

theorem setValues_of_find_none {k : κ} {vs : List ν} {m : List (κ × List ν)}
    (h : find k m = none) : setValues k vs m = m ++ [(k, vs)] := by
  induction m with
  | nil => rfl
  | cons e m ih =>
      obtain ⟨k', ws⟩ := e
      by_cases hk : k' = k
      · simp [find, hk] at h
      · simp only [find, hk, if_false] at h
        rw [setValues, if_neg hk, ih h, List.cons_append]

theorem addValue_of_find_none {k : κ} {v : ν} {m : List (κ × List ν)}
    (h : find k m = none) : addValue k v m = m ++ [(k, [v])] := by
  induction m with
  | nil => rfl
  | cons e m ih =>
      obtain ⟨k', ws⟩ := e
      by_cases hk : k' = k
      · simp [find, hk] at h
      · simp only [find, hk, if_false] at h
        rw [addValue, if_neg hk, ih h, List.cons_append]

theorem addValue_of_find_some {k : κ} {v : ν} {vs : List ν} {m : List (κ × List ν)}
    (h : find k m = some vs) : addValue k v m = setValues k (vs ++ [v]) m := by
  induction m with
  | nil => cases h
  | cons e m ih =>
      obtain ⟨k', ws⟩ := e
      by_cases hk : k' = k
      · simp only [find, hk, if_true, Option.some.injEq] at h
        simp [addValue, setValues, hk, h]
      · simp only [find, hk, if_false] at h
        simp [addValue, setValues, hk, ih h]

@[simp] theorem find_removeKey_self (k : κ) (m : List (κ × List ν)) :
    find k (removeKey k m) = none := by
  rw [find_eq_none_iff]
  simp [removeKey]

theorem removeKey_of_find_none {k : κ} {m : List (κ × List ν)} (h : find k m = none) :
    removeKey k m = m := by
  rw [find_eq_none_iff] at h
  apply List.filter_eq_self.mpr
  intro e he
  have : e.1 ≠ k := fun heq => h (heq ▸ List.mem_map_of_mem he)
  simpa using this

theorem find_append (k : κ) (m m' : List (κ × List ν)) :
    find k (m ++ m') = (find k m).or (find k m') := by
  induction m with
  | nil => simp [find]
  | cons e m ih =>
      obtain ⟨k', vs⟩ := e
      by_cases hk : k' = k
      · simp [find, hk]
      · simp [find, hk, ih]

theorem setValues_append_of_find_isSome {k : κ} {m : List (κ × List ν)} (vs : List ν)
    (m' : List (κ × List ν)) (h : (find k m).isSome = true) :
    setValues k vs (m ++ m') = setValues k vs m ++ m' := by
  induction m with
  | nil => cases h
  | cons e m ih =>
      obtain ⟨k', ws⟩ := e
      by_cases hk : k' = k
      · simp [setValues, hk]
      · simp only [find, hk, if_false] at h
        simp only [List.cons_append, setValues, hk, if_false, ih h]

theorem removeKey_append (k : κ) (m m' : List (κ × List ν)) :
    removeKey k (m ++ m') = removeKey k m ++ removeKey k m' := List.filter_append ..

theorem filter_lines {k : κ} {m : List (κ × List ν)} (hm : (m.map Prod.fst).Nodup) :
    ((lines m).filter (fun p => p.1 = k)).map Prod.snd = (find k m).getD [] := by
  induction m with
  | nil => rfl
  | cons e m ih =>
      obtain ⟨k', ws⟩ := e
      obtain ⟨hnot, hnodup⟩ := List.nodup_cons.mp hm
      rw [lines_cons, List.filter_append, List.map_append, ih hnodup]
      by_cases hk : k' = k
      · subst hk
        simp [find, List.filter_map, find_eq_none_iff.mpr hnot, Function.comp_def]
      · simp [find, hk, List.filter_map, Function.comp_def]

theorem addValue_append_of_find_none {k : κ} {m : List (κ × List ν)} (v : ν) (vs : List ν)
    (h : find k m = none) : addValue k v (m ++ [(k, vs)]) = m ++ [(k, vs ++ [v])] := by
  induction m with
  | nil => simp [addValue]
  | cons e m ih =>
      obtain ⟨k', ws⟩ := e
      by_cases hk : k' = k
      · simp [find, hk] at h
      · simp only [find, hk, if_false] at h
        rw [List.cons_append, addValue, if_neg hk, ih h, List.cons_append]

def addLines (m : List (κ × List ν)) (ps : List (κ × ν)) : List (κ × List ν) :=
  ps.foldl (fun m p => addValue p.1 p.2 m) m

theorem addLines_last {k : κ} {m : List (κ × List ν)} (vs ws : List ν)
    (h : find k m = none) :
    addLines (m ++ [(k, vs)]) (ws.map fun w => (k, w)) = m ++ [(k, vs ++ ws)] := by
  induction ws generalizing vs with
  | nil => simp [addLines]
  | cons w ws ih =>
      have ih := ih (vs ++ [w])
      simp only [addLines] at ih ⊢
      rw [List.map_cons, List.foldl_cons, addValue_append_of_find_none w vs h, ih,
        List.append_assoc]
      rfl

theorem addLines_lines {m m' : List (κ × List ν)} (hm : ((m ++ m').map Prod.fst).Nodup)
    (hne : ∀ e ∈ m', e.2 ≠ []) : addLines m (lines m') = m ++ m' := by
  induction m' generalizing m with
  | nil => simp [addLines]
  | cons e m' ih =>
      obtain ⟨k, vs⟩ := e
      have hfind : find k m = none := by
        rw [find_eq_none_iff]
        rw [List.map_append, List.nodup_append] at hm
        exact fun hk => hm.2.2 k hk k (by simp) rfl
      cases vs with
      | nil => exact absurd rfl (hne (k, []) (by simp))
      | cons v vs =>
          have hstep := addLines_last [v] vs hfind
          have hrest := ih (m := m ++ [(k, v :: vs)])
            (by simpa [List.append_assoc] using hm) (fun e he => hne e (by simp [he]))
          simp only [addLines] at hstep hrest ⊢
          rw [lines_cons, List.foldl_append, List.map_cons, List.foldl_cons,
            addValue_of_find_none hfind, hstep]
          simpa [List.append_assoc] using hrest

theorem lines_addValue_perm (k : κ) (v : ν) (m : List (κ × List ν)) :
    (lines (addValue k v m)).Perm (lines m ++ [(k, v)]) := by
  induction m with
  | nil => exact List.Perm.refl _
  | cons e m ih =>
      obtain ⟨k', ws⟩ := e
      rw [addValue]
      split
      · rename_i hk
        subst hk
        rw [lines_cons, lines_cons, List.map_append, List.append_assoc, List.append_assoc]
        exact List.perm_append_comm.append_left _
      · rw [lines_cons, lines_cons, List.append_assoc]
        exact ih.append_left _

theorem lines_addLines_perm (m : List (κ × List ν)) (ps : List (κ × ν)) :
    (lines (addLines m ps)).Perm (lines m ++ ps) := by
  induction ps generalizing m with
  | nil => simp [addLines]
  | cons p ps ih =>
      have hstep := (lines_addValue_perm p.1 p.2 m).append_right ps
      rw [List.append_assoc, List.singleton_append] at hstep
      exact (ih (addValue p.1 p.2 m)).trans hstep

/-! ## A lookup function and an order -/

/-- The entries of a map in a given order of its keys. -/
def assemble (f : κ → Option (List ν)) (order : List κ) : List (κ × List ν) :=
  order.filterMap fun k => (f k).map fun vs => (k, vs)

omit [DecidableEq κ] in
theorem assemble_congr {f g : κ → Option (List ν)} {order : List κ}
    (h : ∀ k ∈ order, f k = g k) : assemble f order = assemble g order := by
  apply List.filterMap_congr
  intro k hk
  rw [h k hk]

omit [DecidableEq κ] in
theorem map_fst_assemble {f : κ → Option (List ν)} {order : List κ}
    (h : ∀ k ∈ order, (f k).isSome) : (assemble f order).map Prod.fst = order := by
  induction order with
  | nil => rfl
  | cons k order ih =>
      obtain ⟨vs, hvs⟩ := Option.isSome_iff_exists.mp (h k (by simp))
      have htail := ih (fun j hj => h j (by simp [hj]))
      simp only [assemble] at htail ⊢
      simp [hvs, htail]

theorem find_assemble (f : κ → Option (List ν)) (k : κ) (order : List κ) :
    find k (assemble f order) = if k ∈ order then f k else none := by
  induction order with
  | nil => rfl
  | cons j order ih =>
      simp only [assemble] at ih ⊢
      rw [List.filterMap_cons]
      cases hj : f j with
      | none =>
          simp only [Option.map_none]
          rw [ih]
          by_cases hk : k = j
          · simp [hk, hj]
          · simp [hk]
      | some vs =>
          simp only [Option.map_some, find]
          by_cases hk : j = k
          · simp [hk, ← hj]
          · simp [hk, Ne.symm hk, ih]

theorem assemble_update {f g : κ → Option (List ν)} {order : List κ} {k : κ} {vs : List ν}
    (hsome : (f k).isSome) (hk : g k = some vs) (hg : ∀ j, j ≠ k → g j = f j)
    (hmem : k ∈ order) (hnodup : order.Nodup) :
    assemble g order = setValues k vs (assemble f order) := by
  induction order with
  | nil => cases hmem
  | cons j order ih =>
      obtain ⟨hnot, hnodup⟩ := List.nodup_cons.mp hnodup
      by_cases hj : j = k
      · subst hj
        obtain ⟨ws, hws⟩ := Option.isSome_iff_exists.mp hsome
        have hrest : assemble g order = assemble f order :=
          assemble_congr fun i hi => hg i (fun h => hnot (h ▸ hi))
        simp only [assemble] at hrest ⊢
        simp [hws, hk, setValues, hrest]
      · have hmem' : k ∈ order := by
          rcases List.mem_cons.mp hmem with h | h
          · exact absurd h.symm hj
          · exact h
        have hrest := ih hmem' hnodup
        simp only [assemble] at hrest ⊢
        rw [List.filterMap_cons, List.filterMap_cons, hg j hj]
        cases hfj : f j with
        | none => simpa using hrest
        | some ws => simp [setValues, hj, hrest]

theorem assemble_filter {f g : κ → Option (List ν)} {order : List κ} {k : κ}
    (hg : ∀ j, j ≠ k → g j = f j) :
    assemble g (order.filter (fun j => j ≠ k)) = removeKey k (assemble f order) := by
  induction order with
  | nil => rfl
  | cons j order ih =>
      simp only [assemble, removeKey] at ih ⊢
      by_cases hj : j = k
      · subst hj
        rw [List.filter_cons_of_neg (by simp), ih, List.filterMap_cons]
        cases f j <;> simp
      · rw [List.filter_cons_of_pos (by simpa using hj), List.filterMap_cons,
          List.filterMap_cons, hg j hj, ih]
        cases f j <;> simp [hj]

end GooseHttp.Lib.Multimap
