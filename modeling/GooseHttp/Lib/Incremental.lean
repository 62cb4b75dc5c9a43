import GooseHttp.Lib.Chunked
/-!
# Readers of a stream that is still coming

A reader takes a value from the front of what there is of a stream.  It is incremental if
what it says stands when more of the stream comes, unless it says that it needs more.  The
readers of a chunked body are incremental, and so is what is made of incremental readers by
`bind`; a message cut short then always reads as one that needs more (`Incremental.short`).
-/

namespace GooseHttp.Lib

variable {α β γ ε φ : Type}

/-- What becomes of a reading when `ys` comes behind it: a value stands and leaves all of
`ys`, an error stands, and what needs more can become anything. -/
inductive Grows (more : ε) (ys : List α) :
    Except ε (β × List α) → Except ε (β × List α) → Prop
  | ok (b : β) (rest : List α) : Grows more ys (.ok (b, rest)) (.ok (b, rest ++ ys))
  | error (e : ε) : Grows more ys (.error e) (.error e)
  | more (r : Except ε (β × List α)) : Grows more ys (.error more) r

namespace Grows

variable {more : ε} {ys : List α} {r r' : Except ε (β × List α)}

theorem bind (h : Grows more ys r r') {k k' : β × List α → Except ε (γ × List α)}
    (hk : ∀ b rest, r = .ok (b, rest) → Grows more ys (k (b, rest)) (k' (b, rest ++ ys))) :
    Grows more ys (r.bind k) (r'.bind k') := by
  cases h with
  | ok b rest => exact hk b rest rfl
  | error e => exact .error e
  | more r => exact .more _

theorem map (h : Grows more ys r r') (f : β → γ) :
    Grows more ys (r.map fun p => (f p.1, p.2)) (r'.map fun p => (f p.1, p.2)) := by
  cases h with
  | ok b rest => exact .ok (f b) rest
  | error e => exact .error e
  | more r => exact .more _

/-- A reading that leaves less than what came last has needed some of it. -/
theorem short (h : Grows more ys r r') {b : β} {rest : List α} (hr : r' = .ok (b, rest))
    (hlen : rest.length < ys.length) : r = .error more := by
  cases h with
  | ok b' rest' =>
      cases hr
      rw [List.length_append] at hlen
      omega
  | error e => cases hr
  | more r => rfl

theorem of_ok (h : Grows more ys r r') {b : β} {rest : List α} (hr : r = .ok (b, rest)) :
    r' = .ok (b, rest ++ ys) := by
  cases h with
  | ok b' rest' =>
      cases hr
      rfl
  | error e => cases hr
  | more r => cases hr

theorem of_error (h : Grows more ys r r') {e : ε} (hr : r = .error e) (hne : e ≠ more) :
    r' = .error e := by
  cases h with
  | ok b' rest' => cases hr
  | error e' => exact hr
  | more r =>
      cases hr
      exact absurd rfl hne

end Grows

def Incremental (more : ε) (read : List α → Except ε (β × List α)) : Prop :=
  ∀ xs ys, Grows more ys (read xs) (read (xs ++ ys))

namespace Incremental

variable {more : ε} {read : List α → Except ε (β × List α)}

theorem bind (h : Incremental more read) {k : β → List α → Except ε (γ × List α)}
    (hk : ∀ b, Incremental more (k b)) :
    Incremental more fun xs => (read xs).bind fun p => k p.1 p.2 :=
  fun xs ys => (h xs ys).bind fun b rest _ => hk b rest ys

/-- What reads to its end reads as incomplete if anything is missing. -/
theorem short (h : Incremental more read) {xs ys : List α} {b : β}
    (hread : read (xs ++ ys) = .ok (b, [])) (hne : ys ≠ []) : read xs = .error more :=
  (h xs ys).short hread (List.length_pos_iff.mpr hne)

end Incremental

/-! ## Chunked bodies -/

def Decoded.split (d : Decoded α φ) : (List α × List φ) × List α := ((d.payload, d.fields), d.rest)

namespace ChunkGrammar

variable [DecidableEq α] (g : ChunkGrammar α ε φ)

theorem takeLine_incremental : Incremental g.eof g.takeLine := by
  intro xs ys
  cases hpos : findWindow g.lineEnd xs with
  | none =>
      rw [takeLine, hpos]
      exact .more _
  | some pos =>
      have hle := findWindow_some_le hpos
      have htwo : g.lineEnd.length = 2 := rfl
      have hmore : g.takeLine (xs ++ ys) = .ok (xs.take pos, xs.drop (pos + 2) ++ ys) := by
        rw [takeLine, findWindow_append ys hpos]
        dsimp only
        rw [List.take_append_of_le_length (by omega), List.drop_append_of_le_length (by omega)]
      rw [hmore, takeLine, hpos]
      exact .ok _ _

theorem chunkEnd_incremental : Incremental g.eof fun xs => (g.chunkEnd xs).map ((), ·) := by
  intro xs ys
  dsimp only
  by_cases hlen : xs.length < 2
  · rw [chunkEnd, if_pos hlen]
    exact .more _
  · have htake : (xs ++ ys).take 2 = xs.take 2 := List.take_append_of_le_length (by omega)
    have hdrop : (xs ++ ys).drop 2 = xs.drop 2 ++ ys := List.drop_append_of_le_length (by omega)
    have hlen' : ¬ (xs ++ ys).length < 2 := by
      rw [List.length_append]
      omega
    rw [chunkEnd, chunkEnd, if_neg hlen, if_neg hlen', htake, hdrop]
    split
    · exact .error _
    · exact .ok () _

theorem fields_split (xs : List α) :
    (g.fields xs).map Decoded.split = (g.takeLine xs).bind fun p =>
      if p.1 = [] then .ok (([], []), p.2)
      else (g.fieldOf p.1).bind fun f =>
        ((g.fields p.2).map Decoded.split).map fun q => ((q.1.1, f :: q.1.2), q.2) := by
  cases hline : g.takeLine xs with
  | error e => rw [g.fields_of_error hline]; rfl
  | ok p =>
      rw [g.fields_of_line hline]
      dsimp only [Except.bind]
      split
      · rfl
      · cases g.fieldOf p.1 with
        | error e => rfl
        | ok f => cases g.fields p.2 <;> rfl

theorem fields_incremental : Incremental g.eof fun xs => (g.fields xs).map Decoded.split := by
  intro xs ys
  induction hn : xs.length using Nat.strongRecOn generalizing xs with
  | ind n ih =>
      dsimp only
      rw [g.fields_split xs, g.fields_split (xs ++ ys)]
      refine (g.takeLine_incremental xs ys).bind fun line rest hline => ?_
      have hlen := g.takeLine_length hline
      dsimp only
      split
      · exact .ok ([], []) rest
      · cases g.fieldOf line with
        | error e => exact .error e
        | ok f => exact (ih rest.length (by omega) rest rfl).map fun b => (b.1, f :: b.2)

theorem afterData_split (xs : List α) :
    (g.afterData xs).map Decoded.split =
      ((g.chunkEnd xs).map ((), ·)).bind fun p => (g.chunks p.2).map Decoded.split := by
  rw [afterData]
  cases g.chunkEnd xs <;> rfl

theorem chunks_split (xs : List α) :
    (g.chunks xs).map Decoded.split = (g.takeLine xs).bind fun p =>
      (g.sizeOf p.1).bind fun size => (g.afterSize size p.2).map Decoded.split := by
  cases hline : g.takeLine xs with
  | error e => rw [g.chunks_of_error hline]; rfl
  | ok p =>
      rw [g.chunks_of_line hline]
      dsimp only [Except.bind]
      cases g.sizeOf p.1 <;> rfl

theorem data_grows {size : Nat} {xs ys : List α}
    (h : ∀ rest, rest.length < xs.length →
      Grows g.eof ys ((g.chunks rest).map Decoded.split) ((g.chunks (rest ++ ys)).map Decoded.split)) :
    Grows g.eof ys ((g.data size xs).map Decoded.split)
      ((g.data size (xs ++ ys)).map Decoded.split) := by
  by_cases hshort : xs.length < size
  · rw [g.data_of_short hshort]
    exact .more _
  · have hlong : ¬ (xs ++ ys).length < size := by
      rw [List.length_append]
      omega
    have hafter : Grows g.eof ys ((g.afterData (xs.drop size)).map Decoded.split)
        ((g.afterData (xs.drop size ++ ys)).map Decoded.split) := by
      rw [g.afterData_split, g.afterData_split]
      refine (g.chunkEnd_incremental (xs.drop size) ys).bind fun _ rest hend => h rest ?_
      dsimp only at hend
      cases hrest : g.chunkEnd (xs.drop size) with
      | error e =>
          rw [hrest] at hend
          cases hend
      | ok rest' =>
          rw [hrest] at hend
          cases hend
          have hlen := g.chunkEnd_length hrest
          rw [List.length_drop] at hlen
          omega
    have hpiece := hafter.map fun b : List α × List φ => (xs.take size ++ b.1, b.2)
    rw [data, data, if_neg hshort, if_neg hlong, List.take_append_of_le_length (by omega),
      List.drop_append_of_le_length (by omega)]
    cases hread : g.afterData (xs.drop size) <;>
      cases hread' : g.afterData (xs.drop size ++ ys) <;> rw [hread, hread'] at hpiece <;>
      exact hpiece

theorem chunks_incremental : Incremental g.eof fun xs => (g.chunks xs).map Decoded.split := by
  intro xs ys
  induction hn : xs.length using Nat.strongRecOn generalizing xs with
  | ind n ih =>
      dsimp only
      rw [g.chunks_split xs, g.chunks_split (xs ++ ys)]
      refine (g.takeLine_incremental xs ys).bind fun line rest hline => ?_
      have hlen := g.takeLine_length hline
      dsimp only
      cases g.sizeOf line with
      | error e => exact .error e
      | ok size =>
          dsimp only [Except.bind]
          rw [afterSize, afterSize]
          split
          · exact g.fields_incremental rest ys
          · exact g.data_grows fun rest' hrest' => ih rest'.length (by omega) rest' rfl

end ChunkGrammar

end GooseHttp.Lib
