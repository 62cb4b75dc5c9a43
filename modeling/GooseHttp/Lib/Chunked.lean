import GooseHttp.Lib.Search
/-!
# Chunked coding

The chunked coding of a byte stream as one function of the whole stream, over any
alphabet with a two-element line end.  A `ChunkGrammar` says how the size line of
a chunk and a field line of the trailer section are read and which errors there
are; `chunks` decodes a body and hands back what follows it.

`chunks_chunk`, `chunks_last`, `fields_line` and `fields_end` read one piece of an
encoded body, `chunks_encode` a whole one.  Conversely `chunks_framed` cuts a
decoded body into the chunks it was decoded from, and `Framed.unique` says that
there is no other cut.  `afterSize`, `data` and `afterData` are the positions
inside a chunk at which an incremental decoder can stop.
-/

namespace GooseHttp.Lib

structure ChunkGrammar (α ε φ : Type) where
  cr : α
  lf : α
  eof : ε
  malformed : ε
  sizeOf : List α → Except ε Nat
  fieldOf : List α → Except ε φ

structure Decoded (α φ : Type) where
  payload : List α
  fields : List φ
  rest : List α
  deriving DecidableEq, Repr

namespace Decoded

variable {α φ : Type}

def prepend (piece : List α) (d : Decoded α φ) : Decoded α φ :=
  { d with payload := piece ++ d.payload }

def consField (f : φ) (d : Decoded α φ) : Decoded α φ := { d with fields := f :: d.fields }

theorem prepend_prepend (p q : List α) (d : Decoded α φ) :
    prepend p (prepend q d) = prepend (p ++ q) d := by
  simp [prepend]

end Decoded

namespace ChunkGrammar

variable {α ε φ : Type} [DecidableEq α] (g : ChunkGrammar α ε φ)

def lineEnd : List α := [g.cr, g.lf]

def takeLine (xs : List α) : Except ε (List α × List α) :=
  match findWindow g.lineEnd xs with
  | none => .error g.eof
  | some pos => .ok (xs.take pos, xs.drop (pos + 2))

def chunkEnd (xs : List α) : Except ε (List α) :=
  if xs.length < 2 then .error g.eof
  else if xs.take 2 ≠ g.lineEnd then .error g.malformed
  else .ok (xs.drop 2)

theorem takeLine_ok {xs line rest : List α} (h : g.takeLine xs = .ok (line, rest)) :
    xs = line ++ g.lineEnd ++ rest := by
  unfold takeLine at h
  split at h
  · cases h
  · rename_i pos hpos
    cases h
    obtain ⟨b, hb, hlen⟩ := findWindow_some hpos
    have hend : (xs.take pos ++ g.lineEnd).length = pos + 2 := by
      simp only [lineEnd, List.length_append, List.length_take, List.length_cons,
        List.length_nil] at hlen ⊢
      omega
    have hrest : xs.drop (pos + 2) = b := by
      conv_lhs => rw [hb, ← hend]
      exact List.drop_left
    rw [hrest]
    exact hb

theorem not_infix_of_takeLine {xs line rest : List α} (h : g.takeLine xs = .ok (line, rest)) :
    ¬ g.lineEnd <:+: line := by
  rintro ⟨a, b, rfl⟩
  have hxs := g.takeLine_ok h
  unfold takeLine at h
  split at h
  · cases h
  · rename_i pos hpos
    have hle : pos ≤ a.length := by
      apply findWindow_first hpos (b := b ++ g.lineEnd ++ rest)
      rw [hxs]
      simp only [List.append_assoc]
    have hline : xs.take pos = a ++ g.lineEnd ++ b := (Prod.mk.inj (Except.ok.inj h)).1
    have hlen := congrArg List.length hline
    simp only [lineEnd, List.length_take, List.length_append, List.length_cons,
      List.length_nil] at hlen
    omega

theorem takeLine_length {xs line rest : List α} (h : g.takeLine xs = .ok (line, rest)) :
    rest.length + 2 ≤ xs.length := by
  rw [g.takeLine_ok h]
  simp only [lineEnd, List.length_append, List.length_cons, List.length_nil]
  omega

theorem takeLine_line {line : List α} (rest : List α) (h : g.cr ∉ line) :
    g.takeLine (line ++ g.lineEnd ++ rest) = .ok (line, rest) := by
  rw [takeLine, lineEnd, findWindow_append_cons rest h]
  simp

theorem chunkEnd_ok {xs rest : List α} (h : g.chunkEnd xs = .ok rest) :
    xs = g.lineEnd ++ rest := by
  unfold chunkEnd at h
  split at h
  · cases h
  · split at h
    · cases h
    · rename_i htake
      cases h
      rw [ne_eq, not_not] at htake
      rw [← htake, List.take_append_drop]

theorem chunkEnd_length {xs rest : List α} (h : g.chunkEnd xs = .ok rest) :
    rest.length + 2 ≤ xs.length := by
  rw [g.chunkEnd_ok h]
  simp only [lineEnd, List.length_append, List.length_cons, List.length_nil]
  omega

@[simp] theorem chunkEnd_lineEnd (rest : List α) : g.chunkEnd (g.lineEnd ++ rest) = .ok rest := by
  simp [chunkEnd, lineEnd]

def fields (xs : List α) : Except ε (Decoded α φ) :=
  match h : g.takeLine xs with
  | .error e => .error e
  | .ok (line, rest) =>
      if line = [] then .ok ⟨[], [], rest⟩
      else
        match g.fieldOf line with
        | .error e => .error e
        | .ok f =>
            have : rest.length < xs.length := by
              have := g.takeLine_length h
              omega
            (fields rest).map (Decoded.consField f)
termination_by xs.length

/-- Chunks up to the one of size zero, then the trailer section. -/
def chunks (xs : List α) : Except ε (Decoded α φ) :=
  match h : g.takeLine xs with
  | .error e => .error e
  | .ok (line, rest) =>
      match g.sizeOf line with
      | .error e => .error e
      | .ok size =>
          if size = 0 then g.fields rest
          else if rest.length < size then .error g.eof
          else
            match hend : g.chunkEnd (rest.drop size) with
            | .error e => .error e
            | .ok rest' =>
                have : rest'.length < xs.length := by
                  have hline := g.takeLine_length h
                  have hdrop := g.chunkEnd_length hend
                  rw [List.length_drop] at hdrop
                  omega
                (chunks rest').map (Decoded.prepend (rest.take size))
termination_by xs.length

def afterData (xs : List α) : Except ε (Decoded α φ) :=
  match g.chunkEnd xs with
  | .error e => .error e
  | .ok rest => g.chunks rest

/-- What is left inside a chunk with `remaining` bytes to go. -/
def data (remaining : Nat) (xs : List α) : Except ε (Decoded α φ) :=
  if xs.length < remaining then .error g.eof
  else (g.afterData (xs.drop remaining)).map (Decoded.prepend (xs.take remaining))

def afterSize (size : Nat) (xs : List α) : Except ε (Decoded α φ) :=
  if size = 0 then g.fields xs else g.data size xs

/-! ## One piece at a time -/

theorem fields_of_error {xs : List α} {e : ε} (h : g.takeLine xs = .error e) :
    g.fields xs = .error e := by
  rw [fields]
  split
  · rename_i e' h'
    rw [h] at h'
    cases h'
    rfl
  · rename_i line rest h'
    rw [h] at h'
    cases h'

theorem fields_of_line {xs line rest : List α} (h : g.takeLine xs = .ok (line, rest)) :
    g.fields xs =
      if line = [] then .ok ⟨[], [], rest⟩
      else
        match g.fieldOf line with
        | .error e => .error e
        | .ok f => (g.fields rest).map (Decoded.consField f) := by
  rw [fields]
  split
  · rename_i e h'
    rw [h] at h'
    cases h'
  · rename_i line' rest' h'
    rw [h] at h'
    cases h'
    rfl

theorem chunks_of_error {xs : List α} {e : ε} (h : g.takeLine xs = .error e) :
    g.chunks xs = .error e := by
  rw [chunks]
  split
  · rename_i e' h'
    rw [h] at h'
    cases h'
    rfl
  · rename_i line rest h'
    rw [h] at h'
    cases h'

theorem chunks_of_line {xs line rest : List α} (h : g.takeLine xs = .ok (line, rest)) :
    g.chunks xs =
      match g.sizeOf line with
      | .error e => .error e
      | .ok size => g.afterSize size rest := by
  rw [chunks]
  split
  · rename_i e h'
    rw [h] at h'
    cases h'
  · rename_i line' rest' h'
    rw [h] at h'
    cases h'
    cases g.sizeOf line with
    | error e => rfl
    | ok size =>
        simp only [afterSize, data, afterData]
        congr 2
        split
        · rename_i e hend
          rw [hend]
          rfl
        · rename_i rest'' hend
          rw [hend]

theorem data_split {remaining k : Nat} {xs : List α} (hk : k ≤ remaining)
    (hlen : k ≤ xs.length) :
    g.data remaining xs =
      (g.data (remaining - k) (xs.drop k)).map (Decoded.prepend (xs.take k)) := by
  unfold data
  rw [List.length_drop]
  by_cases hshort : xs.length < remaining
  · rw [if_pos hshort, if_pos (by omega)]
    rfl
  · have htake : xs.take remaining = xs.take k ++ (xs.drop k).take (remaining - k) := by
      conv_lhs => rw [show remaining = k + (remaining - k) by omega]
      exact List.take_add
    have hdrop : (xs.drop k).drop (remaining - k) = xs.drop remaining := by
      rw [List.drop_drop]
      congr 1
      omega
    rw [if_neg hshort, if_neg (by omega), hdrop, htake]
    cases g.afterData (xs.drop remaining) with
    | error e => rfl
    | ok d => simp [Except.map, Decoded.prepend_prepend]

@[simp] theorem data_zero (xs : List α) : g.data 0 xs = g.afterData xs := by
  rw [data, if_neg (by omega), List.drop_zero, List.take_zero]
  cases g.afterData xs <;> rfl

theorem data_append {piece : List α} (xs : List α) (remaining : Nat)
    (hlen : piece.length ≤ remaining) :
    g.data remaining (piece ++ xs) =
      (g.data (remaining - piece.length) xs).map (Decoded.prepend piece) := by
  rw [g.data_split hlen (by simp)]
  simp

theorem data_of_short {remaining : Nat} {xs : List α} (h : xs.length < remaining) :
    g.data remaining xs = .error g.eof := by
  rw [data, if_pos h]

/-! ## What was decoded -/

theorem fields_induction {motive : List α → Decoded α φ → Prop}
    (finish : ∀ {xs rest}, g.takeLine xs = .ok ([], rest) → motive xs ⟨[], [], rest⟩)
    (field : ∀ {xs line rest f d}, g.takeLine xs = .ok (line, rest) → line ≠ [] →
      g.fieldOf line = .ok f → motive rest d → motive xs (d.consField f))
    {xs : List α} {d : Decoded α φ} (h : g.fields xs = .ok d) : motive xs d := by
  induction hn : xs.length using Nat.strongRecOn generalizing xs d with
  | ind n ih =>
      cases hline : g.takeLine xs with
      | error e =>
          rw [g.fields_of_error hline] at h
          cases h
      | ok p =>
          obtain ⟨line, rest⟩ := p
          have hlen := g.takeLine_length hline
          rw [g.fields_of_line hline] at h
          split at h
          · rename_i hnil
            cases h
            exact finish (hnil ▸ hline)
          · rename_i hne
            split at h
            · cases h
            · rename_i f hfield
              cases hrest : g.fields rest with
              | error e =>
                  rw [hrest] at h
                  cases h
              | ok d' =>
                  rw [hrest] at h
                  cases h
                  exact field hline hne hfield (ih rest.length (by omega) hrest rfl)

theorem data_ok {size : Nat} {xs : List α} {d : Decoded α φ} (h : g.data size xs = .ok d) :
    ∃ piece rest d', piece.length = size ∧ xs = piece ++ g.lineEnd ++ rest ∧
      g.chunks rest = .ok d' ∧ d = d'.prepend piece := by
  unfold data afterData at h
  split at h
  · cases h
  · rename_i hlong
    cases hend : g.chunkEnd (xs.drop size) with
    | error e =>
        rw [hend] at h
        cases h
    | ok rest =>
        cases hchunks : g.chunks rest with
        | error e =>
            simp only [hend, hchunks] at h
            cases h
        | ok d' =>
            simp only [hend, hchunks] at h
            cases h
            have hlength := List.length_take_of_le (Nat.le_of_not_lt hlong)
            refine ⟨xs.take size, rest, d', hlength, ?_, hchunks, rfl⟩
            rw [List.append_assoc, ← g.chunkEnd_ok hend, List.take_append_drop]

/-- Induction on a decoded body. -/
theorem chunks_induction {motive : List α → Decoded α φ → Prop}
    (last : ∀ {xs line rest d}, g.takeLine xs = .ok (line, rest) → g.sizeOf line = .ok 0 →
      g.fields rest = .ok d → motive xs d)
    (chunk : ∀ {xs line data rest d}, g.takeLine xs = .ok (line, data ++ g.lineEnd ++ rest) →
      data ≠ [] → g.sizeOf line = .ok data.length → motive rest d → motive xs (d.prepend data))
    {xs : List α} {d : Decoded α φ} (h : g.chunks xs = .ok d) : motive xs d := by
  induction hn : xs.length using Nat.strongRecOn generalizing xs d with
  | ind n ih =>
      cases hline : g.takeLine xs with
      | error e =>
          rw [g.chunks_of_error hline] at h
          cases h
      | ok p =>
          obtain ⟨line, rest⟩ := p
          have hlen := g.takeLine_length hline
          rw [g.chunks_of_line hline] at h
          split at h
          · cases h
          · rename_i size hsize
            unfold afterSize at h
            split at h
            · rename_i hzero
              exact last hline (hzero ▸ hsize) h
            · rename_i hne
              obtain ⟨piece, rest', d', rfl, rfl, hchunks, rfl⟩ := g.data_ok h
              have hpiece : piece ≠ [] := fun hnil => hne (congrArg List.length hnil)
              simp only [List.length_append] at hlen
              exact chunk hline hpiece hsize (ih rest'.length (by omega) hchunks rfl)

theorem fields_length {xs : List α} {d : Decoded α φ} (h : g.fields xs = .ok d) :
    d.rest.length < xs.length := by
  apply g.fields_induction (motive := fun xs d => d.rest.length < xs.length) ?_ ?_ h
  · intro xs rest hline
    have hlen := g.takeLine_length hline
    dsimp only
    omega
  · intro xs line rest f d hline _ _ ih
    have hlen := g.takeLine_length hline
    simp only [Decoded.consField]
    omega

theorem chunks_length {xs : List α} {d : Decoded α φ} (h : g.chunks xs = .ok d) :
    d.rest.length < xs.length := by
  apply g.chunks_induction (motive := fun xs d => d.rest.length < xs.length) ?_ ?_ h
  · intro xs line rest d hline _ hfields
    have hlen := g.takeLine_length hline
    have hlt := g.fields_length hfields
    omega
  · intro xs line data rest d hline _ _ ih
    have hlen := g.takeLine_length hline
    simp only [List.length_append] at hlen
    simp only [Decoded.prepend]
    omega

/-! ## Reading an encoded body -/

theorem fields_line {line : List α} {f : φ} (rest : List α) (hcr : g.cr ∉ line)
    (hne : line ≠ []) (hf : g.fieldOf line = .ok f) :
    g.fields (line ++ g.lineEnd ++ rest) = (g.fields rest).map (Decoded.consField f) := by
  rw [g.fields_of_line (g.takeLine_line rest hcr), if_neg hne, hf]

theorem fields_end (rest : List α) : g.fields (g.lineEnd ++ rest) = .ok ⟨[], [], rest⟩ := by
  have hline : g.takeLine (g.lineEnd ++ rest) = .ok ([], rest) :=
    g.takeLine_line rest List.not_mem_nil
  rw [g.fields_of_line hline, if_pos rfl]

theorem chunks_chunk {line payload : List α} (rest : List α) (hcr : g.cr ∉ line)
    (hne : payload ≠ []) (hsize : g.sizeOf line = .ok payload.length) :
    g.chunks (line ++ g.lineEnd ++ (payload ++ g.lineEnd ++ rest)) =
      (g.chunks rest).map (Decoded.prepend payload) := by
  have hpos : payload.length ≠ 0 := by simpa using hne
  rw [g.chunks_of_line (g.takeLine_line _ hcr), hsize]
  simp only [afterSize]
  rw [if_neg hpos, List.append_assoc, g.data_append _ _ (Nat.le_refl _), Nat.sub_self, data_zero,
    afterData, chunkEnd_lineEnd]

theorem chunks_last {line : List α} (rest : List α) (hcr : g.cr ∉ line)
    (hsize : g.sizeOf line = .ok 0) :
    g.chunks (line ++ g.lineEnd ++ rest) = g.fields rest := by
  rw [g.chunks_of_line (g.takeLine_line rest hcr), hsize]
  rfl

def encodeFields (lines : List (List α)) : List α :=
  lines.flatMap (fun line => line ++ g.lineEnd) ++ g.lineEnd

def encodeChunks (pieces : List (List α × List α)) : List α :=
  pieces.flatMap fun p => p.1 ++ g.lineEnd ++ (p.2 ++ g.lineEnd)

theorem fields_encode {lines : List (List α × φ)} (rest : List α)
    (h : ∀ p ∈ lines, g.cr ∉ p.1 ∧ p.1 ≠ [] ∧ g.fieldOf p.1 = .ok p.2) :
    g.fields (g.encodeFields (lines.map Prod.fst) ++ rest) =
      .ok ⟨[], lines.map Prod.snd, rest⟩ := by
  induction lines with
  | nil => exact g.fields_end rest
  | cons p lines ih =>
      obtain ⟨hcr, hne, hf⟩ := h p (by simp)
      have ih := ih fun q hq => h q (by simp [hq])
      have hsplit : g.encodeFields ((p :: lines).map Prod.fst) ++ rest =
          p.1 ++ g.lineEnd ++ (g.encodeFields (lines.map Prod.fst) ++ rest) := by
        simp [encodeFields]
      rw [hsplit, g.fields_line _ hcr hne hf, ih]
      rfl

/-- Decoding undoes encoding, whatever follows the body. -/
theorem chunks_encode {pieces : List (List α × List α)} {last : List α} (rest : List α)
    (h : ∀ p ∈ pieces, g.cr ∉ p.1 ∧ p.2 ≠ [] ∧ g.sizeOf p.1 = .ok p.2.length)
    (hcr : g.cr ∉ last) (hlast : g.sizeOf last = .ok 0) :
    g.chunks (g.encodeChunks pieces ++ (last ++ g.lineEnd ++ rest)) =
      (g.fields rest).map (Decoded.prepend (pieces.flatMap Prod.snd)) := by
  induction pieces with
  | nil =>
      rw [encodeChunks, List.flatMap_nil, List.nil_append, g.chunks_last rest hcr hlast]
      cases g.fields rest <;> rfl
  | cons p pieces ih =>
      obtain ⟨hline, hne, hsize⟩ := h p (by simp)
      have ih := ih fun q hq => h q (by simp [hq])
      have hsplit : g.encodeChunks (p :: pieces) ++ (last ++ g.lineEnd ++ rest) =
          p.1 ++ g.lineEnd ++ (p.2 ++ g.lineEnd ++
            (g.encodeChunks pieces ++ (last ++ g.lineEnd ++ rest))) := by
        simp [encodeChunks]
      rw [hsplit, g.chunks_chunk _ hline hne hsize, ih]
      cases g.fields rest with
      | error e => rfl
      | ok d => simp [Except.map, Decoded.prepend_prepend]

/-- A stream cut into chunks, the line of the last chunk and what follows it. -/
structure Framed (xs : List α) (pieces : List (List α × List α)) (last tail : List α) :
    Prop where
  stream : xs = g.encodeChunks pieces ++ (last ++ g.lineEnd ++ tail)
  lines : ∀ line ∈ last :: pieces.map Prod.fst, ¬ g.lineEnd <:+: line
  chunk : ∀ p ∈ pieces, p.2 ≠ [] ∧ g.sizeOf p.1 = .ok p.2.length
  finish : g.sizeOf last = .ok 0

/-- A decoded body is made of chunks whose data is the payload, each as long as its line
says. -/
theorem chunks_framed {xs : List α} {d : Decoded α φ} (h : g.chunks xs = .ok d) :
    ∃ pieces last tail d', g.Framed xs pieces last tail ∧ g.fields tail = .ok d' ∧
      d = d'.prepend (pieces.flatMap Prod.snd) := by
  apply g.chunks_induction (motive := fun xs d => ∃ pieces last tail d',
    g.Framed xs pieces last tail ∧ g.fields tail = .ok d' ∧
      d = d'.prepend (pieces.flatMap Prod.snd)) ?_ ?_ h
  · intro xs line rest d hline hsize hfields
    refine ⟨[], line, rest, d, ⟨g.takeLine_ok hline, ?_, by simp, hsize⟩, hfields, rfl⟩
    intro line' hmem
    rw [List.map_nil, List.mem_singleton] at hmem
    rw [hmem]
    exact g.not_infix_of_takeLine hline
  · rintro xs line data rest d hline hne hsize ⟨pieces, last, tail, d', hframed, hfields, rfl⟩
    refine ⟨(line, data) :: pieces, last, tail, d', ⟨?_, ?_, ?_, hframed.finish⟩, hfields, ?_⟩
    · rw [g.takeLine_ok hline, hframed.stream]
      simp [encodeChunks]
    · intro line' hmem
      rw [List.map_cons, List.mem_cons, List.mem_cons] at hmem
      rcases hmem with hlast | hfirst | hrest
      · exact hframed.lines line' (by simp [hlast])
      · rw [hfirst]
        exact g.not_infix_of_takeLine hline
      · exact hframed.lines line' (List.mem_cons_of_mem _ hrest)
    · exact List.forall_mem_cons.mpr ⟨⟨hne, hsize⟩, hframed.chunk⟩
    · rw [Decoded.prepend_prepend, List.flatMap_cons]

section Unique

variable {g} (hends : g.cr ≠ g.lf)
include hends

theorem takeLine_of_not_infix {line : List α} (rest : List α) (h : ¬ g.lineEnd <:+: line) :
    g.takeLine (line ++ g.lineEnd ++ rest) = .ok (line, rest) := by
  have hpos : findWindow g.lineEnd (line ++ g.lineEnd ++ rest) = some line.length :=
    findWindow_append_pair hends rest h
  rw [takeLine, hpos]
  simp [lineEnd]

theorem Framed.takeLine_last {xs last tail : List α} (h : g.Framed xs [] last tail) :
    g.takeLine xs = .ok (last, tail) := by
  rw [h.stream, encodeChunks, List.flatMap_nil, List.nil_append]
  exact takeLine_of_not_infix hends tail (h.lines last List.mem_cons_self)

theorem Framed.takeLine_chunk {xs last tail : List α} {p : List α × List α}
    {pieces : List (List α × List α)} (h : g.Framed xs (p :: pieces) last tail) :
    ∃ rest, g.takeLine xs = .ok (p.1, p.2 ++ g.lineEnd ++ rest) ∧
      g.Framed rest pieces last tail := by
  refine ⟨g.encodeChunks pieces ++ (last ++ g.lineEnd ++ tail), ?_, rfl, ?_, ?_, h.finish⟩
  · have hline : ¬ g.lineEnd <:+: p.1 := h.lines p.1 (by simp)
    have hstream : xs = p.1 ++ g.lineEnd ++
        (p.2 ++ g.lineEnd ++ (g.encodeChunks pieces ++ (last ++ g.lineEnd ++ tail))) := by
      rw [h.stream]
      simp [encodeChunks]
    rw [hstream]
    exact takeLine_of_not_infix hends _ hline
  · intro line hmem
    apply h.lines
    rw [List.map_cons]
    exact (List.mem_cons.mp hmem).elim (fun heq => by simp [heq]) fun hrest => by simp [hrest]
  · exact fun q hq => h.chunk q (List.mem_cons_of_mem p hq)

/-- There is no other way to cut a stream. -/
theorem Framed.unique {xs last last' tail tail' : List α} {pieces pieces' : List (List α × List α)}
    (h : g.Framed xs pieces last tail) (h' : g.Framed xs pieces' last' tail') :
    pieces' = pieces ∧ last' = last ∧ tail' = tail := by
  induction pieces generalizing xs pieces' with
  | nil =>
      have hline := h.takeLine_last hends
      cases pieces' with
      | nil =>
          have heq := (h'.takeLine_last hends).symm.trans hline
          rw [Except.ok.injEq, Prod.mk.injEq] at heq
          exact ⟨rfl, heq⟩
      | cons p' pieces' =>
          obtain ⟨rest', hline', -⟩ := h'.takeLine_chunk hends
          rw [hline, Except.ok.injEq, Prod.mk.injEq] at hline'
          obtain ⟨hne, hsize⟩ := h'.chunk p' List.mem_cons_self
          rw [← hline'.1, h.finish, Except.ok.injEq] at hsize
          exact absurd (List.length_eq_zero_iff.mp hsize.symm) hne
  | cons p pieces ih =>
      obtain ⟨rest, hline, hrest⟩ := h.takeLine_chunk hends
      obtain ⟨hne, hsize⟩ := h.chunk p List.mem_cons_self
      cases pieces' with
      | nil =>
          have hline' := h'.takeLine_last hends
          rw [hline, Except.ok.injEq, Prod.mk.injEq] at hline'
          rw [hline'.1, h'.finish, Except.ok.injEq] at hsize
          exact absurd (List.length_eq_zero_iff.mp hsize.symm) hne
      | cons p' pieces' =>
          obtain ⟨rest', hline', hrest'⟩ := h'.takeLine_chunk hends
          obtain ⟨-, hsize'⟩ := h'.chunk p' List.mem_cons_self
          rw [hline, Except.ok.injEq, Prod.mk.injEq] at hline'
          obtain ⟨hfirst, hdata⟩ := hline'
          rw [hfirst, hsize', Except.ok.injEq] at hsize
          rw [List.append_assoc, List.append_assoc] at hdata
          obtain ⟨hpayload, htail⟩ := List.append_inj hdata hsize.symm
          rw [List.append_cancel_left_eq] at htail
          rw [← htail] at hrest'
          obtain ⟨hpieces, hlast, hback⟩ := ih hrest hrest'
          exact ⟨by rw [hpieces, Prod.ext hfirst hpayload], hlast, hback⟩

end Unique

end ChunkGrammar

end GooseHttp.Lib
