import GooseHttp.Parse.Reading
/-!
# The chunked reader comes to an end and keeps its invariant

Every round of `read_next` uses up bytes or events of its input, or leaves a chunk that is
over, so a call returns after at most as many rounds as there are of them and two more,
whatever the bytes are.  What holds of the reader's fields whenever a call returns speaks
of the chunk size parsed last, which the reader does not keep; `TrackedReader` keeps it
beside the reader.
-/

namespace GooseHttp

open Lib

/-! ## Rounds -/

theorem iterate_readLine (i : Input) :
    ∃ rounds ≤ i.incoming.length + 1,
      RankedLoop.iterate readLineRound rounds i = some (readLine i) :=
  ⟨_, Nat.le_refl _, readLineLoop.iterate_run i⟩

namespace ChunkedBodyReader

theorem rank_le (r : ChunkedBodyReader) : r.rank ≤ r.input.size + 1 := by
  unfold rank
  split <;> omega

theorem iterate_readNext (r : ChunkedBodyReader) :
    ∃ rounds ≤ r.input.size + 2, RankedLoop.iterate round rounds r = some r.readNext := by
  have hrank := r.rank_le
  exact ⟨r.rank + 1, by omega, loop.iterate_run r⟩

theorem remaining_of_piece {r r' : ChunkedBodyReader} {piece : Bytes}
    (h : r.round = .done (.ok (some piece), r')) :
    r'.currentChunkRemaining + piece.length = r.currentChunkRemaining := by
  have hcase := r.round_case
  rw [h] at hcase
  cases hcase with
  | piece bytes input remaining hstate hyields hremaining => exact hremaining

def parsedSize (r : ChunkedBodyReader) : Option Nat :=
  if r.state = .readingSize then
    (readLine r.input).1.toOption.bind fun line => (parseChunkSize line).toOption
  else none

theorem parsedSize_of_ne {r : ChunkedBodyReader} (h : r.state ≠ .readingSize) :
    r.parsedSize = none := if_neg h

theorem parsedSize_of_line {r : ChunkedBodyReader} {line : Text} {size : Nat} {input : Input}
    (hstate : r.state = .readingSize) (hread : readLine r.input = (.ok line, input))
    (hsize : parseChunkSize line = .ok size) : r.parsedSize = some size := by
  rw [parsedSize, if_pos hstate, hread]
  simp only [Except.toOption, Option.bind_some, hsize]

end ChunkedBodyReader

theorem BodyReader.iterate_drain (r : BodyReader) :
    ∃ rounds ≤ r.input.size + 1, RankedLoop.iterate drainRound rounds r = some r.drain :=
  ⟨_, Nat.le_refl _, drainLoop.iterate_run r⟩

/-! ## The size of the chunk -/

/-- A reader and the chunk size it parsed last. -/
structure TrackedReader where
  reader : ChunkedBodyReader
  lastSize : Option Nat

namespace TrackedReader

def start (input : Input) : TrackedReader := ⟨.new input, none⟩

def round (t : TrackedReader) :
    Flow TrackedReader (Except Interrupt (Option Bytes) × TrackedReader) :=
  match t.reader.round with
  | .next r => .next ⟨r, t.reader.parsedSize.or t.lastSize⟩
  | .done (res, r) => .done (res, ⟨r, t.reader.parsedSize.or t.lastSize⟩)

theorem round_next {t t' : TrackedReader} (h : t.round = .next t') :
    t.reader.round = .next t'.reader ∧ t'.lastSize = t.reader.parsedSize.or t.lastSize := by
  unfold round at h
  split at h
  · rename_i r hround
    cases h
    exact ⟨hround, rfl⟩
  · cases h

theorem round_done {t t' : TrackedReader} {res : Except Interrupt (Option Bytes)}
    (h : t.round = .done (res, t')) :
    t.reader.round = .done (res, t'.reader) ∧
      t'.lastSize = t.reader.parsedSize.or t.lastSize := by
  unfold round at h
  split at h
  · cases h
  · rename_i res' r hround
    cases h
    exact ⟨hround, rfl⟩

def loop : RankedLoop TrackedReader (Except Interrupt (Option Bytes) × TrackedReader) where
  body := round
  rank t := t.reader.rank
  rank_lt h := (ChunkedBodyReader.round_rank (round_next h).1).1

def readNext (t : TrackedReader) : Except Interrupt (Option Bytes) × TrackedReader := loop.run t

theorem readNext_reader (t : TrackedReader) :
    t.readNext.1 = t.reader.readNext.1 ∧ t.readNext.2.reader = t.reader.readNext.2 := by
  apply loop.run_simulation ChunkedBodyReader.loop
    (R := fun t r => t.reader = r)
    (Q := fun res res' => res.1 = res'.1 ∧ res.2.reader = res'.2)
  · rintro t _ t' rfl h
    exact Or.inr ⟨t'.reader, (round_next h).1, rfl⟩
  · rintro t _ res rfl h
    exact ⟨(res.1, res.2.reader), (round_done h).1, rfl, rfl⟩
  · rfl

def after (t : TrackedReader) : Nat → TrackedReader
  | 0 => t
  | k + 1 => (t.after k).readNext.2

theorem after_start (input : Input) (k : Nat) :
    (bodyReader .chunked input).after k = .chunked ((start input).after k).reader := by
  induction k with
  | zero => rfl
  | succ k ih =>
      rw [BodyReader.after, ih, BodyReader.readNext, after, (readNext_reader _).2]

/-! ## The invariant -/

/-- What holds of the fields of a reader: data is read within the chunk announced last, and
being done, being finished and having trailers are one. -/
structure Sound (t : TrackedReader) : Prop where
  data : t.reader.state = .readingData →
    0 < t.reader.currentChunkRemaining ∧
      ∃ size, t.lastSize = some size ∧ t.reader.currentChunkRemaining ≤ size
  finished : (BodyReader.chunked t.reader).isFinished = true ↔ t.reader.state = .done
  trailers : t.reader.state = .done ↔ (BodyReader.chunked t.reader).trailers.isSome = true

theorem isFinished_iff (r : ChunkedBodyReader) :
    (BodyReader.chunked r).isFinished = true ↔ r.state = .done := by
  rw [BodyReader.isFinished, decide_eq_true_eq]

theorem trailers_isSome_iff (r : ChunkedBodyReader) :
    (BodyReader.chunked r).trailers.isSome = true ↔ r.trailersComplete = true := by
  rw [BodyReader.trailers]
  cases r.trailersComplete <;> simp

namespace Sound

theorem of_fields {t : TrackedReader}
    (hdata : t.reader.state = .readingData →
      0 < t.reader.currentChunkRemaining ∧
        ∃ size, t.lastSize = some size ∧ t.reader.currentChunkRemaining ≤ size)
    (hcomplete : t.reader.state = .done ↔ t.reader.trailersComplete = true) : Sound t where
  data := hdata
  finished := isFinished_iff t.reader
  trailers := hcomplete.trans (trailers_isSome_iff t.reader).symm

theorem complete {t : TrackedReader} (h : Sound t) :
    t.reader.state = .done ↔ t.reader.trailersComplete = true :=
  h.trailers.trans (trailers_isSome_iff t.reader)

theorem of_idle {t : TrackedReader} (hdata : t.reader.state ≠ .readingData)
    (hdone : t.reader.state ≠ .done) (hcomplete : t.reader.trailersComplete = false) :
    Sound t := by
  apply of_fields
  · exact fun h => absurd h hdata
  · rw [hcomplete]
    exact ⟨fun h => absurd h hdone, fun h => by cases h⟩

theorem incomplete {t : TrackedReader} (h : Sound t) (hdone : t.reader.state ≠ .done) :
    t.reader.trailersComplete = false := by
  rw [Bool.eq_false_iff]
  exact fun hcomplete => hdone (h.complete.mpr hcomplete)

theorem of_input {t : TrackedReader} {last : Option Nat} (h : Sound t) (input : Input)
    (hlast : t.reader.state = .readingData → last = t.lastSize) :
    Sound ⟨{ t.reader with input := input }, last⟩ := by
  apply of_fields
  · intro hstate
    obtain ⟨hpos, size, hsize, hle⟩ := h.data hstate
    exact ⟨hpos, size, (hlast hstate).trans hsize, hle⟩
  · exact h.complete

theorem of_chunk {t : TrackedReader} {size : Nat} (hstate : t.reader.state = .readingData)
    (hlast : t.lastSize = some size) (hpos : 0 < t.reader.currentChunkRemaining)
    (hle : t.reader.currentChunkRemaining ≤ size)
    (hcomplete : t.reader.trailersComplete = false) : Sound t := by
  apply of_fields
  · exact fun _ => ⟨hpos, size, hlast, hle⟩
  · rw [hcomplete, hstate]
    simp

theorem new (input : Input) : Sound (start input) :=
  of_idle (by simp [start, ChunkedBodyReader.new]) (by simp [start, ChunkedBodyReader.new]) rfl

theorem lastSize_of_data {r : ChunkedBodyReader} {last last' : Option Nat}
    (h : last' = r.parsedSize.or last) (hstate : r.state = .readingData) : last' = last := by
  rw [h, ChunkedBodyReader.parsedSize_of_ne (by simp [hstate]), Option.none_or]

theorem round_next {t t' : TrackedReader} (h : Sound t) (hround : t.round = .next t') :
    Sound t' := by
  obtain ⟨hreader, hlast⟩ := TrackedReader.round_next hround
  obtain ⟨r', last'⟩ := t'
  have hcase := t.reader.round_case
  rw [hreader] at hcase
  cases hcase with
  | lastChunk line input hstate hread hsize =>
      exact of_idle (by simp) (by simp) (h.incomplete (by simp [hstate]))
  | chunk line size input hstate hread hsize hne =>
      rw [ChunkedBodyReader.parsedSize_of_line hstate hread hsize] at hlast
      exact of_chunk rfl hlast (Nat.pos_of_ne_zero hne) (Nat.le_refl _)
        (h.incomplete (by simp [hstate]))
  | chunkOver hstate hzero =>
      -- the reader never rests in a chunk that is over
      have hpos := (h.data hstate).1
      omega
  | endMore input hstate hread => exact h.of_input input (lastSize_of_data hlast)
  | chunkEnd hstate hlen htake =>
      exact of_idle (by simp) (by simp) (h.incomplete (by simp [hstate]))
  | trailer line name value input hstate hread hne hcheck =>
      exact of_idle (by simp [hstate]) (by simp [hstate]) (h.incomplete (by simp [hstate]))

theorem round_done {t t' : TrackedReader} {res : Except Interrupt (Option Bytes)} (h : Sound t)
    (hround : t.round = .done (res, t')) : Sound t' := by
  obtain ⟨hreader, hlast⟩ := TrackedReader.round_done hround
  obtain ⟨r', last'⟩ := t'
  have hkeep := @lastSize_of_data t.reader t.lastSize last' hlast
  have hcase := t.reader.round_case
  rw [hreader] at hcase
  cases hcase with
  | sizeFault x input hstate hread => exact h.of_input input hkeep
  | badSize line e input hstate hread hsize => exact h.of_input input hkeep
  | piece bytes input remaining hstate hyields hremaining =>
      have hcomplete := h.incomplete (by simp [hstate])
      obtain ⟨-, size, hsize, hle⟩ := h.data hstate
      by_cases hzero : remaining = 0
      · exact of_idle (by simp [hzero]) (by simp [hzero]) hcomplete
      · refine of_chunk ?_ ((hkeep hstate).trans hsize) (Nat.pos_of_ne_zero hzero) ?_ hcomplete
        · simp [hzero]
        · dsimp only
          omega
  | dataFault fault input hstate hremaining hempty hfault => exact h.of_input input hkeep
  | endFault fault input hstate hshort hfault => exact h.of_input input hkeep
  | badEnd hstate hlen hne => exact h.of_input t.reader.input hkeep
  | trailerFault x input hstate hread => exact h.of_input input hkeep
  | bodyEnd input hstate hread => exact of_fields (by simp) (by simp)
  | badTrailer line e input hstate hread hne hcheck => exact h.of_input input hkeep
  | finished hstate => exact h.of_input t.reader.input hkeep

theorem readNext {t : TrackedReader} (h : Sound t) : Sound t.readNext.2 := by
  refine loop.run_induction (motive := fun t res => Sound t → Sound res.2) ?_ ?_ t h
  · intro t res hround hsound
    exact hsound.round_done hround
  · intro t t' hround ih hsound
    exact ih (hsound.round_next hround)

theorem after {t : TrackedReader} (h : Sound t) (k : Nat) : Sound (t.after k) := by
  induction k with
  | zero => exact h
  | succ k ih => exact ih.readNext

end Sound

end TrackedReader

/-- Whatever the input is, every call of the chunked reader returns, what it hands out is not
empty, and so `drain` returns.  Whenever a call has returned the reader's fields are sound,
what is handed out is what comes off the chunk, and behind the end no call does anything. -/
theorem bodyReader_chunked_sound (input : Input) :
    (∀ i : Input, ∃ rounds ≤ i.incoming.length + 1,
      RankedLoop.iterate readLineRound rounds i = some (readLine i)) ∧
    (∀ r : ChunkedBodyReader, (∃ rounds ≤ r.input.size + 2,
      RankedLoop.iterate ChunkedBodyReader.round rounds r = some r.readNext) ∧
      ∀ piece, r.readNext.1 = .ok (some piece) → piece ≠ []) ∧
    ((∃ rounds ≤ input.size + 1,
      RankedLoop.iterate BodyReader.drainRound rounds (bodyReader .chunked input) =
        some (bodyReader .chunked input).drain) ∧
      ∃ pieces, (bodyReader .chunked input).Reads pieces (bodyReader .chunked input).drain.1
        (bodyReader .chunked input).drain.2) ∧
    (∀ k, (bodyReader .chunked input).after k =
        .chunked ((TrackedReader.start input).after k).reader ∧
      ((TrackedReader.start input).after k).Sound) ∧
    (∀ (r r' : ChunkedBodyReader) (piece : Bytes), r.round = .done (.ok (some piece), r') →
      r'.currentChunkRemaining + piece.length = r.currentChunkRemaining) ∧
    ∀ k j, (bodyReader .chunked input).result k = .ok none → k < j →
      (bodyReader .chunked input).result j = .ok none ∧
      (bodyReader .chunked input).after j = (bodyReader .chunked input).after (k + 1) := by
  refine ⟨iterate_readLine, fun r => ⟨r.iterate_readNext, ?_⟩, ⟨?_, ?_⟩, fun k => ⟨?_, ?_⟩,
    fun r r' piece h => ChunkedBodyReader.remaining_of_piece h,
    fun k j hnone hlt => (bodyReader .chunked input).settled hnone hlt⟩
  · exact fun piece hp => (r.readNext_size.2 piece hp).1
  · exact (bodyReader .chunked input).iterate_drain
  · exact (bodyReader .chunked input).reads_drain
  · exact TrackedReader.after_start input k
  · exact (TrackedReader.Sound.new input).after k

end GooseHttp
