import GooseHttp.Lib.RankedLoop
import GooseHttp.Parse.Head
import GooseHttp.Parse.Input
/-!
# Body readers

The readers for fixed-length and chunked bodies.  They share the connection's
buffer with the head parser and read past it into slices of their own, so each
carries the `Input` it works on.  The loops of the source are ranked by the
bytes and events that are left, plus one while a chunk is being read.
-/

namespace GooseHttp

open Lib

inductive BodyError
  | unexpectedEof
  | invalidChunk
  | invalidTrailer (e : ParseError)
  | io (e : IoError)
  deriving DecidableEq, Repr

/-- How reading a body ends early: with an error of its own, or dropped because
the timeout around it expired. -/
inductive Interrupt
  | error (e : BodyError)
  | elapsed
  deriving DecidableEq, Repr

/-- Zero bytes read inside a body are an unexpected end of the stream. -/
def ReadFault.interrupt : ReadFault → Interrupt
  | .eof => .error .unexpectedEof
  | .error e => .error (.io e)
  | .timeout => .elapsed

/-! ## Fixed-length bodies -/

structure FixedBodyReader where
  input : Input
  remaining : Nat

def FixedBodyReader.readNext (r : FixedBodyReader) :
    Except Interrupt (Option Bytes) × FixedBodyReader :=
  if r.remaining = 0 then (.ok none, r)
  else if r.input.buffer ≠ [] then
    let available := min r.input.buffer.length r.remaining
    (.ok (some (r.input.buffer.take available)),
      ⟨r.input.advance available, r.remaining - available⟩)
  else
    match r.input.readInto (min r.remaining (8 * 1024)) with
    | (.error fault, input) => (.error fault.interrupt, ⟨input, r.remaining⟩)
    | (.ok bytes, input) => (.ok (some bytes), ⟨input, r.remaining - bytes.length⟩)

inductive FixedBodyReader.ReadCase (r : FixedBodyReader) :
    Except Interrupt (Option Bytes) × FixedBodyReader → Prop
  | finished (hzero : r.remaining = 0) : ReadCase r (.ok none, r)
  | piece (bytes : Bytes) (input : Input) (remaining : Nat)
      (hyields : r.input.Yields r.remaining bytes input)
      (hremaining : remaining + bytes.length = r.remaining) :
      ReadCase r (.ok (some bytes), ⟨input, remaining⟩)
  | fault (fault : ReadFault) (input : Input) (hremaining : r.remaining ≠ 0)
      (hempty : r.input.buffer = []) (hfault : r.input.Faults fault input) :
      ReadCase r (.error fault.interrupt, ⟨input, r.remaining⟩)

theorem FixedBodyReader.readNext_case (r : FixedBodyReader) : r.ReadCase r.readNext := by
  unfold readNext
  split
  · rename_i hzero
    exact .finished hzero
  · rename_i hremaining
    split
    · rename_i hbuffer
      apply ReadCase.piece _ _ _ (Input.yields_buffered hbuffer (by omega))
      rw [List.length_take]
      omega
    · rename_i hbuffer
      have hempty : r.input.buffer = [] := by simpa using hbuffer
      split
      · rename_i fault input hread
        exact .fault fault input hremaining hempty (Input.readInto_error hread)
      · rename_i bytes input hread
        have hyields := (Input.readInto_ok hempty (by omega) hread).mono (Nat.min_le_left _ _)
        have hle := hyields.length_le
        exact .piece bytes input _ hyields (by omega)

/-! ## Lines -/

/-- One round of the loop of `read_line`. -/
def readLineRound (i : Input) : Flow Input (Except Interrupt Text × Input) :=
  match findCrlf i.buffer with
  | some pos =>
      let line := i.buffer.take pos
      .done (if utf8Valid line then .ok line else .error (.error .invalidChunk),
        i.advance (pos + 2))
  | none =>
      match i.readBuf with
      | (.error fault, i) => .done (.error fault.interrupt, i)
      | (.ok (), i) => .next i

theorem readLineRound_next {i i' : Input} (h : readLineRound i = .next i') :
    findCrlf i.buffer = none ∧ i.readBuf = (.ok (), i') := by
  unfold readLineRound at h
  split at h
  · cases h
  · rename_i hnone
    split at h
    · cases h
    · rename_i i'' hread
      cases h
      exact ⟨hnone, hread⟩

def readLineLoop : RankedLoop Input (Except Interrupt Text × Input) where
  body := readLineRound
  rank i := i.incoming.length
  rank_lt h := (Input.readBuf_ok (readLineRound_next h).2).2.1

def readLine (i : Input) : Except Interrupt Text × Input := readLineLoop.run i

/-! ## Chunked bodies -/

inductive ChunkState
  | readingSize
  | readingData
  | expectingCrLf
  | readingTrailers
  | done
  deriving DecidableEq, Repr

structure ChunkedBodyReader where
  input : Input
  state : ChunkState
  currentChunkRemaining : Nat
  trailers : Headers
  trailersComplete : Bool

namespace ChunkedBodyReader

def new (input : Input) : ChunkedBodyReader where
  input := input
  state := .readingSize
  currentChunkRemaining := 0
  trailers := .empty
  trailersComplete := false

end ChunkedBodyReader

def parseChunkSize (line : Text) : Except BodyError Nat :=
  let sizeStr := match splitOnce 59 line with | some (size, _) => size | none => line
  match fromStrRadix 16 u64Bound (trim sizeStr) with
  | some size => .ok size
  | none => .error .invalidChunk

/-- The checks of a trailer line, giving its name and trimmed value. -/
def checkTrailerLine (line : Text) : Except ParseError (HeaderName × Text) :=
  match splitHeaderLine line with
  | .error e => .error e
  | .ok (nameStr, valueStr) =>
      if !isFieldName nameStr then .error .invalidHeaderName
      else
        let value := trimOws valueStr
        if containsInvalidHeaderValue value then .error .invalidHeaderValue
        else .ok (HeaderName.new nameStr, value)

namespace ChunkedBodyReader

/-- One round of the loop of `read_next`. -/
def round (r : ChunkedBodyReader) :
    Flow ChunkedBodyReader (Except Interrupt (Option Bytes) × ChunkedBodyReader) :=
  match r.state with
  | .readingSize =>
      match readLine r.input with
      | (.error e, input) => .done (.error e, { r with input := input })
      | (.ok line, input) =>
          match parseChunkSize line with
          | .error e => .done (.error (.error e), { r with input := input })
          | .ok size =>
              if size = 0 then .next { r with input := input, state := .readingTrailers }
              else
                .next { r with
                  input := input, currentChunkRemaining := size, state := .readingData }
  | .readingData =>
      if r.currentChunkRemaining = 0 then .next { r with state := .expectingCrLf }
      else if r.input.buffer ≠ [] then
        let available := min r.input.buffer.length r.currentChunkRemaining
        let remaining := r.currentChunkRemaining - available
        .done (.ok (some (r.input.buffer.take available)),
          { r with
            input := r.input.advance available
            currentChunkRemaining := remaining
            state := if remaining = 0 then .expectingCrLf else .readingData })
      else
        match r.input.readInto (min r.currentChunkRemaining (8 * 1024)) with
        | (.error fault, input) => .done (.error fault.interrupt, { r with input := input })
        | (.ok bytes, input) =>
            let remaining := r.currentChunkRemaining - bytes.length
            .done (.ok (some bytes),
              { r with
                input := input
                currentChunkRemaining := remaining
                state := if remaining = 0 then .expectingCrLf else .readingData })
  | .expectingCrLf =>
      if r.input.buffer.length < 2 then
        match r.input.readBuf with
        | (.error fault, input) => .done (.error fault.interrupt, { r with input := input })
        | (.ok (), input) => .next { r with input := input }
      else if r.input.buffer.take 2 ≠ CRLF then .done (.error (.error .invalidChunk), r)
      else .next { r with input := r.input.advance 2, state := .readingSize }
  | .readingTrailers =>
      match readLine r.input with
      | (.error e, input) => .done (.error e, { r with input := input })
      | (.ok line, input) =>
          if line = [] then
            .done (.ok none,
              { r with input := input, state := .done, trailersComplete := true })
          else
            match checkTrailerLine line with
            | .error e => .done (.error (.error (.invalidTrailer e)), { r with input := input })
            | .ok (name, value) =>
                .next { r with input := input, trailers := r.trailers.append name value }
  | .done => .done (.ok none, r)

inductive RoundCase (r : ChunkedBodyReader) :
    Flow ChunkedBodyReader (Except Interrupt (Option Bytes) × ChunkedBodyReader) → Prop
  | sizeFault (x : Interrupt) (input : Input) (hstate : r.state = .readingSize)
      (hread : readLine r.input = (.error x, input)) :
      RoundCase r (.done (.error x, { r with input := input }))
  | badSize (line : Text) (e : BodyError) (input : Input) (hstate : r.state = .readingSize)
      (hread : readLine r.input = (.ok line, input)) (hsize : parseChunkSize line = .error e) :
      RoundCase r (.done (.error (.error e), { r with input := input }))
  | lastChunk (line : Text) (input : Input) (hstate : r.state = .readingSize)
      (hread : readLine r.input = (.ok line, input)) (hsize : parseChunkSize line = .ok 0) :
      RoundCase r (.next { r with input := input, state := .readingTrailers })
  | chunk (line : Text) (size : Nat) (input : Input) (hstate : r.state = .readingSize)
      (hread : readLine r.input = (.ok line, input)) (hsize : parseChunkSize line = .ok size)
      (hne : size ≠ 0) :
      RoundCase r (.next { r with
        input := input, currentChunkRemaining := size, state := .readingData })
  | chunkOver (hstate : r.state = .readingData) (hzero : r.currentChunkRemaining = 0) :
      RoundCase r (.next { r with state := .expectingCrLf })
  | piece (bytes : Bytes) (input : Input) (remaining : Nat) (hstate : r.state = .readingData)
      (hyields : r.input.Yields r.currentChunkRemaining bytes input)
      (hremaining : remaining + bytes.length = r.currentChunkRemaining) :
      RoundCase r (.done (.ok (some bytes),
        { r with
          input := input
          currentChunkRemaining := remaining
          state := if remaining = 0 then .expectingCrLf else .readingData }))
  | dataFault (fault : ReadFault) (input : Input) (hstate : r.state = .readingData)
      (hremaining : r.currentChunkRemaining ≠ 0) (hempty : r.input.buffer = [])
      (hfault : r.input.Faults fault input) :
      RoundCase r (.done (.error fault.interrupt, { r with input := input }))
  | endFault (fault : ReadFault) (input : Input) (hstate : r.state = .expectingCrLf)
      (hshort : r.input.buffer.length < 2) (hfault : r.input.Faults fault input) :
      RoundCase r (.done (.error fault.interrupt, { r with input := input }))
  | endMore (input : Input) (hstate : r.state = .expectingCrLf)
      (hread : r.input.readBuf = (.ok (), input)) :
      RoundCase r (.next { r with input := input })
  | badEnd (hstate : r.state = .expectingCrLf) (hlen : 2 ≤ r.input.buffer.length)
      (hne : r.input.buffer.take 2 ≠ CRLF) :
      RoundCase r (.done (.error (.error .invalidChunk), r))
  | chunkEnd (hstate : r.state = .expectingCrLf) (hlen : 2 ≤ r.input.buffer.length)
      (htake : r.input.buffer.take 2 = CRLF) :
      RoundCase r (.next { r with input := r.input.advance 2, state := .readingSize })
  | trailerFault (x : Interrupt) (input : Input) (hstate : r.state = .readingTrailers)
      (hread : readLine r.input = (.error x, input)) :
      RoundCase r (.done (.error x, { r with input := input }))
  | bodyEnd (input : Input) (hstate : r.state = .readingTrailers)
      (hread : readLine r.input = (.ok [], input)) :
      RoundCase r (.done (.ok none,
        { r with input := input, state := .done, trailersComplete := true }))
  | badTrailer (line : Text) (e : ParseError) (input : Input)
      (hstate : r.state = .readingTrailers) (hread : readLine r.input = (.ok line, input))
      (hne : line ≠ []) (hcheck : checkTrailerLine line = .error e) :
      RoundCase r (.done (.error (.error (.invalidTrailer e)), { r with input := input }))
  | trailer (line : Text) (name : HeaderName) (value : Text) (input : Input)
      (hstate : r.state = .readingTrailers) (hread : readLine r.input = (.ok line, input))
      (hne : line ≠ []) (hcheck : checkTrailerLine line = .ok (name, value)) :
      RoundCase r (.next { r with
        input := input, trailers := r.trailers.append name value })
  | finished (hstate : r.state = .done) : RoundCase r (.done (.ok none, r))

theorem round_case (r : ChunkedBodyReader) : r.RoundCase r.round := by
  unfold round
  split
  · rename_i hstate
    split
    · rename_i x input hread
      exact .sizeFault x input hstate hread
    · rename_i line input hread
      split
      · rename_i e hsize
        exact .badSize line e input hstate hread hsize
      · rename_i size hsize
        split
        · rename_i hzero
          subst hzero
          exact .lastChunk line input hstate hread hsize
        · rename_i hne
          exact .chunk line size input hstate hread hsize hne
  · rename_i hstate
    split
    · rename_i hzero
      exact .chunkOver hstate hzero
    · rename_i hremaining
      split
      · rename_i hbuffer
        apply RoundCase.piece _ _ _ hstate (Input.yields_buffered hbuffer (by omega))
        rw [List.length_take]
        omega
      · rename_i hbuffer
        have hempty : r.input.buffer = [] := by simpa using hbuffer
        split
        · rename_i fault input hread
          exact .dataFault fault input hstate hremaining hempty (Input.readInto_error hread)
        · rename_i bytes input hread
          have hyields := (Input.readInto_ok hempty (by omega) hread).mono (Nat.min_le_left _ _)
          have hle := hyields.length_le
          exact .piece bytes input _ hstate hyields (by omega)
  · rename_i hstate
    split
    · rename_i hshort
      split
      · rename_i fault input hread
        exact .endFault fault input hstate hshort (Input.readBuf_error hread)
      · rename_i input hread
        exact .endMore input hstate hread
    · rename_i hlen
      split
      · rename_i hne
        exact .badEnd hstate (by omega) hne
      · rename_i htake
        exact .chunkEnd hstate (by omega) (by simpa using htake)
  · rename_i hstate
    split
    · rename_i x input hread
      exact .trailerFault x input hstate hread
    · rename_i line input hread
      split
      · rename_i hnil
        subst hnil
        exact .bodyEnd input hstate hread
      · rename_i hne
        split
        · rename_i e hcheck
          exact .badTrailer line e input hstate hread hne hcheck
        · rename_i name value hcheck
          exact .trailer line name value input hstate hread hne hcheck
  · rename_i hstate
    exact .finished hstate

end ChunkedBodyReader

/-! ### Every round uses something up -/

theorem readLine_size (i : Input) :
    (readLine i).2.size ≤ i.size ∧
      ∀ line, (readLine i).1 = .ok line → (readLine i).2.size + 2 ≤ i.size := by
  refine readLineLoop.run_induction
    (motive := fun i r => r.2.size ≤ i.size ∧ ∀ line, r.1 = .ok line → r.2.size + 2 ≤ i.size)
    ?_ ?_ i
  · intro i r h
    change readLineRound i = .done r at h
    unfold readLineRound at h
    split at h
    · rename_i pos hpos
      have hle := findWindow_some_le hpos
      simp only [CRLF, List.length_cons, List.length_nil] at hle
      have hsize := i.size_advance (n := pos + 2) (by omega)
      cases h
      exact ⟨by dsimp only; omega, fun _ _ => by dsimp only; omega⟩
    · split at h
      · rename_i fault i' hread
        cases h
        exact ⟨(Input.readBuf_error hread).size_le, fun line hline => by cases hline⟩
      · cases h
  · intro i i' h ih
    obtain ⟨-, hread⟩ := readLineRound_next h
    have hle := (Input.size_readBuf hread).le
    refine ⟨ih.1.trans hle, fun line hline => ?_⟩
    calc
      _ ≤ i'.size := ih.2 line hline
      _ ≤ i.size := hle

theorem size_readLine {i i' : Input} {line : Text} (h : readLine i = (.ok line, i')) :
    i'.size + 2 ≤ i.size := by
  have hsize := (readLine_size i).2 line
  rw [h] at hsize
  exact hsize rfl

theorem size_readLine_error {i i' : Input} {x : Interrupt} (h : readLine i = (.error x, i')) :
    i'.size ≤ i.size := by
  have hsize := (readLine_size i).1
  rw [h] at hsize
  exact hsize

namespace ChunkedBodyReader

def rank (r : ChunkedBodyReader) : Nat :=
  r.input.size + if r.state = .readingData then 1 else 0

theorem round_rank {r r' : ChunkedBodyReader} (h : r.round = .next r') :
    r'.rank < r.rank ∧ r'.input.size ≤ r.input.size := by
  have hcase := r.round_case
  rw [h] at hcase
  cases hcase with
  | lastChunk line input hstate hread hsize =>
      have hsize := size_readLine hread
      simp only [rank, hstate, reduceCtorEq, if_false]
      omega
  | chunk line size input hstate hread hsize hne =>
      have hsize := size_readLine hread
      simp only [rank, hstate, reduceCtorEq, if_false, if_true]
      omega
  | chunkOver hstate hzero =>
      simp only [rank, hstate, reduceCtorEq, if_false, if_true]
      omega
  | endMore input hstate hread =>
      have hsize := Input.size_readBuf hread
      simp only [rank, hstate, reduceCtorEq, if_false]
      omega
  | chunkEnd hstate hlen htake =>
      have hsize := r.input.size_advance hlen
      simp only [rank, hstate, reduceCtorEq, if_false]
      omega
  | trailer line name value input hstate hread hne hcheck =>
      have hsize := size_readLine hread
      simp only [rank, hstate, reduceCtorEq, if_false]
      omega

def loop : RankedLoop ChunkedBodyReader
    (Except Interrupt (Option Bytes) × ChunkedBodyReader) where
  body := round
  rank := rank
  rank_lt h := (round_rank h).1

def readNext (r : ChunkedBodyReader) : Except Interrupt (Option Bytes) × ChunkedBodyReader :=
  loop.run r

/-- What `read_next` hands out is not empty and comes out of what there was. -/
theorem round_done_size {r r' : ChunkedBodyReader} {res : Except Interrupt (Option Bytes)}
    (h : r.round = .done (res, r')) :
    r'.input.size ≤ r.input.size ∧
      ∀ piece, res = .ok (some piece) →
        piece ≠ [] ∧ r'.input.size + piece.length ≤ r.input.size := by
  have hcase := r.round_case
  rw [h] at hcase
  cases hcase with
  | sizeFault x input hstate hread =>
      exact ⟨size_readLine_error hread, fun piece hp => by cases hp⟩
  | badSize line e input hstate hread hsize =>
      have hsize := size_readLine hread
      exact ⟨by dsimp only; omega, fun piece hp => by cases hp⟩
  | piece bytes input remaining hstate hyields hremaining =>
      have hsize := hyields.size
      refine ⟨by dsimp only; omega, fun piece hp => ?_⟩
      cases hp
      exact ⟨hyields.ne_nil, hsize⟩
  | dataFault fault input hstate hremaining hempty hfault =>
      exact ⟨hfault.size_le, fun piece hp => by cases hp⟩
  | endFault fault input hstate hshort hfault =>
      exact ⟨hfault.size_le, fun piece hp => by cases hp⟩
  | badEnd hstate hlen hne => exact ⟨Nat.le_refl _, fun piece hp => by cases hp⟩
  | trailerFault x input hstate hread =>
      exact ⟨size_readLine_error hread, fun piece hp => by cases hp⟩
  | bodyEnd input hstate hread =>
      have hsize := size_readLine hread
      exact ⟨by dsimp only; omega, fun piece hp => by cases hp⟩
  | badTrailer line e input hstate hread hne hcheck =>
      have hsize := size_readLine hread
      exact ⟨by dsimp only; omega, fun piece hp => by cases hp⟩
  | finished hstate => exact ⟨Nat.le_refl _, fun piece hp => by cases hp⟩

theorem readNext_size (r : ChunkedBodyReader) :
    r.readNext.2.input.size ≤ r.input.size ∧
      ∀ piece, r.readNext.1 = .ok (some piece) →
        piece ≠ [] ∧ r.readNext.2.input.size + piece.length ≤ r.input.size := by
  refine loop.run_induction
    (motive := fun r res => res.2.input.size ≤ r.input.size ∧
      ∀ piece, res.1 = .ok (some piece) →
        piece ≠ [] ∧ res.2.input.size + piece.length ≤ r.input.size)
    ?_ ?_ r
  · intro r res h
    exact round_done_size h
  · intro r r' h ih
    have hle := (round_rank h).2
    refine ⟨ih.1.trans hle, fun piece hp => ?_⟩
    obtain ⟨hne, hsize⟩ := ih.2 piece hp
    refine ⟨hne, ?_⟩
    calc
      _ ≤ r'.input.size := hsize
      _ ≤ r.input.size := hle

end ChunkedBodyReader

theorem FixedBodyReader.readNext_size (r : FixedBodyReader) :
    r.readNext.2.input.size ≤ r.input.size ∧
      ∀ piece, r.readNext.1 = .ok (some piece) →
        piece ≠ [] ∧ r.readNext.2.input.size + piece.length ≤ r.input.size := by
  have hcase := r.readNext_case
  generalize r.readNext = res at hcase
  cases hcase with
  | finished hzero => exact ⟨Nat.le_refl _, fun piece hp => by cases hp⟩
  | piece bytes input remaining hyields hremaining =>
      have hsize := hyields.size
      refine ⟨by dsimp only; omega, fun piece hp => ?_⟩
      cases hp
      exact ⟨hyields.ne_nil, hsize⟩
  | fault fault input hremaining hempty hfault =>
      exact ⟨hfault.size_le, fun piece hp => by cases hp⟩

/-! ## The reader a connection uses -/

/-- `BodyReader`; the empty one only hands its input back. -/
inductive BodyReader
  | empty (input : Input)
  | fixed (reader : FixedBodyReader)
  | chunked (reader : ChunkedBodyReader)

namespace BodyReader

def input : BodyReader → Input
  | empty input => input
  | fixed reader => reader.input
  | chunked reader => reader.input

def readNext : BodyReader → Except Interrupt (Option Bytes) × BodyReader
  | empty input => (.ok none, empty input)
  | fixed reader => (reader.readNext.1, fixed reader.readNext.2)
  | chunked reader => (reader.readNext.1, chunked reader.readNext.2)

def trailers : BodyReader → Option Headers
  | empty _ => none
  | fixed _ => none
  | chunked reader => if reader.trailersComplete then some reader.trailers else none

def isFinished : BodyReader → Bool
  | empty _ => true
  | fixed reader => reader.remaining = 0
  | chunked reader => reader.state = .done

theorem readNext_size (r : BodyReader) :
    r.readNext.2.input.size ≤ r.input.size ∧
      ∀ piece, r.readNext.1 = .ok (some piece) →
        piece ≠ [] ∧ r.readNext.2.input.size + piece.length ≤ r.input.size := by
  cases r with
  | empty input => exact ⟨Nat.le_refl _, fun piece hp => by cases hp⟩
  | fixed reader => exact reader.readNext_size
  | chunked reader => exact reader.readNext_size

/-- One round of `drain`. -/
def drainRound (r : BodyReader) : Flow BodyReader (Except Interrupt Unit × BodyReader) :=
  match r.readNext with
  | (.error e, reader) => .done (.error e, reader)
  | (.ok none, reader) => .done (.ok (), reader)
  | (.ok (some _), reader) => .next reader

theorem drainRound_next {r r' : BodyReader} (h : drainRound r = .next r') :
    ∃ piece, r.readNext = (.ok (some piece), r') := by
  unfold drainRound at h
  split at h
  · cases h
  · cases h
  · rename_i piece reader hnext
    cases h
    exact ⟨piece, hnext⟩

theorem ne_nil_of_readNext {r r' : BodyReader} {piece : Bytes}
    (h : r.readNext = (.ok (some piece), r')) : piece ≠ [] := by
  have hsize := r.readNext_size.2
  rw [h] at hsize
  exact (hsize piece rfl).1

theorem size_lt_of_readNext {r r' : BodyReader} {piece : Bytes}
    (h : r.readNext = (.ok (some piece), r')) : r'.input.size < r.input.size := by
  have hpos := List.length_pos_iff.mpr (ne_nil_of_readNext h)
  have hsize := r.readNext_size.2
  rw [h] at hsize
  have hle := (hsize piece rfl).2
  dsimp only at hle
  omega

def drainLoop : RankedLoop BodyReader (Except Interrupt Unit × BodyReader) where
  body := drainRound
  rank r := r.input.size
  rank_lt := by
    intro r r' h
    obtain ⟨piece, hnext⟩ := drainRound_next h
    exact size_lt_of_readNext hnext

def drain (r : BodyReader) : Except Interrupt Unit × BodyReader := drainLoop.run r

/-- One round of the loop that collects a body. -/
def collectRound (s : BodyReader × Bytes) :
    Flow (BodyReader × Bytes) (Except Interrupt Bytes × BodyReader) :=
  match s.1.readNext with
  | (.error e, reader) => .done (.error e, reader)
  | (.ok none, reader) => .done (.ok s.2, reader)
  | (.ok (some chunk), reader) => .next (reader, s.2 ++ chunk)

theorem collectRound_next {s s' : BodyReader × Bytes} (h : collectRound s = .next s') :
    ∃ chunk, s.1.readNext = (.ok (some chunk), s'.1) ∧ s'.2 = s.2 ++ chunk := by
  unfold collectRound at h
  split at h
  · cases h
  · cases h
  · rename_i chunk reader hnext
    cases h
    exact ⟨chunk, hnext, rfl⟩

def collectLoop : RankedLoop (BodyReader × Bytes) (Except Interrupt Bytes × BodyReader) where
  body := collectRound
  rank s := s.1.input.size
  rank_lt := by
    intro s s' h
    obtain ⟨chunk, hnext, -⟩ := collectRound_next h
    exact size_lt_of_readNext hnext

/-- Read a body to its end, as the connection does inside its body timeout. -/
def collect (r : BodyReader) : Except Interrupt Bytes × BodyReader := collectLoop.run (r, [])

theorem collect_size (r : BodyReader) : r.collect.2.input.size ≤ r.input.size := by
  refine collectLoop.run_induction
    (motive := fun s res => res.2.input.size ≤ s.1.input.size) ?_ ?_ (r, [])
  · intro s res h
    change collectRound s = .done res at h
    have hsize := s.1.readNext_size.1
    unfold collectRound at h
    split at h
    · rename_i e reader hnext
      rw [hnext] at hsize
      cases h
      exact hsize
    · rename_i reader hnext
      rw [hnext] at hsize
      cases h
      exact hsize
    · cases h
  · intro s s' h ih
    obtain ⟨chunk, hnext, -⟩ := collectRound_next h
    have hsize := s.1.readNext_size.1
    rw [hnext] at hsize
    calc
      _ ≤ s'.1.input.size := ih
      _ ≤ s.1.input.size := hsize

end BodyReader

def bodyReader (mode : BodyMode) (input : Input) : BodyReader :=
  match mode with
  | .none => .empty input
  | .fixed remaining => .fixed ⟨input, remaining⟩
  | .chunked => .chunked (.new input)

@[simp] theorem bodyReader_input (mode : BodyMode) (input : Input) :
    (bodyReader mode input).input = input := by
  cases mode <;> rfl

end GooseHttp
