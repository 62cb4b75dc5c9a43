import GooseHttp.Lib.Chunked
import GooseHttp.Parse.Body
/-!
# What a body reader decodes

A body decoded in one go from the whole stream, and the body readers measured
against it.  `outlook` is what a reader will still deliver, read off its state and
everything its input holds; a round of `read_next` keeps it, a piece that is
handed out is its front, and where reading ends it is used up.  Nothing in it
depends on how the input is cut into reads.
-/

namespace GooseHttp

open Lib

def chunkGrammar : ChunkGrammar UInt8 BodyError (HeaderName × Text) where
  cr := CR
  lf := LF
  eof := .unexpectedEof
  malformed := .invalidChunk
  sizeOf line := if utf8Valid line then parseChunkSize line else .error .invalidChunk
  fieldOf line :=
    if utf8Valid line then (checkTrailerLine line).mapError .invalidTrailer
    else .error .invalidChunk

structure BodyResult where
  payload : Bytes
  trailers : Option Headers
  rest : Bytes

namespace BodyResult

def prepend (piece : Bytes) (r : BodyResult) : BodyResult :=
  { r with payload := piece ++ r.payload }

theorem prepend_prepend (p q : Bytes) (r : BodyResult) :
    prepend p (prepend q r) = prepend (p ++ q) r := by
  simp [prepend]

/-- A decoded chunked body whose trailers join those already read. -/
def ofDecoded (trailers : Headers) (d : Decoded UInt8 (HeaderName × Text)) : BodyResult :=
  ⟨d.payload, some (trailers.appendAll d.fields), d.rest⟩

end BodyResult

def decodeFixed (length : Nat) (bytes : Bytes) : Except BodyError BodyResult :=
  if bytes.length < length then .error .unexpectedEof
  else .ok ⟨bytes.take length, none, bytes.drop length⟩

def decodeBody (mode : BodyMode) (bytes : Bytes) : Except BodyError BodyResult :=
  match mode with
  | .none => .ok ⟨[], none, bytes⟩
  | .fixed length => decodeFixed length bytes
  | .chunked => (chunkGrammar.chunks bytes).map (BodyResult.ofDecoded .empty)

/-! ## Reading as from the whole stream -/

/-- The error a whole stream would show.  A failed or abandoned read says nothing
about the stream. -/
def Interrupt.verdict : Interrupt → Option BodyError
  | .error (.io _) => none
  | .error e => some e
  | .elapsed => none

/-- A read from an input gives what its whole stream decodes to, unless a fault of
the socket ends it. -/
structure ReadsAs {α : Type} (i : Input) (res : Except Interrupt α × Input)
    (expected : Except BodyError (α × Bytes)) : Prop where
  ok : ∀ a, res.1 = .ok a → expected = .ok (a, res.2.all)
  error : ∀ x e, res.1 = .error x → x.verdict = some e → expected = .error e
  clean : i.Clean → res.2.Clean
  settled : i.Clean → ∀ x, res.1 = .error x → ∃ e, x.verdict = some e

theorem ReadFault.verdict_interrupt {fault : ReadFault} {e : BodyError}
    (h : fault.interrupt.verdict = some e) : fault = .eof ∧ e = .unexpectedEof := by
  cases fault with
  | eof => exact ⟨rfl, (Option.some.inj h).symm⟩
  | error e' => cases h
  | timeout => cases h

namespace ReadsAs

variable {α : Type} {i i' : Input} {expected : Except BodyError (α × Bytes)}

theorem of_ok {a : α} (h : expected = .ok (a, i'.all)) (hclean : i.Clean → i'.Clean) :
    ReadsAs i (.ok a, i') expected where
  ok := by
    rintro b ⟨⟩
    exact h
  error := by
    intro x e hx
    cases hx
  clean := hclean
  settled := by
    intro _ x hx
    cases hx

theorem of_error {e : BodyError} (hverdict : (Interrupt.error e).verdict = some e)
    (h : expected = .error e) (hclean : i.Clean → i'.Clean) :
    ReadsAs i (.error (.error e), i') expected where
  ok := by
    intro a ha
    cases ha
  error := by
    rintro x e' ⟨⟩ he
    rw [hverdict, Option.some.injEq] at he
    exact he ▸ h
  clean := hclean
  settled := by
    rintro _ x ⟨⟩
    exact ⟨e, hverdict⟩

theorem of_fault {fault : ReadFault} (hfault : i.Faults fault i')
    (h : i.incoming = [] → expected = .error .unexpectedEof) :
    ReadsAs i (.error fault.interrupt, i') expected where
  ok := by
    intro a ha
    cases ha
  error := by
    rintro x e ⟨⟩ he
    obtain ⟨heof, rfl⟩ := ReadFault.verdict_interrupt he
    exact h (hfault.eof heof)
  clean := hfault.clean
  settled := by
    rintro hc x ⟨⟩
    rw [hfault.settled hc]
    exact ⟨_, rfl⟩

theorem of_readBuf {res : Except Interrupt α × Input} (hread : i.readBuf = (.ok (), i'))
    (h : ReadsAs i' res expected) : ReadsAs i res expected where
  ok := h.ok
  error := h.error
  clean hc := h.clean ((Input.readBuf_ok hread).2.2 hc)
  settled hc := h.settled ((Input.readBuf_ok hread).2.2 hc)

end ReadsAs

theorem chunkGrammar_lineEnd : chunkGrammar.lineEnd = CRLF := rfl

theorem findCrlf_eq (bytes : Bytes) :
    findCrlf bytes = findWindow chunkGrammar.lineEnd bytes := rfl

def decodeLine (bytes : Bytes) : Except BodyError (Text × Bytes) :=
  match chunkGrammar.takeLine bytes with
  | .error e => .error e
  | .ok (line, rest) => if utf8Valid line then .ok (line, rest) else .error .invalidChunk

theorem decodeLine_of_findCrlf {i : Input} {pos : Nat} (hpos : findCrlf i.buffer = some pos) :
    decodeLine i.all =
      if utf8Valid (i.buffer.take pos) then
        .ok (i.buffer.take pos, (i.advance (pos + 2)).all)
      else .error .invalidChunk := by
  have hle := findWindow_some_le hpos
  simp only [CRLF, List.length_cons, List.length_nil] at hle
  have hall : findWindow chunkGrammar.lineEnd i.all = some pos := findWindow_append _ hpos
  have htake : i.all.take pos = i.buffer.take pos :=
    List.take_append_of_le_length (by omega)
  rw [decodeLine, ChunkGrammar.takeLine, hall]
  simp only [htake, i.all_advance (n := pos + 2) (by omega)]

theorem decodeLine_of_findCrlf_none {bytes : Bytes} (h : findCrlf bytes = none) :
    decodeLine bytes = .error .unexpectedEof := by
  rw [decodeLine, ChunkGrammar.takeLine, ← findCrlf_eq, h]
  rfl

theorem readLine_readsAs (i : Input) : ReadsAs i (readLine i) (decodeLine i.all) := by
  refine readLineLoop.run_induction
    (motive := fun i res => ReadsAs i res (decodeLine i.all)) ?_ ?_ i
  · intro i res h
    change readLineRound i = .done res at h
    unfold readLineRound at h
    split at h
    · rename_i pos hpos
      have hdecode := decodeLine_of_findCrlf hpos
      cases h
      split
      · rename_i hutf
        rw [if_pos hutf] at hdecode
        exact .of_ok hdecode fun hc => i.clean_advance hc _
      · rename_i hutf
        rw [if_neg hutf] at hdecode
        exact .of_error rfl hdecode fun hc => i.clean_advance hc _
    · rename_i hnone
      split at h
      · rename_i fault i' hread
        cases h
        refine .of_fault (Input.readBuf_error hread) fun hnil => ?_
        rw [Input.all_of_incoming_nil hnil, decodeLine_of_findCrlf_none hnone]
      · cases h
  · intro i i' h ih
    obtain ⟨-, hread⟩ := readLineRound_next h
    rw [(Input.readBuf_ok hread).1] at ih
    exact ih.of_readBuf hread

theorem readLine_of_ok {i i' : Input} {line : Text} (h : readLine i = (.ok line, i')) :
    decodeLine i.all = .ok (line, i'.all) ∧ (i.Clean → i'.Clean) := by
  have hline := readLine_readsAs i
  rw [h] at hline
  exact ⟨hline.ok line rfl, hline.clean⟩

theorem chunks_of_decodeLine_error {bytes : Bytes} {e : BodyError}
    (h : decodeLine bytes = .error e) : chunkGrammar.chunks bytes = .error e := by
  unfold decodeLine at h
  split at h
  · rename_i hline
    cases h
    exact chunkGrammar.chunks_of_error hline
  · rename_i line rest hline
    split at h
    · cases h
    · rename_i hutf
      cases h
      have hsize : chunkGrammar.sizeOf line = .error .invalidChunk := if_neg hutf
      rw [chunkGrammar.chunks_of_line hline, hsize]

theorem chunks_of_decodeLine {bytes rest : Bytes} {line : Text}
    (h : decodeLine bytes = .ok (line, rest)) :
    chunkGrammar.chunks bytes =
      match parseChunkSize line with
      | .error e => .error e
      | .ok size => chunkGrammar.afterSize size rest := by
  unfold decodeLine at h
  split at h
  · cases h
  · rename_i line' rest' hline
    split at h
    · rename_i hutf
      cases h
      have hsize : chunkGrammar.sizeOf line = parseChunkSize line := if_pos hutf
      rw [chunkGrammar.chunks_of_line hline, hsize]
      cases parseChunkSize line <;> rfl
    · cases h

theorem fields_of_decodeLine_error {bytes : Bytes} {e : BodyError}
    (h : decodeLine bytes = .error e) : chunkGrammar.fields bytes = .error e := by
  unfold decodeLine at h
  split at h
  · rename_i hline
    cases h
    exact chunkGrammar.fields_of_error hline
  · rename_i line rest hline
    split at h
    · cases h
    · rename_i hutf
      cases h
      have hne : line ≠ [] := by
        rintro rfl
        exact hutf rfl
      have hfield : chunkGrammar.fieldOf line = .error .invalidChunk := if_neg hutf
      rw [chunkGrammar.fields_of_line hline, if_neg hne, hfield]

theorem fields_of_decodeLine {bytes rest : Bytes} {line : Text}
    (h : decodeLine bytes = .ok (line, rest)) :
    chunkGrammar.fields bytes =
      if line = [] then .ok ⟨[], [], rest⟩
      else
        match checkTrailerLine line with
        | .error e => .error (.invalidTrailer e)
        | .ok f => (chunkGrammar.fields rest).map (Decoded.consField f) := by
  unfold decodeLine at h
  split at h
  · cases h
  · rename_i line' rest' hline
    split at h
    · rename_i hutf
      cases h
      have hfield : chunkGrammar.fieldOf line =
          (checkTrailerLine line).mapError .invalidTrailer := if_pos hutf
      rw [chunkGrammar.fields_of_line hline, hfield]
      cases checkTrailerLine line <;> rfl
    · cases h

/-! ## The chunked reader -/

namespace ChunkedBodyReader

/-- What the stream still holds of the body at the reader's position. -/
def pending (r : ChunkedBodyReader) : Except BodyError (Decoded UInt8 (HeaderName × Text)) :=
  match r.state with
  | .readingSize => chunkGrammar.chunks r.input.all
  | .readingData => chunkGrammar.data r.currentChunkRemaining r.input.all
  | .expectingCrLf => chunkGrammar.afterData r.input.all
  | .readingTrailers => chunkGrammar.fields r.input.all
  | .done => .ok ⟨[], [], r.input.all⟩

def outlook (r : ChunkedBodyReader) : Except BodyError BodyResult :=
  if r.state = .done then
    .ok ⟨[], if r.trailersComplete then some r.trailers else none, r.input.all⟩
  else r.pending.map (BodyResult.ofDecoded r.trailers)

end ChunkedBodyReader

namespace BodyReader

def outlook : BodyReader → Except BodyError BodyResult
  | empty input => .ok ⟨[], none, input.all⟩
  | fixed reader => decodeFixed reader.remaining reader.input.all
  | chunked reader => reader.outlook

/-- One call of `read_next` measured against the reader's outlook. -/
structure Delivers (r : BodyReader) (res : Except Interrupt (Option Bytes) × BodyReader) :
    Prop where
  piece : ∀ p, res.1 = .ok (some p) → r.outlook = res.2.outlook.map (BodyResult.prepend p)
  finished : res.1 = .ok none → r.outlook = .ok ⟨[], res.2.trailers, res.2.input.all⟩
  error : ∀ x e, res.1 = .error x → x.verdict = some e → r.outlook = .error e
  clean : r.input.Clean → res.2.input.Clean
  settled : r.input.Clean → ∀ x, res.1 = .error x → ∃ e, x.verdict = some e

namespace Delivers

variable {r r' : BodyReader}

theorem of_piece {p : Bytes} (h : r.outlook = r'.outlook.map (BodyResult.prepend p))
    (hclean : r.input.Clean → r'.input.Clean) : Delivers r (.ok (some p), r') where
  piece := by
    rintro q ⟨⟩
    exact h
  finished := by
    intro hnone
    cases hnone
  error := by
    intro x e hx
    cases hx
  clean := hclean
  settled := by
    intro _ x hx
    cases hx

theorem of_finished (h : r.outlook = .ok ⟨[], r'.trailers, r'.input.all⟩)
    (hclean : r.input.Clean → r'.input.Clean) : Delivers r (.ok none, r') where
  piece := by
    intro p hp
    cases hp
  finished := fun _ => h
  error := by
    intro x e hx
    cases hx
  clean := hclean
  settled := by
    intro _ x hx
    cases hx

theorem of_interrupt {x : Interrupt} (h : ∀ e, x.verdict = some e → r.outlook = .error e)
    (hsettled : r.input.Clean → ∃ e, x.verdict = some e)
    (hclean : r.input.Clean → r'.input.Clean) : Delivers r (.error x, r') where
  piece := by
    intro p hp
    cases hp
  finished := by
    intro hnone
    cases hnone
  error := by
    rintro y e ⟨⟩
    exact h e
  clean := hclean
  settled := by
    rintro hc y ⟨⟩
    exact hsettled hc

theorem of_error {e : BodyError} (hverdict : (Interrupt.error e).verdict = some e)
    (h : r.outlook = .error e) (hclean : r.input.Clean → r'.input.Clean) :
    Delivers r (.error (.error e), r') := by
  refine of_interrupt (fun e' he' => ?_) (fun _ => ⟨e, hverdict⟩) hclean
  rw [hverdict, Option.some.injEq] at he'
  exact he' ▸ h

theorem of_fault {fault : ReadFault} (hfault : r.input.Faults fault r'.input)
    (h : r.input.incoming = [] → r.outlook = .error .unexpectedEof) :
    Delivers r (.error fault.interrupt, r') := by
  refine of_interrupt (fun e he => ?_) (fun hc => ?_) hfault.clean
  · obtain ⟨heof, rfl⟩ := ReadFault.verdict_interrupt he
    exact h (hfault.eof heof)
  · rw [hfault.settled hc]
    exact ⟨_, rfl⟩

theorem of_readLine {x : Interrupt} (hread : readLine r.input = (.error x, r'.input))
    (h : ∀ e, decodeLine r.input.all = .error e → r.outlook = .error e) :
    Delivers r (.error x, r') := by
  have hline := readLine_readsAs r.input
  rw [hread] at hline
  exact of_interrupt (fun e he => h e (hline.error x e rfl he))
    (fun hc => hline.settled hc x rfl) hline.clean

theorem of_round {res : Except Interrupt (Option Bytes) × BodyReader}
    (hround : r'.outlook = r.outlook) (hclean : r.input.Clean → r'.input.Clean)
    (h : Delivers r' res) : Delivers r res where
  piece p hp := hround ▸ h.piece p hp
  finished hnone := hround ▸ h.finished hnone
  error x e hx he := hround ▸ h.error x e hx he
  clean hc := h.clean (hclean hc)
  settled hc := h.settled (hclean hc)

end Delivers

end BodyReader

theorem decodeFixed_piece {remaining : Nat} (piece rest : Bytes) :
    decodeFixed (remaining + piece.length) (piece ++ rest) =
      (decodeFixed remaining rest).map (BodyResult.prepend piece) := by
  have hcount : remaining + piece.length = piece.length + remaining := Nat.add_comm _ _
  unfold decodeFixed
  rw [List.length_append, hcount, List.take_length_add_append, List.drop_length_add_append]
  by_cases hshort : rest.length < remaining
  · rw [if_pos hshort, if_pos (by omega)]
    rfl
  · rw [if_neg hshort, if_neg (by omega)]
    rfl

open BodyReader in
theorem FixedBodyReader.readNext_delivers (r : FixedBodyReader) :
    Delivers (.fixed r) (r.readNext.1, .fixed r.readNext.2) := by
  have hcase := r.readNext_case
  generalize r.readNext = res at hcase
  cases hcase with
  | finished hzero =>
      refine .of_finished ?_ id
      simp [outlook, decodeFixed, hzero, BodyReader.trailers, BodyReader.input]
  | piece bytes input remaining hyields hremaining =>
      refine .of_piece ?_ hyields.clean
      simp only [outlook]
      rw [hyields.all, ← hremaining, decodeFixed_piece]
  | fault fault input hremaining hempty hfault =>
      refine .of_fault hfault fun hnil => ?_
      have hall : r.input.all = r.input.buffer := Input.all_of_incoming_nil hnil
      simp only [outlook, hall, hempty, decodeFixed, List.length_nil]
      rw [if_pos (by omega)]

/-! ### Rounds of the chunked reader -/

namespace ChunkedBodyReader

theorem chunkEnd_of_buffer {i : Input} (hlen : 2 ≤ i.buffer.length) :
    chunkGrammar.chunkEnd i.all =
      if i.buffer.take 2 = CRLF then .ok (i.advance 2).all else .error .invalidChunk := by
  have hlong : ¬ i.all.length < 2 := by
    rw [Input.all, List.length_append]
    omega
  have htake : i.all.take 2 = i.buffer.take 2 := List.take_append_of_le_length hlen
  rw [ChunkGrammar.chunkEnd, if_neg hlong, htake, chunkGrammar_lineEnd, ite_not,
    Input.all_advance _ hlen]
  rfl

theorem parseChunkSize_error {line : Text} {e : BodyError}
    (h : parseChunkSize line = .error e) : e = .invalidChunk := by
  simp only [parseChunkSize] at h
  split at h
  · cases h
  · cases h
    rfl

theorem outlook_afterPiece (r : ChunkedBodyReader) (i : Input) (remaining : Nat) :
    ({ r with
      input := i
      currentChunkRemaining := remaining
      state := if remaining = 0 then .expectingCrLf else .readingData } :
        ChunkedBodyReader).outlook =
      (chunkGrammar.data remaining i.all).map (BodyResult.ofDecoded r.trailers) := by
  by_cases hzero : remaining = 0
  · subst hzero
    simp only [outlook, pending, if_true, reduceCtorEq, if_false, ChunkGrammar.data_zero]
  · simp only [outlook, pending, hzero, if_false, reduceCtorEq]

theorem outlook_data_piece (trailers : Headers) (remaining : Nat) (piece rest : Bytes) :
    (chunkGrammar.data (remaining + piece.length) (piece ++ rest)).map
        (BodyResult.ofDecoded trailers) =
      ((chunkGrammar.data remaining rest).map
        (BodyResult.ofDecoded trailers)).map (BodyResult.prepend piece) := by
  rw [chunkGrammar.data_append rest _ (Nat.le_add_left _ _), Nat.add_sub_cancel]
  cases chunkGrammar.data remaining rest <;> rfl

theorem outlook_chunked {r : ChunkedBodyReader} (hstate : r.state ≠ .done) :
    (BodyReader.chunked r).outlook = r.pending.map (BodyResult.ofDecoded r.trailers) :=
  if_neg hstate

theorem outlook_error {r : ChunkedBodyReader} {e : BodyError} (hstate : r.state ≠ .done)
    (h : r.pending = .error e) : (BodyReader.chunked r).outlook = .error e := by
  rw [outlook_chunked hstate, h]
  rfl

theorem round_next_outlook {r r' : ChunkedBodyReader} (h : r.round = .next r') :
    r'.outlook = r.outlook ∧ (r.input.Clean → r'.input.Clean) := by
  have hcase := r.round_case
  rw [h] at hcase
  cases hcase with
  | lastChunk line input hstate hread hsize =>
      have hline := readLine_of_ok hread
      refine ⟨?_, hline.2⟩
      simp only [outlook, pending, hstate, reduceCtorEq, if_false,
        chunks_of_decodeLine hline.1, hsize, ChunkGrammar.afterSize, if_true]
  | chunk line size input hstate hread hsize hne =>
      have hline := readLine_of_ok hread
      refine ⟨?_, hline.2⟩
      simp only [outlook, pending, hstate, reduceCtorEq, if_false,
        chunks_of_decodeLine hline.1, hsize, ChunkGrammar.afterSize, hne]
  | chunkOver hstate hzero =>
      refine ⟨?_, id⟩
      simp only [outlook, pending, hstate, reduceCtorEq, if_false, hzero,
        ChunkGrammar.data_zero]
  | endMore input hstate hread =>
      obtain ⟨hall, -, hclean⟩ := Input.readBuf_ok hread
      refine ⟨?_, hclean⟩
      simp only [outlook, pending, hstate, hall]
  | chunkEnd hstate hlen htake =>
      refine ⟨?_, id⟩
      simp only [outlook, pending, hstate, reduceCtorEq, if_false, ChunkGrammar.afterData,
        chunkEnd_of_buffer hlen, htake, if_true]
  | trailer line name value input hstate hread hne hcheck =>
      have hline := readLine_of_ok hread
      refine ⟨?_, hline.2⟩
      have hfields := fields_of_decodeLine hline.1
      rw [if_neg hne, hcheck] at hfields
      simp only [outlook, pending, hstate, reduceCtorEq, if_false, hfields]
      cases chunkGrammar.fields input.all <;> rfl

open BodyReader in
theorem round_done_delivers {r : ChunkedBodyReader}
    {res : Except Interrupt (Option Bytes) × ChunkedBodyReader} (h : r.round = .done res) :
    Delivers (.chunked r) (res.1, .chunked res.2) := by
  have hcase := r.round_case
  rw [h] at hcase
  cases hcase with
  | sizeFault x input hstate hread =>
      refine .of_readLine hread fun e hdecode => outlook_error (by simp [hstate]) ?_
      rw [pending, hstate]
      exact chunks_of_decodeLine_error hdecode
  | badSize line e input hstate hread hsize =>
      have hline := readLine_of_ok hread
      obtain rfl := parseChunkSize_error hsize
      refine .of_error rfl (outlook_error (by simp [hstate]) ?_) hline.2
      rw [pending, hstate]
      simp only [chunks_of_decodeLine hline.1, hsize]
  | piece bytes input remaining hstate hyields hremaining =>
      refine .of_piece ?_ hyields.clean
      rw [outlook_chunked (by simp [hstate]), pending, hstate, BodyReader.outlook,
        outlook_afterPiece]
      simp only
      rw [hyields.all, ← hremaining, outlook_data_piece]
  | dataFault fault input hstate hremaining hempty hfault =>
      refine .of_fault hfault fun hnil => outlook_error (by simp [hstate]) ?_
      have hall : r.input.all = r.input.buffer := Input.all_of_incoming_nil hnil
      rw [pending, hstate, hall, hempty]
      exact chunkGrammar.data_of_short (by simp only [List.length_nil]; omega)
  | endFault fault input hstate hshort hfault =>
      refine .of_fault hfault fun hnil => outlook_error (by simp [hstate]) ?_
      have hall : r.input.all = r.input.buffer := Input.all_of_incoming_nil hnil
      rw [pending, hstate, hall]
      simp only [ChunkGrammar.afterData, ChunkGrammar.chunkEnd, if_pos hshort]
      rfl
  | badEnd hstate hlen hne =>
      refine .of_error rfl (outlook_error (by simp [hstate]) ?_) id
      rw [pending, hstate]
      simp only [ChunkGrammar.afterData, chunkEnd_of_buffer hlen, if_neg hne]
  | trailerFault x input hstate hread =>
      refine .of_readLine hread fun e hdecode => outlook_error (by simp [hstate]) ?_
      rw [pending, hstate]
      exact fields_of_decodeLine_error hdecode
  | bodyEnd input hstate hread =>
      have hline := readLine_of_ok hread
      refine .of_finished ?_ hline.2
      rw [outlook_chunked (by simp [hstate]), pending, hstate]
      simp only [fields_of_decodeLine hline.1, if_true]
      rfl
  | badTrailer line e input hstate hread hne hcheck =>
      have hline := readLine_of_ok hread
      refine .of_error rfl (outlook_error (by simp [hstate]) ?_) hline.2
      rw [pending, hstate]
      simp only [fields_of_decodeLine hline.1, if_neg hne, hcheck]
  | finished hstate =>
      refine .of_finished ?_ id
      simp only [BodyReader.outlook, outlook, hstate, if_true]
      rfl

open BodyReader in
theorem readNext_delivers (r : ChunkedBodyReader) :
    Delivers (.chunked r) (r.readNext.1, .chunked r.readNext.2) := by
  refine loop.run_induction
    (motive := fun r res => Delivers (.chunked r) (res.1, .chunked res.2)) ?_ ?_ r
  · intro r res h
    exact round_done_delivers h
  · intro r r' h ih
    obtain ⟨hout, hclean⟩ := round_next_outlook h
    exact .of_round (show (BodyReader.chunked r').outlook = _ from hout) hclean ih

end ChunkedBodyReader

namespace BodyReader

theorem readNext_delivers (r : BodyReader) : Delivers r r.readNext := by
  cases r with
  | empty input => exact .of_finished rfl id
  | fixed reader => exact reader.readNext_delivers
  | chunked reader => exact reader.readNext_delivers

/-! ## Whole bodies -/

/-- Collecting a body gives what the stream decodes to, unless a fault of the socket
ends it. -/
structure Collects (expected : Except BodyError BodyResult) (i : Input)
    (res : Except Interrupt Bytes × BodyReader) : Prop where
  ok : ∀ payload, res.1 = .ok payload →
    expected = .ok ⟨payload, res.2.trailers, res.2.input.all⟩
  error : ∀ x e, res.1 = .error x → x.verdict = some e → expected = .error e
  clean : i.Clean → res.2.input.Clean
  settled : i.Clean → ∀ x, res.1 = .error x → ∃ e, x.verdict = some e

theorem collect_collects (r : BodyReader) : Collects r.outlook r.input r.collect := by
  have hrun := collectLoop.run_induction
    (motive := fun s res =>
      Collects (s.1.outlook.map (BodyResult.prepend s.2)) s.1.input res) ?_ ?_ (r, [])
  · have hnil : r.outlook.map (BodyResult.prepend []) = r.outlook := by
      cases r.outlook <;> rfl
    rwa [hnil] at hrun
  · intro s res h
    have hnext := s.1.readNext_delivers
    change collectRound s = .done res at h
    unfold collectRound at h
    split at h
    · rename_i x reader hread
      rw [hread] at hnext
      cases h
      refine ⟨by rintro payload ⟨⟩, ?_, hnext.clean, ?_⟩
      · rintro y e ⟨⟩ he
        rw [hnext.error x e rfl he]
        rfl
      · rintro hc y ⟨⟩
        exact hnext.settled hc x rfl
    · rename_i reader hread
      rw [hread] at hnext
      cases h
      refine ⟨?_, by rintro x e ⟨⟩, hnext.clean, by rintro hc x ⟨⟩⟩
      rintro payload ⟨⟩
      rw [hnext.finished rfl]
      simp [Except.map, BodyResult.prepend]
    · cases h
  · intro s s' h ih
    obtain ⟨chunk, hread, hacc⟩ := collectRound_next h
    have hnext := s.1.readNext_delivers
    rw [hread] at hnext
    have hout : s.1.outlook.map (BodyResult.prepend s.2) =
        s'.1.outlook.map (BodyResult.prepend s'.2) := by
      rw [hnext.piece chunk rfl, hacc]
      cases s'.1.outlook with
      | error e => rfl
      | ok d => simp [Except.map, BodyResult.prepend_prepend]
    rw [hout]
    exact ⟨ih.ok, ih.error, fun hc => ih.clean (hnext.clean hc),
      fun hc => ih.settled (hnext.clean hc)⟩

end BodyReader

theorem bodyReader_outlook (mode : BodyMode) (input : Input) :
    (bodyReader mode input).outlook = decodeBody mode input.all := by
  cases mode <;> rfl

/-- Reading a body to its end agrees with decoding it from the whole stream. -/
theorem collect_bodyReader (mode : BodyMode) (input : Input) :
    BodyReader.Collects (decodeBody mode input.all) input (bodyReader mode input).collect := by
  have h := (bodyReader mode input).collect_collects
  rwa [bodyReader_outlook, bodyReader_input] at h

/-- On a clean input the body is read exactly when it decodes. -/
theorem collect_bodyReader_of_decode {mode : BodyMode} {input : Input} {result : BodyResult}
    (hclean : input.Clean) (h : decodeBody mode input.all = .ok result) :
    ∃ reader, (bodyReader mode input).collect = (.ok result.payload, reader) ∧
      reader.trailers = result.trailers ∧ reader.input.all = result.rest ∧
        reader.input.Clean := by
  have hcollect := collect_bodyReader mode input
  cases hres : (bodyReader mode input).collect with
  | mk res reader =>
      rw [hres] at hcollect
      cases res with
      | error x =>
          obtain ⟨e, he⟩ := hcollect.settled hclean x rfl
          rw [hcollect.error x e rfl he] at h
          cases h
      | ok payload =>
          rw [hcollect.ok payload rfl, Except.ok.injEq] at h
          subst h
          exact ⟨reader, rfl, rfl, rfl, hcollect.clean hclean⟩

theorem decodeBody_length {mode : BodyMode} {bytes : Bytes} {result : BodyResult}
    (h : decodeBody mode bytes = .ok result) : result.rest.length ≤ bytes.length := by
  cases mode with
  | none =>
      cases h
      exact Nat.le_refl _
  | fixed length =>
      simp only [decodeBody, decodeFixed] at h
      split at h
      · cases h
      · cases h
        simp
  | chunked =>
      rw [decodeBody] at h
      cases hchunks : chunkGrammar.chunks bytes with
      | error e =>
          rw [hchunks] at h
          cases h
      | ok d =>
          have hlt := chunkGrammar.chunks_length hchunks
          rw [hchunks] at h
          cases h
          exact hlt.le

end GooseHttp
