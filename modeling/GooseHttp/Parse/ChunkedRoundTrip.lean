import GooseHttp.Parse.FieldLine
/-!
# Chunked bodies read back

The writer's chunked coding and the server's chunked reader are inverse to each
other: `writeChunkedBody` is an encoded body of the chunk grammar, so decoding
gives the chunks and trailers back, and the reader decodes from any input that
delivers these bytes, however they are cut into reads.
-/

namespace GooseHttp

open Lib

/-! ## Size lines -/

def IsChunkExtension (ext : Text) : Prop :=
  (ext = [] ∨ ∃ rest, ext = 59 :: rest) ∧ CR ∉ ext ∧ utf8Valid ext = true

theorem semicolon_not_mem {size : Text} {ds : List Nat} (h : toDigits 16 size = some ds) :
    (59 : UInt8) ∉ size := not_mem_of_toDigits h rfl

theorem parseChunkSize_digits {size ext : Text} {ds : List Nat} (hne : size ≠ [])
    (hds : toDigits 16 size = some ds) (hbound : numeralValue 16 ds < u64Bound)
    (hext : IsChunkExtension ext) :
    parseChunkSize (size ++ ext) = .ok (numeralValue 16 ds) := by
  have hsemi := semicolon_not_mem hds
  have hread : fromStrRadix 16 u64Bound (trim size) = some (numeralValue 16 ds) := by
    rw [trim_graphic (isGraphic_of_toDigits hds)]
    exact fromStrRadix_digits hne hds hbound
  rcases hext.1 with rfl | ⟨rest, rfl⟩
  · rw [List.append_nil, parseChunkSize, splitOnce_eq_none_iff.mpr hsemi]
    simp only [hread]
  · rw [parseChunkSize, splitOnce_append rest hsemi]
    simp only [hread]

theorem sizeOf_digits {size ext : Text} {ds : List Nat} (hne : size ≠ [])
    (hds : toDigits 16 size = some ds) (hbound : numeralValue 16 ds < u64Bound)
    (hext : IsChunkExtension ext) :
    chunkGrammar.sizeOf (size ++ ext) = .ok (numeralValue 16 ds) ∧ CR ∉ size ++ ext := by
  have hgraphic := isGraphic_of_toDigits hds
  have hutf : utf8Valid (size ++ ext) = true := by
    rw [utf8Valid_append_of_ascii ext fun b hb => ascii_of_isGraphic (hgraphic b hb)]
    exact hext.2.2
  have hdef : chunkGrammar.sizeOf (size ++ ext) = parseChunkSize (size ++ ext) := if_pos hutf
  refine ⟨hdef.trans (parseChunkSize_digits hne hds hbound hext), ?_⟩
  simp only [List.mem_append, not_or]
  refine ⟨fun hmem => ?_, hext.2.1⟩
  have hcr := hgraphic CR hmem
  cases hcr

theorem sizeOf_formatRadix {n : Nat} (hn : n < u64Bound) :
    chunkGrammar.sizeOf (formatRadix 16 n) = .ok n ∧ CR ∉ formatRadix 16 n := by
  have hext : IsChunkExtension [] := ⟨Or.inl rfl, by simp, rfl⟩
  have h := sizeOf_digits (formatRadix_ne_nil 16 n)
    (toDigits_formatRadix n (by omega) (by omega)) (by simpa using hn) hext
  simpa using h

/-! ## The writer's coding -/

/-- The chunks that reach the wire, each behind its size line. -/
def writtenChunks (chunks : List Bytes) : List (Text × Bytes) :=
  (chunks.filter fun c => c ≠ []).map fun c => (formatRadix 16 c.length, c)

theorem writtenChunks_nil (chunks : List Bytes) :
    writtenChunks ([] :: chunks) = writtenChunks chunks := by
  simp [writtenChunks]

theorem writtenChunks_cons {c : Bytes} (chunks : List Bytes) (hc : c ≠ []) :
    writtenChunks (c :: chunks) = (formatRadix 16 c.length, c) :: writtenChunks chunks := by
  simp [writtenChunks, hc]

theorem flatMap_writtenChunks (chunks : List Bytes) :
    (writtenChunks chunks).flatMap Prod.snd = chunks.flatten := by
  induction chunks with
  | nil => rfl
  | cons c chunks ih =>
      by_cases hc : c = []
      · subst hc
        rw [writtenChunks_nil, ih, List.flatten_cons, List.nil_append]
      · rw [writtenChunks_cons chunks hc, List.flatMap_cons, ih, List.flatten_cons]

theorem writeChunks_eq (chunks : List Bytes) :
    writeChunks (chunks.map .ok) = (chunkGrammar.encodeChunks (writtenChunks chunks), .ok ()) := by
  induction chunks with
  | nil => rfl
  | cons c chunks ih =>
      rw [List.map_cons, writeChunks, ih]
      by_cases hc : c = []
      · subst hc
        rw [writtenChunks_nil, if_pos rfl]
      · rw [writtenChunks_cons chunks hc, if_neg hc]
        simp [ChunkGrammar.encodeChunks, chunkGrammar_lineEnd]

theorem writeChunkedBody_eq (chunks : List Bytes) (trailers : Option Headers) :
    writeChunkedBody (chunks.map .ok) trailers =
      (chunkGrammar.encodeChunks (writtenChunks chunks) ++ (formatRadix 16 0 ++ CRLF ++
        trailerBlock trailers), .ok ()) := by
  have hzero : formatRadix 16 0 = ascii "0" := by decide
  rw [writeChunkedBody, writeChunks_eq, hzero]
  simp [List.append_assoc]

def trailerLines (trailers : Option Headers) : List (HeaderName × Text) :=
  trailers.elim [] Headers.lines

theorem trailerBlock_eq (trailers : Option Headers) :
    trailerBlock trailers =
      (trailerLines trailers).flatMap (fun l => fieldLine l.1.text l.2) ++ CRLF := by
  cases trailers <;> rfl

def IsTrailerSection (trailers : Option Headers) : Prop :=
  ∀ l ∈ trailerLines trailers, isToken l.1.text = true ∧ IsFieldValue l.2

theorem fields_trailerBlock {trailers : Option Headers} (rest : Bytes)
    (h : IsTrailerSection trailers) :
    chunkGrammar.fields (trailerBlock trailers ++ rest) =
      .ok ⟨[], trailerLines trailers, rest⟩ := by
  let pairs := (trailerLines trailers).map fun l => (l.1.text, l.2)
  have hpairs : ∀ f ∈ pairs, isToken f.1 = true ∧ IsFieldValue f.2 := by
    intro f hf
    obtain ⟨l, hl, rfl⟩ := List.mem_map.mp hf
    exact h l hl
  have hfields := fields_fieldLines rest hpairs
  rw [trailerBlock_eq]
  simpa [pairs, namedField, List.flatMap_map, List.map_map, Function.comp_def] using hfields

/-- Decoding what the writer encoded, whatever follows it. -/
theorem chunks_writeChunkedBody {chunks : List Bytes} {trailers : Option Headers}
    (rest : Bytes) (hchunks : ∀ c ∈ chunks, c.length < u64Bound)
    (htrailers : IsTrailerSection trailers) :
    chunkGrammar.chunks ((writeChunkedBody (chunks.map .ok) trailers).1 ++ rest) =
      .ok ⟨chunks.flatten, trailerLines trailers, rest⟩ := by
  have hpieces : ∀ p ∈ writtenChunks chunks,
      CR ∉ p.1 ∧ p.2 ≠ [] ∧ chunkGrammar.sizeOf p.1 = .ok p.2.length := by
    intro p hp
    obtain ⟨c, hc, rfl⟩ := List.mem_map.mp hp
    obtain ⟨hmem, hne⟩ := List.mem_filter.mp hc
    obtain ⟨hsize, hcr⟩ := sizeOf_formatRadix (hchunks c hmem)
    exact ⟨hcr, by simpa using hne, hsize⟩
  obtain ⟨hzero, hzerocr⟩ := sizeOf_formatRadix (n := 0) (by decide)
  have hencode := chunkGrammar.chunks_encode (trailerBlock trailers ++ rest) hpieces hzerocr hzero
  rw [chunkGrammar_lineEnd, fields_trailerBlock rest htrailers, flatMap_writtenChunks] at hencode
  rw [writeChunkedBody_eq]
  simpa [List.append_assoc, Except.map, Decoded.prepend] using hencode

theorem iter_trailers (trailers : Option Headers) :
    (Headers.empty.appendAll (trailerLines trailers)).iter = trailers.elim [] Headers.iter := by
  cases trailers with
  | none => rfl
  | some t => exact t.iter_appendAll_lines

/-- Reading a written chunked body to its end gives the chunks and the trailers back
and leaves what follows, in every segmentation. -/
theorem collect_writeChunkedBody (chunks : List Bytes) (trailers : Option Headers)
    (suffix : Bytes) (input : Input) (hchunks : ∀ c ∈ chunks, c.length < u64Bound)
    (htrailers : IsTrailerSection trailers) (hclean : input.Clean)
    (hinput : input.all = (writeChunkedBody (chunks.map .ok) trailers).1 ++ suffix) :
    ∃ reader t, (bodyReader .chunked input).collect = (.ok chunks.flatten, reader) ∧
      reader.trailers = some t ∧ t.iter = trailers.elim [] Headers.iter ∧
        reader.input.all = suffix := by
  have hdecode : decodeBody .chunked input.all =
      .ok ⟨chunks.flatten, some (Headers.empty.appendAll (trailerLines trailers)), suffix⟩ := by
    rw [decodeBody, hinput, chunks_writeChunkedBody suffix hchunks htrailers]
    rfl
  obtain ⟨reader, hcollect, ht, hrest, -⟩ := collect_bodyReader_of_decode hclean hdecode
  exact ⟨reader, _, hcollect, ht, iter_trailers trailers, hrest⟩

/-- An empty chunk between two others, a trailer, and a cut inside the second size line. -/
theorem collect_writeChunkedBody_cut :
    ∃ reader t, (bodyReader .chunked ⟨ascii "1\r\na",
        [.data 13 (ascii "\n2\r"), .data 10 (ascii "bc\r\n0\r\nx-sum: 1\r\n\r\nGET")]⟩).collect =
        (.ok (ascii "abc"), reader) ∧
      reader.trailers = some t ∧
        t.iter = (Headers.empty.insert (.new (ascii "X-Sum")) (ascii "1")).iter ∧
        reader.input.all = ascii "GET" :=
  collect_writeChunkedBody [ascii "a", [], ascii "bc"]
    (some (Headers.empty.insert (.new (ascii "X-Sum")) (ascii "1"))) (ascii "GET") _
    (by decide) (by unfold IsTrailerSection; decide +kernel) (by decide) (by decide +kernel)

end GooseHttp
