import GooseHttp.Parse.AcceptedHead
/-!
# One request with two methods

The parser tells GET and HEAD apart by the token in front of the first space and by
nothing else.  A head that it accepts with the one is accepted with the other, as the
same request, as long as the byte that HEAD is longer by still fits.
-/

namespace GooseHttp

open Lib

/-! ## The start line -/

theorem parseRequestTarget_head (target : Text) :
    parseRequestTarget .head target = parseRequestTarget .get target := rfl

theorem parseRequestLine_head {rest : Text} {method : Method} {target : RequestTarget}
    {version : HttpVersion}
    (h : parseRequestLine (ascii "GET" ++ 32 :: rest) = .ok (method, target, version)) :
    method = .get ∧
      parseRequestLine (ascii "HEAD" ++ 32 :: rest) = .ok (.head, target, version) := by
  have hget : Method.fromToken (ascii "GET") = some .get := by decide
  have hhead : Method.fromToken (ascii "HEAD") = some .head := by decide
  have hne : ascii "GET" ≠ [] ∧ ascii "HEAD" ≠ [] := by decide
  have hspace : (32 : UInt8) ∉ ascii "GET" ∧ (32 : UInt8) ∉ ascii "HEAD" := by decide
  rw [parseRequestLine, splitOnce_append rest hspace.1] at h
  rw [parseRequestLine, splitOnce_append rest hspace.2]
  simp only [hne.1, hget, if_false] at h
  simp only [hne.2, hhead, if_false, parseRequestTarget_head]
  split at h
  · cases h
  · rename_i targetStr versionStr hsplit
    split at h
    · cases h
    · rename_i htarget
      split at h
      · cases h
      · rename_i hversion
        split at h
        · cases h
        · rename_i t hparse
          split at h
          · cases h
          · rename_i v hfrom
            split at h
            · rename_i hknown
              simp only [Except.ok.injEq, Prod.mk.injEq] at h
              obtain ⟨rfl, rfl, rfl⟩ := h
              exact ⟨rfl, by rw [if_neg htarget, if_neg hversion, if_pos hknown]⟩
            · cases h

/-! ## The whole head -/

/-- A head for which the limits of the parser leave room for one byte more. -/
structure HasRoom (buffer : Bytes) : Prop where
  line : ∀ line ∈ (splitPair CR LF buffer).head?, line.length < LINE_LIMIT
  head : ∀ n ∈ findHeadersEnd buffer, n < HEADER_LIMIT

theorem hasRoom_headText_iff {line : Text} {lines : List Text} (rest : Bytes)
    (h : ∀ l ∈ line :: lines, l ≠ [] ∧ ¬ CRLF <:+: l) :
    HasRoom (headText (line :: lines) ++ rest) ↔
      line.length < LINE_LIMIT ∧ (headText (line :: lines)).length < HEADER_LIMIT := by
  have hfirst : (splitPair CR LF (headText (line :: lines) ++ rest)).head? = some line := by
    have hbuffer : headText (line :: lines) ++ rest =
        line ++ CR :: LF :: (headText lines ++ rest) := by
      rw [headText_cons]
      simp [CRLF]
    rw [hbuffer, splitPair_append_pair cr_ne_lf, splitPair_of_not_infix (h line (by simp)).2]
    rfl
  have hend := findHeadersEnd_section rest (List.cons_ne_nil line lines) h
  constructor
  · exact fun hroom => ⟨hroom.line line hfirst, hroom.head _ hend⟩
  · rintro ⟨hline, hhead⟩
    refine ⟨fun l hl => ?_, fun n hn => ?_⟩
    · rw [hfirst] at hl
      rwa [← Option.some.inj hl]
    · rw [hend] at hn
      rwa [← Option.some.inj hn]

theorem IsHead.asHead {rest : Text} {lines : List Text} {fields : List (HeaderName × Text)}
    {request : Request} {mode : BodyMode}
    (h : IsHead (ascii "GET" ++ 32 :: rest) lines fields request mode)
    (hshort : (ascii "HEAD" ++ 32 :: rest).length ≤ LINE_LIMIT) :
    IsHead (ascii "HEAD" ++ 32 :: rest) lines fields { request with method := .head } mode :=
  { h with short := hshort, start := (parseRequestLine_head h.start).2 }

theorem crlf_infix_method {token : Text} (rest : Text) (h : CR ∉ token) :
    CRLF <:+: token ++ 32 :: rest ↔ CRLF <:+: rest := by
  rw [CRLF, pair_infix_append_cons (by decide) (by decide), ← CRLF,
    or_iff_right (not_crlf_infix_of_not_mem h)]

theorem utf8Valid_method {token : Text} (rest : Text) (lines : List Text)
    (h : ∀ b ∈ token, b < 0x80) :
    utf8Valid (headText ((token ++ 32 :: rest) :: lines)) =
      utf8Valid (32 :: rest ++ CRLF ++ headText lines) := by
  rw [headText_cons, List.append_assoc, List.append_assoc, utf8Valid_append_of_ascii _ h,
    List.append_assoc]

theorem IsSection.asHead_line {rest : Text} {lines : List Text}
    (h : IsSection ((ascii "GET" ++ 32 :: rest) :: lines)) :
    ∀ l ∈ (ascii "HEAD" ++ 32 :: rest) :: lines, l ≠ [] ∧ ¬ CRLF <:+: l := by
  intro l hl
  rcases List.mem_cons.mp hl with rfl | hl
  · have hline := (h.line _ List.mem_cons_self).2
    rw [crlf_infix_method rest (by decide)] at hline
    exact ⟨by simp, by rwa [crlf_infix_method rest (by decide)]⟩
  · exact h.line l (List.mem_cons_of_mem _ hl)

theorem IsSection.asHead {rest : Text} {lines : List Text}
    (h : IsSection ((ascii "GET" ++ 32 :: rest) :: lines))
    (hshort : (headText ((ascii "HEAD" ++ 32 :: rest) :: lines)).length ≤ HEADER_LIMIT) :
    IsSection ((ascii "HEAD" ++ 32 :: rest) :: lines) := by
  have hget : ∀ b ∈ ascii "GET", b < 0x80 := by decide +kernel
  have hhead : ∀ b ∈ ascii "HEAD", b < 0x80 := by decide +kernel
  have hutf := h.utf8
  rw [utf8Valid_method rest lines hget] at hutf
  refine ⟨h.asHead_line, ?_, hshort⟩
  rwa [utf8Valid_method rest lines hhead]

theorem exists_isHead_get {text : Bytes} {request : Request} {mode : BodyMode} {n : Nat}
    (h : parseRequestHead (ascii "GET " ++ text) = .ok (request, mode, n)) :
    ∃ target lines fields rest, text = target ++ CRLF ++ headText lines ++ rest ∧
      n = (headText ((ascii "GET" ++ 32 :: target) :: lines)).length ∧
      IsSection ((ascii "GET" ++ 32 :: target) :: lines) ∧
      IsHead (ascii "GET" ++ 32 :: target) lines fields request mode := by
  obtain ⟨line, lines, fields, rest, hbuffer, rfl, hsection, hhead⟩ :=
    parseRequestHead_ok_iff.mp h
  obtain ⟨versionStr, hline, htoken, -⟩ := parseRequestLine_ok hhead.start
  have hget : splitOnce 32 (ascii "GET " ++ text) = some (ascii "GET", text) :=
    splitOnce_append (a := ascii "GET") text (by decide)
  have hspace := not_mem_of_isToken (Method.fromToken_ok htoken).2
    (show isTchar 32 = false by decide)
  rw [hbuffer, headText_cons, hline, List.append_assoc, List.append_assoc, List.append_assoc,
    List.cons_append, splitOnce_append _ hspace] at hget
  obtain ⟨hmethod, htext⟩ := Prod.mk.inj (Option.some.inj hget)
  rw [hmethod] at hline
  subst hline
  exact ⟨_, lines, fields, rest, by rw [← htext]; simp, rfl, hsection, hhead⟩

theorem method_get {text : Bytes} {request : Request} {mode : BodyMode} {n : Nat}
    (h : parseRequestHead (ascii "GET " ++ text) = .ok (request, mode, n)) :
    request.method = .get := by
  obtain ⟨target, lines, fields, rest, -, -, -, hhead⟩ := exists_isHead_get h
  exact (parseRequestLine_head hhead.start).1

/-- A request that is accepted with GET is accepted with HEAD if and only if there is room
for the longer token, and then it is the same request. -/
theorem parseRequestHead_head_iff {text : Bytes} {request : Request} {mode : BodyMode} {n : Nat}
    {parsed : Request × BodyMode × Nat}
    (h : parseRequestHead (ascii "GET " ++ text) = .ok (request, mode, n)) :
    parseRequestHead (ascii "HEAD " ++ text) = .ok parsed ↔
      HasRoom (ascii "GET " ++ text) ∧
        parsed = ({ request with method := .head }, mode, n + 1) := by
  obtain ⟨target, lines, fields, rest, rfl, rfl, hsection, hhead⟩ := exists_isHead_get h
  have hbytes : ∀ token : Text, token ++ 32 :: (target ++ CRLF ++ headText lines ++ rest) =
      headText ((token ++ 32 :: target) :: lines) ++ rest := by
    intro token
    simp [headText_cons]
  have hget : (ascii "GET").length = 3 := rfl
  have hlonger : (ascii "HEAD").length = 4 := rfl
  have hline : (ascii "HEAD" ++ 32 :: target).length =
      (ascii "GET" ++ 32 :: target).length + 1 := by
    simp only [List.length_append, hget, hlonger]
    omega
  have hwhole : (headText ((ascii "HEAD" ++ 32 :: target) :: lines)).length =
      (headText ((ascii "GET" ++ 32 :: target) :: lines)).length + 1 := by
    simp only [headText_cons, List.length_append, hget, hlonger]
    omega
  show parseRequestHead (ascii "HEAD" ++ 32 :: (target ++ CRLF ++ headText lines ++ rest)) =
    .ok parsed ↔ HasRoom (ascii "GET" ++ 32 :: (target ++ CRLF ++ headText lines ++ rest)) ∧ _
  rw [hbytes, hbytes, hasRoom_headText_iff rest hsection.line, ← hwhole]
  have hlines := hsection.asHead_line
  have hparsed : (ascii "HEAD" ++ 32 :: target).length ≤ LINE_LIMIT →
      (headText ((ascii "HEAD" ++ 32 :: target) :: lines)).length ≤ HEADER_LIMIT →
      parseRequestHead (headText ((ascii "HEAD" ++ 32 :: target) :: lines) ++ rest) =
        .ok ({ request with method := .head }, mode,
          (headText ((ascii "HEAD" ++ 32 :: target) :: lines)).length) := fun hshort hsmall =>
    parseRequestHead_ok_iff.mpr ⟨_, lines, fields, rest, rfl, rfl, hsection.asHead hsmall,
      hhead.asHead hshort⟩
  constructor
  · intro hparse
    obtain ⟨request', mode', n'⟩ := parsed
    obtain ⟨hend, hsmall, -, htext⟩ := parseRequestHead_ok hparse
    rw [findHeadersEnd_section rest (List.cons_ne_nil _ _) hlines, Option.some_inj] at hend
    subst hend
    rw [List.take_left, parseHeadText_ok_iff (splitPair_section fun l hl => (hlines l hl).2)
      fun l hl => (hlines l (List.mem_cons_of_mem _ hl)).1] at htext
    obtain ⟨fields', hhead'⟩ := htext
    have hshort := hhead'.short
    rw [hparsed hshort hsmall] at hparse
    exact ⟨⟨by omega, by omega⟩, (Except.ok.inj hparse).symm⟩
  · rintro ⟨⟨hshort, hsmall⟩, rfl⟩
    exact hparsed (by omega) (by omega)

end GooseHttp
