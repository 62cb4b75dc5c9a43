import GooseHttp.Parse.AcceptedHead
import GooseHttp.RoundTrip
/-!
# The lines of a written head

The writer puts the texts of a response on the wire as they are.  Its own fields are
clean, so whether the head is one line for each stored value is decided by the texts of
the handler that are still there behind the writer's edits, and by the reason phrase.
-/

namespace GooseHttp

open Lib Client

/-! ## Heads as lines -/

def statusLineText (version : HttpVersion) (status : StatusCode) (reason : Text) : Text :=
  version.display ++ 32 :: (toDecimal status.asU16 ++ 32 :: reason)

/-- Up to its first empty line a written response is a status line with three digits and
a line for each stored value, and what follows is the body. -/
def Written.HeadIsLines (written : Written) (content : Bytes) : Prop :=
  (toDecimal written.response.status.asU16).length = 3 ∧
    ∃ n, findHeadersEnd written.bytes = some n ∧
      splitPair CR LF (written.bytes.take n) =
        statusLineText written.response.version written.response.status
            written.response.reasonPhrase ::
          (written.response.headers.lines.map (fun l => fieldText l.1.text l.2) ++ [[], []]) ∧
      written.bytes.drop n = content

theorem headBytes_eq (version : HttpVersion) (status : StatusCode) (reason : Text)
    (headers : Headers) :
    headBytes version status reason headers =
      headText (statusText version status reason ::
        headers.lines.map fun l => fieldText l.1.text l.2) := by
  have hfields : (fun l : HeaderName × Text => fieldLine l.1.text l.2) =
      fun l => fieldText l.1.text l.2 ++ CRLF := by
    funext l
    rw [fieldLine_eq]
  rw [headBytes, statusLine_eq, appendHeaders, headText_cons, hfields, headText, List.flatMap_map]

theorem crlf_infix_fieldText {name value : Text} :
    CRLF <:+: fieldText name value ↔ CRLF <:+: name ∨ CRLF <:+: value := by
  have htext : fieldText name value = name ++ 58 :: ([] ++ 32 :: value) := by
    rw [fieldText, List.append_assoc]
    rfl
  rw [htext, CRLF, pair_infix_append_cons (by decide) (by decide),
    pair_infix_append_cons (by decide) (by decide), or_iff_right (not_pair_infix_nil CR LF)]

theorem crlf_infix_statusLineText {version : HttpVersion} {status : StatusCode} {reason : Text} :
    CRLF <:+: statusLineText version status reason ↔ CRLF <:+: reason := by
  have hversion := not_crlf_infix_of_not_mem
    (not_mem_of_graphic (isGraphic_display version) (show isGraphic CR = false by decide))
  have hdigits : ¬ CRLF <:+: toDecimal status.asU16 := not_crlf_infix_of_not_mem
    (not_mem_of_graphic (isGraphic_formatRadix (by omega) (by omega)) (by decide))
  rw [statusLineText, CRLF, pair_infix_append_cons (by decide) (by decide), ← CRLF,
    or_iff_right hversion, CRLF, pair_infix_append_cons (by decide) (by decide), ← CRLF,
    or_iff_right hdigits]

theorem statusText_eq_iff {version : HttpVersion} {status : StatusCode} {reason : Text} :
    statusText version status reason = statusLineText version status reason ↔ reason ≠ [] := by
  rw [statusText, statusLineText, List.append_cancel_left_eq, List.cons_inj_right,
    List.append_cancel_left_eq]
  split
  · rename_i hnil
    simp [hnil]
  · rename_i hne
    simp [hne]

/-- A head is its lines if and only if it has a reason phrase and no line end inside one. -/
theorem headIsLines_iff {written : Written} {content : Bytes}
    (hbytes : written.bytes = headBytes written.response.version written.response.status
      written.response.reasonPhrase written.response.headers ++ content) :
    written.HeadIsLines content ↔
      written.response.reasonPhrase ≠ [] ∧ ¬ CRLF <:+: written.response.reasonPhrase ∧
        ∀ l ∈ written.response.headers.lines, ¬ CRLF <:+: l.1.text ∧ ¬ CRLF <:+: l.2 := by
  have hlines : ∀ l : HeaderName × Text, ¬ CRLF <:+: fieldText l.1.text l.2 ↔
      ¬ CRLF <:+: l.1.text ∧ ¬ CRLF <:+: l.2 := by
    intro l
    rw [crlf_infix_fieldText, not_or]
  rw [headBytes_eq] at hbytes
  constructor
  · rintro ⟨-, n, -, hsplit, -⟩
    have hpiece : ∀ piece ∈ splitPair CR LF (written.bytes.take n), ¬ CRLF <:+: piece :=
      fun piece hmem => not_infix_of_mem_splitPair hmem
    rw [hsplit] at hpiece
    refine ⟨?_, ?_, fun l hl => ?_⟩
    · -- the first line stands in front of the bytes, so it is the one that was written
      intro hreason
      obtain ⟨p, ps, hps, hfront⟩ := splitPair_front CR LF (written.bytes.take n)
      rw [hsplit] at hps
      rw [← (List.cons.inj hps).1] at hfront
      have hbytes' := hfront.trans (List.take_prefix n written.bytes)
      rw [hbytes, headText_cons, hreason, statusLineText, statusText, if_pos rfl, List.append_nil,
        List.append_assoc, List.append_assoc, List.append_assoc, List.prefix_append_right_inj,
        List.cons_append, List.prefix_cons_inj, List.prefix_append_right_inj] at hbytes'
      exact absurd (List.cons_prefix_cons.mp hbytes').1 (by decide)
    · have hfirst := hpiece _ List.mem_cons_self
      rwa [crlf_infix_statusLineText] at hfirst
    · rw [← hlines]
      apply hpiece
      rw [List.mem_cons, List.mem_append]
      exact Or.inr (Or.inl (List.mem_map_of_mem hl))
  · rintro ⟨hreason, hclean, hfields⟩
    rw [statusText_eq_iff.mpr hreason] at hbytes
    have hsection : ∀ line ∈ statusLineText written.response.version written.response.status
        written.response.reasonPhrase ::
          written.response.headers.lines.map (fun l => fieldText l.1.text l.2),
        line ≠ [] ∧ ¬ CRLF <:+: line := by
      intro line hline
      rcases List.mem_cons.mp hline with rfl | hline
      · exact ⟨by simp [statusLineText], by rwa [crlf_infix_statusLineText]⟩
      · obtain ⟨l, hl, rfl⟩ := List.mem_map.mp hline
        exact ⟨fieldText_ne_nil _ _, (hlines l).mpr (hfields l hl)⟩
    have hend := findHeadersEnd_section content (by simp) hsection
    rw [← hbytes] at hend
    refine ⟨length_toDecimal_status _, _, hend, ?_, ?_⟩
    · rw [hbytes, List.take_left]
      exact splitPair_section fun line hline => (hsection line hline).2
    · rw [hbytes, List.drop_left]

/-! ## Fields that survive the edits of the writer -/

def Response.IsStreamed (r : Response) (method : Method) : Prop :=
  responseAllowsBody r.status method = true ∧ ∃ items, r.body = .stream items

def listsChunked (headers : Headers) : Bool :=
  (headers.get HeaderKeys.transferEncoding).any fun value =>
    (splitAll 44 value).any fun token => eqIgnoreAsciiCase (trim token) (ascii "chunked")

/-- The writer leaves the handler's values of a name in place. -/
structure Survives (r : Response) (method : Method) (directive : ConnectionDirective)
    (name : HeaderName) : Prop where
  connection : name = HeaderKeys.connection → directive = .keepAlive
  coding : name = HeaderKeys.transferEncoding →
    r.IsStreamed method ∧ listsChunked r.headers = true
  length : name = HeaderKeys.contentLength → isBodiless r.status = false ∧ ¬ r.IsStreamed method

def IsOwnValue (now value : Text) : Prop :=
  value = now ∨ value = ascii "close" ∨ value = ascii "chunked" ∨ ∃ n, value = toDecimal n

theorem ensureChunkedEncoding_eq (headers : Headers) :
    ensureChunkedEncoding headers =
      if listsChunked headers then headers
      else headers.insert HeaderKeys.transferEncoding (ascii "chunked") := by
  unfold ensureChunkedEncoding listsChunked
  cases headers.get HeaderKeys.transferEncoding <;> rfl

theorem listsChunked_congr {headers headers' : Headers}
    (h : headers.getAll HeaderKeys.transferEncoding =
      headers'.getAll HeaderKeys.transferEncoding) :
    listsChunked headers = listsChunked headers' := by
  rw [listsChunked, listsChunked, Headers.get_eq_head?, Headers.get_eq_head?, Headers.values,
    Headers.values, h]

section Edits

variable {now : Text} {r : Response} {method : Method} {directive : ConnectionDirective}

theorem values_stampHeaders {name : HeaderName}
    (hconnection : name = HeaderKeys.connection → directive = .keepAlive)
    (hne : r.headers.values name ≠ []) :
    (stampHeaders now r.headers directive).values name = r.headers.values name := by
  by_cases hname : name = HeaderKeys.connection
  · subst hname
    rw [Headers.values, getAll_connection_stampHeaders, hconnection rfl, Headers.values]
  · by_cases hdate : name = HeaderKeys.date
    · subst hdate
      have hdated := (r.headers.values_ne_nil_iff _).mp hne
      have hclose : HeaderKeys.connection ≠ HeaderKeys.date := by decide
      cases directive with
      | close =>
          simp only [stampHeaders, hdated, if_true, applyConnectionDirective]
          rw [Headers.values_insert, if_neg hclose]
      | keepAlive => simp only [stampHeaders, hdated, if_true, applyConnectionDirective]
    · rw [Headers.values, getAll_stampHeaders hdate hname, Headers.values]

theorem frameHeaders_streamed (h : r.IsStreamed method) (headers : Headers) :
    frameHeaders headers r.status method r.body =
      ensureChunkedEncoding (headers.remove HeaderKeys.contentLength) := by
  obtain ⟨hallowed, items, hbody⟩ := h
  simp only [frameHeaders, hallowed, hbody, Bool.not_true, Bool.false_eq_true, if_false]

theorem listsChunked_edited :
    listsChunked ((stampHeaders now r.headers directive).remove HeaderKeys.contentLength) =
      listsChunked r.headers := by
  apply listsChunked_congr
  rw [Headers.getAll_remove_of_ne _ (by decide), getAll_stampHeaders (by decide) (by decide)]

theorem values_coding_edited (h : r.IsStreamed method) :
    (frameHeaders (stampHeaders now r.headers directive) r.status method r.body).values
        HeaderKeys.transferEncoding =
      if listsChunked r.headers then r.headers.values HeaderKeys.transferEncoding
      else [ascii "chunked"] := by
  rw [frameHeaders_streamed h, ensureChunkedEncoding_eq, listsChunked_edited]
  split
  · rw [Headers.values_remove, if_neg (by decide), Headers.values,
      getAll_stampHeaders (by decide) (by decide), Headers.values]
  · rw [Headers.values_insert, if_pos rfl]

theorem values_length_frameHeaders {headers : Headers} (hbodiless : isBodiless r.status = false)
    (hstream : ¬ r.IsStreamed method) (hne : headers.values HeaderKeys.contentLength ≠ []) :
    (frameHeaders headers r.status method r.body).values HeaderKeys.contentLength =
      headers.values HeaderKeys.contentLength := by
  have hcontains := (headers.values_ne_nil_iff _).mp hne
  unfold frameHeaders
  cases hallowed : responseAllowsBody r.status method with
  | false =>
      have hsame : announceLength headers r.status method r.body = headers := by
        unfold announceLength
        split
        · simp [hcontains]
        · rfl
      rw [Bool.not_false, if_pos rfl, hsame, values_length_frameBodiless, hbodiless]
      simp [hcontains]
  | true =>
      rw [if_neg (by decide)]
      split
      · rw [values_length_frameKnownLength, hbodiless]
        simp [hcontains]
      · rw [values_length_frameKnownLength, hbodiless]
        simp [hcontains]
      · rename_i items hbody
        exact absurd ⟨hallowed, items, hbody⟩ hstream

theorem values_edited_of_survives {name : HeaderName} (h : Survives r method directive name)
    (hne : r.headers.values name ≠ []) :
    (frameHeaders (stampHeaders now r.headers directive) r.status method r.body).values name =
      r.headers.values name := by
  have hstamped : (stampHeaders now r.headers directive).values name = r.headers.values name :=
    values_stampHeaders h.connection hne
  by_cases hcoding : name = HeaderKeys.transferEncoding
  · subst hcoding
    obtain ⟨hstream, hlists⟩ := h.coding rfl
    rw [values_coding_edited hstream, hlists, if_pos rfl]
  · by_cases hlength : name = HeaderKeys.contentLength
    · subst hlength
      obtain ⟨hbodiless, hstream⟩ := h.length rfl
      rw [← hstamped] at hne
      rw [values_length_frameHeaders hbodiless hstream hne, hstamped]
    · rw [Headers.values, getAll_frameHeaders hlength hcoding, ← Headers.values, hstamped]

theorem ownValue_of_not_survives {name : HeaderName} (h : ¬ Survives r method directive name)
    {value : Text}
    (hvalue : value ∈
      (frameHeaders (stampHeaders now r.headers directive) r.status method r.body).values name) :
    IsOwnValue now value := by
  by_cases hconnection : name = HeaderKeys.connection
  · subst hconnection
    cases directive with
    | keepAlive =>
        have hcoding : HeaderKeys.connection ≠ HeaderKeys.transferEncoding := by decide
        have hlength : HeaderKeys.connection ≠ HeaderKeys.contentLength := by decide
        exact absurd ⟨fun _ => rfl, fun heq => absurd heq hcoding,
          fun heq => absurd heq hlength⟩ h
    | close =>
        rw [Headers.values, getAll_frameHeaders (by decide) (by decide),
          getAll_connection_stampHeaders] at hvalue
        exact Or.inr (Or.inl (List.mem_singleton.mp hvalue))
  · by_cases hcoding : name = HeaderKeys.transferEncoding
    · subst hcoding
      have hstream := (coded_frameHeaders_iff _ _ _ _).mp (List.ne_nil_of_mem hvalue)
      have hlength : HeaderKeys.transferEncoding ≠ HeaderKeys.contentLength := by decide
      have hlists : listsChunked r.headers = false := by
        by_contra hlists
        rw [Bool.not_eq_false] at hlists
        exact h ⟨fun heq => absurd heq hconnection, fun _ => ⟨hstream, hlists⟩,
          fun heq => absurd heq hlength⟩
      rw [values_coding_edited hstream, hlists, if_neg (by decide)] at hvalue
      exact Or.inr (Or.inr (Or.inl (List.mem_singleton.mp hvalue)))
    · by_cases hlength : name = HeaderKeys.contentLength
      · subst hlength
        exfalso
        by_cases hstream : r.IsStreamed method
        · have hcoding : HeaderKeys.transferEncoding ≠ HeaderKeys.contentLength := by decide
          rw [frameHeaders_streamed hstream, ensureChunkedEncoding_eq] at hvalue
          split at hvalue
          · rw [Headers.values_remove, if_pos rfl] at hvalue
            cases hvalue
          · rw [Headers.values_insert, if_neg hcoding, Headers.values_remove, if_pos rfl] at hvalue
            cases hvalue
        · have hbodiless : isBodiless r.status = true := by
            by_contra hbodiless
            rw [Bool.not_eq_true] at hbodiless
            exact h ⟨fun heq => absurd heq hconnection, fun heq => absurd heq hcoding,
              fun _ => ⟨hbodiless, hstream⟩⟩
          have hallowed : responseAllowsBody r.status method = false := by
            rw [responseAllowsBody, hbodiless]
            rfl
          simp only [frameHeaders, hallowed, Bool.not_false, if_true, values_length_frameBodiless,
            hbodiless] at hvalue
          cases hvalue
      · exact absurd ⟨fun heq => absurd heq hconnection, fun heq => absurd heq hcoding,
          fun heq => absurd heq hlength⟩ h

theorem cr_not_mem_of_not_survives {name : HeaderName}
    (h : ¬ Survives r method directive name) : CR ∉ name.text := by
  have hkeys : ∀ key ∈ [HeaderKeys.connection, HeaderKeys.transferEncoding,
      HeaderKeys.contentLength], CR ∉ key.text := by decide
  apply hkeys
  by_contra hmem
  simp only [List.mem_cons, List.not_mem_nil, or_false, not_or] at hmem
  exact h ⟨fun heq => absurd heq hmem.1, fun heq => absurd heq hmem.2.1,
    fun heq => absurd heq hmem.2.2⟩

/-- Every written line is the handler's or the writer's own. -/
theorem mem_edited {l : HeaderName × Text}
    (hl : l ∈ (frameHeaders (stampHeaders now r.headers directive) r.status method r.body).lines) :
    l ∈ r.headers.lines ∨ IsOwnValue now l.2 ∧ CR ∉ l.1.text := by
  have hdate : CR ∉ HeaderKeys.date.text := by decide
  have hconnection : CR ∉ HeaderKeys.connection.text := by decide
  have hlength : CR ∉ HeaderKeys.contentLength.text := by decide
  have hcoding : CR ∉ HeaderKeys.transferEncoding.text := by decide
  revert l
  apply forall_lines_frameHeaders
  · apply forall_lines_stampHeaders
    · exact fun l hl => Or.inl hl
    · exact Or.inr ⟨Or.inl rfl, hdate⟩
    · exact Or.inr ⟨Or.inr (Or.inl rfl), hconnection⟩
  · exact fun n => Or.inr ⟨Or.inr (Or.inr (Or.inr ⟨n, rfl⟩)), hlength⟩
  · exact Or.inr ⟨Or.inr (Or.inr (Or.inl rfl)), hcoding⟩

end Edits

/-! ## The head on the wire -/

theorem cr_not_mem_ownValue {now : ImfFixdate} {value : Text} (h : IsOwnValue now.text value) :
    CR ∉ value := by
  rcases h with rfl | rfl | rfl | ⟨n, rfl⟩
  · exact now.noCr
  · decide
  · decide
  · exact not_mem_of_graphic (isGraphic_formatRadix (by omega) (by omega)) (by decide)

/-- A response that is written has a head of one line for each stored value, with nothing
in front of the body, if and only if it has a reason phrase and neither the phrase nor a
name or value that survives the writer's edits has a line end inside. -/
theorem writeResponse_headIsLines_iff (now : ImfFixdate) (response : Response) (method : Method)
    (directive : ConnectionDirective)
    (hok : (writeResponse now.text response method directive).result = .ok ()) :
    (writeResponse now.text response method directive).HeadIsLines
        (writeBody (responseAllowsBody response.status method) response.body
          response.trailers).1 ↔
      response.reasonPhrase ≠ [] ∧ ¬ CRLF <:+: response.reasonPhrase ∧
        ∀ l ∈ response.headers.lines, Survives response method directive l.1 →
          ¬ CRLF <:+: l.1.text ∧ ¬ CRLF <:+: l.2 := by
  have hframed := not_conflict_of_ok hok
  have hheaders : (writeResponse now.text response method directive).response.headers = _ :=
    writeResponse_headers hframed
  have hreason : (writeResponse now.text response method directive).response.reasonPhrase =
      response.reasonPhrase := by
    rw [writeResponse_of_framed hframed]
    rfl
  rw [headIsLines_iff (writeResponse_bytes hframed), hreason, hheaders]
  apply and_congr_right
  intro hne
  apply and_congr_right
  intro hclean
  constructor
  · intro hwritten l hl hsurvives
    apply hwritten
    have hvalue := Headers.mem_lines_iff.mp hl
    rw [Headers.mem_lines_iff, values_edited_of_survives hsurvives (List.ne_nil_of_mem hvalue)]
    exact hvalue
  · intro hhandler l hl
    have hown : IsOwnValue now.text l.2 → CR ∉ l.1.text →
        ¬ CRLF <:+: l.1.text ∧ ¬ CRLF <:+: l.2 := fun hvalue hname =>
      ⟨not_crlf_infix_of_not_mem hname, not_crlf_infix_of_not_mem (cr_not_mem_ownValue hvalue)⟩
    rcases mem_edited hl with hmem | ⟨hvalue, hname⟩
    · by_cases hsurvives : Survives response method directive l.1
      · exact hhandler l hmem hsurvives
      · have hvalue := ownValue_of_not_survives hsurvives (Headers.mem_lines_iff.mp hl)
        exact hown hvalue (cr_not_mem_of_not_survives hsurvives)
    · exact hown hvalue hname

/-- A handler that passes on a value with a line of its own in it. -/
def splitResponse : Response :=
  { Response.new .OK with
    headers := Headers.empty.insert (HeaderName.new (ascii "X-Name"))
      (ascii "a\r\n\r\n<html>") }

/-- The head ends inside the value, and the rest of it stands in front of the body. -/
theorem writeResponse_splitResponse :
    (writeResponse (Env.atEpoch.now 0).text splitResponse .get .close).result = .ok () ∧
      ¬ (writeResponse (Env.atEpoch.now 0).text splitResponse .get .close).HeadIsLines [] := by
  refine ⟨rfl, fun hlines => ?_⟩
  have hbytes : (writeResponse (Env.atEpoch.now 0).text splitResponse .get .close).bytes = _ :=
    writeResponse_bytes rfl
  have hclean := ((headIsLines_iff hbytes).mp hlines).2.2
  have hmem : (HeaderName.new (ascii "X-Name"), ascii "a\r\n\r\n<html>") ∈
      (writeResponse (Env.atEpoch.now 0).text splitResponse .get .close).response.headers.lines := by
    decide +kernel
  exact (hclean _ hmem).2 ⟨ascii "a", ascii "\r\n<html>", by decide +kernel⟩

theorem writeResponse_headIsLines_iff_close :
    (writeResponse (Env.atEpoch.now 0).text
      { splitResponse with
        headers := Headers.empty.insert HeaderKeys.connection (ascii "a\r\nb") }
      .get .close).HeadIsLines [] := by
  refine (writeResponse_headIsLines_iff (Env.atEpoch.now 0) _ .get .close rfl).mpr ⟨?_, ?_, ?_⟩
  · decide
  · exact not_crlf_infix_of_not_mem (by decide +kernel)
  · intro l hl hsurvives
    have hname : ∀ l ∈ (Headers.empty.insert HeaderKeys.connection (ascii "a\r\nb")).lines,
        l.1 = HeaderKeys.connection := by decide +kernel
    cases hsurvives.connection (hname l hl)

end GooseHttp
