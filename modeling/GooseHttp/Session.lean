import GooseHttp.Connection
/-!
# A connection as a function of its stream

`session` is what a connection does, said without reads: heads and bodies are taken
from the front of the whole byte stream.  The connection loop refines it on every
input that only delivers data (`run_eq_session`), by a simulation in which a
read leaves the session where it is; so a run depends on the bytes and not on how
they were cut.
-/

namespace GooseHttp

open Lib

variable {σ : Type}

structure Session (σ : Type) where
  bytes : Bytes
  progress : Progress σ

namespace Session

def round (env : Env) (handler : Handler σ) (t : Session σ) : Flow (Session σ) (Outcome σ) :=
  match findHeadersEnd t.bytes with
  | none =>
      if HEADER_LIMIT < t.bytes.length then
        .done (refuse env t.progress .BAD_REQUEST (ascii "Bad Request") (.parse .headerTooLarge))
      else if t.bytes = [] then .done ⟨t.progress.log [.headFault .eof], .ok ()⟩
      else
        .done (refuse env (t.progress.log [.headFault .eof]) .BAD_REQUEST (ascii "Bad Request")
          (.parse .incomplete))
  | some _ =>
      match parseRequestHead t.bytes with
      | .error e => .done (refuse env t.progress .BAD_REQUEST (ascii "Bad Request") (.parse e))
      | .ok (request, mode, consumed) =>
          match decodeBody mode (t.bytes.drop consumed) with
          | .error e =>
              match afterHead env handler t.progress request mode (.error (.error e)) with
              | .done outcome => .done outcome
              | .next p => .next ⟨[], p⟩
          | .ok result =>
              match afterHead env handler t.progress request mode (.ok result.payload) with
              | .done outcome => .done outcome
              | .next p => .next ⟨result.rest, p⟩

theorem afterHead_error {env : Env} {handler : Handler σ} {p p' : Progress σ}
    {request : Request} {mode : BodyMode} {x : Interrupt} :
    afterHead env handler p request mode (.error x) ≠ .next p' := by
  cases x <;> simp [afterHead]

theorem round_of_request (env : Env) (handler : Handler σ) {t : Session σ} {request : Request}
    {mode : BodyMode} {consumed : Nat} {result : BodyResult}
    (hparse : parseRequestHead t.bytes = .ok (request, mode, consumed))
    (hbody : decodeBody mode (t.bytes.drop consumed) = .ok result) :
    t.round env handler =
      match afterHead env handler t.progress request mode (.ok result.payload) with
      | .done outcome => .done outcome
      | .next p => .next ⟨result.rest, p⟩ := by
  rw [round, (parseRequestHead_ok hparse).1]
  simp only [hparse, hbody]

theorem round_size {env : Env} {handler : Handler σ} {t t' : Session σ}
    (h : t.round env handler = .next t') : t'.bytes.length < t.bytes.length := by
  unfold round at h
  split at h
  · split at h
    · cases h
    · split at h <;> cases h
  · split at h
    · cases h
    · rename_i request mode consumed hparse
      obtain ⟨hfour, hlen⟩ := findHeadersEnd_le (parseRequestHead_ok hparse).1
      split at h
      · split at h
        · cases h
        · rename_i p hnext
          exact absurd hnext afterHead_error
      · rename_i result hbody
        have hle := decodeBody_length hbody
        rw [List.length_drop] at hle
        split at h
        · cases h
        · cases h
          dsimp only
          omega

def loop (env : Env) (handler : Handler σ) : RankedLoop (Session σ) (Outcome σ) where
  body := round env handler
  rank t := t.bytes.length
  rank_lt := round_size

end Session

/-- What a connection does with a whole stream. -/
def session (env : Env) (handler : Handler σ) (bytes : Bytes) (s : σ) : Outcome σ :=
  (Session.loop env handler).run ⟨bytes, .start s⟩

/-! ## Refinement -/

/-- A connection that has only data to come, and the session of its stream. -/
structure Simulates (c : Connection σ) (t : Session σ) : Prop where
  clean : c.input.Clean
  bytes : t.bytes = c.input.all
  progress : t.progress = c.progress

theorem Session.round_tooLarge {env : Env} {handler : Handler σ} {t : Session σ}
    {input : Input} (hall : input.all = t.bytes)
    (h : incompleteHeadExceedsLimit input.buffer = true) :
    t.round env handler =
      .done (refuse env t.progress .BAD_REQUEST (ascii "Bad Request")
        (.parse .headerTooLarge)) := by
  simp only [incompleteHeadExceedsLimit, Bool.and_eq_true, Option.isNone_iff_eq_none,
    decide_eq_true_eq] at h
  obtain ⟨hnone, hlarge⟩ := h
  have hlen : HEADER_LIMIT < t.bytes.length := by
    rw [← hall, Input.all, List.length_append]
    omega
  unfold round
  cases hend : findHeadersEnd t.bytes with
  | none => exact if_pos hlen
  | some n =>
      have hlt : input.buffer.length < n := by
        apply length_lt_findHeadersEnd hnone
        rw [← Input.all, hall, hend]
      have hparse : parseRequestHead t.bytes = .error .headerTooLarge := by
        rw [parseRequestHead, hend]
        exact if_pos (by omega)
      simp only [hparse]

theorem readBody_eq (mode : BodyMode) (input : Input) :
    readBody mode input =
      ((bodyReader mode input).collect.1, (bodyReader mode input).collect.2.input) := by
  cases mode with
  | none =>
      have hcollect : (bodyReader .none input).collect = (.ok [], .empty input) :=
        BodyReader.collectLoop.run_done rfl
      rw [hcollect]
      rfl
  | fixed length => rfl
  | chunked => rfl

theorem readBody_ok {mode : BodyMode} {input input' : Input} {payload : Bytes}
    (h : readBody mode input = (.ok payload, input')) :
    ∃ result, decodeBody mode input.all = .ok result ∧ result.payload = payload ∧
      result.rest = input'.all := by
  rw [readBody_eq] at h
  have hcollect := collect_bodyReader mode input
  simp only [Prod.mk.injEq] at h
  exact ⟨_, hcollect.ok payload h.1, rfl, by rw [← h.2]⟩

theorem readBody_clean {mode : BodyMode} {input input' : Input} {body : Except Interrupt Bytes}
    (hclean : input.Clean) (h : readBody mode input = (body, input')) :
    (∃ e, body = .error (.error e) ∧ decodeBody mode input.all = .error e) ∨
    ∃ result, body = .ok result.payload ∧ decodeBody mode input.all = .ok result ∧
      input'.all = result.rest ∧ input'.Clean := by
  rw [readBody_eq] at h
  have hcollect := collect_bodyReader mode input
  cases hres : (bodyReader mode input).collect with
  | mk res reader =>
      rw [hres] at hcollect h
      cases h
      cases res with
      | error x =>
          obtain ⟨e, he⟩ := hcollect.settled hclean x rfl
          refine Or.inl ⟨e, ?_, hcollect.error x e rfl he⟩
          cases x with
          | elapsed => cases he
          | error e' =>
              cases e' with
              | io e'' => cases he
              | _ =>
                  cases he
                  rfl
      | ok payload =>
          exact Or.inr ⟨_, rfl, hcollect.ok payload rfl, rfl, hcollect.clean hclean⟩

/-- A round of the connection against the session of its stream. -/
theorem round_simulates (env : Env) (handler : Handler σ) {c : Connection σ} {t : Session σ}
    (h : Simulates c t) :
    (∃ c', c.round env handler = .next c' ∧ Simulates c' t) ∨
    (∃ c' t', c.round env handler = .next c' ∧ t.round env handler = .next t' ∧
      Simulates c' t') ∨
    ∃ outcome, c.round env handler = .done outcome ∧ t.round env handler = .done outcome := by
  obtain ⟨hclean, hbytes, hprogress⟩ := h
  have hcase := c.round_case env handler
  generalize c.round env handler = flow at hcase
  cases hcase with
  | tooLarge input hall hlarge =>
      refine Or.inr (Or.inr ⟨_, rfl, ?_⟩)
      rw [Session.round_tooLarge (hall.trans hbytes.symm) hlarge, hprogress]
  | closed hall =>
      refine Or.inr (Or.inr ⟨_, rfl, ?_⟩)
      have hnil : t.bytes = [] := hbytes.trans hall
      have hend : findHeadersEnd t.bytes = none := by
        rw [hnil]
        rfl
      unfold Session.round
      rw [hend]
      dsimp only
      rw [if_neg (by rw [hnil]; simp), if_pos hnil, hprogress]
  | incomplete hne hend hsize =>
      refine Or.inr (Or.inr ⟨_, rfl, ?_⟩)
      unfold Session.round
      rw [hbytes, hend]
      dsimp only
      rw [if_neg (by omega), if_neg hne, hprogress]
  | readError e hdirty => exact absurd hclean hdirty
  | readTimeout kind hdirty => exact absurd hclean hdirty
  | more input hread =>
      obtain ⟨hall, -, hkeep⟩ := Input.readBuf_ok hread
      exact Or.inl ⟨_, rfl, hkeep hclean, hbytes.trans hall.symm, hprogress⟩
  | badHead e n hend hparse =>
      refine Or.inr (Or.inr ⟨_, rfl, ?_⟩)
      unfold Session.round
      rw [hbytes, Input.all, findHeadersEnd_append _ hend, ← Input.all, hparse, hprogress]
  | request request mode consumed body input hparse hbody =>
      have hend := (parseRequestHead_ok hparse).1
      have hlen := (findHeadersEnd_le hend).2
      have hparse' : parseRequestHead t.bytes = .ok (request, mode, consumed) := by
        rw [hbytes, Input.all, parseRequestHead_append _ hend, hparse]
      have hdrop : t.bytes.drop consumed = (c.input.advance consumed).all := by
        rw [Input.all_advance _ hlen, hbytes]
      rcases readBody_clean (Input.clean_advance hclean consumed) hbody with
        ⟨e, rfl, hdecode⟩ | ⟨result, rfl, hdecode, hrest, hclean'⟩
      · refine Or.inr (Or.inr ?_)
        cases hafter : afterHead env handler c.progress request mode (.error (.error e)) with
        | next p => exact absurd hafter Session.afterHead_error
        | done outcome =>
            refine ⟨outcome, rfl, ?_⟩
            unfold Session.round
            rw [(parseRequestHead_ok hparse').1]
            simp only [hparse', hdrop, hdecode, hprogress, hafter]
      · have hround := Session.round_of_request env handler hparse'
          (hdrop ▸ hdecode)
        rw [hround, hprogress]
        cases afterHead env handler c.progress request mode (.ok result.payload) with
        | done outcome => exact Or.inr (Or.inr ⟨outcome, rfl, rfl⟩)
        | next p => exact Or.inr (Or.inl ⟨_, _, rfl, rfl, hclean', hrest.symm, rfl⟩)

/-- On an input that only delivers data, a run is the session of the whole stream. -/
theorem run_eq_session (env : Env) (handler : Handler σ) {input : Input} (s : σ)
    (hclean : input.Clean) :
    Connection.run env handler input s = session env handler input.all s := by
  refine (Connection.loop env handler).run_simulation (Session.loop env handler)
    (R := Simulates) (Q := Eq) ?_ ?_ ⟨hclean, rfl, rfl⟩
  · intro c t c' hct hnext
    change c.round env handler = .next c' at hnext
    rcases round_simulates env handler hct with
      ⟨c₁, hc, hsim⟩ | ⟨c₁, t₁, hc, ht, hsim⟩ | ⟨outcome, hc, -⟩
    · rw [hnext] at hc
      cases hc
      exact Or.inl hsim
    · rw [hnext] at hc
      cases hc
      exact Or.inr ⟨t₁, ht, hsim⟩
    · rw [hnext] at hc
      cases hc
  · intro c t outcome hct hdone
    change c.round env handler = .done outcome at hdone
    rcases round_simulates env handler hct with
      ⟨c₁, hc, -⟩ | ⟨c₁, t₁, hc, -, -⟩ | ⟨outcome', hc, ht⟩
    · rw [hdone] at hc
      cases hc
    · rw [hdone] at hc
      cases hc
    · rw [hdone] at hc
      cases hc
      exact ⟨outcome, ht, rfl⟩

/-- Two ways of cutting one stream into reads give the same handler calls, the same
bytes on the wire and the same outcome. -/
theorem run_segmentation (env : Env) (handler : Handler σ) (s : σ) {input input' : Input}
    (hclean : input.Clean) (hclean' : input'.Clean) (hall : input.all = input'.all) :
    Connection.run env handler input s = Connection.run env handler input' s := by
  rw [run_eq_session env handler s hclean, run_eq_session env handler s hclean', hall]

/-- One request in two reads, cut inside its last line end, and all of it buffered. -/
theorem run_segmentation_cut :
    Connection.run .atEpoch (.always (.new .OK))
        ⟨[], [.data 71 (ascii "ET / HTTP/1.1\r\nHost: a\r\n\r"), .data 10 []]⟩ () =
      Connection.run .atEpoch (.always (.new .OK))
        ⟨ascii "GET / HTTP/1.1\r\nHost: a\r\n\r\n", []⟩ () :=
  run_segmentation .atEpoch (.always (.new .OK)) () (by decide) (by decide) (by decide)

end GooseHttp
