import GooseHttp.Lib.Incremental
import GooseHttp.Synchrony
import GooseHttp.WriteFaults
/-!
# Responses cut short

What a client makes of a connection that breaks off.  Readings of a response stand when more
of it comes, so a response that is not all there reads as incomplete and never as a shorter
one (`Delimits.short`).  A client on a connection whose socket fails anywhere therefore ends
up with the responses that were written out, each whole, and knows that the next one is
missing (`Link.run_collect`).
-/

namespace GooseHttp

open Lib Client

variable {σ : Type}

namespace Client

/-! ## Readings that stand -/

structure ReplyHead where
  version : Text
  status : Nat
  reason : Text
  fields : List (HeaderName × Text)

def readHead (c : Client) (bytes : Bytes) : Except ReplyError (ReplyHead × Bytes) :=
  (c.grammar.takeLine bytes).bind fun p => (readStatusLine p.1).bind fun line =>
    ((c.grammar.fields p.2).map Decoded.split).map fun q =>
      (⟨line.1, line.2.1, line.2.2, q.1.2⟩, q.2)

theorem readHead_incremental (c : Client) : Incremental .incomplete c.readHead := by
  intro xs ys
  refine (c.grammar.takeLine_incremental xs ys).bind fun text rest _ => ?_
  dsimp only
  cases readStatusLine text with
  | error e => exact .error e
  | ok line =>
      exact (c.grammar.fields_incremental rest ys).map fun b =>
        (⟨line.1, line.2.1, line.2.2, b.2⟩ : ReplyHead)

theorem readReply_eq (c : Client) (method : Method) (bytes : Bytes) :
    c.readReply method bytes = (c.readHead bytes).bind fun p =>
      (framing method p.1.status p.1.fields).bind fun framing =>
        ((c.readContent framing p.2).map Decoded.split).map fun q =>
          (⟨p.1.version, p.1.status, p.1.reason, p.1.fields, q.1.1, q.1.2⟩, q.2) := by
  rw [readReply, readHead]
  cases c.grammar.takeLine bytes with
  | error e => rfl
  | ok p =>
      simp only [bind, Except.bind]
      cases readStatusLine p.1 with
      | error e => rfl
      | ok line =>
          dsimp only
          cases c.grammar.fields p.2 with
          | error e => rfl
          | ok head =>
              dsimp only [Except.map, Decoded.split]
              cases framing method line.2.1 head.fields with
              | error e => rfl
              | ok framing =>
                  dsimp only
                  cases c.readContent framing head.rest <;> rfl

theorem readContent_incremental (c : Client) {framing : Framing} (h : framing ≠ .untilClose) :
    Incremental .incomplete fun xs => (c.readContent framing xs).map Decoded.split := by
  intro xs ys
  cases framing with
  | bodiless => exact .ok ([], []) xs
  | sized length =>
      dsimp only
      rw [readContent, readContent]
      by_cases hshort : xs.length < length
      · rw [if_pos hshort]
        exact .more _
      · have hlong : ¬ (xs ++ ys).length < length := by
          rw [List.length_append]
          omega
        rw [if_neg hshort, if_neg hlong, List.take_append_of_le_length (by omega),
          List.drop_append_of_le_length (by omega)]
        exact .ok (_, []) _
  | chunked => exact c.grammar.chunks_incremental xs ys
  | untilClose => exact absurd rfl h

/-- A reading of a response stands, unless its body goes on until the connection closes. -/
theorem readReply_grows (c : Client) (method : Method) (xs ys : Bytes) :
    Grows .incomplete ys (c.readReply method xs) (c.readReply method (xs ++ ys)) ∨
      ∃ reply reply', c.readReply method xs = .ok (reply, []) ∧
        c.readReply method (xs ++ ys) = .ok (reply', []) ∧ reply'.status = reply.status := by
  rw [readReply_eq, readReply_eq]
  have hhead := c.readHead_incremental xs ys
  generalize c.readHead xs = r at hhead ⊢
  generalize c.readHead (xs ++ ys) = r' at hhead ⊢
  cases hhead with
  | error e => exact Or.inl (.error e)
  | more r => exact Or.inl (.more _)
  | ok head rest =>
      dsimp only [Except.bind]
      cases framing method head.status head.fields with
      | error e => exact Or.inl (.error e)
      | ok framing =>
          dsimp only
          by_cases hclose : framing = .untilClose
          · rw [hclose]
            exact Or.inr ⟨_, _, rfl, rfl, rfl⟩
          · exact Or.inl ((c.readContent_incremental hclose rest ys).map fun b =>
              (⟨head.version, head.status, head.reason, head.fields, b.1, b.2⟩ : Reply))

/-- Whatever follows these bytes, a client sees the end of a response behind them. -/
def Delimits (c : Client) (method : Method) (bytes : Bytes) : Prop :=
  ∀ rest, ∃ reply, c.readReply method (bytes ++ rest) = .ok (reply, rest)

theorem Overreads.delimits {c : Client} {method : Method} {bytes : Bytes}
    (h : c.Overreads method bytes 0) : c.Delimits method bytes := by
  intro rest
  obtain ⟨reply, hreply, -⟩ := (h rest).2 (Nat.zero_le _)
  exact ⟨reply, hreply⟩

/-- A part of such bytes is no response, and not a malformed one either. -/
theorem Delimits.short {c : Client} {method : Method} {front back : Bytes}
    (h : c.Delimits method (front ++ back)) (hne : back ≠ []) :
    c.readReply method front = .error .incomplete := by
  obtain ⟨reply, hreply⟩ := h [0]
  rw [List.append_assoc] at hreply
  rcases c.readReply_grows method front (back ++ [0]) with hgrows | ⟨_, _, _, hclose, -⟩
  · refine hgrows.short hreply ?_
    have hpos := List.length_pos_iff.mpr hne
    rw [List.length_append]
    exact Nat.lt_add_of_pos_left hpos
  · rw [hreply] at hclose
    cases hclose

theorem readReply_continue (method : Method) (rest : Bytes) :
    ∃ reply, lenient.readReply method (continueBytes ++ rest) = .ok (reply, rest) ∧
      reply.status = 100 := by
  have hhead : continueBytes =
      headBytes .http11 ⟨100, by decide, by decide⟩ (ascii "Continue") Headers.empty := by decide
  have hbodiless : responseAllowsBody ⟨100, by decide, by decide⟩ method = false := rfl
  rw [hhead, lenient.readReply_head method rest (by decide) (fun l hl => by cases hl),
    framing_bodiless _ hbodiless]
  exact ⟨_, rfl, rfl⟩

theorem continueBytes_delimits (method : Method) : lenient.Delimits method continueBytes := by
  intro rest
  obtain ⟨reply, hreply, -⟩ := readReply_continue method rest
  exact ⟨reply, hreply⟩

/-! ## Collecting responses -/

/-- The final responses a client gets hold of, and why it has to stop before it has them
all. -/
def collectFinals (c : Client) : List Method → Bytes → List Bytes × Option ReplyError
  | [], _ => ([], none)
  | method :: methods, bytes =>
      match (c.finalLoop method).run bytes with
      | .error e => ([], some e)
      | .ok (final, rest) =>
          let (finals, stop) := c.collectFinals methods rest
          (final :: finals, stop)

theorem finalLoop_short {method : Method} {front back : Bytes}
    (h : lenient.Delimits method (front ++ back)) (hne : back ≠ []) :
    (lenient.finalLoop method).run front = .error .incomplete := by
  apply RankedLoop.run_done
  simp only [finalLoop, h.short hne]

end Client

/-! ## Exchanges on a wire that fails -/

def Exchange.Delimited (x : Exchange) : Prop :=
  lenient.Overreads x.request.method x.written.bytes 0

def wholeWithin : Nat → List Exchange → List Exchange
  | _, [] => []
  | room, x :: xs =>
      if room < x.bytes.length then [] else x :: wholeWithin (room - x.bytes.length) xs

theorem callsWithin_eq (room : Nat) (xs : List Exchange) :
    ∃ unanswered, unanswered.length ≤ 1 ∧
      callsWithin room xs = (wholeWithin room xs).map Exchange.request ++ unanswered := by
  induction xs generalizing room with
  | nil => exact ⟨[], Nat.zero_le _, rfl⟩
  | cons x xs ih =>
      have hinterim : (interim x.request).length ≤ x.bytes.length := by
        rw [Exchange.bytes, List.length_append]
        exact Nat.le_add_right _ _
      rw [callsWithin, wholeWithin]
      by_cases hshort : room < x.bytes.length
      · rw [if_pos hshort, if_pos hshort]
        split
        · exact ⟨[], Nat.zero_le _, rfl⟩
        · exact ⟨[x.request], Nat.le_refl _, rfl⟩
      · obtain ⟨unanswered, hone, hcalls⟩ := ih (room - x.bytes.length)
        rw [if_neg hshort, if_neg hshort, if_neg (by omega), hcalls]
        exact ⟨unanswered, hone, rfl⟩

theorem isPrefix_wholeWithin (room : Nat) (xs : List Exchange) : wholeWithin room xs <+: xs := by
  induction xs generalizing room with
  | nil => exact List.prefix_rfl
  | cons x xs ih =>
      rw [wholeWithin]
      split
      · exact List.nil_prefix
      · exact List.cons_prefix_cons.mpr ⟨rfl, ih _⟩

/-- An exchange that is cut anywhere leaves the client with nothing and waiting. -/
theorem Exchange.Delimited.finalLoop_cut {x : Exchange} (h : x.Delimited) {front back : Bytes}
    (hbytes : x.bytes = front ++ back) (hne : back ≠ []) :
    (lenient.finalLoop x.request.method).run front = .error .incomplete := by
  rw [Exchange.bytes] at hbytes
  split at hbytes
  · rcases List.append_eq_append_iff.mp hbytes with ⟨more, hfront, hback⟩ | ⟨more, hcontinue, hback⟩
    · rw [hfront, finalLoop_continue]
      refine finalLoop_short ?_ hne
      rw [← hback]
      exact h.delimits
    · by_cases hmore : more = []
      · -- the cut falls just behind the interim response
        rw [hmore, List.append_nil] at hcontinue
        rw [hmore, List.nil_append] at hback
        rw [← hcontinue, ← List.append_nil continueBytes, finalLoop_continue]
        have hdelimits : lenient.Delimits x.request.method ([] ++ back) := hback ▸ h.delimits
        exact finalLoop_short hdelimits hne
      · have hdelimits : lenient.Delimits x.request.method (front ++ more) := by
          rw [← hcontinue]
          exact continueBytes_delimits _
        exact finalLoop_short hdelimits hmore
  · rw [List.nil_append] at hbytes
    exact finalLoop_short (hbytes ▸ h.delimits) hne

theorem Exchange.Delimited.finalLoop_whole {x : Exchange} (h : x.Delimited) (rest : Bytes) :
    (lenient.finalLoop x.request.method).run (x.bytes ++ rest) = .ok (x.written.bytes, rest) := by
  have hwhole := finalLoop_of_overreads h (Nat.zero_le rest.length)
  rw [List.take_zero, List.append_nil, List.drop_zero] at hwhole
  rw [Exchange.bytes]
  split
  · rw [List.append_assoc, finalLoop_continue, hwhole]
  · rw [List.nil_append, hwhole]

/-- Collecting the responses from the first `room` bytes of a list of exchanges. -/
theorem collectFinals_take {xs : List Exchange} (h : ∀ x ∈ xs, x.Delimited) (room : Nat) :
    lenient.collectFinals (xs.map fun x => x.request.method)
        ((xs.flatMap Exchange.bytes).take room) =
      ((wholeWithin room xs).map fun x => x.written.bytes,
        if (xs.flatMap Exchange.bytes).length ≤ room then none else some .incomplete) := by
  induction xs generalizing room with
  | nil => rfl
  | cons x xs ih =>
      obtain ⟨hx, hxs⟩ := List.forall_mem_cons.mp h
      have ih := ih hxs (room - x.bytes.length)
      rw [List.map_cons, List.flatMap_cons, collectFinals, wholeWithin]
      by_cases hshort : room < x.bytes.length
      · have hcut : x.bytes = x.bytes.take room ++ x.bytes.drop room :=
          (List.take_append_drop _ _).symm
        have hne : x.bytes.drop room ≠ [] := by
          rw [Ne, List.drop_eq_nil_iff]
          omega
        rw [List.take_append_of_le_length (by omega), hx.finalLoop_cut hcut hne, if_pos hshort,
          if_neg (by rw [List.length_append]; omega)]
        rfl
      · rw [List.take_append, List.take_of_length_le (by omega), hx.finalLoop_whole, if_neg hshort]
        dsimp only
        rw [ih, List.length_append]
        congr 1
        split <;> split <;> first | rfl | omega

/-! ## Connections that break off -/

/-- Whatever its state, the handler's answer to this request leaves the connection open and
shows the client where it ends. -/
def Handler.KeepsStep (env : Env) (handler : Handler σ) (request : Request) : Prop :=
  ∀ n s, (serve env handler n s request).1.KeepsOpen ∧
    (serve env handler n s request).1.Delimited

theorem serve_prepared (env : Env) {handler : Handler σ} {request : Request} {s : σ}
    (hleaves : LeavesFraming (prepare env request (handler { request with body := .empty } s).1))
    (hrequest : IsPersistent request) (n : Nat) :
    (serve env handler n s request).1.KeepsOpen ∧
      (serve env handler n s request).1.Delimited := by
  obtain ⟨hversion, hclose, hconnect⟩ := hrequest
  obtain ⟨hopen, hwritten⟩ := serve_keepsOpen env n rfl hversion hclose
    hleaves.contains_framing.2.2 hleaves.contains_framing.2.1 hleaves.streams
  refine ⟨hopen, ?_⟩
  rw [Exchange.Delimited, hwritten]
  exact hleaves.overreads (env.now n) hconnect

theorem serve_leaves (env : Env) {handler : Handler σ} {request : Request} {s : σ}
    (hanswer : LeavesFraming (handler { request with body := .empty } s).1)
    (hrequest : IsPersistent request) (n : Nat) :
    (serve env handler n s request).1.KeepsOpen ∧
      (serve env handler n s request).1.Delimited :=
  serve_prepared env (hanswer.prepare env request) hrequest n

theorem serve_strip_head (env : Env) {handler : Handler σ} {request : Request} {s : σ}
    {answer : Response} (hleaves : LeavesFraming answer)
    (hanswer : (handler { request with body := .empty } s).1 = answer.stripBodyForHead)
    (hmethod : request.method = .head) (hrequest : IsPersistent request) (n : Nat) :
    (serve env handler n s request).1.KeepsOpen ∧
      (serve env handler n s request).1.Delimited := by
  cases hreplaced : Replaced env request answer with
  | true =>
      obtain ⟨status, hstatus, hp⟩ := prepare_of_replaced
        (replaced_stripBodyForHead env request answer ▸ hreplaced)
      refine serve_prepared env ?_ hrequest n
      rw [hanswer, hp]
      exact hleaves.replace_strip hstatus
  | false =>
      by_cases hfull : ∃ bytes, answer.body = .full bytes
      · obtain ⟨bytes, hbody⟩ := hfull
        obtain ⟨hversion, hclose, hconnect⟩ := hrequest
        obtain ⟨hlength, hcoding, hconnection⟩ := hleaves.contains_framing
        have habsent : ∀ name, name ≠ HeaderKeys.contentLength →
            answer.headers.contains name = false →
              answer.stripBodyForHead.headers.contains name = false := by
          intro name hname hnone
          rw [← Headers.values_eq_nil_iff] at hnone ⊢
          rw [answer.values_stripBodyForHead hname, hnone]
        have hprepare : prepare env request (handler { request with body := .empty } s).1 =
            answer.stripBodyForHead := by
          rw [hanswer]
          apply prepare_of_not_replaced
          rw [replaced_stripBodyForHead, hreplaced]
        obtain ⟨hopen, hwritten⟩ := serve_keepsOpen env n hprepare hversion hclose
          (habsent _ (by decide) hconnection) (habsent _ (by decide) hcoding)
          (fun items hitems => by cases hitems)
        refine ⟨hopen, ?_⟩
        have hreads := strip_overreads hleaves hbody (env.now n) hconnect
        have hallowed : responseAllowsBody answer.status request.method = false := by
          simp [responseAllowsBody_eq, hmethod]
        rw [hallowed] at hreads
        rw [Exchange.Delimited, hwritten]
        exact hreads
      · refine serve_prepared env ?_ hrequest n
        rw [hanswer]
        exact (hleaves.stripBodyForHead fun bytes hbody => hfull ⟨bytes, hbody⟩).prepare env
          request

theorem keepsStep_of_leaves (env : Env) {handler : Handler σ} {request : Request}
    (hhandler : ∀ s, LeavesFraming (handler { request with body := .empty } s).1)
    (hrequest : IsPersistent request) : handler.KeepsStep env request :=
  fun n s => serve_leaves env (hhandler s) hrequest n

theorem serveAll_keepsStep {env : Env} {handler : Handler σ} {requests : List Request}
    (h : ∀ request ∈ requests, handler.KeepsStep env request) (n : Nat) (s : σ) :
    ∀ x ∈ (serveAll env handler n s requests).1, x.KeepsOpen ∧ x.Delimited := by
  induction requests generalizing n s with
  | nil =>
      intro x hx
      cases hx
  | cons request requests ih =>
      obtain ⟨hrequest, hrequests⟩ := List.forall_mem_cons.mp h
      rw [serveAll_cons, List.forall_mem_cons]
      exact ⟨hrequest n s, ih hrequests (n + 1) _⟩

theorem Link.run_collect_of_step {env : Env} {handler : Handler σ} (s : σ) {input : Input}
    {requests : List Request} (hstep : ∀ request ∈ requests, handler.KeepsStep env request)
    (hclean : input.Clean) (hinput : Pipelined input.all requests) (room : Nat)
    (fault : IoError) :
    let ideal := Connection.run env handler input s
    let cut := Link.run env handler input s room fault
    let answered := wholeWithin room ideal.progress.exchanges
    answered <+: ideal.progress.exchanges ∧
      lenient.collectFinals (requests.map Request.method) cut.delivery.wire.taken =
        (answered.map fun x => x.written.bytes,
          if ideal.progress.written.length ≤ room then none else some .incomplete) ∧
      ∃ unanswered, unanswered.length ≤ 1 ∧
        cut.delivery.calls = answered.map Exchange.request ++ unanswered := by
  intro ideal cut answered
  have hcut := Link.run_isCut env handler input s room fault
  have hserved := serveAll_keepsStep hstep 0 s
  obtain ⟨-, hexchanges, hwritten, -⟩ :=
    run_serveAll env handler s hclean hinput fun x hx => (hserved x hx).1
  have hmethods : requests.map Request.method =
      ideal.progress.exchanges.map fun x => x.request.method := by
    rw [hexchanges]
    exact (serveAll_methods env handler 0 s requests).symm
  refine ⟨isPrefix_wholeWithin _ _, ?_, ?_⟩
  · have htaken : cut.delivery.wire.taken = ideal.progress.written.take room := hcut.taken
    rw [htaken, hmethods, hwritten]
    exact collectFinals_take (fun x hx => (hserved x (hexchanges ▸ hx)).2) room
  · have hcalls : cut.delivery.calls = callsWithin room ideal.progress.exchanges := hcut.calls
    rw [hcalls]
    exact callsWithin_eq room _

/-- A client pipelines requests to a handler that leaves framing to the server, over a socket
that fails after any number of bytes.  It gets the responses that were written out, each
whole, and then knows that the next one is incomplete.  The handler has been called for just
the requests these answer, and for at most one more. -/
theorem Link.run_collect (env : Env) {handler : Handler σ} (s : σ) {input : Input}
    {requests : List Request} (hhandler : ∀ request s, LeavesFraming (handler request s).1)
    (hclean : input.Clean) (hinput : Pipelined input.all requests)
    (hrequests : ∀ request ∈ requests, IsPersistent request) (room : Nat) (fault : IoError) :
    let ideal := Connection.run env handler input s
    let cut := Link.run env handler input s room fault
    let answered := wholeWithin room ideal.progress.exchanges
    answered <+: ideal.progress.exchanges ∧
      lenient.collectFinals (requests.map Request.method) cut.delivery.wire.taken =
        (answered.map fun x => x.written.bytes,
          if ideal.progress.written.length ≤ room then none else some .incomplete) ∧
      ∃ unanswered, unanswered.length ≤ 1 ∧
        cut.delivery.calls = answered.map Exchange.request ++ unanswered :=
  Link.run_collect_of_step s (fun request hrequest => keepsStep_of_leaves env
    (fun s => hhandler _ s) (hrequests request hrequest)) hclean hinput room fault

/-- Two requests over a socket that takes the first response and ten bytes of the next. -/
theorem Link.run_collect_oneAndTen :
    let first := (serve .atEpoch (.always hello) 0 () wireGet.request).1.written.bytes
    let cut := Link.run .atEpoch (.always hello) ⟨wireGet.bytes ++ wireGet.bytes, []⟩ () 87 ⟨104⟩
    cut.delivery.wire.taken = first ++ ascii "HTTP/1.1 2" ∧ cut.delivery.calls.length = 2 ∧
      lenient.collectFinals [.get, .get] cut.delivery.wire.taken =
        ([first], some .incomplete) := by
  intro first cut
  have hleaves : ∀ request s, LeavesFraming (Handler.always hello request s).1 :=
    fun _ _ => hello_leavesFraming
  have hinput : Pipelined (Input.all ⟨wireGet.bytes ++ wireGet.bytes, []⟩)
      [wireGet.request, wireGet.request] := pipelined_bytes [wireGet, wireGet]
  have hpersistent : ∀ request ∈ [wireGet.request, wireGet.request], IsPersistent request := by
    unfold IsPersistent
    decide +kernel
  have hcollect := Link.run_collect .atEpoch () hleaves (by decide) hinput hpersistent 87 ⟨104⟩
  refine ⟨by decide +kernel, by decide +kernel, hcollect.2.1.trans ?_⟩
  decide +kernel

end GooseHttp
