import GooseHttp.Truncation
/-!
# What a client reads

A client that reads responses and does not just find where they end.  `replyTo` is what it
reads of a response that leaves framing to the server: the status, the body the writer sends,
and the field lines of the response with those the writer adds.
-/

namespace GooseHttp

open Lib Client

variable {σ : Type}

/-! ## Replies in a row -/

namespace Client

/-- The final responses to requests with these methods, read, and what is left of the
stream. -/
def readFinals (c : Client) : List Method → Bytes → Except ReplyError (List Reply × Bytes)
  | [], bytes => .ok ([], bytes)
  | method :: methods, bytes =>
      match (c.finalLoop method).run bytes with
      | .error e => .error e
      | .ok (final, rest) =>
          match c.readReply method final with
          | .error e => .error e
          | .ok (reply, _) =>
              (c.readFinals methods rest).map fun read => (reply :: read.1, read.2)

end Client

structure Exchange.Reads (x : Exchange) (reply : Reply) : Prop where
  delimited : x.Delimited
  reply : lenient.readReply x.request.method x.written.bytes = .ok (reply, [])

theorem Exchange.Reads.unique {x : Exchange} {reply reply' : Reply} (h : x.Reads reply)
    (h' : x.Reads reply') : reply = reply' :=
  congrArg Prod.fst (Except.ok.inj (h.reply.symm.trans h'.reply))

theorem readFinals_reads {xs : List Exchange} {replies : List Reply}
    (h : List.Forall₂ Exchange.Reads xs replies) :
    lenient.readFinals (xs.map fun x => x.request.method) (xs.flatMap Exchange.bytes) =
      .ok (replies, []) := by
  induction h with
  | nil => rfl
  | cons hx _ ih =>
      rw [List.map_cons, List.flatMap_cons, readFinals, hx.delimited.finalLoop_whole]
      dsimp only
      rw [hx.reply]
      dsimp only
      rw [ih]
      rfl

/-! ## The reply to a request -/

/-- What a client reads of a response that leaves framing to the server and the connection
open. -/
def replyTo (now : Text) (method : Method) (response : Response) : Reply where
  version := response.version.display
  status := response.status.asU16
  reason := response.reasonPhrase
  fields := (stampHeaders now response.headers .keepAlive).lines.map wireField ++
    (framingField response.status method response.body).toList
  body := response.sentBody method
  trailers := (response.sentTrailers method).map wireField

theorem serve_reads (env : Env) {handler : Handler σ} {request : Request} {s : σ}
    (hanswer : LeavesFraming (handler { request with body := .empty } s).1)
    (hrequest : IsPersistent request) (n : Nat) :
    (serve env handler n s request).1.Reads
      (replyTo (env.now n).text request.method (serve env handler n s request).1.response) := by
  have hleaves := hanswer.prepare env request
  obtain ⟨hlength, hcoding, hconnection⟩ := hleaves.contains_framing
  obtain ⟨hversion, hclose, hconnect⟩ := hrequest
  obtain ⟨-, hwritten⟩ := serve_keepsOpen env n rfl hversion hclose hconnection hcoding
    hleaves.streams
  have hread := lenient.readReply_written (env.now n).text .keepAlive [] (fun _ _ => rfl)
    hconnect hlength hcoding (cr_not_mem_reasonPhrase hleaves.reason) hleaves.streams
    (fun l hl => (hleaves.stamped (env.now n) l hl).reads)
    (fun l hl => ⟨(hleaves.stamped (env.now n) l hl).length,
      (hleaves.stamped (env.now n) l hl).coding⟩) hleaves.trailers
  rw [List.append_nil, ← hwritten] at hread
  exact ⟨(serve_leaves env hanswer ⟨hversion, hclose, hconnect⟩ n).2, hread⟩

section Fields

variable {response : Response} (now : ImfFixdate) (method : Method)

theorem mem_replyTo {l : HeaderName × Text} (hl : l ∈ response.headers.lines)
    (hplain : IsPlainField l) (hdate : l.1 ≠ HeaderKeys.date)
    (hconnection : l.1 ≠ HeaderKeys.connection) :
    l ∈ (replyTo now.text method response).fields := by
  refine List.mem_append_left _ (List.mem_map.mpr ⟨l, ?_, hplain.wireField_eq⟩)
  obtain ⟨name, value⟩ := l
  rw [Headers.mem_lines_iff] at hl ⊢
  rwa [Headers.values, getAll_stampHeaders hdate hconnection]

theorem fieldValues_replyTo (hplain : ∀ l ∈ response.headers.lines, IsPlainField l)
    {name : HeaderName} (hdate : name ≠ HeaderKeys.date)
    (hconnection : name ≠ HeaderKeys.connection) (hlength : name ≠ HeaderKeys.contentLength)
    (hcoding : name ≠ HeaderKeys.transferEncoding) :
    fieldValues (replyTo now.text method response).fields name =
      response.headers.values name := by
  have hstamped : ∀ l ∈ (stampHeaders now.text response.headers .keepAlive).lines,
      IsPlainField l :=
    forall_lines_stampHeaders _ hplain now.isPlainField isPlainField_close
  have hframing : fieldValues (framingField response.status method response.body).toList name =
      [] := by
    unfold framingField
    split
    · rfl
    · split
      · exact fieldValues_cons_of_ne _ _ hlength.symm
      · split
        · rfl
        · exact fieldValues_cons_of_ne _ _ hlength.symm
      · split
        · rfl
        · exact fieldValues_cons_of_ne _ _ hcoding.symm
  rw [replyTo, fieldValues_append, hframing, List.append_nil, map_wireField hstamped,
    Headers.fieldValues_lines, Headers.values, getAll_stampHeaders hdate hconnection,
    Headers.values]

end Fields

/-! ## The replies to a run -/

theorem readFinals_run (env : Env) (handler : Handler σ) (s : σ) {input : Input}
    {requests : List Request} (hclean : input.Clean) (hinput : Pipelined input.all requests)
    (hopen : ∀ x ∈ (serveAll env handler 0 s requests).1, x.KeepsOpen) {replies : List Reply}
    (h : List.Forall₂ Exchange.Reads (serveAll env handler 0 s requests).1 replies) :
    lenient.readFinals (requests.map Request.method)
      (Connection.run env handler input s).progress.written = .ok (replies, []) := by
  obtain ⟨-, hexchanges, hwritten, -⟩ := run_serveAll env handler s hclean hinput hopen
  rw [hwritten, hexchanges, ← serveAll_methods env handler 0 s]
  exact readFinals_reads h

end GooseHttp
