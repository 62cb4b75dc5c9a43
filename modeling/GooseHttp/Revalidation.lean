import GooseHttp.Comparison
import GooseHttp.Replies
import GooseHttp.Service
/-!
# A client with a copy

A client that keeps the last copy of a resource it was given and asks, by its entity tag,
whether that is still the one.  The server cuts `If-None-Match` at commas and compares tags
weakly, and other clients change the resource meanwhile.  What the client shows for each of its
requests is a version that weak comparison takes for the one the handler answered with, and so
that one where weak comparison tells contents apart (`Server.copies_current`).
-/

namespace GooseHttp

open Lib Client

variable {σ : Type}

/-! ## The client -/

structure Stored where
  tag : Text
  body : Bytes
  deriving DecidableEq

def refresh (stored : Option Stored) (reply : Reply) : Option Stored :=
  if reply.status = 200 then
    (fieldValues reply.fields HeaderKeys.etag).head?.map fun tag => ⟨tag, reply.body⟩
  else stored

def shown (stored : Option Stored) : List Reply → List (Option Stored)
  | [] => []
  | reply :: replies => refresh stored reply :: shown (refresh stored reply) replies

/-- A request for the resource, unless the copy is still current. -/
structure Asks (target : RequestTarget) (stored : Option Stored) (request : Request) : Prop where
  method : request.method = .get
  target : request.target = target
  persistent : IsPersistent request
  noneMatch : request.headers.values HeaderKeys.ifNoneMatch = (stored.map Stored.tag).toList
  others : ∀ name ∈ [HeaderKeys.ifMatch, HeaderKeys.ifUnmodifiedSince,
    HeaderKeys.ifModifiedSince], request.headers.contains name = false

/-- Each request asks with the copy that the replies in front of it left. -/
def Revalidates (target : RequestTarget) : Option Stored → List Request → List Reply → Prop
  | stored, request :: requests, reply :: replies =>
      Asks target stored request ∧ Revalidates target (refresh stored reply) requests replies
  | _, _, _ => True

/-! ## The resource -/

structure Version where
  tag : EntityTag
  content : Bytes

def Version.stored (v : Version) : Stored := ⟨v.tag.text, v.content⟩

structure IsVersion (v : Version) (r : Response) : Prop where
  leaves : LeavesFraming r
  plain : ∀ l ∈ r.headers.lines, IsPlainField l
  status : r.status = .OK
  etag : r.headers.values HeaderKeys.etag = [v.tag.text]
  body : r.body = .full v.content

theorem IsVersion.sentBody_get {v : Version} {r : Response} (h : IsVersion v r) :
    r.sentBody .get = v.content := by
  have hallowed : responseAllowsBody .OK .get = true := by decide
  rw [Response.sentBody, h.status, if_pos hallowed, h.body]

def Handler.Serves (handler : Handler σ) (target : RequestTarget) (versions : Set Version) :
    Prop :=
  ∀ request s, request.method = .get → request.target = target →
    ∃ v ∈ versions, IsVersion v (handler request s).1

def IsCopyOf (versions : Set Version) (c : Stored) : Prop := ∃ v ∈ versions, c = v.stored

/-- The client shows a version whose tag weak comparison makes the same as the answer's. -/
def Shows (versions : Set Version) (c : Option Stored) (answer : Response) : Prop :=
  ∃ v ∈ versions, ∃ w ∈ versions,
    IsVersion v answer ∧ c = some w.stored ∧ w.tag.characters = v.tag.characters

/-- Versions with different contents have tags that differ in weak comparison, too. -/
def WeaklyApart (versions : Set Version) : Prop :=
  ∀ v ∈ versions, ∀ w ∈ versions, v.tag.characters = w.tag.characters → v.content = w.content

theorem Shows.body_eq {versions : Set Version} {c : Option Stored} {answer : Response}
    (h : Shows versions c answer) (hapart : WeaklyApart versions) :
    c.map Stored.body = some (answer.sentBody .get) := by
  obtain ⟨v, hv, w, hw, hversion, rfl, hsame⟩ := h
  rw [Option.map_some, Version.stored, hapart w hw v hv hsame, hversion.sentBody_get]

/-! ## One request -/

theorem characters_of_matches {a b : EntityTag}
    (h : etagListMatches a.text (some b.text) false = true) : a.characters = b.characters := by
  have hlist : IsListOf a.text [a] := by
    refine ⟨[a.text], List.cons_ne_nil _ _, (List.intercalate_singleton).symm, ?_⟩
    simp [a.trimOws_text, a.text_ne_nil]
  obtain ⟨tag, htag, -, hsame⟩ := (hlist.etagListMatches_iff b false).mp h
  obtain rfl := List.mem_singleton.mp htag
  exact EntityTag.sameTag_weak_iff.mp hsame

section Request

variable {handler : Handler σ} {target : RequestTarget} {versions : Set Version}

theorem prepare_version (env : Env) {request : Request} {stored : Option Stored}
    (hasks : Asks target stored request) {v : Version} {answer : Response}
    (hanswer : IsVersion v answer) (hstored : ∀ c ∈ stored, IsCopyOf versions c) :
    prepare env request answer = answer ∨
      ∃ w ∈ versions, stored = some w.stored ∧ w.tag.characters = v.tag.characters ∧
        (prepare env request answer).status = .NOT_MODIFIED := by
  have hnoneMatch : request.ifNoneMatch = stored.map fun c => trim c.tag := by
    rw [Request.ifNoneMatch, Request.header, Headers.get_eq_head?, hasks.noneMatch]
    cases stored <;> rfl
  have hetag : answer.headers.get HeaderKeys.etag = some v.tag.text := by
    rw [Headers.get_eq_head?, hanswer.etag]
    rfl
  have hsafe : isGetOrHead request.method = true := by
    rw [hasks.method]
    rfl
  have hstatus : answer.status.asU16 < 400 := by
    rw [hanswer.status]
    decide
  rw [prepare, if_pos hstatus, applyRequestPreconditions,
    preconditionDecision_of_absent env answer hasks.others, hnoneMatch, hetag, hsafe]
  cases hcopy : stored with
  | none => exact Or.inl rfl
  | some c =>
      obtain ⟨w, hw, rfl⟩ := hstored c hcopy
      rw [Option.map_some, Version.stored, w.tag.trim_text, Option.filter_some]
      by_cases hmatches : etagListMatches w.tag.text (some v.tag.text) false = true
      · rw [if_pos hmatches]
        exact Or.inr ⟨w, hw, rfl, characters_of_matches hmatches, rfl⟩
      · rw [if_neg hmatches]
        exact Or.inl rfl

/-- The reply leaves the client with a copy that it can show for the answer. -/
theorem refresh_served (h : handler.Serves target versions) {env : Env} {request : Request}
    {stored : Option Stored} (hasks : Asks target stored request)
    (hstored : ∀ c ∈ stored, IsCopyOf versions c) {n : Nat} {s : σ} {reply : Reply}
    (hreads : (serve env handler n s request).1.Reads reply) :
    Shows versions (refresh stored reply) (serve env handler n s request).1.answer := by
  obtain ⟨v, hv, hanswer⟩ := h { request with body := .empty } s hasks.method hasks.target
  have hreply : reply = replyTo (env.now n).text request.method
      (prepare env request (handler { request with body := .empty } s).1) :=
    hreads.unique (serve_reads env hanswer.leaves hasks.persistent n)
  rcases prepare_version env hasks hanswer hstored with
    hkept | ⟨w, hw, hcopy, hsame, hstatus⟩
  · refine ⟨v, hv, v, hv, hanswer, ?_, rfl⟩
    have hsuccess : reply.status = 200 := by
      rw [hreply, hkept, replyTo, hanswer.status]
      rfl
    have hetag : fieldValues reply.fields HeaderKeys.etag = [v.tag.text] := by
      rw [hreply, hkept, fieldValues_replyTo _ _ hanswer.plain (by decide) (by decide)
        (by decide) (by decide), hanswer.etag]
    have hbody : reply.body = v.content := by
      rw [hreply, hkept]
      exact (congrArg (Response.sentBody _) hasks.method).trans hanswer.sentBody_get
    rw [refresh, if_pos hsuccess, hetag, hbody]
    rfl
  · have hnotModified : reply.status ≠ 200 := by
      have hcode : reply.status = StatusCode.NOT_MODIFIED.asU16 := by rw [hreply, replyTo, hstatus]
      rw [hcode]
      decide
    refine ⟨v, hv, w, hw, hanswer, ?_, hsame⟩
    rw [refresh, if_neg hnotModified, hcopy]

/-! ## All requests -/

theorem shown_served (h : handler.Serves target versions) {env : Env} {requests : List Request}
    {xs : List Exchange} {replies : List Reply} {stored : Option Stored}
    (hserved : List.Forall₂ (fun request x => ∃ n s, x = (serve env handler n s request).1)
      requests xs)
    (hreads : List.Forall₂ Exchange.Reads xs replies)
    (hstored : ∀ c ∈ stored, IsCopyOf versions c)
    (hasks : Revalidates target stored requests replies) :
    List.Forall₂ (Shows versions) (shown stored replies) (xs.map Exchange.answer) ∧
      ∀ c ∈ replies.foldl refresh stored, IsCopyOf versions c := by
  induction hserved generalizing replies stored with
  | nil =>
      cases hreads
      exact ⟨.nil, hstored⟩
  | cons hx _ ih =>
      obtain ⟨n, s, rfl⟩ := hx
      cases hreads with
      | @cons _ reply _ _ hreply hreplies =>
          obtain ⟨hask, hasks⟩ := hasks
          have hshows := refresh_served h hask hstored hreply
          have hnext : ∀ c ∈ refresh stored reply, IsCopyOf versions c := by
            obtain ⟨-, -, w, hw, -, hcopy, -⟩ := hshows
            intro c hc
            rw [hcopy] at hc
            exact ⟨w, hw, (Option.some.inj hc).symm⟩
          obtain ⟨hshown, hlast⟩ := ih hreplies hnext hasks
          exact ⟨.cons hshows hshown, hlast⟩

theorem exists_replies (h : handler.Serves target versions) {env : Env}
    {requests : List Request} {xs : List Exchange}
    (hrequests : ∀ request ∈ requests,
      request.method = .get ∧ request.target = target ∧ IsPersistent request)
    (hserved : List.Forall₂ (fun request x => ∃ n s, x = (serve env handler n s request).1)
      requests xs) : ∃ replies, List.Forall₂ Exchange.Reads xs replies := by
  induction hserved with
  | nil => exact ⟨[], .nil⟩
  | @cons request _ _ _ hx _ ih =>
      obtain ⟨⟨hmethod, htarget, hpersistent⟩, hrest⟩ := List.forall_mem_cons.mp hrequests
      obtain ⟨n, s, rfl⟩ := hx
      obtain ⟨replies, hreplies⟩ := ih hrest
      obtain ⟨_, _, hversion⟩ := h { request with body := .empty } s hmethod htarget
      exact ⟨_ :: replies, .cons (serve_reads env hversion.leaves hpersistent n) hreplies⟩

end Request

/-- Whatever other clients do to the resource, and however the tasks take turns, a client
that asks with the copy it has shows for each of its requests a version whose tag is, in weak
comparison, that of the version the handler answered it with; where weak comparison tells
contents apart, it shows that version.  The copy it is left with can be asked with on its
next connection. -/
theorem Server.copies_current (handler : Handler σ) (s : σ) (events : List ServerEvent)
    {target : RequestTarget} {versions : Set Version} (hserves : handler.Serves target versions)
    {i : Nat} {task : Task}
    (htask : ((build s).after handler events).tasks.members[i]? = some task)
    {outcome : Outcome Unit} (hfinished : task.stage = .finished outcome)
    {requests : List Request} (hclean : task.socket.Clean)
    (hinput : Pipelined task.socket.all requests)
    (hrequests : ∀ request ∈ requests,
      request.method = .get ∧ request.target = target ∧ IsPersistent request) :
    let answers := outcome.progress.answered.map Call.answer
    outcome.progress.answered.map Call.request =
      requests.map (fun request => { request with body := .empty }) ∧
    ∃ replies, lenient.readFinals (requests.map Request.method) outcome.progress.written =
        .ok (replies, []) ∧
      ∀ stored : Option Stored, (∀ c ∈ stored, IsCopyOf versions c) →
        Revalidates target stored requests replies →
        List.Forall₂ (Shows versions) (shown stored replies) answers ∧
          (WeaklyApart versions → (shown stored replies).map (·.map Stored.body) =
            answers.map fun answer => some (answer.sentBody .get)) ∧
          ∀ c ∈ replies.foldl refresh stored, IsCopyOf versions c := by
  intro answers
  have hstep : ∀ request ∈ requests, handler.KeepsStep task.clock request := by
    intro request hrequest
    obtain ⟨hmethod, htarget, hpersistent⟩ := hrequests request hrequest
    refine keepsStep_of_leaves task.clock (fun s => ?_) hpersistent
    obtain ⟨_, _, hversion⟩ := hserves { request with body := .empty } s hmethod htarget
    exact hversion.leaves
  have hserved := finished_served htask hfinished hclean hinput hstep
  obtain ⟨replies, hreads⟩ := exists_replies hserves hrequests hserved
  obtain ⟨-, -, hexchanges, hwritten⟩ := finished_replayed htask hfinished hclean hinput hstep
  obtain ⟨-, hrequested, hanswered, -⟩ :=
    clients_inStep_of_step handler s events htask hfinished hclean hinput hstep
  refine ⟨hanswered ▸ hrequested, replies, ?_, fun stored hstored hasks => ?_⟩
  · rw [hwritten, ← serveAll_methods task.clock replay 0 outcome.progress.answers, ← hexchanges]
    exact readFinals_reads hreads
  · obtain ⟨hshown, hlast⟩ := shown_served hserves hserved hreads hstored hasks
    have hanswers : outcome.progress.exchanges.map Exchange.answer = answers := by
      simp only [answers, Progress.answered, List.map_map]
      rfl
    rw [hanswers] at hshown
    refine ⟨hshown, fun hapart => ?_, hlast⟩
    rw [← List.forall₂_eq_eq_eq, List.forall₂_map_left_iff, List.forall₂_map_right_iff]
    exact hshown.imp fun _ _ hshows => hshows.body_eq hapart

def pageVersion : Bool → Version
  | false => ⟨⟨false, ascii "old", by decide +kernel⟩, ascii "draft"⟩
  | true => ⟨⟨true, ascii "new", by decide +kernel⟩, ascii "final"⟩

def pageAnswer (v : Version) : Response :=
  { Response.new .OK with
    headers := Headers.empty.insert HeaderKeys.etag v.tag.text
    body := .full v.content }

def page : Handler Bool := fun request edited =>
  if request.method = .post then (.new .OK, true) else (pageAnswer (pageVersion edited), edited)

theorem isVersion_pageAnswer (edited : Bool) :
    IsVersion (pageVersion edited) (pageAnswer (pageVersion edited)) := by
  have htag : IsOpenField (HeaderKeys.etag, (pageVersion edited).tag.text) ∧
      IsPlainField (HeaderKeys.etag, (pageVersion edited).tag.text) := by
    cases edited with
    | false => exact ⟨isOpenField_of_ne (by decide) (by decide) (by decide), by decide +kernel⟩
    | true => exact ⟨isOpenField_of_ne (by decide) (by decide) (by decide), by decide +kernel⟩
  have hnone : ∀ {P : HeaderName × Text → Prop}, ∀ l ∈ Headers.empty.lines, P l :=
    fun _ hl => by cases hl
  exact {
    leaves := {
      final := show 200 ≤ StatusCode.OK.asU16 by decide
      streams := fun _ hitems => by cases hitems
      reason := fun _ hreason => by cases hreason
      fields := Headers.forall_lines_insert hnone htag.1
      trailers := fun _ hl => by cases hl }
    plain := Headers.forall_lines_insert hnone htag.2
    status := rfl
    etag := by rw [pageAnswer, Headers.values_insert, if_pos rfl]
    body := rfl }

theorem page_serves (target : RequestTarget) : page.Serves target (Set.range pageVersion) := by
  intro request edited hmethod _
  have hpage : (page request edited).1 = pageAnswer (pageVersion edited) := by
    rw [page, if_neg (by rw [hmethod]; decide)]
  exact ⟨pageVersion edited, ⟨edited, rfl⟩, hpage ▸ isVersion_pageAnswer edited⟩

theorem pageVersion_weaklyApart : WeaklyApart (Set.range pageVersion) := by
  rintro _ ⟨a, rfl⟩ _ ⟨b, rfl⟩ hsame
  cases a <;> cases b
  · rfl
  · exact absurd hsame (by decide +kernel)
  · exact absurd hsame (by decide +kernel)
  · rfl

def wireRevalidate : WireRequest :=
  { wireGet with
    fields := [(ascii "Host", ascii "a"), (ascii "If-None-Match", ascii "\"old\"")]
    fields_ok := by
      intro f hf
      simp only [List.mem_cons, List.not_mem_nil, or_false] at hf
      rcases hf with rfl | rfl <;> exact ⟨by decide, by decide, by decide⟩
    host_ok := ⟨ascii "a", by decide, by decide⟩
    announced := ⟨by decide, by decide⟩
    head_short := by decide }

/-- Another client edits the page between two requests that ask for it with the same copy. -/
theorem Server.copies_current_edited :
    let server := (build false).after page
      [.accepted .atEpoch ⟨wireRevalidate.bytes ++ wireRevalidate.bytes, []⟩,
        .accepted .atEpoch ⟨wirePost.bytes, []⟩,
        .turn 0, .turn 1, .turn 0, .turn 1, .turn 0, .turn 0, .turn 0, .turn 0, .turn 0]
    ∃ task outcome replies, server.tasks.members[0]? = some task ∧
      task.stage = .finished outcome ∧
      lenient.readFinals [.get, .get] outcome.progress.written = .ok (replies, []) ∧
      replies.map Reply.status = [304, 200] ∧
      (shown (some (pageVersion false).stored) replies).map (·.map Stored.body) =
        [some (ascii "draft"), some (ascii "final")] := by
  intro server
  obtain ⟨task, outcome, htask, hfinished, hsocket⟩ : ∃ task outcome,
      server.tasks.members[0]? = some task ∧ task.stage = .finished outcome ∧
        task.socket = ⟨wireRevalidate.bytes ++ wireRevalidate.bytes, []⟩ :=
    exists_finished (by decide +kernel) rfl
  have hinput : Pipelined task.socket.all [wireRevalidate.request, wireRevalidate.request] := by
    rw [hsocket, Input.all_of_incoming_nil rfl]
    exact pipelined_bytes [wireRevalidate, wireRevalidate]
  have hpersistent : IsPersistent wireRevalidate.request := by
    unfold IsPersistent
    decide +kernel
  have hasks : Asks (.origin (ascii "/")) (some (pageVersion false).stored)
      wireRevalidate.request :=
    ⟨rfl, rfl, hpersistent, by decide +kernel, by decide +kernel⟩
  obtain ⟨-, replies, hread, hshown⟩ := copies_current page false _
    (page_serves (.origin (ascii "/"))) htask hfinished (by rw [hsocket]; decide) hinput
    (List.forall_mem_cons.mpr ⟨⟨rfl, rfl, hpersistent⟩,
      List.forall_mem_singleton.mpr ⟨rfl, rfl, hpersistent⟩⟩)
  have hstatuses : replies.map Reply.status = [304, 200] := by
    have hreplies : ∀ task ∈ server.tasks.members[0]?, (match task.stage with
        | .finished outcome =>
            (lenient.readFinals [.get, .get] outcome.progress.written).toOption
        | _ => none).map (fun p : List Reply × Bytes => p.1.map Reply.status) =
          some [304, 200] := by
      decide +kernel
    have hstatuses := hreplies task htask
    rw [hfinished] at hstatuses
    dsimp only at hstatuses
    rw [show lenient.readFinals [.get, .get] outcome.progress.written = _ from hread]
      at hstatuses
    exact Option.some.inj hstatuses
  have hrevalidates : Revalidates (.origin (ascii "/")) (some (pageVersion false).stored)
      [wireRevalidate.request, wireRevalidate.request] replies := by
    obtain ⟨first, second, rfl⟩ : ∃ first second, replies = [first, second] :=
      List.length_eq_two.mp (by simpa using congrArg List.length hstatuses)
    have hfirst : first.status = 304 := (List.cons.inj hstatuses).1
    have hkept : refresh (some (pageVersion false).stored) first =
        some (pageVersion false).stored := if_neg (by rw [hfirst]; decide)
    exact ⟨hasks, by rw [hkept]; exact hasks, trivial⟩
  obtain ⟨-, hbodies, -⟩ := hshown (some (pageVersion false).stored)
    (fun c hc => ⟨pageVersion false, ⟨false, rfl⟩, (Option.some.inj hc).symm⟩) hrevalidates
  refine ⟨task, outcome, replies, htask, hfinished, hread, hstatuses, ?_⟩
  have hanswers : ∀ task ∈ server.tasks.members[0]?,
      task.stage.calls.map (fun call => some (call.answer.sentBody .get)) =
        [some (ascii "draft"), some (ascii "final")] := by
    decide +kernel
  have hcalls := hanswers task htask
  rw [hfinished] at hcalls
  rw [hbodies pageVersion_weaklyApart, List.map_map]
  exact hcalls

end GooseHttp
