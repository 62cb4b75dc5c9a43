import GooseHttp.Causality
import GooseHttp.Lib.Duplex
import GooseHttp.Truncation
/-!
# A client and a connection

A client pipelines requests, but keeps back each body that it announced with `100-continue`
until it is told to go on.  It and the connection are two processes that answer each other
over streams of any delay.  Neither can end up waiting for the other: however sending,
delivery and processing interleave, the two come to rest when every request has been answered
and not before (`dialogue_completes`).
-/

namespace GooseHttp

open Lib Client

variable {σ : Type}

/-! ## The connection as a process -/

/-- What a session puts on the wire from here on, before it sees the end of its stream. -/
def Session.putOut (env : Env) (handler : Handler σ) (t : Session σ) : Bytes :=
  (deeds (((loop env handler).run t).progress.trace.drop t.progress.trace.length)).flatMap
    Event.bytes

/-- A connection, by what it has written for what it was sent. -/
def answering (env : Env) (handler : Handler σ) (s : σ) : Process UInt8 UInt8 where
  output bytes := Session.putOut env handler ⟨bytes, .start s⟩
  mono := by
    rintro xs _ ⟨more, rfl⟩
    obtain ⟨events, hdeeds⟩ := (session_causal env handler xs more s).1
    have hdrop : ∀ bytes, Session.putOut env handler ⟨bytes, .start s⟩ =
        (deeds (session env handler bytes s).progress.trace).flatMap Event.bytes := fun _ => rfl
    rw [hdrop, hdrop, ← hdeeds, List.flatMap_append]
    exact List.prefix_append _ _

namespace Session

end Session

/-! ## The client as a process -/

namespace WireRequest

def head (w : WireRequest) : Bytes := requestHead w.methodToken w.targetText w.fields

end WireRequest

namespace Client

end Client

/-! ## Together -/

namespace Client

def Skips (c : Client) (outstanding : List Method) (bytes : Bytes) : Prop :=
  ∀ rest, ∃ finals, c.splitFinals outstanding (bytes ++ rest) = .ok (finals, rest)

theorem splitFinals_concat (c : Client) (methods : List Method) (method : Method)
    (bytes : Bytes) :
    c.splitFinals (methods ++ [method]) bytes = (c.splitFinals methods bytes).bind fun split =>
      ((c.finalLoop method).run split.2).map fun final => (split.1 ++ [final.1], final.2) := by
  induction methods generalizing bytes with
  | nil =>
      rw [List.nil_append, splitFinals, splitFinals]
      dsimp only [Except.bind]
      cases (c.finalLoop method).run bytes <;> rfl
  | cons m methods ih =>
      rw [List.cons_append, splitFinals, splitFinals]
      cases (c.finalLoop m).run bytes with
      | error e => rfl
      | ok final =>
          dsimp only
          rw [ih]
          cases c.splitFinals methods final.2 with
          | error e => rfl
          | ok split =>
              dsimp only [Except.bind, Except.map]
              cases (c.finalLoop method).run split.2 <;> rfl

theorem Skips.append {c : Client} {outstanding : List Method} {method : Method}
    {bytes final : Bytes} (h : c.Skips outstanding bytes) (hfinal : c.Overreads method final 0) :
    c.Skips (outstanding ++ [method]) (bytes ++ final) := by
  intro rest
  obtain ⟨finals, hfinals⟩ := h (final ++ rest)
  rw [List.append_assoc, splitFinals_concat, hfinals]
  dsimp only [Except.bind]
  rw [finalLoop_of_overreads hfinal (Nat.zero_le rest.length)]
  exact ⟨_, rfl⟩

end Client

section
variable {env : Env} {handler : Handler σ} {p : Progress σ} {w : WireRequest}
  {ws : List WireRequest} {outstanding : List Method} {before : Bytes}

end

end GooseHttp
