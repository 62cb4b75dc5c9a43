import GooseHttp.Text
import GooseHttp.Message
/-!
# The read half of a connection

What a connection still has to read is its buffer and what its socket is going to
do.  The socket is a script of events, one for each moment at which it has
something to say: data, an I/O error, or silence until the timeout around the
read expires.  A script that is used up is a closed stream, where reads return
zero bytes.  A data event holds at least one byte by construction, and a bounded
read that does not take all of it leaves the rest in place, so every way of
cutting a stream into reads is a script.
-/

namespace GooseHttp

open Lib

inductive ReadEvent
  | data (first : UInt8) (rest : Bytes)
  | error (e : IoError)
  | timeout
  deriving DecidableEq, Repr

namespace ReadEvent

def bytes : ReadEvent → Bytes
  | data first rest => first :: rest
  | error _ => []
  | timeout => []

def isData : ReadEvent → Bool
  | data _ _ => true
  | error _ => false
  | timeout => false

end ReadEvent

def delivered (events : List ReadEvent) : Bytes := events.flatMap ReadEvent.bytes

@[simp] theorem delivered_nil : delivered [] = [] := rfl

@[simp] theorem delivered_cons (e : ReadEvent) (events : List ReadEvent) :
    delivered (e :: events) = e.bytes ++ delivered events := rfl

inductive ReadFault
  | eof
  | error (e : IoError)
  | timeout
  deriving DecidableEq, Repr

structure Input where
  buffer : Bytes
  incoming : List ReadEvent
  deriving DecidableEq, Repr

namespace Input

/-- Everything that is buffered or still to be delivered. -/
def all (i : Input) : Bytes := i.buffer ++ delivered i.incoming

/-- Bytes and events left: no read makes it grow, and every one that consumes
something makes it smaller. -/
def size (i : Input) : Nat := i.all.length + i.incoming.length

/-- The socket only delivers data until it is closed. -/
def Clean (i : Input) : Prop := ∀ e ∈ i.incoming, e.isData = true

instance (i : Input) : Decidable i.Clean :=
  inferInstanceAs (Decidable (∀ e ∈ i.incoming, e.isData = true))

/-- `read_buf` into the buffer. -/
def readBuf (i : Input) : Except ReadFault Unit × Input :=
  match i.incoming with
  | [] => (.error .eof, i)
  | .data first rest :: events => (.ok (), ⟨i.buffer ++ first :: rest, events⟩)
  | .error e :: events => (.error (.error e), ⟨i.buffer, events⟩)
  | .timeout :: events => (.error .timeout, ⟨i.buffer, events⟩)

/-- `read` into a slice of `bound` bytes, past the buffer. -/
def readInto (i : Input) (bound : Nat) : Except ReadFault Bytes × Input :=
  match i.incoming with
  | [] => (.error .eof, i)
  | .data first rest :: events =>
      match (first :: rest).drop bound with
      | [] => (.ok (first :: rest), ⟨i.buffer, events⟩)
      | b :: bs => (.ok ((first :: rest).take bound), ⟨i.buffer, .data b bs :: events⟩)
  | .error e :: events => (.error (.error e), ⟨i.buffer, events⟩)
  | .timeout :: events => (.error .timeout, ⟨i.buffer, events⟩)

/-- `advance` and `split_to` on the buffer. -/
def advance (i : Input) (n : Nat) : Input := ⟨i.buffer.drop n, i.incoming⟩

@[simp] theorem buffer_advance (i : Input) (n : Nat) :
    (i.advance n).buffer = i.buffer.drop n := rfl

@[simp] theorem incoming_advance (i : Input) (n : Nat) :
    (i.advance n).incoming = i.incoming := rfl

theorem all_advance (i : Input) {n : Nat} (hn : n ≤ i.buffer.length) :
    (i.advance n).all = i.all.drop n := by
  rw [all, all, buffer_advance, incoming_advance, List.drop_append_of_le_length hn]

theorem size_advance (i : Input) {n : Nat} (hn : n ≤ i.buffer.length) :
    (i.advance n).size + n = i.size := by
  have hle : n ≤ i.all.length := by
    rw [all, List.length_append]
    omega
  rw [size, size, all_advance i hn, List.length_drop, incoming_advance]
  omega

theorem clean_advance {i : Input} (h : i.Clean) (n : Nat) : (i.advance n).Clean := h

theorem all_of_incoming_nil {i : Input} (h : i.incoming = []) : i.all = i.buffer := by
  rw [all, h, delivered_nil, List.append_nil]

theorem clean_of_incoming {i : Input} {e : ReadEvent} {events : List ReadEvent} {buffer : Bytes}
    (hin : i.incoming = e :: events) (h : i.Clean) : (Input.mk buffer events).Clean :=
  fun e' he' => h e' (by rw [hin]; exact List.mem_cons_of_mem _ he')

/-! ## What a read does to the input -/

structure Faults (i : Input) (fault : ReadFault) (i' : Input) : Prop where
  eof : fault = .eof → i.incoming = []
  settled : i.Clean → fault = .eof
  clean : i.Clean → i'.Clean
  size_le : i'.size ≤ i.size

theorem faults_eof {i : Input} (h : i.incoming = []) : i.Faults .eof i :=
  ⟨fun _ => h, fun _ => rfl, id, Nat.le_refl _⟩

theorem faults_event {i : Input} {e : ReadEvent} {events : List ReadEvent} {fault : ReadFault}
    (hin : i.incoming = e :: events) (he : e.isData = false) (hfault : fault ≠ .eof) :
    i.Faults fault ⟨i.buffer, events⟩ where
  eof hf := absurd hf hfault
  settled hclean := by
    have hdata := hclean e (by simp [hin])
    rw [he] at hdata
    cases hdata
  clean := clean_of_incoming hin
  size_le := by
    simp only [size, all, hin, delivered_cons, List.length_append, List.length_cons]
    omega

theorem readBuf_ok {i i' : Input} (h : i.readBuf = (.ok (), i')) :
    i'.all = i.all ∧ i'.incoming.length < i.incoming.length ∧ (i.Clean → i'.Clean) := by
  unfold readBuf at h
  split at h
  · cases h
  · rename_i first rest events hin
    cases h
    exact ⟨by simp [all, hin, ReadEvent.bytes], by simp [hin], clean_of_incoming hin⟩
  · cases h
  · cases h

theorem size_readBuf {i i' : Input} (h : i.readBuf = (.ok (), i')) : i'.size < i.size := by
  obtain ⟨hall, hlen, -⟩ := readBuf_ok h
  rw [size, size, hall]
  omega

theorem readBuf_error {i i' : Input} {fault : ReadFault}
    (h : i.readBuf = (.error fault, i')) : i.Faults fault i' := by
  unfold readBuf at h
  split at h
  · rename_i hin
    cases h
    exact faults_eof hin
  · cases h
  · rename_i e events hin
    cases h
    exact faults_event hin rfl (by simp)
  · rename_i events hin
    cases h
    exact faults_event hin rfl (by simp)

structure Yields (i : Input) (bound : Nat) (bytes : Bytes) (i' : Input) : Prop where
  all : i.all = bytes ++ i'.all
  ne_nil : bytes ≠ []
  length_le : bytes.length ≤ bound
  incoming : i'.incoming.length ≤ i.incoming.length
  clean : i.Clean → i'.Clean

namespace Yields

theorem size {i i' : Input} {bound : Nat} {bytes : Bytes} (h : i.Yields bound bytes i') :
    i'.size + bytes.length ≤ i.size := by
  have hincoming := h.incoming
  rw [Input.size, Input.size, h.all, List.length_append]
  omega

theorem mono {i i' : Input} {bound bound' : Nat} {bytes : Bytes} (h : i.Yields bound bytes i')
    (hle : bound ≤ bound') : i.Yields bound' bytes i' :=
  { h with length_le := h.length_le.trans hle }

end Yields

theorem yields_buffered {i : Input} {bound : Nat} (hbuffer : i.buffer ≠ []) (hbound : 0 < bound) :
    i.Yields bound (i.buffer.take (min i.buffer.length bound))
      (i.advance (min i.buffer.length bound)) where
  all := by
    rw [Input.all, Input.all, buffer_advance, incoming_advance, ← List.append_assoc,
      List.take_append_drop]
  ne_nil := by
    have hlen := List.length_pos_iff.mpr hbuffer
    rw [← List.length_pos_iff, List.length_take]
    omega
  length_le := by
    rw [List.length_take]
    omega
  incoming := Nat.le_refl _
  clean h := i.clean_advance h _

theorem readInto_ok {i i' : Input} {bound : Nat} {bytes : Bytes} (hempty : i.buffer = [])
    (hbound : 0 < bound) (h : i.readInto bound = (.ok bytes, i')) :
    i.Yields bound bytes i' := by
  unfold readInto at h
  split at h
  · cases h
  · rename_i first rest events hin
    split at h
    · rename_i hdrop
      cases h
      exact ⟨by simp [Input.all, hempty, hin, ReadEvent.bytes], by simp,
        List.drop_eq_nil_iff.mp hdrop, by simp [hin], clean_of_incoming hin⟩
    · rename_i b bs hdrop
      cases h
      refine ⟨?_, ?_, List.length_take_le _ _, by simp [hin], ?_⟩
      · have hsplit := List.take_append_drop bound (first :: rest)
        rw [hdrop] at hsplit
        simp only [Input.all, hempty, hin, delivered_cons, ReadEvent.bytes, List.nil_append]
        rw [← List.append_assoc, hsplit]
      · cases bound with
        | zero => omega
        | succ bound => simp
      · intro hclean e he
        rcases List.mem_cons.mp he with rfl | he
        · rfl
        · exact hclean e (by rw [hin]; exact List.mem_cons_of_mem _ he)
  · cases h
  · cases h

theorem readInto_error {i i' : Input} {bound : Nat} {fault : ReadFault}
    (h : i.readInto bound = (.error fault, i')) : i.Faults fault i' := by
  unfold readInto at h
  split at h
  · rename_i hin
    cases h
    exact faults_eof hin
  · split at h <;> cases h
  · rename_i e events hin
    cases h
    exact faults_event hin rfl (by simp)
  · rename_i events hin
    cases h
    exact faults_event hin rfl (by simp)

end Input

end GooseHttp
