import LuPlatform.Library.Bytes
import LuPlatform.Socket.ReceiveLoop

/-! `DataSocket` and its messages behind a header that holds their size. The web sockets read their
raw messages with the same loop. A size of zero stops the socket, but not the loop: it finds the same
header again, for ever. -/

namespace LuPlatform.Socket

open Bytes Loop

/-- The `DataHandler` of a socket, over the bytes of the receive buffer. -/
structure DataHandler where
  getHeaderSize : Nat
  readHeader : (buffer : List UInt8) → (offset : Nat) → Nat
  readMessage : (buffer : List UInt8) → (offset size : Nat) → List UInt8

namespace Receiver

section ReadMessages

variable {σ ε : Type} (handler : DataHandler)

/-- The size is an `unsigned int`. -/
def expectedMsgSize (s : Receiver σ ε) : Nat :=
  handler.readHeader s.buffer s.readOffset % 2 ^ 32

def readMessagesRound (s : Receiver σ ε) : Round (Receiver σ ε) (Receiver σ ε) :=
  if s.numberOfBytesLeftToRead ≥ handler.getHeaderSize then
    let expectedMsgSize := s.expectedMsgSize handler
    let s := if expectedMsgSize = 0 then s.raise .stop else s
    if s.numberOfBytesLeftToRead ≥ expectedMsgSize then
      let message := handler.readMessage s.buffer s.readOffset expectedMsgSize
      .again ((s.raise (.onData message)).updateForDataRead expectedMsgSize)
    else
      .leave s
  else
    .leave s

def readMessages (s : Receiver σ ε) : Option (Receiver σ ε) :=
  loop (readMessagesRound handler) (s.numberOfBytesLeftToRead + 1) s

end ReadMessages

end Receiver

/-- `data_handler::String`. -/
def String.BUFFER_SIZE : Nat := 1000

def String.handler : DataHandler where
  getHeaderSize := 4
  readHeader buffer offset := ofLittleEndian ((buffer.drop offset).take 4)
  readMessage buffer offset size := (buffer.drop offset).take size

/-- What a buffer that is not initialised holds. -/
def uninitialized (memory : Nat → UInt8) (size : Nat) : List UInt8 := (List.range size).map memory

@[simp] theorem length_uninitialized (memory : Nat → UInt8) (size : Nat) :
    (uninitialized memory size).length = size := by
  simp [uninitialized]

/-- The only callbacks of `DataSocket` are `onData` and `stop`. -/
abbrev DataSocket := Receiver Unit Empty

namespace DataSocket

/-- A socket over a handler whose buffer holds `bufferSize` bytes. -/
def new (memory : Nat → UInt8) (bufferSize : Nat) : DataSocket :=
  Receiver.new (uninitialized memory bufferSize) ()

@[simp] theorem new_leftToRecv (memory : Nat → UInt8) (bufferSize : Nat) :
    (new memory bufferSize).numberOfBytesLeftToRecv = bufferSize :=
  length_uninitialized memory bufferSize

end DataSocket

namespace Receiver

variable {σ ε : Type} {handler : DataHandler}

/-- Once a header is buffered, the `String` handler reads it from the unread bytes. -/
theorem string_expectedMsgSize {s : Receiver σ ε} (h : 4 ≤ s.numberOfBytesLeftToRead) :
    s.expectedMsgSize String.handler = ofLittleEndian (s.unread.take 4) % 2 ^ 32 := by
  rw [unread, List.take_take, Nat.min_eq_left h]
  rfl

/-- What `readMessages` keeps: it consumes bytes and does nothing else to the buffer. -/
structure Consumes (s s' : Receiver σ ε) : Prop where
  length_buffer : s'.buffer.length = s.buffer.length
  leftToRecv : s'.numberOfBytesLeftToRecv = s.numberOfBytesLeftToRecv
  end_eq : s'.readOffset + s'.numberOfBytesLeftToRead = s.readOffset + s.numberOfBytesLeftToRead

theorem Consumes.refl (s : Receiver σ ε) : Consumes s s := ⟨rfl, rfl, rfl⟩

theorem Consumes.trans {s t u : Receiver σ ε} (h : Consumes s t) (h' : Consumes t u) :
    Consumes s u :=
  ⟨h'.length_buffer.trans h.length_buffer, h'.leftToRecv.trans h.leftToRecv,
    h'.end_eq.trans h.end_eq⟩

theorem Consumes.raise {s t : Receiver σ ε} (h : Consumes s t) (event : SocketEvent ε) :
    Consumes s (t.raise event) := ⟨h.length_buffer, h.leftToRecv, h.end_eq⟩

theorem Consumes.updateForDataRead {s t : Receiver σ ε} (h : Consumes s t) {size : Nat}
    (hsize : size ≤ t.numberOfBytesLeftToRead) : Consumes s (t.updateForDataRead size) := by
  refine ⟨h.length_buffer, h.leftToRecv, ?_⟩
  rw [← h.end_eq]
  simp only [Receiver.updateForDataRead]
  omega

theorem readMessagesRound_consumes {s t : Receiver σ ε}
    (h : readMessagesRound handler s = .again t ∨ readMessagesRound handler s = .leave t) :
    Consumes s t ∧ t.own = s.own := by
  have hstop : ∀ n : Nat, Consumes s (if n = 0 then s.raise .stop else s) ∧
      (if n = 0 then s.raise .stop else s).own = s.own := by
    intro n
    split
    · exact ⟨(Consumes.refl s).raise .stop, rfl⟩
    · exact ⟨.refl s, rfl⟩
  obtain ⟨hconsumes, hown⟩ := hstop (s.expectedMsgSize handler)
  simp only [readMessagesRound] at h
  split at h
  · generalize (if s.expectedMsgSize handler = 0 then s.raise .stop else s) = u at h hconsumes hown
    split at h
    · rename_i hle
      obtain h | h := h
      · obtain rfl := Round.again.inj h
        exact ⟨(hconsumes.raise _).updateForDataRead hle, hown⟩
      · cases h
    · obtain h | h := h
      · cases h
      · obtain rfl := Round.leave.inj h
        exact ⟨hconsumes, hown⟩
  · obtain h | h := h
    · cases h
    · obtain rfl := Round.leave.inj h
      exact ⟨.refl s, rfl⟩

theorem readMessages_consumes {s s' : Receiver σ ε} (h : s.readMessages handler = some s') :
    Consumes s s' ∧ s'.own = s.own := by
  refine loop_invariant (fun t => Consumes s t ∧ t.own = s.own)
    (fun t => Consumes s t ∧ t.own = s.own) ?_ ?_ ⟨.refl s, rfl⟩ h
  · rintro t u ⟨ht, hown⟩ hround
    obtain ⟨hu, hown'⟩ := readMessagesRound_consumes (.inl hround)
    exact ⟨ht.trans hu, hown'.trans hown⟩
  · rintro t u ⟨ht, hown⟩ hround
    obtain ⟨hu, hown'⟩ := readMessagesRound_consumes (.inr hround)
    exact ⟨ht.trans hu, hown'.trans hown⟩

/-- A header of size zero is never left behind. -/
theorem loop_zero {n : Nat} {s : Receiver σ ε} (hsize : s.expectedMsgSize handler = 0)
    (hheader : handler.getHeaderSize ≤ s.numberOfBytesLeftToRead) :
    loop (readMessagesRound handler) n s = none := by
  induction n generalizing s with
  | zero => rfl
  | succ n ih =>
    have hround : readMessagesRound handler s = .again (((s.raise .stop).raise
        (.onData (handler.readMessage s.buffer s.readOffset 0))).updateForDataRead 0) := by
      simp only [readMessagesRound, hsize, if_pos hheader, if_true, ge_iff_le, Nat.zero_le]
      rfl
    rw [loop_again hround]
    exact ih hsize hheader

/-- The bound on the rounds is no restriction: a loop that ends at all ends within it. -/
theorem readMessages_of_loop {n : Nat} {s r : Receiver σ ε}
    (h : loop (readMessagesRound handler) n s = some r) : s.readMessages handler = some r := by
  unfold readMessages
  induction n generalizing s with
  | zero => simp [loop] at h
  | succ n ih =>
    cases hround : readMessagesRound handler s with
    | leave r' =>
      rw [loop_leave hround] at h ⊢
      exact h
    | again t =>
      rw [loop_again hround] at h ⊢
      have hloop := ih h
      simp only [readMessagesRound] at hround
      split at hround
      · rename_i hheader
        by_cases hzero : s.expectedMsgSize handler = 0
        · have hnone := loop_zero (n := n + 1) hzero hheader
          rw [loop, readMessagesRound, if_pos hheader] at hnone
          simp only [hround, h] at hnone
          cases hnone
        · simp only [if_neg hzero] at hround
          split at hround
          · obtain rfl := Round.again.inj hround
            refine loop_mono hloop ?_
            simp only [raise, updateForDataRead]
            omega
          · cases hround
      · cases hround

end Receiver

end LuPlatform.Socket
