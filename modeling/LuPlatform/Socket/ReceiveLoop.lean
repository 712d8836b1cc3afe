import LuPlatform.Library.Loop

/-! The receive loop. The four socket classes keep the same buffer with the same three counters and
run the same loop over it; they differ in `readMessages`, which is a parameter here. Where that
function does not return (it throws, loops for ever or reads outside the buffer) there is no next
state. `memcpy` copies the old bytes also where its two ranges overlap. -/

namespace LuPlatform.Socket

/-- What a socket does to the world. -/
inductive SocketEvent (ε : Type) where
  | onOpen
  | onData (bytes : List UInt8)
  | onFrame (event : ε)
  | send (bytes : List UInt8)
  | stop
  deriving DecidableEq, Repr

/-- The receive buffer with its counters, and `own`, the other fields of the class. -/
structure Receiver (σ ε : Type) where
  buffer : List UInt8
  readOffset : Nat := 0
  numberOfBytesLeftToRead : Nat := 0
  numberOfBytesLeftToRecv : Nat
  own : σ
  events : List (SocketEvent ε) := []
  deriving DecidableEq, Repr

namespace Receiver

variable {σ ε : Type}

/-- The constructor over a buffer. -/
def new (buffer : List UInt8) (own : σ) : Receiver σ ε where
  buffer
  numberOfBytesLeftToRecv := buffer.length
  own

def receiveBufferShiftSize (s : Receiver σ ε) : Nat := s.buffer.length / 4

/-- The buffered bytes that were not consumed yet. -/
def unread (s : Receiver σ ε) : List UInt8 :=
  (s.buffer.drop s.readOffset).take s.numberOfBytesLeftToRead

/-- Where the window handed to `recv` ends. -/
def windowEnd (s : Receiver σ ε) : Nat :=
  s.readOffset + s.numberOfBytesLeftToRead + s.numberOfBytesLeftToRecv

def raise (s : Receiver σ ε) (event : SocketEvent ε) : Receiver σ ε :=
  { s with events := s.events ++ [event] }

def updateForDataRead (s : Receiver σ ε) (size : Nat) : Receiver σ ε :=
  { s with
    readOffset := s.readOffset + size
    numberOfBytesLeftToRead := s.numberOfBytesLeftToRead - size }

/-- The bytes `recv` delivered, at the start of its window. Outside the buffer nothing is said. -/
def fill (s : Receiver σ ε) (bytes : List UInt8) : Option (Receiver σ ε) :=
  let start := s.readOffset + s.numberOfBytesLeftToRead
  if start + bytes.length ≤ s.buffer.length then
    some { s with
      buffer := s.buffer.take start ++ bytes ++ s.buffer.drop (start + bytes.length)
      numberOfBytesLeftToRead := s.numberOfBytesLeftToRead + bytes.length }
  else
    none

/-- The end of a round of the loop: what is left is moved to the front of the buffer, unless it is
more than a quarter of it. -/
def rewind (s : Receiver σ ε) : Receiver σ ε :=
  if s.numberOfBytesLeftToRead = 0 then
    { s with readOffset := 0, numberOfBytesLeftToRecv := s.buffer.length }
  else if s.numberOfBytesLeftToRead ≤ s.receiveBufferShiftSize then
    { s with
      buffer := s.unread ++ s.buffer.drop s.numberOfBytesLeftToRead
      readOffset := 0
      numberOfBytesLeftToRecv := s.buffer.length - s.numberOfBytesLeftToRead }
  else
    s

section Receive

variable (readMessages : Receiver σ ε → Option (Receiver σ ε))

/-- A call of `recv` that delivers bytes, and the rest of the round. -/
def receiveRound (s : Receiver σ ε) (bytes : List UInt8) : Option (Receiver σ ε) := do
  let s ← s.fill bytes
  let s ← readMessages s
  return s.rewind

/-- The data that the successive calls of `recv` in one call of `Receive` deliver; the call after
them would block, or fails. -/
def receive (s : Receiver σ ε) (chunks : List (List UInt8)) : Option (Receiver σ ε) :=
  chunks.foldlM (receiveRound readMessages) s

/-- Successive calls of `Receive`. -/
def receiveCalls (s : Receiver σ ε) (calls : List (List (List UInt8))) : Option (Receiver σ ε) :=
  calls.foldlM (receive readMessages) s

/-- Every `recv` delivers at least one byte and at most as many as it was asked for. -/
def Delivered (s : Receiver σ ε) : List (List UInt8) → Prop
  | [] => True
  | bytes :: chunks =>
    1 ≤ bytes.length ∧ bytes.length ≤ s.numberOfBytesLeftToRecv ∧
      ∀ s', s.receiveRound readMessages bytes = some s' → s'.Delivered chunks

variable {readMessages}

@[simp] theorem receive_nil (s : Receiver σ ε) : receive readMessages s [] = some s := rfl

theorem receive_cons {s s' : Receiver σ ε} {bytes : List UInt8}
    (h : receiveRound readMessages s bytes = some s') (chunks : List (List UInt8)) :
    receive readMessages s (bytes :: chunks) = receive readMessages s' chunks := by
  simp [receive, h]

theorem receive_append (s : Receiver σ ε) (a b : List (List UInt8)) :
    receive readMessages s (a ++ b) =
      (receive readMessages s a).bind fun s' => receive readMessages s' b :=
  List.foldlM_append

/-- A call that ends for lack of data changes nothing, so calls only divide one run. -/
theorem receiveCalls_flatten (s : Receiver σ ε) (calls : List (List (List UInt8))) :
    receiveCalls readMessages s calls = receive readMessages s calls.flatten := by
  induction calls generalizing s with
  | nil => rfl
  | cons call calls ih =>
    rw [List.flatten_cons, receive_append]
    simp only [receiveCalls, List.foldlM_cons] at ih ⊢
    exact congrArg _ (funext ih)

theorem delivered_single {s : Receiver σ ε} {bytes : List UInt8} (hpos : 1 ≤ bytes.length)
    (hasked : bytes.length ≤ s.numberOfBytesLeftToRecv) : s.Delivered readMessages [bytes] :=
  ⟨hpos, hasked, fun _ _ => trivial⟩

end Receive

/-! ### One round -/

theorem fill_eq_some {s s' : Receiver σ ε} {bytes : List UInt8} (h : s.fill bytes = some s') :
    s.readOffset + s.numberOfBytesLeftToRead + bytes.length ≤ s.buffer.length ∧
      s' = { s with
        buffer := s.buffer.take (s.readOffset + s.numberOfBytesLeftToRead) ++ bytes ++
          s.buffer.drop (s.readOffset + s.numberOfBytesLeftToRead + bytes.length)
        numberOfBytesLeftToRead := s.numberOfBytesLeftToRead + bytes.length } := by
  simp only [fill] at h
  split at h
  · rename_i hle
    exact ⟨hle, (Option.some.inj h).symm⟩
  · cases h

theorem fill_isSome {s : Receiver σ ε} {bytes : List UInt8}
    (h : s.readOffset + s.numberOfBytesLeftToRead + bytes.length ≤ s.buffer.length) :
    ∃ s', s.fill bytes = some s' := by
  rw [fill]
  exact ⟨_, if_pos h⟩

theorem length_buffer_fill {s s' : Receiver σ ε} {bytes : List UInt8}
    (h : s.fill bytes = some s') : s'.buffer.length = s.buffer.length := by
  obtain ⟨hle, rfl⟩ := fill_eq_some h
  simp only [List.length_append, List.length_take, List.length_drop]
  omega

/-- The new bytes come behind the ones that were left. -/
theorem unread_fill {s s' : Receiver σ ε} {bytes : List UInt8} (h : s.fill bytes = some s') :
    s'.unread = s.unread ++ bytes := by
  obtain ⟨hle, rfl⟩ := fill_eq_some h
  have hstart : (s.buffer.take (s.readOffset + s.numberOfBytesLeftToRead)).drop s.readOffset =
      s.unread := by
    rw [unread, List.drop_take, Nat.add_sub_cancel_left]
  have hfront : s.readOffset ≤
      (s.buffer.take (s.readOffset + s.numberOfBytesLeftToRead)).length := by
    rw [List.length_take]
    omega
  have hlength : s.unread.length = s.numberOfBytesLeftToRead := by
    rw [unread, List.length_take, List.length_drop]
    omega
  have hwhole : s.numberOfBytesLeftToRead + bytes.length = (s.unread ++ bytes).length := by
    rw [List.length_append, hlength]
  rw [unread, List.append_assoc, List.drop_append_of_le_length hfront, hstart]
  simp only [hwhole]
  rw [← List.append_assoc, List.take_left]

theorem length_unread {s : Receiver σ ε}
    (h : s.readOffset + s.numberOfBytesLeftToRead ≤ s.buffer.length) :
    s.unread.length = s.numberOfBytesLeftToRead := by
  rw [unread, List.length_take, List.length_drop]
  omega

theorem unread_updateForDataRead (s : Receiver σ ε) (size : Nat) :
    (s.updateForDataRead size).unread = s.unread.drop size := by
  rw [unread, unread, updateForDataRead, List.drop_take, List.drop_drop]

/-- Unless the leftover is too large, a round ends at the front of the buffer. -/
theorem rewind_front {s : Receiver σ ε} (hinside : s.readOffset + s.numberOfBytesLeftToRead ≤
      s.buffer.length) (h : s.numberOfBytesLeftToRead ≤ s.receiveBufferShiftSize) :
    s.rewind.buffer.length = s.buffer.length ∧ s.rewind.readOffset = 0 ∧
      s.rewind.numberOfBytesLeftToRead = s.numberOfBytesLeftToRead ∧
      s.rewind.numberOfBytesLeftToRecv = s.buffer.length - s.numberOfBytesLeftToRead ∧
      s.rewind.unread = s.unread ∧ s.rewind.own = s.own ∧ s.rewind.events = s.events := by
  have hlength := length_unread hinside
  by_cases hzero : s.numberOfBytesLeftToRead = 0
  · have hrewind : s.rewind = { s with
        readOffset := 0
        numberOfBytesLeftToRecv := s.buffer.length } := if_pos hzero
    rw [hrewind]
    exact ⟨rfl, rfl, rfl, by rw [hzero]; rfl, by simp [unread, hzero], rfl, rfl⟩
  · have hrewind : s.rewind = { s with
        buffer := s.unread ++ s.buffer.drop s.numberOfBytesLeftToRead
        readOffset := 0
        numberOfBytesLeftToRecv := s.buffer.length - s.numberOfBytesLeftToRead } := by
      rw [rewind, if_neg hzero, if_pos h]
    rw [hrewind]
    refine ⟨?_, rfl, rfl, rfl, ?_, rfl, rfl⟩
    · rw [List.length_append, hlength, List.length_drop]
      omega
    · conv => lhs; rw [unread, List.drop_zero, ← hlength]
      exact List.take_left

theorem rewind_own (s : Receiver σ ε) : s.rewind.own = s.own ∧ s.rewind.events = s.events := by
  unfold rewind
  split
  · exact ⟨rfl, rfl⟩
  · split <;> exact ⟨rfl, rfl⟩

/-- With a larger leftover it changes nothing. -/
theorem rewind_overfull {s : Receiver σ ε}
    (h : s.receiveBufferShiftSize < s.numberOfBytesLeftToRead) : s.rewind = s := by
  rw [rewind, if_neg (by omega), if_neg (by omega)]

end Receiver

end LuPlatform.Socket
