import LuPlatform.Library.Bytes

/-! The `StringV` data handler. One `readv` fills its two buffers, and they exchange their roles when
everything in the first one is read, so nothing is ever moved. All its functions tell by the offset in
which buffer the bytes lie; taken together, they read and fill one buffer, the second half of which is
behind the first. -/

namespace LuPlatform.Socket

open Bytes

/-- `memcpy` out of a buffer; beyond its end nothing is said. -/
def memcpyFrom (buffer : List UInt8) (offset size : Nat) : Option (List UInt8) :=
  if offset + size ≤ buffer.length then some ((buffer.drop offset).take size) else none

/-- The other direction. -/
def memcpyTo (buffer : List UInt8) (offset : Nat) (bytes : List UInt8) : Option (List UInt8) :=
  if offset + bytes.length ≤ buffer.length then
    some (buffer.take offset ++ bytes ++ buffer.drop (offset + bytes.length))
  else
    none

/-- `data_handler::StringV`. -/
structure StringV where
  buffer1 : List UInt8
  buffer2 : List UInt8
  deriving DecidableEq, Repr

namespace StringV

def BUFFER_SIZE : Nat := 1000

def getReceiveBufferSize : Nat := BUFFER_SIZE * 2

def getSingleBufferSize : Nat := BUFFER_SIZE

def getHeaderSize : Nat := 4

inductive Buffer where
  | buffer1 | buffer2
  deriving DecidableEq, Repr

/-- A piece of one of the buffers. -/
structure IOVec where
  base : Buffer
  offset : Nat
  len : Nat
  deriving DecidableEq, Repr

def swap (h : StringV) : StringV := ⟨h.buffer2, h.buffer1⟩

/-- The bytes that `readHeader` and `readMessage` copy. -/
def copy (h : StringV) (offset size : Nat) : Option (List UInt8) :=
  if offset < BUFFER_SIZE ∧ offset + size ≥ BUFFER_SIZE then do
    let bytesInFirstBuffer := BUFFER_SIZE - offset
    let first ← memcpyFrom h.buffer1 offset bytesInFirstBuffer
    let second ← memcpyFrom h.buffer2 0 (size - bytesInFirstBuffer)
    return first ++ second
  else if offset < BUFFER_SIZE then
    memcpyFrom h.buffer1 offset size
  else
    memcpyFrom h.buffer2 (offset - BUFFER_SIZE) size

def readHeader (h : StringV) (offset : Nat) : Option Nat :=
  (h.copy offset getHeaderSize).map ofLittleEndian

/-- The result is the bytes that are copied into the new message. -/
def readMessage (h : StringV) (offset size : Nat) : Option (List UInt8) :=
  h.copy offset size

/-- The vector that is set up for `readv`; its number of buffers is always two. -/
def getNumberOfBuffers (writeableOffset : Nat) : List IOVec :=
  if writeableOffset < BUFFER_SIZE then
    [⟨.buffer1, writeableOffset, BUFFER_SIZE - writeableOffset⟩, ⟨.buffer2, 0, BUFFER_SIZE⟩]
  else
    let offsetForSecondBuffer := writeableOffset - BUFFER_SIZE
    [⟨.buffer1, 0, 0⟩, ⟨.buffer2, offsetForSecondBuffer, BUFFER_SIZE - offsetForSecondBuffer⟩]

def store (h : StringV) (v : IOVec) (bytes : List UInt8) : Option StringV :=
  match v.base with
  | .buffer1 => (memcpyTo h.buffer1 v.offset bytes).map fun buffer1 => { h with buffer1 }
  | .buffer2 => (memcpyTo h.buffer2 v.offset bytes).map fun buffer2 => { h with buffer2 }

/-- The bytes that `readv` delivers, one piece of the vector after the other. -/
def readv (h : StringV) : List IOVec → List UInt8 → Option StringV
  | [], bytes => if bytes = [] then some h else none
  | v :: vs, bytes => do
    let h ← h.store v (bytes.take v.len)
    h.readv vs (bytes.drop v.len)

/-- How many bytes a vector has room for. -/
def room (vs : List IOVec) : Nat := (vs.map IOVec.len).sum

/-- Where a byte lies that is `offset` bytes behind the start of the first buffer. -/
def position (offset : Nat) : Buffer × Nat :=
  if offset < BUFFER_SIZE then (.buffer1, offset) else (.buffer2, offset - BUFFER_SIZE)

/-- One buffer behind the other. -/
def bytes (h : StringV) : List UInt8 := h.buffer1 ++ h.buffer2

/-- Both buffers have the size they were allocated with. -/
structure Allocated (h : StringV) : Prop where
  buffer1 : h.buffer1.length = BUFFER_SIZE
  buffer2 : h.buffer2.length = BUFFER_SIZE

theorem Allocated.length_bytes {h : StringV} (hh : h.Allocated) :
    h.bytes.length = getReceiveBufferSize := by
  rw [bytes, List.length_append, hh.buffer1, hh.buffer2]
  rfl

theorem Allocated.swap {h : StringV} (hh : h.Allocated) : h.swap.Allocated := ⟨hh.buffer2, hh.buffer1⟩

/-- The three cases of an offset are one. -/
theorem copy_eq {h : StringV} (hh : h.Allocated) {offset size : Nat}
    (hinside : offset + size ≤ getReceiveBufferSize) :
    h.copy offset size = some ((h.bytes.drop offset).take size) := by
  have h₁ := hh.buffer1
  have h₂ := hh.buffer2
  have hsize : getReceiveBufferSize = BUFFER_SIZE + BUFFER_SIZE := rfl
  unfold copy bytes
  split
  · rename_i hstraddles
    have hdrop : (h.buffer1.drop offset).length = BUFFER_SIZE - offset := by
      rw [List.length_drop, h₁]
    have hfirst : memcpyFrom h.buffer1 offset (BUFFER_SIZE - offset) = some (h.buffer1.drop offset) := by
      rw [memcpyFrom, if_pos (by omega), ← hdrop, List.take_length]
    have hsecond : memcpyFrom h.buffer2 0 (size - (BUFFER_SIZE - offset)) =
        some (h.buffer2.take (size - (BUFFER_SIZE - offset))) := by
      rw [memcpyFrom, if_pos (by omega), List.drop_zero]
    have htake : (h.buffer1.drop offset).take size = h.buffer1.drop offset :=
      List.take_of_length_le (by omega)
    simp only [hfirst, hsecond, Option.bind_eq_bind, Option.bind_some, Option.pure_def]
    rw [List.drop_append_of_le_length (by omega), List.take_append, htake, hdrop]
  · split
    · rename_i hfirst
      rw [memcpyFrom, if_pos (by omega), List.drop_append_of_le_length (by omega),
        List.take_append_of_le_length (by rw [List.length_drop]; omega)]
    · rename_i hsecond
      have hdrop : h.buffer1.drop offset = [] := List.drop_eq_nil_of_le (by omega)
      rw [memcpyFrom, if_pos (by omega), List.drop_append, hdrop, h₁, List.nil_append]

theorem copy_of_initial {h : StringV} (hh : h.Allocated) {offset size more : Nat} (hle : size ≤ more)
    (hinside : offset + more ≤ getReceiveBufferSize) :
    h.copy offset size = some (((h.bytes.drop offset).take more).take size) := by
  rw [copy_eq hh (by omega), List.take_take, Nat.min_eq_left hle]

theorem store_buffer1 {h : StringV} {offset : Nat} (len : Nat) {data : List UInt8}
    (hinside : offset + data.length ≤ h.buffer1.length) :
    h.store ⟨.buffer1, offset, len⟩ data = some
      { h with buffer1 := h.buffer1.take offset ++ data ++ h.buffer1.drop (offset + data.length) } := by
  simp only [store, memcpyTo, if_pos hinside, Option.map_some]

theorem store_buffer2 {h : StringV} {offset len : Nat} {data : List UInt8}
    (hinside : offset + data.length ≤ h.buffer2.length) :
    h.store ⟨.buffer2, offset, len⟩ data = some
      { h with buffer2 := h.buffer2.take offset ++ data ++ h.buffer2.drop (offset + data.length) } := by
  simp only [store, memcpyTo, if_pos hinside, Option.map_some]

theorem room_getNumberOfBuffers {writeableOffset : Nat}
    (hinside : writeableOffset ≤ getReceiveBufferSize) :
    room (getNumberOfBuffers writeableOffset) = getReceiveBufferSize - writeableOffset := by
  have hsize : getReceiveBufferSize = BUFFER_SIZE + BUFFER_SIZE := rfl
  unfold getNumberOfBuffers
  split <;> simp only [room, List.map_cons, List.map_nil, List.sum_cons, List.sum_nil] <;> omega

/-- What goes into both buffers. -/
theorem readv_first {h : StringV} (hh : h.Allocated) {writeableOffset : Nat} {data : List UInt8}
    (hinside : writeableOffset + data.length ≤ getReceiveBufferSize)
    (hfirst : writeableOffset < BUFFER_SIZE) :
    ∃ h', h.readv (getNumberOfBuffers writeableOffset) data = some h' ∧ h'.Allocated ∧
      h'.bytes = h.bytes.take writeableOffset ++ data ++
        h.bytes.drop (writeableOffset + data.length) := by
  have h₁ := hh.buffer1
  have h₂ := hh.buffer2
  have hsize : getReceiveBufferSize = BUFFER_SIZE + BUFFER_SIZE := rfl
  set room₁ := BUFFER_SIZE - writeableOffset with hroom₁
  have hvector : getNumberOfBuffers writeableOffset =
      [⟨.buffer1, writeableOffset, room₁⟩, ⟨.buffer2, 0, BUFFER_SIZE⟩] := if_pos hfirst
  have htake : (data.take room₁).length = min room₁ data.length := List.length_take
  have hdrop : (data.drop room₁).length = data.length - room₁ := List.length_drop
  have hall : (data.drop room₁).take BUFFER_SIZE = data.drop room₁ :=
    List.take_of_length_le (by omega)
  have hnone : (data.drop room₁).drop BUFFER_SIZE = [] := List.drop_eq_nil_of_le (by omega)
  refine ⟨⟨h.buffer1.take writeableOffset ++ data.take room₁ ++
      h.buffer1.drop (writeableOffset + (data.take room₁).length),
    h.buffer2.take 0 ++ data.drop room₁ ++ h.buffer2.drop (0 + (data.drop room₁).length)⟩,
    ?_, ⟨?_, ?_⟩, ?_⟩
  · have hstore₁ := store_buffer1 room₁
      (show writeableOffset + (data.take room₁).length ≤ h.buffer1.length by omega)
    simp only [hvector, readv, hstore₁, hall, hnone, Option.bind_eq_bind, Option.bind_some]
    rw [store_buffer2 (by simp only; omega)]
    rfl
  · simp only [List.length_append, List.length_take, List.length_drop]
    omega
  · simp only [List.length_append, List.length_take, List.length_drop]
    omega
  · simp only [bytes, List.take_zero, List.nil_append, Nat.zero_add]
    rw [List.take_append_of_le_length (by omega), List.drop_append, h₁, hdrop, htake]
    -- either the second buffer gets nothing, or nothing of the first one stays
    by_cases hfits : data.length ≤ room₁
    · rw [List.take_of_length_le hfits, List.drop_eq_nil_of_le hfits, Nat.min_eq_right hfits,
        Nat.sub_eq_zero_of_le hfits, Nat.sub_eq_zero_of_le (by omega)]
      simp
    · have hgone : h.buffer1.drop (writeableOffset + min room₁ data.length) = [] :=
        List.drop_eq_nil_of_le (by omega)
      have hgone' : h.buffer1.drop (writeableOffset + data.length) = [] :=
        List.drop_eq_nil_of_le (by omega)
      rw [hgone, hgone', show writeableOffset + data.length - BUFFER_SIZE = data.length - room₁ by omega,
        List.append_nil, List.nil_append, List.append_assoc, ← List.append_assoc (data.take room₁),
        List.take_append_drop, List.append_assoc]

/-- What goes into the second buffer alone. -/
theorem readv_second {h : StringV} (hh : h.Allocated) {writeableOffset : Nat} {data : List UInt8}
    (hinside : writeableOffset + data.length ≤ getReceiveBufferSize)
    (hfirst : ¬writeableOffset < BUFFER_SIZE) :
    ∃ h', h.readv (getNumberOfBuffers writeableOffset) data = some h' ∧ h'.Allocated ∧
      h'.bytes = h.bytes.take writeableOffset ++ data ++
        h.bytes.drop (writeableOffset + data.length) := by
  have h₁ := hh.buffer1
  have h₂ := hh.buffer2
  have hsize : getReceiveBufferSize = BUFFER_SIZE + BUFFER_SIZE := rfl
  have hvector : getNumberOfBuffers writeableOffset = [⟨.buffer1, 0, 0⟩,
      ⟨.buffer2, writeableOffset - BUFFER_SIZE, BUFFER_SIZE - (writeableOffset - BUFFER_SIZE)⟩] :=
    if_neg hfirst
  set offset := writeableOffset - BUFFER_SIZE with hoffset
  have hall : data.take (BUFFER_SIZE - offset) = data := List.take_of_length_le (by omega)
  have hnone : data.drop (BUFFER_SIZE - offset) = [] := List.drop_eq_nil_of_le (by omega)
  refine ⟨⟨h.buffer1,
    h.buffer2.take offset ++ data ++ h.buffer2.drop (offset + data.length)⟩, ?_, ⟨h₁, ?_⟩, ?_⟩
  · have hstore₁ := store_buffer1 0 (show 0 + ([] : List UInt8).length ≤ h.buffer1.length by simp)
    simp only [hvector, readv, List.take_zero, List.drop_zero, hstore₁, hall, hnone,
      Option.bind_eq_bind, Option.bind_some]
    rw [store_buffer2 (by simp only; omega)]
    simp
  · simp only [List.length_append, List.length_take, List.length_drop]
    omega
  · have hdrop : h.buffer1.drop (writeableOffset + data.length) = [] :=
      List.drop_eq_nil_of_le (by omega)
    have htake : h.buffer1.take writeableOffset = h.buffer1 := List.take_of_length_le (by omega)
    rw [bytes, bytes, List.take_append, List.drop_append, h₁, hdrop, htake, ← hoffset,
      show writeableOffset + data.length - BUFFER_SIZE = offset + data.length by omega]
    simp only [List.append_assoc, List.nil_append]

/-- `readv` fills what is behind the writeable offset. -/
theorem readv_eq {h : StringV} (hh : h.Allocated) {writeableOffset : Nat} {data : List UInt8}
    (hinside : writeableOffset + data.length ≤ getReceiveBufferSize) :
    ∃ h', h.readv (getNumberOfBuffers writeableOffset) data = some h' ∧ h'.Allocated ∧
      h'.bytes = h.bytes.take writeableOffset ++ data ++
        h.bytes.drop (writeableOffset + data.length) := by
  by_cases hfirst : writeableOffset < BUFFER_SIZE
  · exact readv_first hh hinside hfirst
  · exact readv_second hh hinside hfirst

end StringV

end LuPlatform.Socket
