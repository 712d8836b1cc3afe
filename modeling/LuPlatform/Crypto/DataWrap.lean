import Mathlib.Tactic.Common

/-! The owning byte buffer of the crypto layer. `data` is the array behind the pointer, or `none`
once it was moved away; `length` and `offset` are the two counters kept beside it. -/

namespace LuPlatform.Crypto

structure DataWrap where
  data : Option (List UInt8)
  length : Nat
  offset : Nat
  deriving DecidableEq, Repr

namespace DataWrap

/-- The constructor: `length` bytes, all zero. -/
def new (length : Nat) : DataWrap := ⟨some (List.replicate length 0), length, 0⟩

def getData (w : DataWrap) : List UInt8 := w.data.getD []
def getCapacity (w : DataWrap) : Nat := w.length
def getDataLength (w : DataWrap) : Nat := w.offset

/-- Copies `bytes` behind the data already there, or refuses and leaves everything as it is. -/
def append (w : DataWrap) (bytes : List UInt8) : DataWrap × Bool :=
  if w.offset + bytes.length > w.length then
    (w, false)
  else
    ({ w with
        data := w.data.map fun old =>
          old.take w.offset ++ bytes ++ old.drop (w.offset + bytes.length)
        offset := w.offset + bytes.length }, true)

def clear (w : DataWrap) : DataWrap := { w with offset := 0 }

/-- The bytes appended so far. -/
def contents (w : DataWrap) : List UInt8 := w.getData.take w.getDataLength

theorem append_eq {w : DataWrap} {bytes : List UInt8} (h : w.offset + bytes.length ≤ w.length) :
    w.append bytes = ({ w with
      data := w.data.map fun old =>
        old.take w.offset ++ bytes ++ old.drop (w.offset + bytes.length)
      offset := w.offset + bytes.length }, true) := by
  rw [append, if_neg (by omega)]

/-- The array has the recorded length and holds at least the appended bytes. -/
structure Owns (w : DataWrap) : Prop where
  array : ∃ bytes, w.data = some bytes ∧ bytes.length = w.length
  offset_le : w.offset ≤ w.length

theorem new_owns (length : Nat) : (new length).Owns :=
  ⟨⟨_, rfl, by simp [new]⟩, Nat.zero_le _⟩

theorem Owns.append {w : DataWrap} {bytes : List UInt8} (h : w.Owns)
    (fits : w.offset + bytes.length ≤ w.length) : (w.append bytes).1.Owns := by
  obtain ⟨old, hold, hlen⟩ := h.array
  rw [append_eq fits]
  refine ⟨⟨_, congrArg (Option.map _) hold, ?_⟩, fits⟩
  simp only [List.length_append, List.length_take, List.length_drop]
  omega

theorem contents_append {w : DataWrap} {bytes : List UInt8} (h : w.Owns)
    (fits : w.offset + bytes.length ≤ w.length) :
    (w.append bytes).1.contents = w.contents ++ bytes := by
  obtain ⟨old, hold, hlen⟩ := h.array
  have htake : (old.take w.offset).length = w.offset := by
    rw [List.length_take]; omega
  rw [append_eq fits]
  simp only [contents, getData, getDataLength, hold, Option.map_some, Option.getD_some]
  have hlength : (old.take w.offset ++ bytes).length = w.offset + bytes.length := by
    rw [List.length_append, htake]
  rw [← hlength, List.take_left]

theorem Owns.length_contents {w : DataWrap} (h : w.Owns) : w.contents.length = w.offset := by
  obtain ⟨old, hold, hlen⟩ := h.array
  have hle := h.offset_le
  simp only [contents, getData, getDataLength, hold, Option.getD_some, List.length_take]
  omega

@[simp] theorem contents_new (length : Nat) : (new length).contents = [] := by
  simp [contents, new, getDataLength]

/-- A buffer of `capacity` bytes into which exactly `bytes` were appended. -/
structure Holds (w : DataWrap) (capacity : Nat) (bytes : List UInt8) : Prop where
  owns : w.Owns
  length_eq : w.length = capacity
  contents_eq : w.contents = bytes

theorem new_holds (length : Nat) : (new length).Holds length [] :=
  ⟨new_owns length, rfl, contents_new length⟩

theorem Holds.append {w : DataWrap} {capacity : Nat} {old bytes : List UInt8}
    (h : w.Holds capacity old) (fits : old.length + bytes.length ≤ capacity) :
    (w.append bytes).1.Holds capacity (old ++ bytes) := by
  have hfits : w.offset + bytes.length ≤ w.length := by
    rw [← h.owns.length_contents, h.contents_eq, h.length_eq]
    exact fits
  refine ⟨h.owns.append hfits, ?_, ?_⟩
  · rw [append_eq hfits]
    exact h.length_eq
  · rw [contents_append h.owns hfits, h.contents_eq]

end DataWrap

end LuPlatform.Crypto
