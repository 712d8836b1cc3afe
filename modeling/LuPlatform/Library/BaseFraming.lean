import LuPlatform.Library.Bytes

/-! The base framing protocol of RFC 6455, read off its grammar: a frame begins with the bits of its
first byte and the length in the shortest of three forms, then come the key, if the mask bit is set,
and the payload. No extension is negotiated, so the reserved bits are zero. -/

namespace LuPlatform.BaseFraming

open Bytes

/-- A frame, with its payload unmasked. -/
structure BaseFrame where
  fin : Bool
  opcode : Nat
  maskingKey : Option (List UInt8)
  payload : List UInt8
  deriving DecidableEq, Repr

def takeExactly (n : Nat) (bytes : List UInt8) : Option (List UInt8 × List UInt8) :=
  if n ≤ bytes.length then some (bytes.take n, bytes.drop n) else none

/-- The payload length, of which the second byte has seven bits. -/
def payloadLength (low : Nat) (bytes : List UInt8) : Option (Nat × List UInt8) :=
  if low = 126 then
    (takeExactly 2 bytes).bind fun (extended, rest) =>
      if 126 ≤ ofBigEndian extended then some (ofBigEndian extended, rest) else none
  else if low = 127 then
    (takeExactly 8 bytes).bind fun (extended, rest) =>
      if 2 ^ 16 ≤ ofBigEndian extended ∧ ofBigEndian extended < 2 ^ 63 then
        some (ofBigEndian extended, rest)
      else
        none
  else
    some (low, bytes)

/-- Octet `i` is transformed with octet `i` modulo 4 of the key. -/
def unmask (maskingKey : List UInt8) (payload : List UInt8) : List UInt8 :=
  payload.mapIdx fun i b => b ^^^ maskingKey.getD (i % 4) 0

def parseFrame : List UInt8 → Option (BaseFrame × List UInt8)
  | b₀ :: b₁ :: bytes =>
    if b₀ &&& 0x70 = 0 then do
      let (length, bytes) ← payloadLength (b₁ &&& 0x7F).toNat bytes
      let (maskingKey, bytes) ←
        if b₁ &&& 0x80 = 0 then some (none, bytes)
        else (takeExactly 4 bytes).map fun (key, rest) => (some key, rest)
      let (payload, bytes) ← takeExactly length bytes
      return (⟨b₀ &&& 0x80 != 0, (b₀ &&& 0x0F).toNat, maskingKey,
        maskingKey.elim payload fun key => unmask key payload⟩, bytes)
    else
      none
  | _ => none

/-- The bytes are these frames, one after the other, and nothing else. -/
inductive Parses : List UInt8 → List BaseFrame → Prop where
  | nil : Parses [] []
  | cons {bytes rest : List UInt8} {frame : BaseFrame} {frames : List BaseFrame} :
      parseFrame bytes = some (frame, rest) → Parses rest frames → Parses bytes (frame :: frames)

/-- The grammar leaves no choice. -/
theorem Parses.unique {bytes : List UInt8} {frames frames' : List BaseFrame} (h : Parses bytes frames)
    (h' : Parses bytes frames') : frames = frames' := by
  induction h generalizing frames' with
  | nil =>
    cases h' with
    | nil => rfl
    | cons hframe => cases hframe
  | cons hframe _ ih =>
    cases h' with
    | nil => cases hframe
    | cons hframe' hrest =>
      rw [hframe] at hframe'
      obtain ⟨rfl, rfl⟩ := Prod.mk.inj (Option.some.inj hframe')
      rw [ih hrest]

theorem takeExactly_append {n : Nat} {bytes : List UInt8} (h : bytes.length = n) (rest : List UInt8) :
    takeExactly n (bytes ++ rest) = some (bytes, rest) := by
  have hle : n ≤ (bytes ++ rest).length := by
    rw [List.length_append]
    omega
  rw [takeExactly, if_pos hle, List.take_left' h, List.drop_left' h]

/-- Frames that are each parsed whatever follows are parsed together. -/
theorem parses_flatten (frames : List (List UInt8 × BaseFrame))
    (h : ∀ frame ∈ frames, ∀ rest, parseFrame (frame.1 ++ rest) = some (frame.2, rest)) :
    Parses (frames.map Prod.fst).flatten (frames.map Prod.snd) := by
  induction frames with
  | nil => exact .nil
  | cons frame frames ih =>
    have hrest := ih fun other hmem => h other (List.mem_cons_of_mem _ hmem)
    rw [List.map_cons, List.map_cons, List.flatten_cons]
    exact .cons (h frame List.mem_cons_self _) hrest

end LuPlatform.BaseFraming
