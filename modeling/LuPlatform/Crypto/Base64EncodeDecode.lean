import LuPlatform.Library.Base64
import LuPlatform.Utils.DelimiterTextParser
import Mathlib.Tactic.Ring

/-! The buffer a Base64 text is decoded into. Its length is an estimate from the length of the text and
its last two characters; the decoder works from the front and emits complete groups. -/

namespace LuPlatform.Crypto

open Base64 Utils

/-- A `std::string`. Its length stays below `max_size`. -/
structure B64Message where
  text : List UInt8
  length_lt : text.length < 2 ^ 62

/-- What `decode` leaves: the capacity of the buffer, and the bytes the decoder wrote to it. -/
structure Decoded where
  capacity : BitVec 64
  written : Nat
  deriving DecidableEq, Repr

namespace B64Message

def size (s : B64Message) : BitVec 64 := BitVec.ofNat 64 s.text.length

/-- `operator[]`: a character, or the NUL behind the last one. Every other index is outside. -/
def index (s : B64Message) (i : BitVec 64) : Option UInt8 :=
  if i = s.size then some 0 else s.text[i.toNat]?

def calcDecodeLength (b64message : B64Message) : Option (BitVec 64) := do
  let len := b64message.size
  let last ← b64message.index (len - 1)
  let padding ←
    if last = pad then do
      let before ← b64message.index (len - 2)
      pure (if before = pad then (2 : BitVec 64) else 1)
    else
      pure 0
  return len * 3 / 4 - padding

/-- The length `BIO_read` is called with. -/
def readLength (s : B64Message) : Int := ((s.size + 1).setWidth 32).toInt

/-- `BIO_read` writes nothing for a negative length. -/
def written (s : B64Message) : Nat := min (decodedLength (untilNul s.text)) s.readLength.toNat

def decode (b64message : B64Message) : Option Decoded :=
  b64message.calcDecodeLength.map fun decodeLen => ⟨decodeLen, b64message.written⟩

@[simp] theorem size_toNat (s : B64Message) : s.size.toNat = s.text.length := by
  have hlt := s.length_lt
  rw [size, BitVec.toNat_ofNat, Nat.mod_eq_of_lt (by omega)]

theorem sub_toNat {s : B64Message} {k : Nat} (h : k ≤ s.text.length) :
    (s.size - BitVec.ofNat 64 k).toNat = s.text.length - k := by
  have hlt := s.length_lt
  have hk : (BitVec.ofNat 64 k).toNat = k := by
    rw [BitVec.toNat_ofNat, Nat.mod_eq_of_lt (by omega)]
  rw [BitVec.toNat_sub_of_le (by rw [BitVec.le_def, hk, size_toNat]; exact h), hk, size_toNat]

/-- Counted from the end, an index finds the character of the reversed text. -/
theorem index_sub {s : B64Message} {k : Nat} (h : k < s.text.length) :
    s.index (s.size - BitVec.ofNat 64 (k + 1)) = s.text.reverse[k]? := by
  have hsub := sub_toNat (s := s) (Nat.succ_le_of_lt h)
  have hne : s.size - BitVec.ofNat 64 (k + 1) ≠ s.size := by
    intro heq
    have := congrArg BitVec.toNat heq
    rw [hsub, size_toNat] at this
    omega
  rw [index, if_neg hne, hsub, List.getElem?_reverse h]
  congr 1
  omega

/-- An index that passes the front wraps around. -/
theorem index_outside {s : B64Message} {k : Nat} (hk : s.text.length < k) (hfew : k ≤ 2) :
    s.index (s.size - BitVec.ofNat 64 k) = none := by
  have hlt := s.length_lt
  have hwrap : (s.size - BitVec.ofNat 64 k).toNat = 2 ^ 64 - k + s.text.length := by
    rw [BitVec.toNat_sub, size_toNat, BitVec.toNat_ofNat, Nat.mod_eq_of_lt (a := k) (by omega),
      Nat.mod_eq_of_lt (by omega)]
  have hne : s.size - BitVec.ofNat 64 k ≠ s.size := by
    intro heq
    have := congrArg BitVec.toNat heq
    rw [hwrap, size_toNat] at this
    omega
  rw [index, if_neg hne, List.getElem?_eq_none (by omega)]

theorem calcDecodeLength_of_outside {s : B64Message} (h : s.index (s.size - 1) = none) :
    s.calcDecodeLength = none := by
  rw [calcDecodeLength]
  simp only [h, Option.bind_eq_bind, Option.bind_none]

theorem calcDecodeLength_of_ne {s : B64Message} {last : UInt8} (h : s.index (s.size - 1) = some last)
    (hne : last ≠ pad) : s.calcDecodeLength = some (s.size * 3 / 4 - 0) := by
  rw [calcDecodeLength]
  simp only [h, hne, Option.bind_eq_bind, Option.bind_some, if_false, Option.pure_def]

theorem calcDecodeLength_of_pad {s : B64Message} (h : s.index (s.size - 1) = some pad) :
    s.calcDecodeLength = (s.index (s.size - 2)).map fun before =>
      s.size * 3 / 4 - if before = pad then 2 else 1 := by
  rw [calcDecodeLength]
  simp only [h, Option.bind_eq_bind, Option.bind_some, if_true, Option.pure_def]
  cases s.index (s.size - 2) with
  | none => rfl
  | some before => rfl

theorem calcDecodeLength_nil {s : B64Message} (h : s.text = []) : s.calcDecodeLength = none := by
  apply calcDecodeLength_of_outside
  exact index_outside (k := 1) (by simp [h]) (by omega)

theorem calcDecodeLength_pad {s : B64Message} (h : s.text = [pad]) : s.calcDecodeLength = none := by
  have hlast : s.index (s.size - 1) = s.text.reverse[0]? := index_sub (by simp [h])
  have hbefore : s.index (s.size - 2) = none :=
    index_outside (k := 2) (by simp [h]) (by omega)
  rw [calcDecodeLength_of_pad (by rw [hlast, h]; rfl), hbefore]
  rfl

/-- At most two of the padding characters count. -/
theorem calcDecodeLength_eq {s : B64Message} (hne : s.text ≠ []) (hpad : s.text ≠ [pad]) :
    s.calcDecodeLength = some (s.size * 3 / 4 - BitVec.ofNat 64 (min 2 (pads s.text))) := by
  have hlast : s.index (s.size - 1) = s.text.reverse[0]? := index_sub (List.length_pos_iff.2 hne)
  rw [pads]
  cases hrev : s.text.reverse with
  | nil => exact absurd (List.reverse_eq_nil_iff.1 hrev) hne
  | cons last front =>
    rw [hrev] at hlast
    by_cases hl : last = pad
    · rw [hl] at hlast hrev
      cases front with
      | nil => exact absurd (List.reverse_eq_iff.1 hrev) hpad
      | cons before front =>
        have hlen : 1 < s.text.length := by
          rw [← List.length_reverse, hrev]
          simp
        have hbefore : s.index (s.size - 2) = s.text.reverse[1]? := index_sub hlen
        rw [calcDecodeLength_of_pad hlast, hbefore, hrev, hl, leading_cons_pad]
        by_cases hb : before = pad
        · have hcount : min 2 (leading (before :: front) + 1) = 2 := by
            rw [hb, leading_cons_pad]
            omega
          rw [hcount, hb]
          rfl
        · rw [leading_cons_of_ne hb]
          simp [hb]
    · rw [calcDecodeLength_of_ne hlast hl, leading_cons_of_ne hl]
      rfl

theorem estimate_toNat (s : B64Message) {padding : Nat} (h : padding ≤ 2) :
    (s.size * 3 / 4 - BitVec.ofNat 64 padding).toNat =
      if padding ≤ 3 * s.text.length / 4 then 3 * s.text.length / 4 - padding
      else 2 ^ 64 + 3 * s.text.length / 4 - padding := by
  have hlt := s.length_lt
  have hquot : (s.size * 3 / 4).toNat = 3 * s.text.length / 4 := by
    have hmul : s.text.length * 3 % 2 ^ 64 = s.text.length * 3 := Nat.mod_eq_of_lt (by omega)
    have hthree : (3 : BitVec 64).toNat = 3 := rfl
    have hfour : (4 : BitVec 64).toNat = 4 := rfl
    rw [BitVec.toNat_udiv, BitVec.toNat_mul, size_toNat, hthree, hfour, hmul, Nat.mul_comm]
  rw [BitVec.toNat_sub, hquot, BitVec.toNat_ofNat, Nat.mod_eq_of_lt (a := padding) (by omega)]
  split <;> omega

theorem readLength_lt (s : B64Message) : s.readLength.toNat < 2 ^ 31 := by
  have hlt := BitVec.toInt_lt (x := (s.size + 1).setWidth 32)
  rw [readLength]
  omega

theorem readLength_toNat (s : B64Message) (h : s.text.length + 1 < 2 ^ 32) :
    s.readLength.toNat = if s.text.length + 1 < 2 ^ 31 then s.text.length + 1 else 0 := by
  have hnat : ((s.size + 1).setWidth 32).toNat = s.text.length + 1 := by
    have hone : (1 : BitVec 64).toNat = 1 := rfl
    rw [BitVec.toNat_setWidth, BitVec.toNat_add, size_toNat, hone]
    omega
  rw [readLength, BitVec.toInt_eq_toNat_cond, hnat]
  split <;> split <;> omega

/-- Behind a NUL there is room for all the padding. -/
theorem untilNul_length_add_pads {text : List UInt8} (h : 0 ∈ text) :
    (untilNul text).length + 1 + pads text ≤ text.length := by
  obtain ⟨front, behind, htext, hfront⟩ := List.eq_append_cons_of_mem h
  have huntil : untilNul (front ++ 0 :: behind) = front := by
    rw [untilNul, List.takeWhile_append_of_pos]
    · simp
    · intro b hb
      have hne : b ≠ 0 := fun heq => hfront (heq ▸ hb)
      simpa using hne
  have hpads := pads_append_cons_le (c := 0) (by decide) front behind
  rw [htext, huntil, List.length_append, List.length_cons]
  omega

/-- Texts whose last characters promise less than the complete groups hold: an incomplete tail of one
character with one or two padding characters at the end, or of two characters with two. -/
def Underestimated (s : B64Message) : Prop :=
  0 ∉ s.text ∧ 4 < s.text.length ∧ s.text.length + 1 < 2 ^ 31 ∧
    (s.text.length % 4 = 1 ∧ (pads s.text = 1 ∨ pads s.text = 2) ∨
      s.text.length % 4 = 2 ∧ pads s.text = 2)

instance (s : B64Message) : Decidable s.Underestimated :=
  inferInstanceAs (Decidable (_ ∧ _ ∧ _ ∧ _))

/-- The bytes written fit into the estimate. -/
theorem written_le_iff (s : B64Message) :
    s.written ≤ (s.size * 3 / 4 - BitVec.ofNat 64 (min 2 (pads s.text))).toNat ↔
      ¬s.Underestimated := by
  have hlt := s.length_lt
  have hread := readLength_lt s
  rw [estimate_toNat s (Nat.min_le_left _ _), written]
  by_cases hnul : 0 ∈ s.text
  · have hroom := untilNul_length_add_pads hnul
    have hle := decodedLength_le (untilNul s.text)
    have hno : ¬s.Underestimated := fun hunder => hunder.1 hnul
    simp only [hno, not_false_eq_true, iff_true]
    split <;> omega
  · rw [untilNul_of_not_mem hnul, Underestimated]
    have hle := decodedLength_le s.text
    by_cases hsmall : s.text.length + 1 < 2 ^ 31
    · rw [readLength_toNat s (by omega), if_pos hsmall]
      simp only [hnul, hsmall, not_false_eq_true, true_and]
      by_cases htail : s.text.length % 4 ≤ pads s.text
      · rw [decodedLength_eq htail]
        split <;> omega
      · split <;> omega
    · have hno : s.written = 0 ∨ 2 ^ 31 ≤ 3 * s.text.length / 4 - 2 := by
        by_cases hmiddle : s.text.length + 1 < 2 ^ 32
        · rw [written, readLength_toNat s hmiddle, if_neg hsmall]
          exact Or.inl (Nat.min_zero _)
        · omega
      rw [written, untilNul_of_not_mem hnul] at hno
      simp only [hsmall, false_and, and_false, not_false_eq_true, iff_true]
      split <;> omega

theorem calcDecodeLength_encode {s : B64Message} {bytes : List UInt8} (hne : bytes ≠ [])
    (h : s.text = encode bytes) : s.calcDecodeLength.map BitVec.toNat = some bytes.length := by
  have hlength : s.text.length = 4 * ((bytes.length + 2) / 3) := by rw [h, length_encode]
  have hpos : 0 < bytes.length := List.length_pos_iff.2 hne
  have hpads : pads s.text = 3 * ((bytes.length + 2) / 3) - bytes.length := by rw [h, pads_encode hne]
  have hnil : s.text ≠ [] := by
    apply List.length_pos_iff.1
    omega
  have hpad : s.text ≠ [pad] := by
    intro heq
    rw [heq, List.length_singleton] at hlength
    omega
  rw [calcDecodeLength_eq hnil hpad, Option.map_some, estimate_toNat s (Nat.min_le_left _ _)]
  congr 1
  split <;> omega

/-- The estimate is made without a look outside the text, holds all the bytes that are written, and is
exact for an encoding. -/
def Suffices (s : B64Message) : Prop :=
  (∃ decoded, s.decode = some decoded ∧ decoded.written ≤ decoded.capacity.toNat) ∧
    ∀ bytes ≠ [], s.text = encode bytes → s.calcDecodeLength.map BitVec.toNat = some bytes.length

end B64Message

end LuPlatform.Crypto
