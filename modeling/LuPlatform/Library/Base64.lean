import Mathlib.Data.List.TakeWhile
import Mathlib.Tactic.Common

/-! Base64 texts: the encoding of bytes in groups of four characters, and the padding at the end of a
text. -/

namespace LuPlatform.Base64

def pad : UInt8 := 61

/-- The character of six bits. -/
def digit (n : Nat) : UInt8 :=
  if n < 26 then UInt8.ofNat (n + 65)
  else if n < 52 then UInt8.ofNat (n + 71)
  else if n < 62 then UInt8.ofNat (n - 4)
  else if n = 62 then 43
  else 47

def encode : List UInt8 → List UInt8
  | [] => []
  | [a] => [digit (a.toNat / 4), digit (a.toNat % 4 * 16), pad, pad]
  | [a, b] =>
    [digit (a.toNat / 4), digit (a.toNat % 4 * 16 + b.toNat / 16), digit (b.toNat % 16 * 4), pad]
  | a :: b :: c :: bytes =>
    digit (a.toNat / 4) :: digit (a.toNat % 4 * 16 + b.toNat / 16) ::
      digit (b.toNat % 16 * 4 + c.toNat / 64) :: digit (c.toNat % 64) :: encode bytes

/-- How many padding characters begin a text. -/
def leading (text : List UInt8) : Nat := (text.takeWhile (· = pad)).length

/-- How many padding characters end a text. -/
def pads (text : List UInt8) : Nat := leading text.reverse

/-- The last complete group of four characters. -/
def lastGroup (text : List UInt8) : List UInt8 :=
  (text.take (4 * (text.length / 4))).drop (4 * (text.length / 4) - 4)

/-- The bytes in the complete groups of a text: three for each, less the padding of the last one. -/
def decodedLength (text : List UInt8) : Nat := 3 * (text.length / 4) - pads (lastGroup text)

theorem digit_ne_pad {n : Nat} (h : n < 64) : digit n ≠ pad := by
  have hall : ∀ n < 64, digit n ≠ pad := by decide
  exact hall n h

theorem length_encode (bytes : List UInt8) : (encode bytes).length = 4 * ((bytes.length + 2) / 3) := by
  induction bytes using encode.induct with
  | case1 => rfl
  | case2 a => simp [encode]
  | case3 a b => simp [encode]
  | case4 a b c bytes ih =>
    simp only [encode, List.length_cons, ih]
    omega

@[simp] theorem leading_nil : leading [] = 0 := rfl

theorem leading_cons_pad (text : List UInt8) : leading (pad :: text) = leading text + 1 := by
  simp [leading]

theorem leading_cons_of_ne {c : UInt8} (h : c ≠ pad) (text : List UInt8) : leading (c :: text) = 0 := by
  simp [leading, h]

theorem leading_le_length (text : List UInt8) : leading text ≤ text.length :=
  (List.takeWhile_prefix _).length_le

theorem leading_take (text : List UInt8) (n : Nat) : leading (text.take n) = min n (leading text) := by
  induction text generalizing n with
  | nil => simp
  | cons c text ih =>
    cases n with
    | zero => simp
    | succ n =>
      rw [List.take_succ_cons]
      by_cases hc : c = pad
      · rw [hc, leading_cons_pad, leading_cons_pad, ih]
        omega
      · rw [leading_cons_of_ne hc, leading_cons_of_ne hc, Nat.min_zero]

theorem leading_drop {text : List UInt8} {n : Nat} (h : n ≤ leading text) :
    leading (text.drop n) = leading text - n := by
  induction text generalizing n with
  | nil => simp
  | cons c text ih =>
    cases n with
    | zero => rfl
    | succ n =>
      by_cases hc : c = pad
      · rw [hc, leading_cons_pad] at h ⊢
        rw [List.drop_succ_cons, ih (by omega)]
        omega
      · rw [leading_cons_of_ne hc] at h
        omega

/-- A character that is no padding hides what lies behind it. -/
theorem leading_append {text behind : List UInt8} (h : ∃ c ∈ text, c ≠ pad) :
    leading (text ++ behind) = leading text := by
  obtain ⟨c, hc, hne⟩ := h
  rw [leading, leading, List.takeWhile_append, if_neg]
  intro hall
  have hsame : text.takeWhile (· = pad) = text := (List.takeWhile_prefix _).eq_of_length hall
  have hpad := List.takeWhile_eq_self_iff.1 hsame c hc
  exact hne (by simpa using hpad)

/-- Leading padding ends before a character that is none. -/
theorem leading_append_cons_le {c : UInt8} (h : c ≠ pad) (text behind : List UInt8) :
    leading (text ++ c :: behind) ≤ text.length := by
  induction text with
  | nil => simp [leading_cons_of_ne h]
  | cons first text ih =>
    rw [List.cons_append]
    by_cases hfirst : first = pad
    · rw [hfirst, leading_cons_pad, List.length_cons]
      exact Nat.succ_le_succ ih
    · rw [leading_cons_of_ne hfirst]
      exact Nat.zero_le _

theorem pads_append_cons_le {c : UInt8} (h : c ≠ pad) (front text : List UInt8) :
    pads (front ++ c :: text) ≤ text.length := by
  have hle := leading_append_cons_le h text.reverse front.reverse
  simpa [pads] using hle

theorem pads_append {front text : List UInt8} (h : ∃ c ∈ text, c ≠ pad) :
    pads (front ++ text) = pads text := by
  obtain ⟨c, hc, hne⟩ := h
  rw [pads, pads, List.reverse_append, leading_append ⟨c, List.mem_reverse.2 hc, hne⟩]

theorem pads_lastGroup (text : List UInt8) :
    pads (lastGroup text) = min 4 (leading (text.reverse.drop (text.length % 4))) := by
  have htail : (text.take (4 * (text.length / 4))).reverse = text.reverse.drop (text.length % 4) := by
    rw [List.reverse_take]
    congr 1
    omega
  rw [pads, lastGroup, List.reverse_drop, htail, leading_take]
  have hle := leading_le_length (text.reverse.drop (text.length % 4))
  simp only [List.length_drop, List.length_reverse, List.length_take] at hle ⊢
  omega

theorem decodedLength_le (text : List UInt8) : decodedLength text ≤ 3 * (text.length / 4) :=
  Nat.sub_le _ _

/-- Where the padding fills the incomplete tail, the rest of it ends the last complete group. -/
theorem decodedLength_eq {text : List UInt8} (h : text.length % 4 ≤ pads text) :
    decodedLength text = 3 * (text.length / 4) - min 4 (pads text - text.length % 4) := by
  rw [decodedLength, pads_lastGroup, leading_drop h, pads]

/-- The padding fills up the last group. -/
theorem pads_encode {bytes : List UInt8} (h : bytes ≠ []) :
    pads (encode bytes) = 3 * ((bytes.length + 2) / 3) - bytes.length := by
  induction bytes using encode.induct with
  | case1 => exact absurd rfl h
  | case2 a =>
    have hne : digit (a.toNat % 4 * 16) ≠ pad := digit_ne_pad (by omega)
    simp [pads, encode, leading, hne]
  | case3 a b =>
    have hne : digit (b.toNat % 16 * 4) ≠ pad := digit_ne_pad (by omega)
    simp [pads, encode, leading, hne]
  | case4 a b c bytes ih =>
    have hne : digit (c.toNat % 64) ≠ pad := digit_ne_pad (by omega)
    cases bytes with
    | nil => simp [pads, encode, leading, hne]
    | cons d bytes =>
      have hfirst : ∃ e ∈ encode (d :: bytes), e ≠ pad := by
        have hd : digit (d.toNat / 4) ≠ pad := digit_ne_pad (by have := d.toNat_lt; omega)
        refine ⟨digit (d.toNat / 4), ?_, hd⟩
        match bytes with
        | [] => simp [encode]
        | [_] => simp [encode]
        | _ :: _ :: _ => simp [encode]
      have hwhole : encode (a :: b :: c :: d :: bytes) =
          [digit (a.toNat / 4), digit (a.toNat % 4 * 16 + b.toNat / 16),
            digit (b.toNat % 16 * 4 + c.toNat / 64), digit (c.toNat % 64)] ++
              encode (d :: bytes) := rfl
      rw [hwhole, pads_append hfirst, ih (by simp)]
      simp only [List.length_cons]
      omega

end LuPlatform.Base64
