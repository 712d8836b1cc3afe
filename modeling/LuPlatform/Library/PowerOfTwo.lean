import Mathlib.Data.Nat.Bitwise
import Mathlib.Data.Nat.Log
import Mathlib.Tactic.Common

/-! Powers of two in machine words: filling a word with ones below its highest one, and exchanging
neighbouring groups of its low bits. -/

namespace LuPlatform.PowerOfTwo

/-- The bits of `x` say for each position whether `m` has a one at it or within the next `w - 1`. -/
def Smeared (m x : BitVec 32) (w : Nat) : Prop :=
  ∀ i, x.getLsbD i = true ↔ ∃ j < w, m.getLsbD (i + j) = true

theorem smeared_self (m : BitVec 32) : Smeared m m 1 := by
  intro i
  constructor
  · exact fun h => ⟨0, Nat.one_pos, h⟩
  · rintro ⟨j, hj, h⟩
    obtain rfl : j = 0 := by omega
    exact h

/-- A shift by the width doubles it. -/
theorem Smeared.double {m x : BitVec 32} {w : Nat} (h : Smeared m x w) :
    Smeared m (x ||| x >>> w) (w + w) := by
  intro i
  rw [BitVec.getLsbD_or, BitVec.getLsbD_ushiftRight, Bool.or_eq_true, h i, h (w + i)]
  constructor
  · rintro (⟨j, hj, hbit⟩ | ⟨j, hj, hbit⟩)
    · exact ⟨j, by omega, hbit⟩
    · exact ⟨w + j, by omega, by rwa [← Nat.add_assoc, Nat.add_comm i w]⟩
  · rintro ⟨j, hj, hbit⟩
    by_cases hlt : j < w
    · exact .inl ⟨j, hlt, hbit⟩
    · refine .inr ⟨j - w, by omega, ?_⟩
      rwa [show w + i + (j - w) = i + j by omega]

/-- Smeared over the whole word, the ones reach up to the highest one. -/
theorem Smeared.toNat {m x : BitVec 32} (h : Smeared m x 32) (hm : m.toNat ≠ 0) :
    x.toNat = 2 ^ (Nat.log2 m.toNat + 1) - 1 := by
  refine Nat.eq_of_testBit_eq fun i => ?_
  rw [Nat.testBit_two_pow_sub_one, Bool.eq_iff_iff, decide_eq_true_iff]
  change x.getLsbD i = true ↔ _
  rw [h i]
  have hlow : 2 ^ Nat.log2 m.toNat ≤ m.toNat := Nat.log2_self_le hm
  have hhigh : m.toNat < 2 ^ (Nat.log2 m.toNat + 1) := Nat.lt_log2_self
  constructor
  · rintro ⟨j, _, hbit⟩
    have hle : 2 ^ (i + j) ≤ m.toNat := Nat.ge_two_pow_of_testBit hbit
    have hlt : i + j < Nat.log2 m.toNat + 1 := (Nat.pow_lt_pow_iff_right (by decide)).mp
      (lt_of_le_of_lt hle hhigh)
    omega
  · intro hi
    have hword : Nat.log2 m.toNat < 32 := (Nat.pow_lt_pow_iff_right (by decide)).mp
      (lt_of_le_of_lt hlow m.isLt)
    refine ⟨Nat.log2 m.toNat - i, by omega, ?_⟩
    change m.toNat.testBit (i + (Nat.log2 m.toNat - i)) = true
    rw [show i + (Nat.log2 m.toNat - i) = Nat.log2 m.toNat by omega]
    exact Nat.testBit_log2 hm

/-! ### Exchanging groups of bits -/

/-- Exchanges the lowest `b` bits with the next `b` ones. -/
def exchange (b : Nat) (x : BitVec 32) : BitVec 32 :=
  let mix := (x ^^^ (x >>> b)) &&& ((1#32 <<< b) - 1#32)
  x ^^^ mix ^^^ (mix <<< b)

theorem getLsbD_mask {b : Nat} (hb : b < 32) (i : Nat) :
    ((1#32 <<< b) - 1#32).getLsbD i = decide (i < b) := by
  have hpow : 2 ^ b < 2 ^ 32 := Nat.pow_lt_pow_right (by decide) hb
  have hpos : 0 < 2 ^ b := Nat.two_pow_pos b
  have hmask : ((1#32 <<< b) - 1#32).toNat = 2 ^ b - 1 := by
    rw [BitVec.toNat_sub, BitVec.toNat_shiftLeft, BitVec.toNat_ofNat, Nat.shiftLeft_eq,
      Nat.mod_eq_of_lt (show 1 < 2 ^ 32 by decide), Nat.one_mul, Nat.mod_eq_of_lt hpow]
    omega
  rw [BitVec.getLsbD, hmask, Nat.testBit_two_pow_sub_one]

theorem getLsbD_exchange {b : Nat} (hb : b + b ≤ 32) (hpos : 0 < b) (x : BitVec 32) {i : Nat}
    (hi : i < 32) :
    (exchange b x).getLsbD i =
      if i < b then x.getLsbD (b + i) else if i < b + b then x.getLsbD (i - b) else x.getLsbD i := by
  simp only [exchange, BitVec.getLsbD_xor, BitVec.getLsbD_shiftLeft, BitVec.getLsbD_and,
    BitVec.getLsbD_ushiftRight, getLsbD_mask (show b < 32 by omega), hi, decide_true, Bool.true_and]
  split
  · rename_i hlt
    simp [hlt]
  · rename_i hge
    have hback : b + (i - b) = i := by omega
    split
    · rename_i hlt
      have hlt' : i - b < b := by omega
      simp only [hge, hlt', hback, decide_false, decide_true, Bool.and_false, Bool.xor_false,
        Bool.and_true, Bool.not_false, Bool.true_and]
      rw [Bool.xor_comm (x.getLsbD (i - b)), ← Bool.xor_assoc, Bool.xor_self, Bool.false_xor]
    · rename_i hge'
      have hge'' : ¬ i - b < b := by omega
      simp [hge, hge'']

theorem exchange_exchange {b : Nat} (hb : b + b ≤ 32) (hpos : 0 < b) (x : BitVec 32) :
    exchange b (exchange b x) = x := by
  refine BitVec.eq_of_getLsbD_eq fun i hi => ?_
  rw [getLsbD_exchange hb hpos _ hi]
  split
  · rename_i hlt
    rw [getLsbD_exchange hb hpos _ (by omega), if_neg (by omega), if_pos (by omega),
      Nat.add_sub_cancel_left]
  · split
    · rw [getLsbD_exchange hb hpos _ (by omega), if_pos (by omega)]
      congr 1
      omega
    · rw [getLsbD_exchange hb hpos _ hi, if_neg (by omega), if_neg (by omega)]

/-- Where both groups lie below it, a power of two stays a bound. -/
theorem exchange_lt {b k : Nat} (hb : b + b ≤ k) (hpos : 0 < b) (hk : k ≤ 32) {x : BitVec 32}
    (hx : x.toNat < 2 ^ k) : (exchange b x).toNat < 2 ^ k := by
  refine Nat.lt_pow_two_of_testBit _ fun i hi => ?_
  by_cases hword : i < 32
  · change (exchange b x).getLsbD i = false
    rw [getLsbD_exchange (by omega) hpos x hword, if_neg (by omega), if_neg (by omega)]
    exact Nat.testBit_lt_two_pow (lt_of_lt_of_le hx (Nat.pow_le_pow_right (by decide) hi))
  · exact BitVec.getLsbD_of_ge _ _ (by omega)

end LuPlatform.PowerOfTwo
