import Mathlib.Tactic.Common
import Mathlib.Tactic.Ring

/-! Counters in words that wrap around. The difference of two words, read as signed, is the difference
of the counts as long as that fits a signed word, and counts less than a word apart that show the same
word are equal. -/

namespace LuPlatform.Counters

variable {w m n : Nat}

theorem two_mul_half (hw : 0 < w) : 2 * 2 ^ (w - 1) = 2 ^ w := by
  rw [← Nat.pow_succ', Nat.succ_eq_add_one, Nat.sub_add_cancel hw]

/-- A count that fits a signed word. -/
theorem toInt_ofNat (hw : 0 < w) (h : n < 2 ^ (w - 1)) : (BitVec.ofNat w n).toInt = n := by
  have hhalf := two_mul_half hw
  have htoNat : (BitVec.ofNat w n).toNat = n := by
    rw [BitVec.toNat_ofNat, Nat.mod_eq_of_lt (by omega)]
  rw [BitVec.toInt_eq_toNat_of_lt (by omega), htoNat]

theorem toInt_sub (hw : 0 < w) (h : m < n + 2 ^ (w - 1)) (h' : n ≤ m + 2 ^ (w - 1)) :
    (BitVec.ofNat w m - BitVec.ofNat w n).toInt = (m : Int) - n := by
  have hhalf := two_mul_half hw
  rw [BitVec.toInt_sub, BitVec.toInt_ofNat', BitVec.toInt_ofNat', Int.sub_bmod_bmod,
    Int.bmod_sub_bmod]
  apply Int.bmod_eq_of_le <;> omega

theorem ofNat_sub (h : n ≤ m) : BitVec.ofNat w m - BitVec.ofNat w n = BitVec.ofNat w (m - n) := by
  rw [show m = m - n + n by omega, BitVec.ofNat_add, BitVec.add_sub_cancel, Nat.add_sub_cancel]

theorem toNat_sub (h : n ≤ m) (h' : m < n + 2 ^ w) :
    (BitVec.ofNat w m - BitVec.ofNat w n).toNat = m - n := by
  rw [ofNat_sub h, BitVec.toNat_ofNat, Nat.mod_eq_of_lt (by omega)]

theorem eq_of_ofNat_eq (h : n ≤ m) (h' : m < n + 2 ^ w)
    (heq : BitVec.ofNat w m = BitVec.ofNat w n) : m = n := by
  have hsub := toNat_sub h h'
  rw [heq, BitVec.sub_self, BitVec.toNat_zero] at hsub
  omega

end LuPlatform.Counters
