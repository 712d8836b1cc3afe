import Mathlib.Data.Nat.Log
import Mathlib.Tactic.Common
import Mathlib.Tactic.Ring

/-! Numbers in base 128, least significant digit first, one digit a byte. The high bit of a byte says
that another digit follows, so a number ends where its bytes say so, and of no number the bytes are the
beginning of those of another one. -/

namespace LuPlatform.Base128

def encode (n : Nat) : List UInt8 :=
  if n < 128 then [UInt8.ofNat n] else UInt8.ofNat (n % 128 + 128) :: encode (n / 128)
termination_by n
decreasing_by omega

/-- The number at the beginning of the bytes, and what comes behind it. -/
def decode : List UInt8 → Option (Nat × List UInt8)
  | [] => none
  | b :: bytes =>
    if b.toNat < 128 then some (b.toNat, bytes)
    else (decode bytes).map fun (n, rest) => (b.toNat % 128 + 128 * n, rest)

theorem encode_of_lt {n : Nat} (h : n < 128) : encode n = [UInt8.ofNat n] := by
  rw [encode, if_pos h]

theorem encode_of_le {n : Nat} (h : 128 ≤ n) :
    encode n = UInt8.ofNat (n % 128 + 128) :: encode (n / 128) := by
  rw [encode, if_neg (by omega)]

theorem decode_last {b : UInt8} (h : b.toNat < 128) (bytes : List UInt8) :
    decode (b :: bytes) = some (b.toNat, bytes) := by
  rw [decode, if_pos h]

theorem decode_more {b : UInt8} (h : 128 ≤ b.toNat) (bytes : List UInt8) :
    decode (b :: bytes) = (decode bytes).map fun (n, rest) => (b.toNat % 128 + 128 * n, rest) := by
  rw [decode, if_neg (by omega)]

/-- The byte of a digit that another one follows. -/
theorem toNat_digit (n : Nat) : (UInt8.ofNat (n % 128 + 128)).toNat = n % 128 + 128 := by
  rw [UInt8.toNat_ofNat']
  omega

theorem decode_encode (n : Nat) (rest : List UInt8) : decode (encode n ++ rest) = some (n, rest) := by
  induction n using Nat.strongRecOn with
  | ind n ih =>
    by_cases h : n < 128
    · have hbyte : (UInt8.ofNat n).toNat = n := by
        rw [UInt8.toNat_ofNat']
        omega
      rw [encode_of_lt h, List.singleton_append, decode_last (by omega), hbyte]
    · rw [encode_of_le (by omega), List.cons_append, decode_more (by rw [toNat_digit]; omega),
        ih (n / 128) (by omega), toNat_digit, Option.map_some]
      simp only [Option.some.injEq, Prod.mk.injEq, and_true]
      omega

/-- Bytes that end inside a number. -/
theorem decode_of_prefix {n : Nat} {bytes : List UInt8} (h : bytes <+: encode n)
    (hne : bytes ≠ encode n) : decode bytes = none := by
  induction n using Nat.strongRecOn generalizing bytes with
  | ind n ih =>
    cases bytes with
    | nil => rfl
    | cons b bytes =>
      by_cases hlt : n < 128
      · rw [encode_of_lt hlt, List.cons_prefix_cons, List.prefix_nil] at h
        obtain ⟨rfl, rfl⟩ := h
        exact absurd (encode_of_lt hlt).symm hne
      · rw [encode_of_le (by omega), List.cons_prefix_cons] at h
        obtain ⟨rfl, hrest⟩ := h
        have hne' : bytes ≠ encode (n / 128) := by
          rintro rfl
          exact hne (encode_of_le (by omega)).symm
        rw [decode_more (by rw [toNat_digit]; omega), ih _ (by omega) hrest hne', Option.map_none]

/-- A number leaves what is behind its bytes, whatever that is, and takes at least one of them. -/
theorem decode_eq_some {bytes rest : List UInt8} {n : Nat} (h : decode bytes = some (n, rest)) :
    ∃ digits, digits ≠ [] ∧ bytes = digits ++ rest ∧ ∀ rest', decode (digits ++ rest') = some (n, rest') := by
  induction bytes generalizing n with
  | nil => cases h
  | cons b bytes ih =>
    by_cases hlt : b.toNat < 128
    · rw [decode_last hlt, Option.some.injEq, Prod.mk.injEq] at h
      refine ⟨[b], by simp, by simp [h.2], fun rest' => ?_⟩
      rw [List.singleton_append, decode_last hlt, h.1]
    · rw [decode_more (by omega)] at h
      obtain ⟨⟨m, rest'⟩, hdecode, hmap⟩ := Option.map_eq_some_iff.1 h
      rw [Prod.mk.injEq] at hmap
      obtain ⟨hn, rfl⟩ := hmap
      obtain ⟨digits, -, rfl, hdigits⟩ := ih hdecode
      refine ⟨b :: digits, by simp, rfl, fun rest'' => ?_⟩
      rw [List.cons_append, decode_more (by omega), hdigits, Option.map_some]
      simp only [hn]

/-- What decides about a number are its own bytes. -/
theorem decode_append {bytes rest : List UInt8} {n : Nat} (h : decode bytes = some (n, rest))
    (more : List UInt8) : decode (bytes ++ more) = some (n, rest ++ more) := by
  obtain ⟨digits, -, rfl, hdigits⟩ := decode_eq_some h
  rw [List.append_assoc, hdigits]

/-- Among the first `k` bytes there is the number or nothing. -/
theorem decode_take {bytes : List UInt8} (k : Nat) : decode (bytes.take k) = match decode bytes with
    | none => none
    | some (n, rest) =>
      if bytes.length - rest.length ≤ k then some (n, rest.take (k - (bytes.length - rest.length))) else none := by
  cases hdecode : decode bytes with
  | none =>
    cases htake : decode (bytes.take k) with
    | none => rfl
    | some result =>
      have happend := decode_append htake (bytes.drop k)
      rw [List.take_append_drop, hdecode] at happend
      cases happend
  | some result =>
    obtain ⟨n, rest⟩ := result
    obtain ⟨digits, hne, rfl, hdigits⟩ := decode_eq_some hdecode
    have hcount : (digits ++ rest).length - rest.length = digits.length := by simp
    dsimp only
    rw [hcount]
    split
    · rename_i hle
      rw [List.take_append, List.take_of_length_le hle, hdigits]
    · rename_i hgt
      cases htake : decode ((digits ++ rest).take k) with
      | none => rfl
      | some result =>
        obtain ⟨m, behind⟩ := result
        obtain ⟨first, -, hfirst, hanyway⟩ := decode_eq_some htake
        have hsame := hanyway (behind ++ (digits ++ rest).drop k)
        rw [← List.append_assoc, ← hfirst, List.take_append_drop, hdecode, Option.some.injEq, Prod.mk.injEq] at hsame
        have hlength := congrArg List.length hsame.2
        have hfirstLength := congrArg List.length hfirst
        simp only [List.length_append, List.length_drop, List.length_take] at hlength hfirstLength
        omega

/-- There is no number where every byte says that another one follows. -/
theorem decode_eq_none_iff {bytes : List UInt8} : decode bytes = none ↔ ∀ b ∈ bytes, 128 ≤ b.toNat := by
  induction bytes with
  | nil => simp [decode]
  | cons b bytes ih =>
    by_cases hlt : b.toNat < 128
    · simp only [decode_last hlt, List.mem_cons, forall_eq_or_imp]
      exact iff_of_false (Option.some_ne_none _) (by omega)
    · rw [decode_more (by omega), Option.map_eq_none_iff, ih, List.forall_mem_cons, and_iff_right]
      omega

/-- Seven bits a byte. -/
theorem length_encode (n : Nat) : (encode n).length = Nat.log2 n / 7 + 1 := by
  induction n using Nat.strongRecOn with
  | ind n ih =>
    by_cases h : n < 128
    · have hlog : Nat.log2 n < 7 := by
        rcases Nat.eq_zero_or_pos n with rfl | hpos
        · decide
        · exact (Nat.log2_lt (by omega)).2 h
      rw [encode_of_lt h, List.length_singleton, Nat.div_eq_of_lt hlog]
    · have hlog : Nat.log2 n = Nat.log2 (n / 128) + 7 := by
        rw [Nat.log2_eq_log_two, Nat.log2_eq_log_two, show 128 = 2 ^ 7 from rfl, Nat.log_div_base_pow,
          Nat.sub_add_cancel]
        exact Nat.le_log_of_pow_le (by decide) (by omega)
      rw [encode_of_le (by omega), List.length_cons, ih _ (by omega), hlog]
      omega

theorem length_encode_le {n k : Nat} (h : n < 2 ^ (7 * k)) (hk : 0 < k) : (encode n).length ≤ k := by
  rw [length_encode]
  rcases Nat.eq_zero_or_pos n with rfl | hpos
  · simpa [Nat.succ_le_iff] using hk
  · have hlog := (Nat.log2_lt (by omega)).2 h
    omega

end LuPlatform.Base128
