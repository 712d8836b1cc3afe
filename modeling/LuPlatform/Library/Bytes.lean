import Mathlib.Tactic.Common
import Mathlib.Tactic.Ring
import Mathlib.Data.List.Infix

/-! Byte strings: integers in network and in little-endian order, and the leftmost occurrence of a
pattern at or after a position, as the standard string searches define it. -/

namespace LuPlatform.Bytes

/-- The bytes of an ASCII literal. -/
def ascii (s : String) : List UInt8 := s.toList.map fun c => c.val.toUInt8

/-! ### Integers -/

def ofBigEndian : List UInt8 → Nat
  | [] => 0
  | b :: bytes => b.toNat * 256 ^ bytes.length + ofBigEndian bytes

/-- The `width` low bytes of `n`, most significant first. -/
def toBigEndian : (width : Nat) → (n : Nat) → List UInt8
  | 0, _ => []
  | width + 1, n => UInt8.ofNat (n / 256 ^ width) :: toBigEndian width n

def ofLittleEndian : List UInt8 → Nat
  | [] => 0
  | b :: bytes => b.toNat + 256 * ofLittleEndian bytes

@[simp] theorem length_toBigEndian (width n : Nat) : (toBigEndian width n).length = width := by
  induction width with
  | zero => rfl
  | succ width ih => simp [toBigEndian, ih]

theorem ofBigEndian_lt (bytes : List UInt8) : ofBigEndian bytes < 256 ^ bytes.length := by
  induction bytes with
  | nil => simp [ofBigEndian]
  | cons b bytes ih =>
    have hb := b.toNat_lt
    rw [ofBigEndian, List.length_cons, Nat.pow_succ]
    calc b.toNat * 256 ^ bytes.length + ofBigEndian bytes
        < b.toNat * 256 ^ bytes.length + 256 ^ bytes.length := by omega
      _ = (b.toNat + 1) * 256 ^ bytes.length := by ring
      _ ≤ 256 * 256 ^ bytes.length := Nat.mul_le_mul_right _ (by omega)
      _ = 256 ^ bytes.length * 256 := by ring

/-- The `width` low bytes of `n`, least significant first. -/
def toLittleEndian : (width : Nat) → (n : Nat) → List UInt8
  | 0, _ => []
  | width + 1, n => UInt8.ofNat n :: toLittleEndian width (n / 256)

@[simp] theorem length_toLittleEndian (width n : Nat) : (toLittleEndian width n).length = width := by
  induction width generalizing n with
  | zero => rfl
  | succ width ih => simp [toLittleEndian, ih]

theorem ofLittleEndian_toLittleEndian (width n : Nat) :
    ofLittleEndian (toLittleEndian width n) = n % 256 ^ width := by
  induction width generalizing n with
  | zero => simp [toLittleEndian, ofLittleEndian, Nat.mod_one]
  | succ width ih =>
    have hbyte : (UInt8.ofNat n).toNat = n % 256 := by simp
    rw [toLittleEndian, ofLittleEndian, ih, hbyte, Nat.pow_succ, Nat.mul_comm (256 ^ width),
      Nat.mod_mul]

theorem ofLittleEndian_lt (bytes : List UInt8) : ofLittleEndian bytes < 256 ^ bytes.length := by
  induction bytes with
  | nil => simp [ofLittleEndian]
  | cons b bytes ih =>
    have hb := b.toNat_lt
    rw [ofLittleEndian, List.length_cons, Nat.pow_succ]
    omega

theorem ofBigEndian_toBigEndian (width n : Nat) :
    ofBigEndian (toBigEndian width n) = n % 256 ^ width := by
  induction width with
  | zero => simp [toBigEndian, ofBigEndian, Nat.mod_one]
  | succ width ih =>
    have hbyte : (UInt8.ofNat (n / 256 ^ width)).toNat = n / 256 ^ width % 256 := by simp
    rw [toBigEndian, ofBigEndian, ih, length_toBigEndian, hbyte, Nat.pow_succ, Nat.mod_mul,
      Nat.mul_comm, Nat.add_comm]

/-- Only the low bytes are written. -/
theorem toBigEndian_add_mul (width n k : Nat) :
    toBigEndian width (n + k * 256 ^ width) = toBigEndian width n := by
  induction width generalizing k with
  | zero => rfl
  | succ width ih =>
    have hpos : 0 < 256 ^ width := Nat.pow_pos (by decide)
    have hshift : n + k * 256 ^ (width + 1) = n + k * 256 * 256 ^ width := by
      rw [Nat.pow_succ, Nat.mul_comm (256 ^ width), Nat.mul_assoc]
    have hbyte : UInt8.ofNat (n / 256 ^ width + k * 256) = UInt8.ofNat (n / 256 ^ width) := by
      rw [← UInt8.toNat_inj]
      simp
    rw [hshift, toBigEndian, toBigEndian, ih, Nat.add_mul_div_right _ _ hpos, hbyte]

theorem toBigEndian_ofBigEndian (bytes : List UInt8) :
    toBigEndian bytes.length (ofBigEndian bytes) = bytes := by
  induction bytes with
  | nil => rfl
  | cons b bytes ih =>
    have hlt := ofBigEndian_lt bytes
    have hpos : 0 < 256 ^ bytes.length := Nat.pow_pos (by decide)
    have hfirst : (ofBigEndian bytes + b.toNat * 256 ^ bytes.length) / 256 ^ bytes.length = b.toNat := by
      rw [Nat.add_mul_div_right _ _ hpos, Nat.div_eq_of_lt hlt, Nat.zero_add]
    rw [ofBigEndian, Nat.add_comm, List.length_cons, toBigEndian, hfirst, toBigEndian_add_mul, ih,
      UInt8.ofNat_toNat]

/-! ### Searching -/

/-- A pattern does not begin before the first occurrence of its first element. -/
theorem not_prefix_of_not_mem {α : Type} {a : α} {before tail rest : List α} (h : a ∉ before) {j : Nat}
    (hj : j < before.length) : ¬ a :: tail <+: (before ++ rest).drop j := by
  intro ⟨behind, hbehind⟩
  have hfirst : ((before ++ rest).drop j)[0]? = some a := by
    rw [← hbehind]
    rfl
  rw [List.getElem?_drop, Nat.add_zero, List.getElem?_append_left hj] at hfirst
  exact h (List.mem_of_getElem? hfirst)

section Search

variable {α : Type} [DecidableEq α]

/-- The leftmost position at which `pattern` occurs. -/
def find (pattern : List α) : List α → Option Nat
  | [] => if pattern = [] then some 0 else none
  | a :: text =>
    if pattern <+: a :: text then some 0 else (find pattern text).map (· + 1)

/-- The leftmost position at or after `pos` at which `pattern` occurs. -/
def findFrom (pattern text : List α) (pos : Nat) : Option Nat :=
  if pos ≤ text.length then (find pattern (text.drop pos)).map (· + pos) else none

theorem find_eq_some {pattern text : List α} {i : Nat} (h : find pattern text = some i) :
    i ≤ text.length ∧ pattern <+: text.drop i ∧ ∀ j < i, ¬ pattern <+: text.drop j := by
  induction text generalizing i with
  | nil =>
    simp only [find] at h
    split at h
    · obtain rfl := Option.some.inj h
      simp_all
    · cases h
  | cons a text ih =>
    simp only [find] at h
    split at h
    · rename_i hp
      obtain rfl := Option.some.inj h
      exact ⟨by simp, hp, by simp⟩
    · rename_i hp
      obtain ⟨k, hk, rfl⟩ := Option.map_eq_some_iff.mp h
      obtain ⟨hle, hpre, hmin⟩ := ih hk
      refine ⟨by simpa using hle, by simpa using hpre, ?_⟩
      intro j hj
      cases j with
      | zero => simpa using hp
      | succ j => simpa using hmin j (by omega)

theorem find_eq_none {pattern text : List α} (h : find pattern text = none) (i : Nat)
    (hi : i ≤ text.length) : ¬ pattern <+: text.drop i := by
  induction text generalizing i with
  | nil =>
    simp only [find] at h
    split at h
    · cases h
    · simpa using ‹¬ pattern = []›
  | cons a text ih =>
    simp only [find] at h
    split at h
    · cases h
    · rename_i hp
      cases i with
      | zero => simpa using hp
      | succ i => simpa using ih (by simpa using h) i (by simpa using hi)

theorem find_of_first {pattern text : List α} {i : Nat} (hle : i ≤ text.length)
    (hpre : pattern <+: text.drop i) (hmin : ∀ j < i, ¬ pattern <+: text.drop j) :
    find pattern text = some i := by
  cases h : find pattern text with
  | none => exact absurd hpre (find_eq_none h i hle)
  | some k =>
    obtain ⟨_, hk, hkmin⟩ := find_eq_some h
    have h₁ : ¬ k < i := fun hlt => hmin k hlt hk
    have h₂ : ¬ i < k := fun hlt => hkmin i hlt hpre
    congr 1
    omega

theorem findFrom_eq_some {pattern text : List α} {pos i : Nat}
    (h : findFrom pattern text pos = some i) :
    pos ≤ i ∧ i ≤ text.length ∧ pattern <+: text.drop i ∧
      ∀ j, pos ≤ j → j < i → ¬ pattern <+: text.drop j := by
  simp only [findFrom] at h
  split at h
  · obtain ⟨k, hk, rfl⟩ := Option.map_eq_some_iff.mp h
    obtain ⟨hle, hpre, hmin⟩ := find_eq_some hk
    rw [List.length_drop] at hle
    rw [List.drop_drop, Nat.add_comm] at hpre
    refine ⟨by omega, by omega, hpre, fun j hj hjk hp => ?_⟩
    refine hmin (j - pos) (by omega) ?_
    rwa [List.drop_drop, Nat.add_sub_cancel' hj]
  · cases h

theorem findFrom_eq_none {pattern text : List α} {pos : Nat} (hne : pattern ≠ [])
    (h : findFrom pattern text pos = none) (i : Nat) (hi : pos ≤ i) :
    ¬ pattern <+: text.drop i := by
  intro hpre
  have hlt : i < text.length := by
    by_contra hle
    rw [List.drop_eq_nil_of_le (by omega), List.prefix_nil] at hpre
    exact hne hpre
  simp only [findFrom, if_pos (show pos ≤ text.length by omega), Option.map_eq_none_iff] at h
  refine find_eq_none h (i - pos) (by rw [List.length_drop]; omega) ?_
  rwa [List.drop_drop, Nat.add_sub_cancel' hi]

/-- A found occurrence ends inside the text. -/
theorem findFrom_end_le {pattern text : List α} {pos i : Nat}
    (h : findFrom pattern text pos = some i) : i + pattern.length ≤ text.length := by
  obtain ⟨_, hle, hpre, _⟩ := findFrom_eq_some h
  have := hpre.length_le
  rw [List.length_drop] at this
  omega

theorem findFrom_of_first {pattern text : List α} {pos i : Nat} (hpos : pos ≤ i)
    (hle : i ≤ text.length) (hpre : pattern <+: text.drop i)
    (hmin : ∀ j, pos ≤ j → j < i → ¬ pattern <+: text.drop j) :
    findFrom pattern text pos = some i := by
  rw [findFrom, if_pos (by omega), Option.map_eq_some_iff]
  refine ⟨i - pos, find_of_first ?_ ?_ ?_, by omega⟩
  · rw [List.length_drop]; omega
  · rwa [List.drop_drop, Nat.add_sub_cancel' hpos]
  · intro j hj hp
    rw [List.drop_drop] at hp
    exact hmin (pos + j) (by omega) (by omega) hp

/-- A pattern is not found where one of its elements is missing. -/
theorem findFrom_of_not_mem {pattern text : List α} {pos : Nat} {a : α} (ha : a ∈ pattern)
    (h : a ∉ text.drop pos) : findFrom pattern text pos = none := by
  cases hfind : findFrom pattern text pos with
  | none => rfl
  | some i =>
    obtain ⟨hpos, _, hpre, _⟩ := findFrom_eq_some hfind
    have hmem : a ∈ (text.drop pos).drop (i - pos) := by
      rw [List.drop_drop, Nat.add_sub_cancel' hpos]
      exact hpre.subset ha
    exact absurd (List.mem_of_mem_drop hmem) h

end Search

end LuPlatform.Bytes
