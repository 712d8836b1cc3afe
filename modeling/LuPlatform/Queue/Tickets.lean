import LuPlatform.Queue.AtomicQueue
import Mathlib.Data.Nat.ModEq

/-! The slots of consecutive tickets, for both settings of `MINIMIZE_CONTENTION`. Behind the last ticket
of a word comes ticket 0, and only a size that divides the number of words goes on there with the slot
that is next. -/

namespace LuPlatform.Queue

/-- The template arguments that decide on a slot, and the width in bytes of what is arranged in cache
lines. -/
structure TicketConfig where
  SIZE : BitVec 32
  MINIMIZE_CONTENTION : Bool
  CACHE_LINE_SIZE : Nat
  width : Nat
  size_pos : 1 ≤ SIZE.toNat
  size_le : SIZE.toNat ≤ 2 ^ 30

namespace TicketConfig

variable (config : TicketConfig)

def queueSize : BitVec 32 :=
  if config.MINIMIZE_CONTENTION then nextPowerOfTwo config.SIZE else config.SIZE

def shuffleBits : Nat :=
  getIndexShuffleBits config.MINIMIZE_CONTENTION config.queueSize.toNat
    (config.CACHE_LINE_SIZE / config.width)

def index (ticket : BitVec 32) : BitVec 32 := remapIndex config.shuffleBits (ticket % config.queueSize)

/-- As many consecutive tickets as the queue is large have different slots, all of which it has. -/
structure Distinct (t : BitVec 32) : Prop where
  inside : ∀ i < config.queueSize.toNat,
    (config.index (t + BitVec.ofNat 32 i)).toNat < config.queueSize.toNat
  distinct : ∀ i < config.queueSize.toNat, ∀ j < config.queueSize.toNat,
    config.index (t + BitVec.ofNat 32 i) = config.index (t + BitVec.ofNat 32 j) → i = j

variable {config} {t : BitVec 32}

theorem queueSize_pow (h : config.MINIMIZE_CONTENTION = true) :
    ∃ k ≤ 31, config.queueSize.toNat = 2 ^ k := by
  rw [queueSize, if_pos h]
  exact nextPowerOfTwo_toNat config.size_pos (config.size_le.trans (by decide))

theorem queueSize_eq (h : config.MINIMIZE_CONTENTION = false) : config.queueSize = config.SIZE := by
  simp [queueSize, h]

theorem queueSize_pos : 0 < config.queueSize.toNat := by
  cases h : config.MINIMIZE_CONTENTION with
  | true =>
    obtain ⟨k, _, hk⟩ := queueSize_pow h
    rw [hk]
    apply Nat.two_pow_pos
  | false =>
    rw [queueSize_eq h]
    exact config.size_pos

/-- Without the setting nothing is shuffled. -/
theorem shuffleBits_eq_zero (h : config.MINIMIZE_CONTENTION = false) : config.shuffleBits = 0 := by
  simp [shuffleBits, getIndexShuffleBits, h]

theorem index_lt (ticket : BitVec 32) : (config.index ticket).toNat < config.queueSize.toNat :=
  remapIndex_umod_lt queueSize_pos queueSize_pow _ ticket

/-- Two tickets have one slot exactly when they leave the same remainder. -/
theorem index_eq_iff {ticket ticket' : BitVec 32} :
    config.index ticket = config.index ticket' ↔
      ticket.toNat % config.queueSize.toNat = ticket'.toNat % config.queueSize.toNat := by
  have hinjective : Function.Injective (remapIndex config.shuffleBits) := by
    apply remapIndex_injective
    cases h : config.MINIMIZE_CONTENTION with
    | true =>
      obtain ⟨k, hle, hk⟩ := queueSize_pow h
      exact (getIndexShuffleBits_le _ _ hk).trans (by omega)
    | false =>
      rw [shuffleBits_eq_zero h]
      exact Nat.zero_le _
  rw [index, index, hinjective.eq_iff, ← BitVec.toNat_inj, BitVec.toNat_umod, BitVec.toNat_umod]

end TicketConfig

/-! ### Remainders at the wrap -/

section Wrap

variable {t m W : Nat}

/-- Where the size divides the number of words, or no word wraps around, remainders do not repeat. -/
theorem mod_distinct (h : m ∣ W ∨ t + m ≤ W) {i j : Nat} (hi : i < m) (hj : j < m)
    (heq : (t + i) % W % m = (t + j) % W % m) : i = j := by
  have hmod : (t + i) % m = (t + j) % m := by
    rcases h with hdvd | hle
    · rwa [Nat.mod_mod_of_dvd _ hdvd, Nat.mod_mod_of_dvd _ hdvd] at heq
    · rwa [Nat.mod_eq_of_lt (show t + i < W by omega),
        Nat.mod_eq_of_lt (show t + j < W by omega)] at heq
  have hsame : i % m = j % m := Nat.ModEq.add_left_cancel' t hmod
  rwa [Nat.mod_eq_of_lt hi, Nat.mod_eq_of_lt hj] at hsame

/-- Elsewhere a remainder comes back: before the wrap it is the last one or one before it, behind the
wrap it is counted from 0. -/
theorem mod_repeats (ht : t < W) (hm : m ≤ W) (hdvd : ¬ m ∣ W) (hwrap : W < t + m) :
    ∃ i < m, ∃ j < m, i ≠ j ∧ (t + i) % W % m = (t + j) % W % m := by
  have hpos : 0 < m := by
    rcases Nat.eq_zero_or_pos m with rfl | hpos
    · omega
    · exact hpos
  have hrest : 0 < W % m := Nat.pos_of_ne_zero fun h => hdvd (Nat.dvd_of_mod_eq_zero h)
  have hlt : W % m < m := Nat.mod_lt W hpos
  have hdiv : m * (W / m) + W % m = W := Nat.div_add_mod W m
  -- the remainder `c - 1`, of the ticket `m * (W / m) + (c - 1)` and of the ticket `c - 1`
  obtain ⟨c, hc, hcpos, hcrest, hcafter⟩ :
      ∃ c, W - W % m + c ≤ W ∧ 0 < c ∧ t + W % m < W + c ∧ c ≤ t + m - W :=
    ⟨min (W % m) (t + m - W), by omega, by omega, by omega, by omega⟩
  refine ⟨W - W % m + c - 1 - t, by omega, W - t + c - 1, by omega, by omega, ?_⟩
  have hbefore : t + (W - W % m + c - 1 - t) = m * (W / m) + (c - 1) := by omega
  have hafter : t + (W - t + c - 1) = W + (c - 1) := by omega
  rw [hbefore, hafter, Nat.mod_eq_of_lt (show m * (W / m) + (c - 1) < W by omega),
    Nat.add_mod_left, Nat.mod_eq_of_lt (show c - 1 < W by omega), Nat.mul_add_mod]

end Wrap

namespace TicketConfig

/-- Tickets in flight share no slot exactly where the size was rounded to a power of two, divides the
number of words, or none of them wraps around. -/
theorem distinct_iff (config : TicketConfig) (t : BitVec 32) :
    config.Distinct t ↔ config.MINIMIZE_CONTENTION = true ∨ config.SIZE.toNat ∣ 2 ^ 32 ∨
      t.toNat + config.SIZE.toNat ≤ 2 ^ 32 := by
  have hticket : ∀ i < config.queueSize.toNat,
      (t + BitVec.ofNat 32 i).toNat = (t.toNat + i) % 2 ^ 32 := by
    intro i hi
    have hword := config.queueSize.isLt
    rw [BitVec.toNat_add, BitVec.toNat_ofNat, Nat.mod_eq_of_lt (hi.trans hword)]
  have hword : config.queueSize.toNat ≤ 2 ^ 32 := config.queueSize.isLt.le
  constructor
  · intro h
    by_contra hnot
    obtain ⟨hminimize, hdvd, hwrap⟩ : ¬ config.MINIMIZE_CONTENTION = true ∧
        ¬ config.SIZE.toNat ∣ 2 ^ 32 ∧ 2 ^ 32 < t.toNat + config.SIZE.toNat := by
      simpa [not_or] using hnot
    rw [Bool.not_eq_true] at hminimize
    rw [← queueSize_eq hminimize] at hdvd hwrap
    obtain ⟨i, hi, j, hj, hne, heq⟩ := mod_repeats t.isLt hword hdvd hwrap
    apply hne
    apply h.distinct i hi j hj
    rwa [index_eq_iff, hticket i hi, hticket j hj]
  · intro h
    refine ⟨fun i _ => index_lt _, fun i hi j hj heq => ?_⟩
    rw [index_eq_iff, hticket i hi, hticket j hj] at heq
    refine mod_distinct ?_ hi hj heq
    cases hminimize : config.MINIMIZE_CONTENTION with
    | true =>
      obtain ⟨k, hle, hk⟩ := queueSize_pow hminimize
      rw [hk]
      exact .inl (Nat.pow_dvd_pow 2 (by omega))
    | false =>
      rw [queueSize_eq hminimize]
      simpa [hminimize] using h

/-- A queue of 3 elements: the last ticket of a word and the one behind it are for slot 0. -/
theorem distinct_wraps : ¬ Distinct ⟨3#32, false, 64, 1, by decide, by decide⟩ 4294967295#32 := by
  intro h
  exact absurd (h.distinct 0 (by decide) 1 (by decide) (by decide)) (by decide)

end TicketConfig

end LuPlatform.Queue
