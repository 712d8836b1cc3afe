import LuPlatform.Library.Loop
import LuPlatform.Library.PowerOfTwo
import LuPlatform.Library.SlotTable

/-! `AtomicQueue2` with several producers and consumers (`SPSC` false) and `MINIMIZE_CONTENTION`.
`try_push` and `try_pop` go from one atomic access of the queue to the next; what lies between two of
them is the thread's own. The queue is sequentially consistent here. -/

namespace LuPlatform.Queue

open Loop PowerOfTwo SlotTable

/-! ### Sizes and indexes -/

def getCacheLineIndexBitsSize (elementsPerCacheLine : Nat) : Nat :=
  match elementsPerCacheLine with
  | 256 => 8
  | 128 => 7
  | 64 => 6
  | 32 => 5
  | 16 => 4
  | 8 => 3
  | 4 => 2
  | 2 => 1
  | _ => 0

def getIndexShuffleBits (minimizeContention : Bool) (arraySize elementsPerCacheLine : Nat) : Nat :=
  let indexBitsSize := getCacheLineIndexBitsSize elementsPerCacheLine
  let minSize := 1 <<< (indexBitsSize * 2)
  if minimizeContention && minSize ≤ arraySize then indexBitsSize else 0

def remapIndex (bits : Nat) (index : BitVec 32) : BitVec 32 :=
  if bits = 0 then index
  else
    let mixMask := (1#32 <<< bits) - 1#32
    let mix := (index ^^^ (index >>> bits)) &&& mixMask
    index ^^^ mix ^^^ (mix <<< bits)

theorem getIndexShuffleBits_le (minimizeContention : Bool) (elementsPerCacheLine : Nat) {arraySize k : Nat}
    (hk : arraySize = 2 ^ k) :
    getIndexShuffleBits minimizeContention arraySize elementsPerCacheLine +
      getIndexShuffleBits minimizeContention arraySize elementsPerCacheLine ≤ k := by
  unfold getIndexShuffleBits
  simp only [Bool.and_eq_true, decide_eq_true_eq]
  split
  · rename_i hmin
    rw [hk, Nat.shiftLeft_eq, Nat.one_mul] at hmin
    have := (Nat.pow_le_pow_iff_right (by decide)).mp hmin.2
    omega
  · exact Nat.zero_le k

theorem remapIndex_eq_exchange {bits : Nat} (h : 0 < bits) (index : BitVec 32) :
    remapIndex bits index = exchange bits index :=
  if_neg (by omega)

theorem remapIndex_lt {bits k : Nat} (hbits : bits + bits ≤ k) (hk : k ≤ 32) {index : BitVec 32}
    (hindex : index.toNat < 2 ^ k) : (remapIndex bits index).toNat < 2 ^ k := by
  by_cases hzero : bits = 0
  · rwa [remapIndex, if_pos hzero]
  · rw [remapIndex_eq_exchange (by omega)]
    exact exchange_lt hbits (by omega) hk hindex

/-- The shuffle undoes itself. -/
theorem remapIndex_injective {bits : Nat} (hbits : bits + bits ≤ 32) :
    Function.Injective (remapIndex bits) := by
  intro index index' h
  by_cases hzero : bits = 0
  · rwa [remapIndex, if_pos hzero, remapIndex, if_pos hzero] at h
  · rw [remapIndex_eq_exchange (by omega), remapIndex_eq_exchange (by omega)] at h
    rw [← exchange_exchange hbits (by omega) index, h, exchange_exchange hbits (by omega)]

/-- A shuffled remainder is one, where the size is a power of two or nothing is shuffled. -/
theorem remapIndex_umod_lt {minimizeContention : Bool} {size : BitVec 32} (hpos : 0 < size.toNat)
    (hpow : minimizeContention = true → ∃ k ≤ 31, size.toNat = 2 ^ k) (elementsPerCacheLine : Nat)
    (ticket : BitVec 32) :
    (remapIndex (getIndexShuffleBits minimizeContention size.toNat elementsPerCacheLine)
      (ticket % size)).toNat < size.toNat := by
  have hlt : (ticket % size).toNat < size.toNat := by
    rw [BitVec.toNat_umod]
    exact Nat.mod_lt _ hpos
  cases minimizeContention with
  | true =>
    obtain ⟨k, hle, hk⟩ := hpow rfl
    have hbits := getIndexShuffleBits_le true elementsPerCacheLine hk
    rw [hk] at hlt hbits ⊢
    exact remapIndex_lt hbits (by omega) hlt
  | false =>
    rw [getIndexShuffleBits, Bool.false_and, if_neg Bool.false_ne_true, remapIndex, if_pos rfl]
    exact hlt

def nextPowerOfTwo (n : BitVec 32) : BitVec 32 :=
  let n := n - 1#32
  let n := n ||| n >>> 1
  let n := n ||| n >>> 2
  let n := n ||| n >>> 4
  let n := n ||| n >>> 8
  let n := n ||| n >>> 16
  n + 1#32

theorem nextPowerOfTwo_toNat {n : BitVec 32} (hpos : 1 ≤ n.toNat) (hle : n.toNat ≤ 2 ^ 31) :
    ∃ k ≤ 31, (nextPowerOfTwo n).toNat = 2 ^ k := by
  have hpred : (n - 1#32).toNat = n.toNat - 1 := 
    BitVec.toNat_sub_of_le (BitVec.le_def.mpr hpos)
  obtain ⟨x, hx, hnext⟩ : ∃ x, Smeared (n - 1#32) x 32 ∧ nextPowerOfTwo n = x + 1#32 :=
    ⟨_, (smeared_self (n - 1#32)).double.double.double.double.double, rfl⟩
  by_cases hzero : (n - 1#32).toNat = 0
  · refine ⟨0, Nat.zero_le _, ?_⟩
    obtain rfl : n = 1#32 := BitVec.eq_of_toNat_eq (by rw [hpred] at hzero; simp; omega)
    rfl
  · have hlog : Nat.log2 (n - 1#32).toNat + 1 ≤ 31 := by
      have hlow : 2 ^ Nat.log2 (n - 1#32).toNat ≤ (n - 1#32).toNat := Nat.log2_self_le hzero
      have hlt : 2 ^ Nat.log2 (n - 1#32).toNat < 2 ^ 31 := by omega
      exact (Nat.pow_lt_pow_iff_right (by decide)).mp hlt
    refine ⟨_, hlog, ?_⟩
    have hbound : 2 ^ (Nat.log2 (n - 1#32).toNat + 1) ≤ 2 ^ 31 := Nat.pow_le_pow_right (by decide) hlog
    have hpower : 0 < 2 ^ (Nat.log2 (n - 1#32).toNat + 1) := Nat.two_pow_pos _
    rw [hnext, BitVec.toNat_add, hx.toNat hzero, BitVec.toNat_ofNat]
    omega

/-- The template arguments of the queue, and the cache line of the platform. An array has at least one
element, and `nextPowerOfTwo` of a larger size is no size of an array. -/
structure QueueConfig where
  SIZE : BitVec 32
  MAXIMIZE_THROUGHPUT : Bool
  CACHE_LINE_SIZE : Nat
  size_pos : 1 ≤ SIZE.toNat
  size_le : SIZE.toNat ≤ 2 ^ 31

namespace QueueConfig

variable (config : QueueConfig)

def queueSize : BitVec 32 := nextPowerOfTwo config.SIZE

/-- An element of the array of states takes one byte. -/
def shuffleBits : Nat := getIndexShuffleBits true config.queueSize.toNat (config.CACHE_LINE_SIZE / 1)

def index (ticket : BitVec 32) : BitVec 32 := remapIndex config.shuffleBits (ticket % config.queueSize)

theorem queueSize_toNat : ∃ k ≤ 31, config.queueSize.toNat = 2 ^ k :=
  nextPowerOfTwo_toNat config.size_pos config.size_le

theorem queueSize_pos : 0 < config.queueSize.toNat := by
  obtain ⟨k, _, hk⟩ := config.queueSize_toNat
  rw [hk]
  exact Nat.two_pow_pos k

theorem shuffleBits_le {k : Nat} (hk : config.queueSize.toNat = 2 ^ k) :
    config.shuffleBits + config.shuffleBits ≤ k :=
  getIndexShuffleBits_le true _ hk

theorem index_lt (ticket : BitVec 32) : (config.index ticket).toNat < config.queueSize.toNat :=
  remapIndex_umod_lt config.queueSize_pos (fun _ => config.queueSize_toNat) _ ticket

abbrev Slot : Type := Fin config.queueSize.toNat

/-- The slot that a ticket is for. -/
def slot (ticket : BitVec 32) : config.Slot := ⟨(config.index ticket).toNat, config.index_lt ticket⟩

/-- Tickets of one round through the array have different slots. -/
theorem slot_injective {m n : Nat} (hm : m < config.queueSize.toNat) (hn : n < config.queueSize.toNat)
    (h : config.slot (BitVec.ofNat 32 m) = config.slot (BitVec.ofNat 32 n)) : m = n := by
  obtain ⟨k, hle, hk⟩ := config.queueSize_toNat
  have hword : config.queueSize.toNat ≤ 2 ^ 31 := hk ▸ Nat.pow_le_pow_right (by decide) hle
  have hmod : ∀ x < config.queueSize.toNat, (BitVec.ofNat 32 x % config.queueSize).toNat = x := by
    intro x hx
    rw [BitVec.toNat_umod, BitVec.toNat_ofNat, Nat.mod_eq_of_lt (show x < 2 ^ 32 by omega),
      Nat.mod_eq_of_lt hx]
  have hindex : config.index (BitVec.ofNat 32 m) = config.index (BitVec.ofNat 32 n) :=
    BitVec.eq_of_toNat_eq (show (config.slot _).val = (config.slot _).val by rw [h])
  have hdouble := config.shuffleBits_le hk
  have hremainder : BitVec.ofNat 32 m % config.queueSize = BitVec.ofNat 32 n % config.queueSize :=
    remapIndex_injective (by omega) hindex
  rw [← hmod m hm, hremainder, hmod n hn]

end QueueConfig

/-! ### The queue -/

structure AtomicQueue2 (config : QueueConfig) (T : Type) where
  head : BitVec 32
  tail : BitVec 32
  states : config.Slot → SlotState
  elements : config.Slot → T

/-- Where `try_push` stands: before one of its accesses, up to `casHead` in `try_push` itself, then in
`do_push_any`. -/
inductive TryPush (T : Type) where
  | loadHead (element : T)
  | loadTail (element : T) (head : BitVec 32)
  | casHead (element : T) (head : BitVec 32)
  | casState (element : T) (head : BitVec 32)
  | spin (element : T) (head : BitVec 32)
  | write (element : T) (head : BitVec 32)
  | publish (element : T) (head : BitVec 32)

/-- Where `try_pop` stands, from `casState` on in `do_pop_any`. -/
inductive TryPop (T : Type) where
  | loadTail
  | loadHead (tail : BitVec 32)
  | casTail (tail : BitVec 32)
  | casState (tail : BitVec 32)
  | spin (tail : BitVec 32)
  | move (tail : BitVec 32)
  | clear (tail : BitVec 32) (element : T)

namespace AtomicQueue2

variable {config : QueueConfig} {T : Type}

open Function in
def tryPush (q : AtomicQueue2 config T) : TryPush T → AtomicQueue2 config T × Round (TryPush T) Bool
  | .loadHead element => (q, .again (.loadTail element q.head))
  | .loadTail element head =>
    if config.queueSize.toInt ≤ (head - q.tail).toInt then (q, .leave false)
    else (q, .again (.casHead element head))
  | .casHead element head =>
    if q.head = head then ({ q with head := head + 1#32 }, .again (.casState element head))
    else (q, .again (.loadTail element q.head))
  | .casState element head =>
    if q.states (config.slot head) = .empty then
      ({ q with states := update q.states (config.slot head) .storing }, .again (.write element head))
    else (q, .again (.spin element head))
  | .spin element head =>
    -- the pause, and where throughput is maximized a load that decides whether to pause again
    if config.MAXIMIZE_THROUGHPUT ∧ q.states (config.slot head) ≠ .empty then
      (q, .again (.spin element head))
    else (q, .again (.casState element head))
  | .write element head =>
    ({ q with elements := update q.elements (config.slot head) element },
      .again (.publish element head))
  | .publish _ head => ({ q with states := update q.states (config.slot head) .stored }, .leave true)

open Function in
/-- A call that fails returns no element. -/
def tryPop (q : AtomicQueue2 config T) :
    TryPop T → AtomicQueue2 config T × Round (TryPop T) (Option T)
  | .loadTail => (q, .again (.loadHead q.tail))
  | .loadHead tail =>
    if (q.head - tail).toInt ≤ 0 then (q, .leave none) else (q, .again (.casTail tail))
  | .casTail tail =>
    if q.tail = tail then ({ q with tail := tail + 1#32 }, .again (.casState tail))
    else (q, .again (.loadHead q.tail))
  | .casState tail =>
    if q.states (config.slot tail) = .stored then
      ({ q with states := update q.states (config.slot tail) .loading }, .again (.move tail))
    else (q, .again (.spin tail))
  | .spin tail =>
    if config.MAXIMIZE_THROUGHPUT ∧ q.states (config.slot tail) ≠ .stored then (q, .again (.spin tail))
    else (q, .again (.casState tail))
  | .move tail => (q, .again (.clear tail (q.elements (config.slot tail))))
  | .clear tail element =>
    ({ q with states := update q.states (config.slot tail) .empty }, .leave (some element))

def wasSize (q : AtomicQueue2 config T) : Nat := (max (q.head - q.tail).toInt 0).toNat

/-- The elements in the slots that are stored. -/
def held (q : AtomicQueue2 config T) : Multiset T := ∑ i with q.states i = .stored, {q.elements i}

def storedSlots (q : AtomicQueue2 config T) : Nat :=
  (Finset.univ.filter fun i => q.states i = .stored).card

/-- A queue as it is constructed: no counter has moved and all states are zero. -/
structure Constructed (q : AtomicQueue2 config T) : Prop where
  head : q.head = 0#32
  tail : q.tail = 0#32
  states : ∀ i, q.states i = .empty

end AtomicQueue2

end LuPlatform.Queue
