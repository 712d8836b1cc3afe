import LuPlatform.Queue.SpscQueue

/-! `try_push` and `try_pop` of `QueueBase` for all template arguments of `AtomicQueue2`, with the
branches that `SPSC` decides on. The queues with several producers and consumers and the queue with one
of each are two instances of it. -/

namespace LuPlatform.Queue

open Loop SlotTable Function

/-- The template arguments of the queue. Only a size that is rounded up has a bound: `nextPowerOfTwo` of
a larger one is no size of an array. -/
structure QueueArgs where
  SIZE : BitVec 32
  MINIMIZE_CONTENTION : Bool
  MAXIMIZE_THROUGHPUT : Bool
  SPSC : Bool
  CACHE_LINE_SIZE : Nat
  size_pos : 1 ≤ SIZE.toNat
  size_le : MINIMIZE_CONTENTION = true → SIZE.toNat ≤ 2 ^ 31

namespace QueueArgs

variable (args : QueueArgs)

def queueSize : BitVec 32 :=
  if args.MINIMIZE_CONTENTION then nextPowerOfTwo args.SIZE else args.SIZE

/-- An element of the array of states takes one byte. -/
def shuffleBits : Nat :=
  getIndexShuffleBits args.MINIMIZE_CONTENTION args.queueSize.toNat (args.CACHE_LINE_SIZE / 1)

def index (ticket : BitVec 32) : BitVec 32 := remapIndex args.shuffleBits (ticket % args.queueSize)

theorem queueSize_pow (h : args.MINIMIZE_CONTENTION = true) :
    ∃ k ≤ 31, args.queueSize.toNat = 2 ^ k := by
  rw [queueSize, if_pos h]
  exact nextPowerOfTwo_toNat args.size_pos (args.size_le h)

theorem queueSize_pos : 0 < args.queueSize.toNat := by
  by_cases h : args.MINIMIZE_CONTENTION = true
  · obtain ⟨k, _, hk⟩ := args.queueSize_pow h
    rw [hk]
    apply Nat.two_pow_pos
  · rw [queueSize, if_neg h]
    exact args.size_pos

theorem index_lt (ticket : BitVec 32) : (args.index ticket).toNat < args.queueSize.toNat :=
  remapIndex_umod_lt args.queueSize_pos args.queueSize_pow _ ticket

def slot (ticket : BitVec 32) : Fin args.queueSize.toNat :=
  ⟨(args.index ticket).toNat, args.index_lt ticket⟩

end QueueArgs

structure QueueBase (args : QueueArgs) (T : Type) where
  head : BitVec 32
  tail : BitVec 32
  states : Fin args.queueSize.toNat → SlotState
  elements : Fin args.queueSize.toNat → T

namespace QueueBase

variable {args : QueueArgs} {T : Type}

/-- With `SPSC` the head and the state are stored and loaded where they are exchanged otherwise, and a
producer that does not find its slot loads the state again. -/
def tryPush (q : QueueBase args T) : TryPush T → QueueBase args T × Round (TryPush T) Bool
  | .loadHead element => (q, .again (.loadTail element q.head))
  | .loadTail element head =>
    if args.queueSize.toInt ≤ (head - q.tail).toInt then (q, .leave false)
    else (q, .again (.casHead element head))
  | .casHead element head =>
    if args.SPSC = true ∨ q.head = head then
      ({ q with head := head + 1#32 }, .again (.casState element head))
    else (q, .again (.loadTail element q.head))
  | .casState element head =>
    if q.states (args.slot head) = .empty then
      (if args.SPSC then q else { q with states := update q.states (args.slot head) .storing },
        .again (.write element head))
    else (q, .again (if args.SPSC then .casState element head else .spin element head))
  | .spin element head =>
    if args.MAXIMIZE_THROUGHPUT ∧ q.states (args.slot head) ≠ .empty then
      (q, .again (.spin element head))
    else (q, .again (.casState element head))
  | .write element head =>
    ({ q with elements := update q.elements (args.slot head) element },
      .again (.publish element head))
  | .publish _ head => ({ q with states := update q.states (args.slot head) .stored }, .leave true)

def tryPop (q : QueueBase args T) : TryPop T → QueueBase args T × Round (TryPop T) (Option T)
  | .loadTail => (q, .again (.loadHead q.tail))
  | .loadHead tail =>
    if (q.head - tail).toInt ≤ 0 then (q, .leave none) else (q, .again (.casTail tail))
  | .casTail tail =>
    if args.SPSC = true ∨ q.tail = tail then
      ({ q with tail := tail + 1#32 }, .again (.casState tail))
    else (q, .again (.loadHead q.tail))
  | .casState tail =>
    if q.states (args.slot tail) = .stored then
      (if args.SPSC then q else { q with states := update q.states (args.slot tail) .loading },
        .again (.move tail))
    else (q, .again (if args.SPSC then .casState tail else .spin tail))
  | .spin tail =>
    if args.MAXIMIZE_THROUGHPUT ∧ q.states (args.slot tail) ≠ .stored then (q, .again (.spin tail))
    else (q, .again (.casState tail))
  | .move tail => (q, .again (.clear tail (q.elements (args.slot tail))))
  | .clear tail element =>
    ({ q with states := update q.states (args.slot tail) .empty }, .leave (some element))

/-- A queue as it is constructed. -/
structure Constructed (q : QueueBase args T) : Prop where
  head : q.head = 0#32
  tail : q.tail = 0#32
  states : ∀ i, q.states i = .empty

end QueueBase

/-! ### The two instances -/

/-- The arguments of a queue that minimizes contention. -/
def QueueConfig.args (config : QueueConfig) (SPSC : Bool) : QueueArgs where
  SIZE := config.SIZE
  MINIMIZE_CONTENTION := true
  MAXIMIZE_THROUGHPUT := config.MAXIMIZE_THROUGHPUT
  SPSC := SPSC
  CACHE_LINE_SIZE := config.CACHE_LINE_SIZE
  size_pos := config.size_pos
  size_le := fun _ => config.size_le

namespace AtomicQueue2

variable {config : QueueConfig} {T : Type}

def base (SPSC : Bool) (q : AtomicQueue2 config T) : QueueBase (config.args SPSC) T :=
  ⟨q.head, q.tail, q.states, q.elements⟩

/-- Several threads on either side. -/
theorem base_tryPush (q : AtomicQueue2 config T) (pc : TryPush T) :
    (q.base false).tryPush pc = ((q.tryPush pc).1.base false, (q.tryPush pc).2) := by
  cases pc with
  | loadHead element | write element head | publish element head => rfl
  | loadTail element head =>
    by_cases h : config.queueSize.toInt ≤ (head - q.tail).toInt
    · rw [tryPush, if_pos h]
      exact if_pos h
    · rw [tryPush, if_neg h]
      exact if_neg h
  | casHead element head =>
    by_cases h : q.head = head
    · rw [tryPush, if_pos h]
      exact if_pos (Or.inr h)
    · rw [tryPush, if_neg h]
      exact if_neg (not_or.mpr ⟨Bool.false_ne_true, h⟩)
  | casState element head =>
    by_cases h : q.states (config.slot head) = .empty
    · rw [tryPush, if_pos h]
      exact (if_pos h).trans rfl
    · rw [tryPush, if_neg h]
      exact (if_neg h).trans rfl
  | spin element head =>
    by_cases h : config.MAXIMIZE_THROUGHPUT ∧ q.states (config.slot head) ≠ .empty
    · rw [tryPush, if_pos h]
      exact if_pos h
    · rw [tryPush, if_neg h]
      exact if_neg h

theorem base_tryPop (q : AtomicQueue2 config T) (pc : TryPop T) :
    (q.base false).tryPop pc = ((q.tryPop pc).1.base false, (q.tryPop pc).2) := by
  cases pc with
  | loadTail | move tail | clear tail element => rfl
  | loadHead tail =>
    by_cases h : (q.head - tail).toInt ≤ 0
    · rw [tryPop, if_pos h]
      exact if_pos h
    · rw [tryPop, if_neg h]
      exact if_neg h
  | casTail tail =>
    by_cases h : q.tail = tail
    · rw [tryPop, if_pos h]
      exact if_pos (Or.inr h)
    · rw [tryPop, if_neg h]
      exact if_neg (not_or.mpr ⟨Bool.false_ne_true, h⟩)
  | casState tail =>
    by_cases h : q.states (config.slot tail) = .stored
    · rw [tryPop, if_pos h]
      exact (if_pos h).trans rfl
    · rw [tryPop, if_neg h]
      exact (if_neg h).trans rfl
  | spin tail =>
    by_cases h : config.MAXIMIZE_THROUGHPUT ∧ q.states (config.slot tail) ≠ .stored
    · rw [tryPop, if_pos h]
      exact if_pos h
    · rw [tryPop, if_neg h]
      exact if_neg h

end AtomicQueue2

/-- Where a thread of the other instance stands in the source. -/
def SpscPush.pc {T : Type} : SpscPush T → TryPush T
  | .loadHead element => .loadHead element
  | .loadTail element head => .loadTail element head
  | .storeHead element head => .casHead element head
  | .loadState element head => .casState element head
  | .write element head => .write element head
  | .publish element head => .publish element head

def SpscPop.pc {T : Type} : SpscPop T → TryPop T
  | .loadTail => .loadTail
  | .loadHead tail => .loadHead tail
  | .storeTail tail => .casTail tail
  | .loadState tail => .casState tail
  | .move tail => .move tail
  | .clear tail element => .clear tail element

/-- The same round for another name of its state. -/
def renamed {A B ρ : Type} (f : A → B) : Round A ρ → Round B ρ
  | .again pc => .again (f pc)
  | .leave r => .leave r

namespace AtomicQueue2

variable {config : QueueConfig} {T : Type}

/-- One thread on either side. -/
theorem base_spscTryPush (q : AtomicQueue2 config T) (pc : SpscPush T) :
    (q.base true).tryPush pc.pc =
      ((q.spscTryPush pc).1.base true, renamed SpscPush.pc (q.spscTryPush pc).2) := by
  cases pc with
  | loadHead element | write element head | publish element head => rfl
  | loadTail element head =>
    by_cases h : config.queueSize.toInt ≤ (head - q.tail).toInt
    · rw [spscTryPush, if_pos h]
      exact if_pos h
    · rw [spscTryPush, if_neg h]
      exact if_neg h
  | storeHead element head =>
    rw [SpscPush.pc, QueueBase.tryPush]
    exact if_pos (Or.inl rfl)
  | loadState element head =>
    by_cases h : q.states (config.slot head) = .empty
    · rw [spscTryPush, if_pos h]
      exact (if_pos h).trans rfl
    · rw [spscTryPush, if_neg h]
      exact (if_neg h).trans rfl

theorem base_spscTryPop (q : AtomicQueue2 config T) (pc : SpscPop T) :
    (q.base true).tryPop pc.pc =
      ((q.spscTryPop pc).1.base true, renamed SpscPop.pc (q.spscTryPop pc).2) := by
  cases pc with
  | loadTail | move tail | clear tail element => rfl
  | loadHead tail =>
    by_cases h : (q.head - tail).toInt ≤ 0
    · rw [spscTryPop, if_pos h]
      exact if_pos h
    · rw [spscTryPop, if_neg h]
      exact if_neg h
  | storeTail tail =>
    rw [SpscPop.pc, QueueBase.tryPop]
    exact if_pos (Or.inl rfl)
  | loadState tail =>
    by_cases h : q.states (config.slot tail) = .stored
    · rw [spscTryPop, if_pos h]
      exact (if_pos h).trans rfl
    · rw [spscTryPop, if_neg h]
      exact (if_neg h).trans rfl

end AtomicQueue2

end LuPlatform.Queue
