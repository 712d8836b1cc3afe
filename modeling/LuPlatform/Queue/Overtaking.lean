import LuPlatform.Library.Counters
import LuPlatform.Queue.MPSCRuns

/-! A queue in which a producer has taken the first ticket and stalls before its slot, while another
one fills all the other slots. The next ticket is for the first slot again, and its producer finds the
slot empty. -/

namespace LuPlatform.Queue

open Loop SlotTable Transition Function Counters

/-- The ticket after the last one of a round has the slot of the first. -/
theorem visit_wrap (config : QueueConfig) :
    Shared.visit config config.queueSize.toNat = Shared.visit config 0 := by
  have hindex : config.index (BitVec.ofNat 32 config.queueSize.toNat) =
      config.index (BitVec.ofNat 32 0) := by
    rw [BitVec.ofNat_toNat, BitVec.setWidth_eq, QueueConfig.index, QueueConfig.index]
    congr 1
    refine BitVec.eq_of_toNat_eq ?_
    rw [BitVec.toNat_umod, Nat.mod_self, BitVec.toNat_umod, BitVec.toNat_ofNat]
    simp
  exact Fin.ext (show (config.index _).toNat = (config.index _).toNat by rw [hindex])

namespace MPSCQueue

variable {config : QueueConfig} {T P : Type} [DecidableEq P]

/-- Producer `p` stalls with the first ticket, and `q` has pushed `element 1`, .., `element n`. -/
structure Filled (p q : P) (first : T) (element : Nat → T) (n : Nat) (s : MPSCQueue config T P Unit) :
    Prop where
  head : s.shared.queue.head = BitVec.ofNat 32 (n + 1)
  tail : s.shared.queue.tail = BitVec.ofNat 32 0
  skipped : s.shared.queue.states (Shared.visit config 0) = .empty
  stored : ∀ j, 1 ≤ j → j ≤ n → s.shared.queue.states (Shared.visit config j) = .stored ∧
    s.shared.queue.elements (Shared.visit config j) = element j
  empty : ∀ j, n < j → j < config.queueSize.toNat →
    s.shared.queue.states (Shared.visit config j) = .empty
  producer : s.producers q = .outside
  consumer : s.consumers () = .outside
  consumerWait : s.consumerWait = false
  returned : s.shared.returned = []
  begun : s.begun = (p, first) :: (List.range' 1 n).map fun j => (q, element j)
  completed : s.completed = (List.range' 1 n).map fun j => (q, element j)

theorem filled_reserving {p q : P} (hpq : q ≠ p) (first other : T) (element : Nat → T) :
    Filled p q first element 0 ((start config other P Unit).reserving p first) where
  head := rfl
  tail := rfl
  skipped := rfl
  stored j hj hj' := absurd hj (by omega)
  empty j hj hj' := rfl
  producer := update_of_ne hpq _ _
  consumer := rfl
  consumerWait := rfl
  returned := rfl
  begun := rfl
  completed := rfl

variable {s : MPSCQueue config T P Unit} {p q : P} {first : T} {element : Nat → T} {n : Nat}

omit [DecidableEq P] in
theorem Filled.space (h : Filled p q first element n s) (hn : n + 1 < config.queueSize.toNat)
    (hsize : config.queueSize.toNat < 2 ^ 31) :
    (s.shared.queue.head - s.shared.queue.tail).toInt < config.queueSize.toInt := by
  rw [h.head, h.tail, ofNat_sub (Nat.zero_le _), toInt_ofNat (by decide) (by omega),
    BitVec.toInt_eq_toNat_of_lt (by omega)]
  omega

omit [DecidableEq P] in
theorem Filled.slot (h : Filled p q first element n s) (hn : n + 1 < config.queueSize.toNat) :
    s.shared.queue.states (config.slot s.shared.queue.head) = .empty := by
  rw [h.head]
  exact h.empty (n + 1) (by omega) hn

omit [DecidableEq P] in
/-- One more push. -/
theorem Filled.pushed (h : Filled p q first element n s) (hn : n + 1 < config.queueSize.toNat) :
    Filled p q first element (n + 1) (s.pushed q (element (n + 1))) := by
  have hslot : config.slot s.shared.queue.head = Shared.visit config (n + 1) := by rw [h.head]; rfl
  have hother : ∀ j, j < config.queueSize.toNat → j ≠ n + 1 →
      Shared.visit config j ≠ Shared.visit config (n + 1) := fun j hj hne heq =>
    hne (config.slot_injective hj hn heq)
  refine ⟨?_, h.tail, ?_, fun j hj hj' => ?_, fun j hj hj' => ?_, h.producer, h.consumer,
    h.consumerWait, h.returned, ?_, ?_⟩
  · rw [pushed_head, h.head, BitVec.ofNat_add (n + 1) 1]
  · rw [pushed_states, hslot, update_of_ne (hother 0 (by omega) (by omega)), h.skipped]
  · rw [pushed_states, pushed_elements, hslot]
    by_cases hlast : j = n + 1
    · subst hlast
      rw [update_self, update_self]
      exact ⟨rfl, rfl⟩
    · rw [update_of_ne (hother j (by omega) hlast), update_of_ne (hother j (by omega) hlast)]
      exact h.stored j hj (by omega)
  · rw [pushed_states, hslot, update_of_ne (hother j hj' (by omega))]
    exact h.empty j (by omega) hj'
  · rw [pushed_begun, h.begun, List.range'_concat, List.map_append, List.cons_append]
    simp [Nat.add_comm]
  · rw [pushed_completed, h.completed, List.range'_concat, List.map_append]
    simp [Nat.add_comm]

variable (first element) in
/-- A system that lets producers call push and lets calls go on fills the queue. -/
theorem exists_filled {R : MPSCQueue config T P Unit → Prop} {other : T} (hpq : q ≠ p)
    (hsize : config.queueSize.toNat < 2 ^ 31) (hstart : R (start config other P Unit))
    (hfirst : ∀ s, R s → s.producers p = .outside → R (s.called p first))
    (hnext : ∀ s n, R s → s.producers q = .outside → n < config.queueSize.toNat →
      R (s.called q (element n)))
    (hrunning : ∀ s s', R s → (running config T P Unit).Reaches s s' → R s')
    (hn : n < config.queueSize.toNat) :
    ∃ s, R s ∧ Filled p q first element n s := by
  induction n with
  | zero =>
    have hspace : (0#32 - 0#32).toInt < config.queueSize.toInt := by
      have hzero : (0#32 - 0#32).toInt = 0 := by decide
      have hqueueSize : config.queueSize.toInt = config.queueSize.toNat :=
        BitVec.toInt_eq_toNat_of_lt (by omega)
      omega
    have hreserving := reaches_reserving (s := start config other P Unit) p first hspace
    exact ⟨_, hrunning _ _ (hfirst _ hstart rfl) hreserving, filled_reserving hpq first other element⟩
  | succ n ih =>
    obtain ⟨s, hs, hfilled⟩ := ih (by omega)
    have hpushed := reaches_pushed (element (n + 1)) hfilled.producer (hfilled.space hn hsize)
      (hfilled.slot hn) hfilled.consumerWait
    exact ⟨_, hrunning _ _ (hnext s (n + 1) hs hfilled.producer hn) hpushed, hfilled.pushed hn⟩

/-- The consumer has begun to pop. -/
def polling (s : MPSCQueue config T P Unit) : MPSCQueue config T P Unit :=
  { s with consumers := update s.consumers () (.tryPop 0 .loadTail) }

/-- The consumer has taken the first ticket, and `q` has pushed once more, into the first slot. -/
structure Overtaken (p q : P) (first : T) (element : Nat → T) (s : MPSCQueue config T P Unit) :
    Prop where
  head : s.shared.queue.head = BitVec.ofNat 32 (config.queueSize.toNat + 1)
  tail : s.shared.queue.tail = BitVec.ofNat 32 1
  last : s.shared.queue.states (Shared.visit config 0) = .stored ∧
    s.shared.queue.elements (Shared.visit config 0) = element config.queueSize.toNat
  second : s.shared.queue.states (Shared.visit config 1) = .stored ∧
    s.shared.queue.elements (Shared.visit config 1) = element 1
  different : Shared.visit config 1 ≠ Shared.visit config 0
  consumer : s.consumers () = .tryPop 0 (.casState (BitVec.ofNat 32 0))
  returned : s.shared.returned = []
  begun : s.begun =
    (p, first) :: (List.range' 1 config.queueSize.toNat).map fun j => (q, element j)

theorem reaches_firstTicket (h : Filled p q first element n s) (hsize : n + 1 < 2 ^ 31) :
    (running config T P Unit).Reaches s.polling (s.polling.awaiting () 0) := by
  refine reaches_awaiting (by simp [polling]) ?_
  change 0 < (s.shared.queue.head - s.shared.queue.tail).toInt
  rw [h.head, h.tail, ofNat_sub (Nat.zero_le _), toInt_ofNat (by decide) (by omega)]
  omega

theorem reaches_overtaken (h : Filled p q first element n s) (hn : config.queueSize.toNat = n + 1)
    (hpos : 1 ≤ n) (hsize : config.queueSize.toNat < 2 ^ 31) :
    (running config T P Unit).Reaches
      ((s.polling.awaiting () 0).called q (element config.queueSize.toNat))
      ((s.polling.awaiting () 0).pushed q (element config.queueSize.toNat)) := by
  refine reaches_pushed _ h.producer ?_ ?_ h.consumerWait
  · change (s.shared.queue.head - (s.shared.queue.tail + 1#32)).toInt < _
    rw [h.head, h.tail, ← BitVec.ofNat_add, ofNat_sub (by omega), toInt_ofNat (by decide) (by omega),
      BitVec.toInt_eq_toNat_of_lt (by omega)]
    omega
  · change s.shared.queue.states (config.slot s.shared.queue.head) = _
    rw [h.head, ← hn]
    exact (congrArg s.shared.queue.states (visit_wrap config)).trans h.skipped

omit [DecidableEq P] in
theorem Filled.overtaken (h : Filled p q first element n s) (hn : config.queueSize.toNat = n + 1)
    (hpos : 1 ≤ n) :
    Overtaken p q first element
      ((s.polling.awaiting () 0).pushed q (element config.queueSize.toNat)) := by
  have hslot : config.slot s.shared.queue.head = Shared.visit config 0 := by
    rw [h.head, ← hn]
    exact visit_wrap config
  have hsecond : Shared.visit config 1 ≠ Shared.visit config 0 := fun heq =>
    absurd (config.slot_injective (by omega) (by omega) heq) (by decide)
  refine ⟨?_, ?_, ?_, ?_, hsecond, ?_, h.returned, ?_⟩
  · rw [pushed_head, awaiting_head, hn, BitVec.ofNat_add (n + 1) 1, ← h.head, polling]
  · rw [pushed_tail, awaiting_tail, polling, h.tail]
    rfl
  · rw [pushed_states, pushed_elements, awaiting_head, polling, hslot, update_self, update_self]
    exact ⟨rfl, rfl⟩
  · rw [pushed_states, pushed_elements, awaiting_head, polling, hslot, update_of_ne hsecond,
      update_of_ne hsecond]
    exact h.stored 1 le_rfl hpos
  · rw [pushed_consumers, awaiting_consumers, polling, update_self, h.tail]
  · rw [pushed_begun, awaiting_begun, polling, h.begun, hn, List.range'_concat, List.map_append,
      List.cons_append]
    simp [Nat.add_comm]

end MPSCQueue

end LuPlatform.Queue
