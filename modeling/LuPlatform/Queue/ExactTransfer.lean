import LuPlatform.Queue.RetryDecorator
import LuPlatform.Queue.MPSCRuns

/-! What is pushed is popped exactly once, for threads that call `AtomicQueue2` directly, through
`RetryDecorator` or through `MPSCQueue`. -/

namespace LuPlatform.Queue

open Loop SlotTable Transition Function

variable {config : QueueConfig} {T P C : Type}

/-- What a pop has claimed and not returned yet. -/
def TryPop.inHand (q : AtomicQueue2 config T) : Option (TryPop T) → List T
  | some (.move tail) => [q.elements (config.slot tail)]
  | some (.clear _ element) => [element]
  | _ => []

/-- The elements whose push made their slot stored are those that pops have claimed and those in stored
slots. Every thread returns what it claimed, and while nobody is in a call `was_size` counts the stored
slots. -/
structure Shared.ExactTransfer [DecidableEq C] (s : Shared config T P C) (inHand : C → List T)
    (idle : Prop) : Prop where
  transferred : (s.stored.map Prod.snd : Multiset T) =
    (s.claimed.map Prod.snd : Multiset T) + s.queue.held
  returned : ∀ c, (s.claimed.filter (·.1 = c)).map Prod.snd =
    (s.returned.filter (·.1 = c)).map Prod.snd ++ inHand c
  size : idle → s.queue.wasSize = s.queue.storedSlots

/-! ### The largest queue -/

/-- A push that has not passed the test for a full queue. -/
def TryPush.Untested : TryPush T → Prop
  | .loadHead _ | .loadTail _ _ => True
  | _ => False

/-- As an `int` the size of the largest queue is negative, and every push finds it full. -/
theorem full_of_largest (h : config.queueSize.toNat = 2 ^ 31) (x : BitVec 32) :
    config.queueSize.toInt ≤ x.toInt := by
  have hsize : config.queueSize = BitVec.intMin 32 := BitVec.eq_of_toNat_eq (by rw [h]; rfl)
  rw [hsize, BitVec.toInt_intMin]
  exact BitVec.le_toInt x

namespace Threads

variable [DecidableEq P] [DecidableEq C] {s s' : Threads config T P C}

/-- No push has got anywhere. -/
structure Refused (s : Threads config T P C) : Prop where
  reserved : s.shared.reserved = 0
  untested : ∀ p pc, s.producers p = some pc → pc.Untested

theorem Step.refused (hlargest : config.queueSize.toNat = 2 ^ 31) (hstep : Step s s')
    (h : s.Refused) : s'.Refused := by
  obtain ⟨hreserved, huntested⟩ := h
  cases hstep with
  | callPush p element hp =>
    refine ⟨hreserved, fun q pc hq => ?_⟩
    by_cases hqp : q = p
    · subst hqp
      simp only [update_self, Option.some.injEq] at hq
      subst hq
      trivial
    · exact huntested q pc (by simpa [hqp] using hq)
  | push p pc hp =>
    have hpc := huntested p pc hp
    have hother : ∀ {next : Option (TryPush T)}, (∀ pc, next = some pc → pc.Untested) →
        ∀ q pc, update s.producers p next q = some pc → pc.Untested := by
      intro next hnext q pc hq
      by_cases hqp : q = p
      · subst hqp
        exact hnext pc (by simpa using hq)
      · exact huntested q pc (by simpa [hqp] using hq)
    cases pc with
    | loadHead element =>
      refine ⟨hreserved, hother ?_⟩
      rintro pc ⟨⟩
      trivial
    | loadTail element head =>
      have hfull : (s.shared.push p (.loadTail element head)) = (s.shared, .leave false) := by
        simp only [Shared.push, AtomicQueue2.tryPush, if_pos (full_of_largest hlargest _)]
      rw [hfull]
      refine ⟨hreserved, hother ?_⟩
      rintro pc ⟨⟩
    | _ => exact hpc.elim
  | callPop c hc => exact ⟨hreserved, huntested⟩
  | pop c pc hc => exact ⟨hreserved, huntested⟩

open TransitionSystem

theorem refused_of_reachable (hlargest : config.queueSize.toNat = 2 ^ 31)
    (h : (system config T P C).Reachable s) : s.Refused := by
  refine h.invariant (I := Refused) (fun s (hs : s.Initial) => ⟨hs.shared.reserved, fun p pc hp => ?_⟩)
    fun _ _ _ hrefused hstep => Step.refused hlargest hstep hrefused
  rw [hs.producers p] at hp
  cases hp

/-- Nobody is in a call. -/
structure Idle (s : Threads config T P C) : Prop where
  producers : ∀ p, s.producers p = none
  consumers : ∀ c, s.consumers c = none

theorem wasSize_of_idle (h : (system config T P C).Reachable s) (hidle : s.Idle) :
    s.shared.queue.wasSize = s.shared.queue.storedSlots := by
  have htable := reserved_of_idle (table_of_reachable h)
    (fun p => by simp [Threads.table, Shared.table, hidle.producers p, pushPhase])
    (fun c => by simp [Threads.table, Shared.table, hidle.consumers c, popPhase])
  have hreserved : s.shared.reserved = s.shared.awaited + s.shared.queue.storedSlots := htable
  have hslots : s.shared.queue.storedSlots ≤ config.queueSize.toNat := by
    have hcard := Finset.card_filter_le Finset.univ fun i => s.shared.queue.states i = .stored
    rwa [Finset.card_univ, Fintype.card_fin] at hcard
  -- in a word, the difference of the counters is what it is as long as it is not negative there
  have hsmall : s.shared.queue.storedSlots < 2 ^ 31 := by
    obtain ⟨k, hk, hsize⟩ := config.queueSize_toNat
    by_cases hlargest : k = 31
    · have hzero := (refused_of_reachable (hlargest ▸ hsize) h).reserved
      omega
    · have hpow : 2 ^ k ≤ 2 ^ 30 := Nat.pow_le_pow_right (by decide) (by omega)
      omega
  have hcoupled := coupled_of_reachable h
  have hdifference : s.shared.queue.head - s.shared.queue.tail =
      BitVec.ofNat 32 s.shared.queue.storedSlots := by
    rw [hcoupled.head, hcoupled.tail, hreserved, Nat.add_comm, BitVec.ofNat_add,
      BitVec.add_sub_cancel]
  rw [AtomicQueue2.wasSize, hdifference, BitVec.toInt_eq_toNat_of_lt, BitVec.toNat_ofNat]
  · omega
  · rw [BitVec.toNat_ofNat]
    omega

theorem exactTransfer_of_reachable (h : (system config T P C).Reachable s) :
    s.shared.ExactTransfer (fun c => TryPop.inHand s.shared.queue (s.consumers c)) s.Idle := by
  have honce := exactlyOnce_of_reachable (table_of_reachable h)
  refine ⟨honce.stored, fun c => ?_, wasSize_of_idle h⟩
  have hreturned := honce.returned c
  have hhand : s.table.inHand c = TryPop.inHand s.shared.queue (s.consumers c) := by
    simp only [Table.inHand, Threads.table, Shared.table, comp_apply]
    cases s.consumers c with
    | none => rfl
    | some pc => cases pc <;> rfl
  rwa [hhand] at hreturned

end Threads

/-! ### The three ways to call the queue -/

structure RetryDecorator.Idle (s : RetryDecorator config T P C) : Prop where
  producers : ∀ p, s.producers p = .outside
  consumers : ∀ c, s.consumers c = .outside

structure MPSCQueue.Idle (s : MPSCQueue config T P C) : Prop where
  producers : ∀ p, s.producers p = .outside
  consumers : ∀ c, s.consumers c = .outside

theorem RetryDecorator.Idle.threads {s : RetryDecorator config T P C} (h : s.Idle) : s.threads.Idle where
  producers p := by simp [RetryDecorator.threads, h.producers p, RetryPush.call]
  consumers c := by simp [RetryDecorator.threads, h.consumers c, RetryPop.call]

theorem MPSCQueue.Idle.threads {s : MPSCQueue config T P C} (h : s.Idle) : s.threads.Idle where
  producers p := by simp [MPSCQueue.threads, h.producers p, MPSCPush.call]
  consumers c := by simp [MPSCQueue.threads, h.consumers c, MPSCPop.call]

variable [DecidableEq P] [DecidableEq C]

/-- Any number of threads on either side, in every state that they reach. -/
theorem exactly_once :
    (∀ s : Threads config T P C, (Threads.system config T P C).Reachable s →
      s.shared.ExactTransfer (fun c => TryPop.inHand s.shared.queue (s.consumers c)) s.Idle) ∧
    (∀ s : RetryDecorator config T P C, (RetryDecorator.system config T P C).Reachable s →
      s.shared.ExactTransfer (fun c => TryPop.inHand s.shared.queue (s.consumers c).call) s.Idle) ∧
    (∀ s : MPSCQueue config T P C, (MPSCQueue.system config T P C).Reachable s →
      s.shared.ExactTransfer (fun c => TryPop.inHand s.shared.queue (s.consumers c).call) s.Idle) := by
  refine ⟨fun s hs => Threads.exactTransfer_of_reachable hs, fun s hs => ?_, fun s hs => ?_⟩
  · obtain ⟨htransferred, hreturned, hsize⟩ :=
      Threads.exactTransfer_of_reachable (RetryDecorator.threads_of_reachable hs)
    exact ⟨htransferred, hreturned, fun hidle => hsize hidle.threads⟩
  · obtain ⟨htransferred, hreturned, hsize⟩ :=
      Threads.exactTransfer_of_reachable (MPSCQueue.threads_of_reachable hs)
    exact ⟨htransferred, hreturned, fun hidle => hsize hidle.threads⟩

/-- A queue of one slot, after one push. -/
theorem exactly_once_pushed : ∃ s : MPSCQueue ⟨1, true, 64, by decide, by decide⟩ Nat Unit Unit,
    s.shared.stored = [((), 7)] ∧
      s.shared.ExactTransfer (fun c => TryPop.inHand s.shared.queue (s.consumers c).call) s.Idle := by
  have hstart : (MPSCQueue.system ⟨1, true, 64, by decide, by decide⟩ Nat Unit Unit).Reachable _ :=
    .initial (MPSCQueue.start_initial _ 0 Unit Unit)
  have hpushed := MPSCQueue.reachable_pushed (p := ()) 7 hstart rfl (by decide) rfl rfl
  exact ⟨_, rfl, exactly_once.2.2 _ hpushed⟩

end LuPlatform.Queue
