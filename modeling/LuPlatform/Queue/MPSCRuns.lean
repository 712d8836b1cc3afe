import LuPlatform.Queue.MPSCQueue

/-! Calls of `MPSCQueue`, or the two halves of one, that nobody interrupts: up to the ticket, and from
the slot on. -/

namespace LuPlatform.Queue

open Loop SlotTable Transition Function

namespace MPSCQueue

open TransitionSystem

variable {config : QueueConfig} {T P C : Type}

/-- No call begins. -/
structure Continues (s s' : MPSCQueue config T P C) : Prop where
  begun : s'.begun = s.begun
  consumers : ∀ c, s.consumers c = .outside → s'.consumers c = .outside

variable [DecidableEq P] [DecidableEq C] {s : MPSCQueue config T P C}

variable (config T P C) in
/-- The calls that have begun go on. -/
def running : TransitionSystem (MPSCQueue config T P C) := (system config T P C).restrict Continues

/-! ### Pushing -/

/-- A push has begun. -/
def called (s : MPSCQueue config T P C) (p : P) (element : T) : MPSCQueue config T P C :=
  { s with
    producers := update s.producers p (.tryPush (.loadHead element))
    begun := s.begun ++ [(p, element)] }

/-- It has its ticket and has not looked at the slot yet. -/
def reserving (s : MPSCQueue config T P C) (p : P) (element : T) : MPSCQueue config T P C :=
  { s with
    shared := { s.shared with
      queue := { s.shared.queue with head := s.shared.queue.head + 1#32 }
      reserved := s.shared.reserved + 1 }
    producers := update s.producers p (.tryPush (.casState element s.shared.queue.head))
    begun := s.begun ++ [(p, element)] }

/-- It has returned. -/
def pushed (s : MPSCQueue config T P C) (p : P) (element : T) : MPSCQueue config T P C :=
  { s with
    shared := { s.shared with
      queue := {
        head := s.shared.queue.head + 1#32
        tail := s.shared.queue.tail
        states := update s.shared.queue.states (config.slot s.shared.queue.head) .stored
        elements := update s.shared.queue.elements (config.slot s.shared.queue.head) element }
      reserved := s.shared.reserved + 1
      stored := s.shared.stored ++ [(p, element)] }
    begun := s.begun ++ [(p, element)]
    completed := s.completed ++ [(p, element)] }

section Pushed

omit [DecidableEq P] [DecidableEq C]

variable (s : MPSCQueue config T P C) (p : P) (element : T)

theorem pushed_head : (s.pushed p element).shared.queue.head = s.shared.queue.head + 1#32 := rfl

theorem pushed_tail : (s.pushed p element).shared.queue.tail = s.shared.queue.tail := rfl

theorem pushed_states : (s.pushed p element).shared.queue.states =
    update s.shared.queue.states (config.slot s.shared.queue.head) .stored := rfl

theorem pushed_elements : (s.pushed p element).shared.queue.elements =
    update s.shared.queue.elements (config.slot s.shared.queue.head) element := rfl

theorem pushed_consumers : (s.pushed p element).consumers = s.consumers := rfl

theorem pushed_begun : (s.pushed p element).begun = s.begun ++ [(p, element)] := rfl

theorem pushed_completed : (s.pushed p element).completed = s.completed ++ [(p, element)] := rfl

theorem pushed_stored :
    (s.pushed p element).shared.queue.states (config.slot s.shared.queue.head) = .stored :=
  update_self ..

end Pushed

def withPush (s : MPSCQueue config T P C) (shared : Shared config T P C) (p : P) (pc : MPSCPush T) :
    MPSCQueue config T P C :=
  { s with
    shared
    producers := update s.producers p pc }

theorem step_push {shared : Shared config T P C} {p : P} {pc : TryPush T} :
    (running config T P C).Step (s.withPush shared p (.tryPush pc))
      (s.withPush (shared.push p pc).1 p (.next pc.element (shared.push p pc).2)) := by
  have hstep := Step.push (s.withPush shared p (.tryPush pc)) p pc (update_self ..)
  simp only [withPush, update_idem] at hstep
  exact ⟨hstep, rfl, fun _ hc => hc⟩

theorem reaches_reserving (p : P) (element : T)
    (hspace : (s.shared.queue.head - s.shared.queue.tail).toInt < config.queueSize.toInt) :
    (running config T P C).Reaches (s.called p element) (s.reserving p element) := by
  have hfull : ¬ config.queueSize.toInt ≤ (s.shared.queue.head - s.shared.queue.tail).toInt :=
    Int.not_le.mpr hspace
  have hcall : (running config T P C).Reaches (s.called p element)
      ({ s with begun := s.begun ++ [(p, element)] }.withPush s.shared p
        (.tryPush (.loadHead element))) :=
    .refl _
  have hloadHead := hcall.step step_push
  simp only [Shared.push, AtomicQueue2.tryPush, MPSCPush.next] at hloadHead
  have hloadTail := hloadHead.step step_push
  simp only [Shared.push, AtomicQueue2.tryPush, hfull, MPSCPush.next, ↓reduceIte] at hloadTail
  have hcasHead := hloadTail.step step_push
  simp only [Shared.push, AtomicQueue2.tryPush, MPSCPush.next, ↓reduceIte] at hcasHead
  exact hcasHead

/-- A push that finds space and no consumer asleep. -/
theorem reaches_pushed {p : P} (element : T) (hp : s.producers p = .outside)
    (hspace : (s.shared.queue.head - s.shared.queue.tail).toInt < config.queueSize.toInt)
    (hempty : s.shared.queue.states (config.slot s.shared.queue.head) = .empty)
    (hwait : s.consumerWait = false) :
    (running config T P C).Reaches (s.called p element) (s.pushed p element) := by
  have hreserving : (running config T P C).Reaches (s.called p element)
      ({ s with begun := s.begun ++ [(p, element)] }.withPush (s.reserving p element).shared p
        (.tryPush (.casState element s.shared.queue.head))) :=
    reaches_reserving p element hspace
  have hcasState := hreserving.step step_push
  simp only [reserving, Shared.push, AtomicQueue2.tryPush, hempty, MPSCPush.next, ↓reduceIte] at hcasState
  have hwrite := hcasState.step step_push
  have hpublish := hwrite.step step_push
  have hreturn := hpublish.step ⟨Step.skipWait _ p element (update_self ..) hwait, rfl,
    fun _ hc => hc⟩
  have hproducers : update s.producers p .outside = s.producers := by rw [← hp, update_eq_self]
  simpa [Shared.push, AtomicQueue2.tryPush, MPSCPush.next, withPush, pushed, hproducers]
    using hreturn

theorem reachable_pushed {p : P} (element : T) (h : (system config T P C).Reachable s)
    (hp : s.producers p = .outside)
    (hspace : (s.shared.queue.head - s.shared.queue.tail).toInt < config.queueSize.toInt)
    (hempty : s.shared.queue.states (config.slot s.shared.queue.head) = .empty)
    (hwait : s.consumerWait = false) :
    (system config T P C).Reachable (s.pushed p element) :=
  (h.reaches (.step (.refl s) (Step.callPush s p element hp))).reaches
    (reaches_pushed element hp hspace hempty hwait).of_restrict

/-! ### Popping -/

/-- A pop has its ticket and has not looked at the slot yet. -/
def awaiting (s : MPSCQueue config T P C) (c : C) (count : Nat) : MPSCQueue config T P C :=
  { s with
    shared := { s.shared with
      queue := { s.shared.queue with tail := s.shared.queue.tail + 1#32 }
      awaited := s.shared.awaited + 1 }
    consumers := update s.consumers c (.tryPop count (.casState s.shared.queue.tail)) }

/-- It has found the slot of its ticket stored, and has returned. -/
def returning (s : MPSCQueue config T P C) (c : C) (tail : BitVec 32) : MPSCQueue config T P C :=
  { s with
    shared := { s.shared with
      queue := { s.shared.queue with
        states := update s.shared.queue.states (config.slot tail) .empty }
      claimed := s.shared.claimed ++ [(c, s.shared.queue.elements (config.slot tail))]
      returned := s.shared.returned ++ [(c, s.shared.queue.elements (config.slot tail))] }
    consumers := update s.consumers c .outside }

section Awaiting

omit [DecidableEq P]

variable (s : MPSCQueue config T P C) (c : C) (count : Nat)

theorem awaiting_head : (s.awaiting c count).shared.queue.head = s.shared.queue.head := rfl

theorem awaiting_tail : (s.awaiting c count).shared.queue.tail = s.shared.queue.tail + 1#32 := rfl

theorem awaiting_consumers : (s.awaiting c count).consumers =
    update s.consumers c (.tryPop count (.casState s.shared.queue.tail)) := rfl

theorem awaiting_begun : (s.awaiting c count).begun = s.begun := rfl

end Awaiting

def withPop (s : MPSCQueue config T P C) (shared : Shared config T P C) (c : C) (pc : MPSCPop T) :
    MPSCQueue config T P C :=
  { s with
    shared
    consumers := update s.consumers c pc }

omit [DecidableEq P] in
theorem withPop_self {c : C} {pc : MPSCPop T} (hc : s.consumers c = pc) :
    s.withPop s.shared c pc = s := by
  rw [withPop, ← hc, update_eq_self]

theorem step_pop {shared : Shared config T P C} {c : C} {count : Nat} {pc : TryPop T} :
    (running config T P C).Step (s.withPop shared c (.tryPop count pc))
      (s.withPop (shared.pop c pc).1 c (.next count (shared.pop c pc).2)) := by
  have hstep := Step.pop (s.withPop shared c (.tryPop count pc)) c count pc (update_self ..)
  simp only [withPop, update_idem] at hstep
  refine ⟨hstep, rfl, fun d hd => ?_⟩
  have hdc : d ≠ c := by
    rintro rfl
    simp [withPop] at hd
  simpa [withPop, update_of_ne hdc] using hd

theorem reaches_awaiting {c : C} {count : Nat} (hc : s.consumers c = .tryPop count .loadTail)
    (hsome : 0 < (s.shared.queue.head - s.shared.queue.tail).toInt) :
    (running config T P C).Reaches s (s.awaiting c count) := by
  have hnone : ¬ (s.shared.queue.head - s.shared.queue.tail).toInt ≤ 0 := Int.not_le.mpr hsome
  have hstart : (running config T P C).Reaches s (s.withPop s.shared c (.tryPop count .loadTail)) := by
    rw [withPop_self hc]
    exact .refl s
  have hloadTail := hstart.step step_pop
  simp only [Shared.pop, AtomicQueue2.tryPop, MPSCPop.next] at hloadTail
  have hloadHead := hloadTail.step step_pop
  simp only [Shared.pop, AtomicQueue2.tryPop, hnone, MPSCPop.next, ↓reduceIte] at hloadHead
  have hcasTail := hloadHead.step step_pop
  simp only [Shared.pop, AtomicQueue2.tryPop, MPSCPop.next, ↓reduceIte] at hcasTail
  exact hcasTail

theorem reaches_returning {c : C} {count : Nat} {tail : BitVec 32}
    (hc : s.consumers c = .tryPop count (.casState tail))
    (hstored : s.shared.queue.states (config.slot tail) = .stored) :
    (running config T P C).Reaches s (s.returning c tail) := by
  have hstart : (running config T P C).Reaches s
      (s.withPop s.shared c (.tryPop count (.casState tail))) := by
    rw [withPop_self hc]
    exact .refl s
  have hcasState := hstart.step step_pop
  simp only [Shared.pop, AtomicQueue2.tryPop, hstored, MPSCPop.next, ↓reduceIte] at hcasState
  have hmove := hcasState.step step_pop
  have hclear := hmove.step step_pop
  simpa [Shared.pop, AtomicQueue2.tryPop, MPSCPop.next, withPop, returning] using hclear

/-- A poll that finds nothing. -/
theorem reaches_pause {c : C} {count : Nat} (hc : s.consumers c = .tryPop count .loadTail)
    (hnone : (s.shared.queue.head - s.shared.queue.tail).toInt ≤ 0) :
    (running config T P C).Reaches s { s with consumers := update s.consumers c (.pause count) } := by
  have hstart : (running config T P C).Reaches s (s.withPop s.shared c (.tryPop count .loadTail)) := by
    rw [withPop_self hc]
    exact .refl s
  have hloadTail := hstart.step step_pop
  simp only [Shared.pop, AtomicQueue2.tryPop, MPSCPop.next] at hloadTail
  have hloadHead := hloadTail.step step_pop
  simp only [Shared.pop, AtomicQueue2.tryPop, hnone, MPSCPop.next, ↓reduceIte] at hloadHead
  exact hloadHead

/-! ### Going to sleep -/

/-- Polls of an empty queue, up to the one after which the consumer raises the flag. -/
theorem reaches_polls (c : C) (hnone : (s.shared.queue.head - s.shared.queue.tail).toInt ≤ 0)
    {count : Nat} (hcount : count ≤ 1000) :
    (system config T P C).Reaches { s with consumers := update s.consumers c (.tryPop 0 .loadTail) }
      { s with consumers := update s.consumers c (.tryPop count .loadTail) } := by
  induction count with
  | zero => exact .refl _
  | succ count ih =>
    have hpause := reaches_pause (s := { s with
      consumers := update s.consumers c (.tryPop count .loadTail) }) (update_self ..) hnone
    have hnext := ((ih (by omega)).trans hpause.of_restrict).step
      (Step.pausePop _ c count (update_self ..))
    simpa [show count ≠ 1000 by omega] using hnext

/-- A pop from an empty queue, up to raising the flag. -/
theorem reaches_raiseWait {c : C} (hc : s.consumers c = .outside)
    (hnone : (s.shared.queue.head - s.shared.queue.tail).toInt ≤ 0) :
    (system config T P C).Reaches s { s with consumers := update s.consumers c (.raiseWait 1000) } := by
  have hcall := (Reaches.refl (S := system config T P C) s).step (Step.callPop s c hc)
  have hpolls := hcall.trans (reaches_polls c hnone le_rfl)
  have hpause := reaches_pause (s := { s with
    consumers := update s.consumers c (.tryPop 1000 .loadTail) }) (update_self ..) hnone
  have hraise := (hpolls.trans hpause.of_restrict).step (Step.pausePop _ c 1000 (update_self ..))
  simpa using hraise

/-- From raising the flag to sleep. -/
theorem reaches_blocked {c : C} {count : Nat} (hc : s.consumers c = .raiseWait count)
    (hmutex : s.mutex = none) :
    (system config T P C).Reaches s { s with
      consumerWait := true
      consumers := update s.consumers c (.blocked count) } := by
  have hraise := (Reaches.refl (S := system config T P C) s).step (Step.raiseWait s c count hc)
  have hlock := hraise.step (Step.lockPop _ c count (update_self ..) hmutex)
  have htest := hlock.step (Step.testWait _ c count (update_self ..))
  have hwait := htest.step (Step.wait _ c count (update_self ..))
  simpa [hmutex] using hwait

end MPSCQueue

end LuPlatform.Queue
