import LuPlatform.Queue.AtomicQueue

/-! Threads that call `try_push` and `try_pop` of one `AtomicQueue2`, their steps interleaved in any
order. Every step of a call is a step of the slot table or none of its business, and the counters of
the queue are the tickets that were handed out. -/

namespace LuPlatform.Queue

open Loop SlotTable Transition Function

/-- The queue and what has happened to it so far. -/
structure Shared (config : QueueConfig) (T P C : Type) where
  queue : AtomicQueue2 config T
  reserved : Nat
  awaited : Nat
  stored : List (P × T)
  claimed : List (C × T)
  returned : List (C × T)

variable {config : QueueConfig} {T P C : Type}

namespace Shared

/-- A step of a push. A ticket is reserved where the head moves, and an element is stored where its
slot becomes stored. -/
def push (s : Shared config T P C) (p : P) (pc : TryPush T) :
    Shared config T P C × Round (TryPush T) Bool :=
  let (queue, next) := s.queue.tryPush pc
  ({ s with
      queue
      reserved := match pc, next with
        | .casHead _ _, .again (.casState _ _) => s.reserved + 1
        | _, _ => s.reserved
      stored := match pc with
        | .publish element _ => s.stored ++ [(p, element)]
        | _ => s.stored }, next)

/-- A step of a pop. An element is claimed where its slot becomes loading, and returned where the call
ends. -/
def pop (s : Shared config T P C) (c : C) (pc : TryPop T) :
    Shared config T P C × Round (TryPop T) (Option T) :=
  let (queue, next) := s.queue.tryPop pc
  ({ s with
      queue
      awaited := match pc, next with
        | .casTail _, .again (.casState _) => s.awaited + 1
        | _, _ => s.awaited
      claimed := match pc, next with
        | .casState tail, .again (.move _) => s.claimed ++ [(c, s.queue.elements (config.slot tail))]
        | _, _ => s.claimed
      returned := match next with
        | .leave (some element) => s.returned ++ [(c, element)]
        | _ => s.returned }, next)

/-- Nothing has happened yet. -/
structure Initial (s : Shared config T P C) : Prop where
  queue : s.queue.Constructed
  reserved : s.reserved = 0
  awaited : s.awaited = 0
  stored : s.stored = []
  claimed : s.claimed = []
  returned : s.returned = []

/-- The counters hold the number of tickets that were handed out, as far as a word does. -/
structure Coupled (s : Shared config T P C) : Prop where
  head : s.queue.head = BitVec.ofNat 32 s.reserved
  tail : s.queue.tail = BitVec.ofNat 32 s.awaited

theorem Initial.coupled {s : Shared config T P C} (h : s.Initial) : s.Coupled where
  head := by rw [h.queue.head, h.reserved]
  tail := by rw [h.queue.tail, h.awaited]

end Shared

/-- A thread that changes only what a view of it leaves out. -/
theorem comp_update_same {I A B : Type} [DecidableEq I] {view : A → B} {f : I → A} {i : I} {x : A}
    (h : view x = view (f i)) : view ∘ update f i x = view ∘ f := by
  rw [comp_update, h, update_eq_self_iff, comp_apply]

/-! ### The slot table -/

/-- What a push means for the table. -/
def TryPush.phase (config : QueueConfig) : TryPush T → Producer config.Slot T
  | .loadHead _ | .loadTail _ _ | .casHead _ _ => .outside
  | .casState element head | .spin element head => .waiting (config.slot head) element
  | .write element head => .writing (config.slot head) element
  | .publish element head => .written (config.slot head) element

def TryPop.phase (config : QueueConfig) : TryPop T → Consumer config.Slot T
  | .loadTail | .loadHead _ | .casTail _ => .outside
  | .casState tail | .spin tail => .waiting (config.slot tail)
  | .move tail => .moving (config.slot tail)
  | .clear tail element => .moved (config.slot tail) element

/-- A call that is over leaves nothing. -/
def pushPhase (config : QueueConfig) : Option (TryPush T) → Producer config.Slot T
  | some pc => pc.phase config
  | none => .outside

def popPhase (config : QueueConfig) : Option (TryPop T) → Consumer config.Slot T
  | some pc => pc.phase config
  | none => .outside

/-- The element that a call was made with. -/
def TryPush.element : TryPush T → T
  | .loadHead element | .loadTail element _ | .casHead element _ | .casState element _ | .spin element _
  | .write element _ | .publish element _ => element

/-- The call that goes on. -/
def goingOn {A ρ : Type} : Round A ρ → Option A
  | .again pc => some pc
  | .leave _ => none

namespace Shared

def table (s : Shared config T P C) (producers : P → Producer config.Slot T)
    (consumers : C → Consumer config.Slot T) : Table config.Slot T P C where
  states := s.queue.states
  elements := s.queue.elements
  producers := producers
  consumers := consumers
  reserved := s.reserved
  awaited := s.awaited
  stored := s.stored
  claimed := s.claimed
  returned := s.returned

/-- The slots in the order of their tickets. -/
def visit (config : QueueConfig) (n : Nat) : config.Slot := config.slot (BitVec.ofNat 32 n)

variable {s : Shared config T P C} {producers : P → Producer config.Slot T}
  {consumers : C → Consumer config.Slot T}

theorem Initial.table (h : s.Initial) :
    SlotTable.Initial (s.table (fun _ => .outside) fun _ => .outside) where
  states := h.queue.states
  producers _ := rfl
  consumers _ := rfl
  reserved := h.reserved
  awaited := h.awaited
  stored := h.stored
  claimed := h.claimed
  returned := h.returned

theorem push_coupled (h : s.Coupled) (p : P) (pc : TryPush T) : (s.push p pc).1.Coupled := by
  obtain ⟨hhead, htail⟩ := h
  cases pc with
  | casHead element head =>
    simp only [push, AtomicQueue2.tryPush]
    split
    · rename_i hcas
      exact ⟨by simp only [← hcas, hhead, BitVec.ofNat_add], htail⟩
    · exact ⟨hhead, htail⟩
  | loadTail element head | casState element head | spin element head =>
    simp only [push, AtomicQueue2.tryPush]
    split <;> exact ⟨hhead, htail⟩
  | loadHead element | write element head | publish element head => exact ⟨hhead, htail⟩

theorem pop_coupled (h : s.Coupled) (c : C) (pc : TryPop T) : (s.pop c pc).1.Coupled := by
  obtain ⟨hhead, htail⟩ := h
  cases pc with
  | casTail tail =>
    simp only [pop, AtomicQueue2.tryPop]
    split
    · rename_i hcas
      exact ⟨hhead, by simp only [← hcas, htail, BitVec.ofNat_add]⟩
    · exact ⟨hhead, htail⟩
  | loadHead tail | casState tail | spin tail =>
    simp only [pop, AtomicQueue2.tryPop]
    split <;> exact ⟨hhead, htail⟩
  | loadTail | move tail | clear tail element => exact ⟨hhead, htail⟩

variable [DecidableEq P] [DecidableEq C]

/-- A step of a push is one of the table. -/
theorem push_step (h : s.Coupled) {p : P} {pc : TryPush T} (hp : producers p = pc.phase config) :
    Step (visit config) (s.table producers consumers)
        ((s.push p pc).1.table
          (update producers p (pushPhase config (goingOn (s.push p pc).2))) consumers) ∨
      (s.push p pc).1.table
          (update producers p (pushPhase config (goingOn (s.push p pc).2))) consumers =
        s.table producers consumers := by
  have hsame : s.table (update producers p (pc.phase config)) consumers = s.table producers consumers := by
    rw [← hp, update_eq_self]
  cases pc with
  | loadHead element => exact .inr hsame
  | loadTail element head =>
    simp only [push, AtomicQueue2.tryPush]
    split <;> exact .inr hsame
  | casHead element head =>
    simp only [push, AtomicQueue2.tryPush]
    split
    · rename_i hcas
      left
      have hslot : config.slot head = visit config s.reserved := by rw [visit, ← h.head, hcas]
      simp only [goingOn, pushPhase, TryPush.phase, hslot]
      exact .reserve _ p element hp
    · exact .inr hsame
  | casState element head =>
    simp only [push, AtomicQueue2.tryPush]
    split
    · rename_i hcas
      exact .inl (.store _ p (config.slot head) element hp hcas)
    · exact .inr hsame
  | spin element head =>
    simp only [push, AtomicQueue2.tryPush]
    split <;> exact .inr hsame
  | write element head => exact .inl (.write _ p (config.slot head) element hp)
  | publish element head => exact .inl (.publish _ p (config.slot head) element hp)

theorem pop_step (h : s.Coupled) {c : C} {pc : TryPop T} (hc : consumers c = pc.phase config) :
    Step (visit config) (s.table producers consumers)
        ((s.pop c pc).1.table producers
          (update consumers c (popPhase config (goingOn (s.pop c pc).2)))) ∨
      (s.pop c pc).1.table producers
          (update consumers c (popPhase config (goingOn (s.pop c pc).2))) =
        s.table producers consumers := by
  have hsame : s.table producers (update consumers c (pc.phase config)) = s.table producers consumers := by
    rw [← hc, update_eq_self]
  cases pc with
  | loadTail => exact .inr hsame
  | loadHead tail =>
    simp only [pop, AtomicQueue2.tryPop]
    split <;> exact .inr hsame
  | casTail tail =>
    simp only [pop, AtomicQueue2.tryPop]
    split
    · rename_i hcas
      left
      have hslot : config.slot tail = visit config s.awaited := by rw [visit, ← h.tail, hcas]
      simp only [goingOn, popPhase, TryPop.phase, hslot]
      exact .await _ c hc
    · exact .inr hsame
  | casState tail =>
    simp only [pop, AtomicQueue2.tryPop]
    split
    · rename_i hcas
      exact .inl (.claim _ c (config.slot tail) hc hcas)
    · exact .inr hsame
  | spin tail =>
    simp only [pop, AtomicQueue2.tryPop]
    split <;> exact .inr hsame
  | move tail => exact .inl (.move _ c (config.slot tail) hc)
  | clear tail element => exact .inl (.clear _ c (config.slot tail) element hc)

end Shared

/-! ### Threads -/

/-- Any thread that is in no call may begin one. -/
structure Threads (config : QueueConfig) (T P C : Type) where
  shared : Shared config T P C
  producers : P → Option (TryPush T)
  consumers : C → Option (TryPop T)

namespace Threads

structure Initial (s : Threads config T P C) : Prop where
  shared : s.shared.Initial
  producers : ∀ p, s.producers p = none
  consumers : ∀ c, s.consumers c = none

def table (s : Threads config T P C) : Table config.Slot T P C :=
  s.shared.table (pushPhase config ∘ s.producers) (popPhase config ∘ s.consumers)

theorem Initial.table {s : Threads config T P C} (h : s.Initial) : SlotTable.Initial s.table := by
  have hproducers : pushPhase config ∘ s.producers = fun _ => .outside := by
    funext p
    simp [h.producers p, pushPhase]
  have hconsumers : popPhase config ∘ s.consumers = fun _ => .outside := by
    funext c
    simp [h.consumers c, popPhase]
  rw [Threads.table, hproducers, hconsumers]
  exact h.shared.table

variable [DecidableEq P] [DecidableEq C]

inductive Step : Threads config T P C → Threads config T P C → Prop
  | callPush (s) (p : P) (element : T) : s.producers p = none →
      Step s { s with producers := update s.producers p (some (.loadHead element)) }
  | push (s) (p : P) (pc : TryPush T) : s.producers p = some pc →
      Step s { s with
        shared := (s.shared.push p pc).1
        producers := update s.producers p (goingOn (s.shared.push p pc).2) }
  | callPop (s) (c : C) : s.consumers c = none →
      Step s { s with consumers := update s.consumers c (some .loadTail) }
  | pop (s) (c : C) (pc : TryPop T) : s.consumers c = some pc →
      Step s { s with
        shared := (s.shared.pop c pc).1
        consumers := update s.consumers c (goingOn (s.shared.pop c pc).2) }

variable (config T P C) in
def system : TransitionSystem (Threads config T P C) := ⟨Initial, Step⟩

variable {s s' : Threads config T P C}

theorem Step.coupled (hstep : Step s s') (h : s.shared.Coupled) : s'.shared.Coupled := by
  cases hstep with
  | callPush p element hp => exact h
  | push p pc hp => exact Shared.push_coupled h p pc
  | callPop c hc => exact h
  | pop c pc hc => exact Shared.pop_coupled h c pc

theorem Step.table (hstep : Step s s') (h : s.shared.Coupled) :
    SlotTable.Step (Shared.visit config) s.table s'.table ∨ s'.table = s.table := by
  cases hstep with
  | callPush p element hp =>
    right
    exact congrArg (s.shared.table · _) (comp_update_same (by rw [hp, pushPhase, pushPhase, TryPush.phase]))
  | push p pc hp =>
    have hphase : (pushPhase config ∘ s.producers) p = pc.phase config := by
      rw [comp_apply, hp, pushPhase]
    simp only [Threads.table, comp_update]
    exact Shared.push_step h hphase
  | callPop c hc =>
    right
    exact congrArg (s.shared.table _ ·) (comp_update_same (by rw [hc, popPhase, popPhase, TryPop.phase]))
  | pop c pc hc =>
    have hphase : (popPhase config ∘ s.consumers) c = pc.phase config := by
      rw [comp_apply, hc, popPhase]
    simp only [Threads.table, comp_update]
    exact Shared.pop_step h hphase

open TransitionSystem

theorem coupled_of_reachable (h : (system config T P C).Reachable s) : s.shared.Coupled :=
  h.invariant (I := fun s => s.shared.Coupled) (fun _ hs => Shared.Initial.coupled (Initial.shared hs))
    fun _ _ _ hcoupled hstep => Step.coupled hstep hcoupled

/-- The threads and their queue refine the slot table. -/
theorem table_of_reachable (h : (system config T P C).Reachable s) :
    (SlotTable.system config.Slot T P C (Shared.visit config)).Reachable s.table :=
  h.map table (fun _ => Initial.table) fun _ _ hreachable hstep =>
    Step.table hstep (coupled_of_reachable hreachable)

end Threads

end LuPlatform.Queue
