import LuPlatform.Library.SlotFifo
import LuPlatform.Queue.QueueThreads

/-! `AtomicQueue2` with `SPSC`, and one thread on either side. The counters and the states are loaded
and stored where the other instantiation exchanges them, and a slot that a thread works on keeps the
state in which the thread found it. -/

namespace LuPlatform.Queue

open Loop SlotTable Transition Function

/-- Where `try_push` stands: before one of its accesses, from `loadState` on in `do_push_any`. -/
inductive SpscPush (T : Type) where
  | loadHead (element : T)
  | loadTail (element : T) (head : BitVec 32)
  | storeHead (element : T) (head : BitVec 32)
  | loadState (element : T) (head : BitVec 32)
  | write (element : T) (head : BitVec 32)
  | publish (element : T) (head : BitVec 32)

inductive SpscPop (T : Type) where
  | loadTail
  | loadHead (tail : BitVec 32)
  | storeTail (tail : BitVec 32)
  | loadState (tail : BitVec 32)
  | move (tail : BitVec 32)
  | clear (tail : BitVec 32) (element : T)

variable {config : QueueConfig} {T : Type}

namespace AtomicQueue2

/-- A thread that does not find its slot loads the state again. -/
def spscTryPush (q : AtomicQueue2 config T) :
    SpscPush T → AtomicQueue2 config T × Round (SpscPush T) Bool
  | .loadHead element => (q, .again (.loadTail element q.head))
  | .loadTail element head =>
    if config.queueSize.toInt ≤ (head - q.tail).toInt then (q, .leave false)
    else (q, .again (.storeHead element head))
  | .storeHead element head => ({ q with head := head + 1#32 }, .again (.loadState element head))
  | .loadState element head =>
    if q.states (config.slot head) = .empty then (q, .again (.write element head))
    else (q, .again (.loadState element head))
  | .write element head =>
    ({ q with elements := update q.elements (config.slot head) element },
      .again (.publish element head))
  | .publish _ head => ({ q with states := update q.states (config.slot head) .stored }, .leave true)

def spscTryPop (q : AtomicQueue2 config T) :
    SpscPop T → AtomicQueue2 config T × Round (SpscPop T) (Option T)
  | .loadTail => (q, .again (.loadHead q.tail))
  | .loadHead tail =>
    if (q.head - tail).toInt ≤ 0 then (q, .leave none) else (q, .again (.storeTail tail))
  | .storeTail tail => ({ q with tail := tail + 1#32 }, .again (.loadState tail))
  | .loadState tail =>
    if q.states (config.slot tail) = .stored then (q, .again (.move tail))
    else (q, .again (.loadState tail))
  | .move tail => (q, .again (.clear tail (q.elements (config.slot tail))))
  | .clear tail element =>
    ({ q with states := update q.states (config.slot tail) .empty }, .leave (some element))

end AtomicQueue2

namespace Shared

/-- A step of the pushing thread, with what happens in it. -/
def spscPush (s : Shared config T Unit Unit) (pc : SpscPush T) :
    Shared config T Unit Unit × Round (SpscPush T) Bool :=
  let (queue, next) := s.queue.spscTryPush pc
  ({ s with
      queue
      reserved := match pc with
        | .storeHead _ _ => s.reserved + 1
        | _ => s.reserved
      stored := match pc with
        | .publish element _ => s.stored ++ [((), element)]
        | _ => s.stored }, next)

/-- An element is claimed where its slot is found stored, and returned where the call ends. -/
def spscPop (s : Shared config T Unit Unit) (pc : SpscPop T) :
    Shared config T Unit Unit × Round (SpscPop T) (Option T) :=
  let (queue, next) := s.queue.spscTryPop pc
  ({ s with
      queue
      awaited := match pc with
        | .storeTail _ => s.awaited + 1
        | _ => s.awaited
      claimed := match pc, next with
        | .loadState tail, .again (.move _) => s.claimed ++ [((), s.queue.elements (config.slot tail))]
        | _, _ => s.claimed
      returned := match next with
        | .leave (some element) => s.returned ++ [((), element)]
        | _ => s.returned }, next)

end Shared

/-- The queue and the two threads; a thread that is in no call may begin one. -/
structure Spsc (config : QueueConfig) (T : Type) where
  shared : Shared config T Unit Unit
  producer : Option (SpscPush T)
  consumer : Option (SpscPop T)

namespace Spsc

structure Initial (s : Spsc config T) : Prop where
  shared : s.shared.Initial
  producer : s.producer = none
  consumer : s.consumer = none

inductive Step : Spsc config T → Spsc config T → Prop
  | callPush (s) (element : T) : s.producer = none →
      Step s { s with producer := some (.loadHead element) }
  | push (s) (pc : SpscPush T) : s.producer = some pc →
      Step s { s with
        shared := (s.shared.spscPush pc).1
        producer := goingOn (s.shared.spscPush pc).2 }
  | callPop (s) : s.consumer = none → Step s { s with consumer := some .loadTail }
  | pop (s) (pc : SpscPop T) : s.consumer = some pc →
      Step s { s with
        shared := (s.shared.spscPop pc).1
        consumer := goingOn (s.shared.spscPop pc).2 }

variable (config T) in
def system : TransitionSystem (Spsc config T) := ⟨Initial, Step⟩

/-! ### The slot table -/

def pushPhase (config : QueueConfig) : Option (SpscPush T) → Producer config.Slot T
  | none | some (.loadHead _) | some (.loadTail _ _) | some (.storeHead _ _) => .outside
  | some (.loadState element head) => .waiting (config.slot head) element
  | some (.write element head) => .writing (config.slot head) element
  | some (.publish element head) => .written (config.slot head) element

def popPhase (config : QueueConfig) : Option (SpscPop T) → Consumer config.Slot T
  | none | some .loadTail | some (.loadHead _) | some (.storeTail _) => .outside
  | some (.loadState tail) => .waiting (config.slot tail)
  | some (.move tail) => .moving (config.slot tail)
  | some (.clear tail element) => .moved (config.slot tail) element

/-- The states as the table shows them: a slot is taken while a thread works on it. -/
def shownStates (s : Spsc config T) (i : config.Slot) : SlotState :=
  if (pushPhase config s.producer).taken = some i then .storing
  else if (popPhase config s.consumer).taken = some i then .loading
  else s.shared.queue.states i

def table (s : Spsc config T) : Table config.Slot T Unit Unit :=
  { s.shared.table (fun _ => pushPhase config s.producer) fun _ => popPhase config s.consumer with
    states := s.shownStates }

/-- The counter that a thread has loaded and is going to store. -/
def readHead : Option (SpscPush T) → Option (BitVec 32)
  | some (.loadTail _ head) | some (.storeHead _ head) => some head
  | _ => none

def readTail : Option (SpscPop T) → Option (BitVec 32)
  | some (.loadHead tail) | some (.storeTail tail) => some tail
  | _ => none

/-- Each counter belongs to one thread, and so does a slot in the state for which that thread waits. -/
structure Apart (s : Spsc config T) : Prop where
  coupled : s.shared.Coupled
  head : ∀ head, readHead s.producer = some head → s.shared.queue.head = head
  tail : ∀ tail, readTail s.consumer = some tail → s.shared.queue.tail = tail
  storing : ∀ i, (pushPhase config s.producer).taken = some i → s.shared.queue.states i = .empty
  loading : ∀ i, (popPhase config s.consumer).taken = some i → s.shared.queue.states i = .stored

variable {s s' : Spsc config T}

theorem Initial.apart (h : s.Initial) : s.Apart where
  coupled := h.shared.coupled
  head head hhead := by simp [h.producer, readHead] at hhead
  tail tail htail := by simp [h.consumer, readTail] at htail
  storing i hi := by simp [h.producer, pushPhase, Producer.taken] at hi
  loading i hi := by simp [h.consumer, popPhase, Consumer.taken] at hi

attribute [local grind =] Function.update_apply Producer.taken Consumer.taken readHead readTail
  pushPhase popPhase goingOn

theorem Step.apart (hstep : Step s s') (h : s.Apart) : s'.Apart := by
  obtain ⟨⟨hhead, htail⟩, hread, hread', hstoring, hloading⟩ := h
  cases hstep with
  | callPush element hp =>
    refine ⟨⟨hhead, htail⟩, fun head hh => ?_, hread', fun i hi => ?_, hloading⟩
    · cases hh
    · cases hi
  | callPop hc =>
    refine ⟨⟨hhead, htail⟩, hread, fun tail ht => ?_, hstoring, fun i hi => ?_⟩
    · cases ht
    · cases hi
  | push pc hp =>
    rw [hp] at hread hstoring
    cases pc with
    | loadHead element =>
      refine ⟨⟨hhead, htail⟩, ?_, hread', ?_, hloading⟩ <;>
        simp only [Shared.spscPush, AtomicQueue2.spscTryPush] <;> grind
    | loadTail element head | loadState element head =>
      simp only [Shared.spscPush, AtomicQueue2.spscTryPush]
      split <;> refine ⟨⟨hhead, htail⟩, ?_, hread', ?_, hloading⟩ <;> simp only <;> grind
    | storeHead element head =>
      have hmine : s.shared.queue.head = head := hread head rfl
      refine ⟨⟨?_, htail⟩, fun _ h => ?_, hread', fun _ h => ?_, hloading⟩
      · simp only [Shared.spscPush, AtomicQueue2.spscTryPush, ← hmine, hhead, BitVec.ofNat_add]
      · cases h
      · cases h
    | write element head | publish element head =>
      refine ⟨⟨hhead, htail⟩, ?_, hread', ?_, ?_⟩ <;>
        simp only [Shared.spscPush, AtomicQueue2.spscTryPush] <;> grind
  | pop pc hc =>
    rw [hc] at hread' hloading
    cases pc with
    | loadTail | move tail =>
      refine ⟨⟨hhead, htail⟩, hread, ?_, hstoring, ?_⟩ <;>
        simp only [Shared.spscPop, AtomicQueue2.spscTryPop] <;> grind
    | loadHead tail | loadState tail =>
      simp only [Shared.spscPop, AtomicQueue2.spscTryPop]
      split <;> refine ⟨⟨hhead, htail⟩, hread, ?_, hstoring, ?_⟩ <;> simp only <;> grind
    | storeTail tail =>
      have hmine : s.shared.queue.tail = tail := hread' tail rfl
      refine ⟨⟨hhead, ?_⟩, hread, fun _ h => ?_, hstoring, fun _ h => ?_⟩
      · simp only [Shared.spscPop, AtomicQueue2.spscTryPop, ← hmine, htail, BitVec.ofNat_add]
      · cases h
      · cases h
    | clear tail element =>
      refine ⟨⟨hhead, htail⟩, hread, ?_, ?_, ?_⟩ <;>
        simp only [Shared.spscPop, AtomicQueue2.spscTryPop] <;> grind

theorem update_unit {A : Type} (f : Unit → A) (x : A) : update f () x = fun _ => x := by
  funext i
  rw [update_apply, if_pos rfl]

attribute [local ext] Table

/-- What does not touch the slots shows nothing. -/
theorem table_same (hshared : s'.shared = s.shared)
    (hproducer : pushPhase config s'.producer = pushPhase config s.producer)
    (hconsumer : popPhase config s'.consumer = popPhase config s.consumer) : s'.table = s.table := by
  have hstates : s'.shownStates = s.shownStates := by
    funext i
    rw [shownStates, shownStates, hshared, hproducer, hconsumer]
  simp only [table, hshared, hproducer, hconsumer, hstates]

attribute [local grind =] shownStates

/-- A step that shows the states of `t` and agrees with it otherwise is the step to `t`. -/
theorem step_shown {t : Table config.Slot T Unit Unit}
    (hstep : SlotTable.Step (Shared.visit config) s.table t)
    (hstates : ∀ i, s'.shownStates i = t.states i)
    (hrest : s'.table = { t with states := s'.shownStates }) :
    SlotTable.Step (Shared.visit config) s.table s'.table := by
  have hsame : s'.table = t := by
    rw [hrest]
    apply Table.ext
    · funext i
      exact hstates i
    all_goals rfl
  rw [hsame]
  exact hstep

theorem push_table (h : s.Apart) {pc : SpscPush T} (hp : s.producer = some pc) :
    let s' : Spsc config T :=
      { s with shared := (s.shared.spscPush pc).1, producer := goingOn (s.shared.spscPush pc).2 }
    SlotTable.Step (Shared.visit config) s.table s'.table ∨ s'.table = s.table := by
  have hphase : s.table.producers () = pushPhase config (some pc) := by rw [← hp]; rfl
  have hstoring := h.storing
  have hloading := h.loading
  cases pc with
  | loadHead element => exact .inr (table_same rfl (by rw [hp]; rfl) rfl)
  | loadTail element head =>
    right
    apply table_same
    all_goals
      simp only [hp, Shared.spscPush, AtomicQueue2.spscTryPush]
      try (split <;> rfl)
  | storeHead element head =>
    left
    have hslot : Shared.visit config s.table.reserved = config.slot head := by
      rw [← h.head head (by rw [hp]; rfl), h.coupled.head]
      rfl
    have hstep : SlotTable.Step (Shared.visit config) s.table _ :=
      .reserve s.table () element hphase
    rw [update_unit, hslot] at hstep
    refine step_shown hstep (fun i => ?_) rfl
    simp only [table, Shared.spscPush, AtomicQueue2.spscTryPush]
    grind
  | loadState element head =>
    by_cases hempty : s.shared.queue.states (config.slot head) = .empty
    · left
      have hfree : s.table.states (config.slot head) = .empty := by
        simp only [table]
        grind
      have hstep : SlotTable.Step (Shared.visit config) s.table _ :=
        .store s.table () (config.slot head) element hphase hfree
      rw [update_unit] at hstep
      convert hstep using 1
      simp only [Shared.spscPush, AtomicQueue2.spscTryPush, if_pos hempty]
      refine Table.ext ?_ rfl rfl rfl rfl rfl rfl rfl rfl
      funext i
      simp only [table]
      grind
    · right
      apply table_same
      all_goals simp only [hp, Shared.spscPush, AtomicQueue2.spscTryPush, if_neg hempty, goingOn]
  | write element head =>
    left
    have hstep : SlotTable.Step (Shared.visit config) s.table _ :=
      .write s.table () (config.slot head) element hphase
    rw [update_unit] at hstep
    refine step_shown hstep (fun i => ?_) rfl
    simp only [table, Shared.spscPush, AtomicQueue2.spscTryPush]
    grind
  | publish element head =>
    left
    have hstep : SlotTable.Step (Shared.visit config) s.table _ :=
      .publish s.table () (config.slot head) element hphase
    rw [update_unit] at hstep
    refine step_shown hstep (fun i => ?_) rfl
    simp only [table, Shared.spscPush, AtomicQueue2.spscTryPush]
    grind

theorem pop_table (h : s.Apart) {pc : SpscPop T} (hc : s.consumer = some pc) :
    let s' : Spsc config T :=
      { s with shared := (s.shared.spscPop pc).1, consumer := goingOn (s.shared.spscPop pc).2 }
    SlotTable.Step (Shared.visit config) s.table s'.table ∨ s'.table = s.table := by
  have hphase : s.table.consumers () = popPhase config (some pc) := by rw [← hc]; rfl
  have hstoring := h.storing
  have hloading := h.loading
  cases pc with
  | loadTail => exact .inr (table_same rfl rfl (by rw [hc]; rfl))
  | loadHead tail =>
    right
    apply table_same
    all_goals
      simp only [hc, Shared.spscPop, AtomicQueue2.spscTryPop]
      try (split <;> rfl)
  | storeTail tail =>
    left
    have hslot : Shared.visit config s.table.awaited = config.slot tail := by
      rw [← h.tail tail (by rw [hc]; rfl), h.coupled.tail]
      rfl
    have hstep : SlotTable.Step (Shared.visit config) s.table _ :=
      .await s.table () hphase
    rw [update_unit, hslot] at hstep
    refine step_shown hstep (fun i => ?_) rfl
    simp only [table, Shared.spscPop, AtomicQueue2.spscTryPop]
    grind
  | loadState tail =>
    by_cases hstored : s.shared.queue.states (config.slot tail) = .stored
    · left
      have hfull : s.table.states (config.slot tail) = .stored := by
        simp only [table]
        grind
      have hstep : SlotTable.Step (Shared.visit config) s.table _ :=
        .claim s.table () (config.slot tail) hphase hfull
      rw [update_unit] at hstep
      convert hstep using 1
      simp only [Shared.spscPop, AtomicQueue2.spscTryPop, if_pos hstored]
      refine Table.ext ?_ rfl rfl rfl rfl rfl rfl rfl rfl
      funext i
      simp only [table]
      grind
    · right
      apply table_same
      all_goals simp only [hc, Shared.spscPop, AtomicQueue2.spscTryPop, if_neg hstored, goingOn]
  | move tail =>
    left
    have hstep : SlotTable.Step (Shared.visit config) s.table _ :=
      .move s.table () (config.slot tail) hphase
    rw [update_unit] at hstep
    refine step_shown hstep (fun i => ?_) rfl
    simp only [table, Shared.spscPop, AtomicQueue2.spscTryPop]
    grind
  | clear tail element =>
    left
    have hstep : SlotTable.Step (Shared.visit config) s.table _ :=
      .clear s.table () (config.slot tail) element hphase
    rw [update_unit] at hstep
    refine step_shown hstep (fun i => ?_) rfl
    simp only [table, Shared.spscPop, AtomicQueue2.spscTryPop]
    grind

theorem Step.table (hstep : Step s s') (h : s.Apart) :
    SlotTable.Step (Shared.visit config) s.table s'.table ∨ s'.table = s.table := by
  cases hstep with
  | callPush element hp => exact .inr (table_same rfl (by rw [hp]; rfl) rfl)
  | push pc hp => exact push_table h hp
  | callPop hc => exact .inr (table_same rfl rfl (by rw [hc]; rfl))
  | pop pc hc => exact pop_table h hc

theorem Initial.table (h : s.Initial) : SlotTable.Initial s.table where
  states i := by
    simp only [Spsc.table, shownStates, h.producer, h.consumer, pushPhase, popPhase, Producer.taken,
      Consumer.taken, reduceCtorEq, if_false]
    exact h.shared.queue.states i
  producers _ := by simp only [Spsc.table, Shared.table, h.producer, pushPhase]
  consumers _ := by simp only [Spsc.table, Shared.table, h.consumer, popPhase]
  reserved := h.shared.reserved
  awaited := h.shared.awaited
  stored := h.shared.stored
  claimed := h.shared.claimed
  returned := h.shared.returned

open TransitionSystem

theorem apart_of_reachable (h : (system config T).Reachable s) : s.Apart :=
  h.invariant (I := Apart) (fun _ => Initial.apart) fun _ _ _ hapart hstep => Step.apart hstep hapart

/-- The two threads and their queue refine the slot table. -/
theorem table_of_reachable (h : (system config T).Reachable s) :
    (SlotTable.system config.Slot T Unit Unit (Shared.visit config)).Reachable s.table :=
  h.map table (fun _ => Initial.table) fun _ _ hreachable hstep =>
    Step.table hstep (apart_of_reachable hreachable)

end Spsc

/-! ### First in, first out -/

namespace Shared

variable {P C : Type}

/-- What the calls of `try_push` that succeeded had as their elements, in order. -/
def pushed (s : Shared config T P C) : List T := s.stored.map Prod.snd

/-- What the calls of `try_pop` returned. -/
def popped (s : Shared config T P C) : List T := s.returned.map Prod.snd

end Shared

/-- A queue that has just been constructed. -/
def Shared.start (config : QueueConfig) {T : Type} (element : T) (P C : Type) : Shared config T P C where
  queue := ⟨0#32, 0#32, fun _ => .empty, fun _ => element⟩
  reserved := 0
  awaited := 0
  stored := []
  claimed := []
  returned := []

theorem Shared.start_initial (config : QueueConfig) {T : Type} (element : T) (P C : Type) :
    (Shared.start config element P C).Initial :=
  ⟨⟨rfl, rfl, fun _ => rfl⟩, rfl, rfl, rfl, rfl, rfl⟩

namespace Spsc

open TransitionSystem

variable {s : Spsc config T}

theorem reachable_push (h : (system config T).Reachable s) (pc : SpscPush T)
    (hp : s.producer = some pc) :
    (system config T).Reachable
      { s with shared := (s.shared.spscPush pc).1, producer := goingOn (s.shared.spscPush pc).2 } :=
  h.reaches (.step (.refl _) (Step.push s pc hp))

theorem reachable_pop (h : (system config T).Reachable s) (pc : SpscPop T)
    (hc : s.consumer = some pc) :
    (system config T).Reachable
      { s with shared := (s.shared.spscPop pc).1, consumer := goingOn (s.shared.spscPop pc).2 } :=
  h.reaches (.step (.refl _) (Step.pop s pc hc))

end Spsc

end LuPlatform.Queue
