import LuPlatform.Queue.QueueThreads

/-! `MPSCQueue`: a push that tries again until it succeeds and then wakes the consumer, and a pop that,
after a thousand failed polls, goes to sleep once. Every access to the flag, every operation on the
mutex and every operation on the condition variable is a step. -/

namespace LuPlatform.Queue

open Loop Transition Function

/-- Where a thread stands in `MPSCQueue::push`, or outside it. -/
inductive MPSCPush (T : Type) where
  | outside
  | tryPush (pc : TryPush T)
  | pause (element : T)
  | loadWait (element : T)
  | lock (element : T)
  | clearWait (element : T)
  | unlock (element : T)
  | notify (element : T)

/-- Where a thread stands in `MPSCQueue::pop`, with the value of `count`. Who is woken, or wakes up
by itself, goes to `lock` again. -/
inductive MPSCPop (T : Type) where
  | outside
  | tryPop (count : Nat) (pc : TryPop T)
  | pause (count : Nat)
  | raiseWait (count : Nat)
  | lock (count : Nat)
  | testWait (count : Nat)
  | wait (count : Nat)
  | blocked (count : Nat)
  | unlock (count : Nat)

namespace MPSCPush

variable {T : Type}

/-- What follows a step of `try_push`. -/
def next (element : T) : Round (TryPush T) Bool → MPSCPush T
  | .again pc => .tryPush pc
  | .leave true => .loadWait element
  | .leave false => .pause element

/-- The call of `try_push` that is going on. -/
def call : MPSCPush T → Option (TryPush T)
  | .tryPush pc => some pc
  | _ => none

theorem call_next (element : T) (r : Round (TryPush T) Bool) : (next element r).call = goingOn r := by
  cases r with
  | again pc => rfl
  | leave pushed => cases pushed <;> rfl

end MPSCPush

namespace MPSCPop

variable {T : Type}

def next (count : Nat) : Round (TryPop T) (Option T) → MPSCPop T
  | .again pc => .tryPop count pc
  | .leave (some _) => .outside
  | .leave none => .pause count

def call : MPSCPop T → Option (TryPop T)
  | .tryPop _ pc => some pc
  | _ => none

theorem call_next (count : Nat) (r : Round (TryPop T) (Option T)) :
    (next count r).call = goingOn r := by
  cases r with
  | again pc => rfl
  | leave element => cases element <;> rfl

end MPSCPop

/-- `consumerWait` is the flag, `mutex` who holds the mutex, `begun` what the calls of push were made
with and `completed` what those were that have returned. -/
structure MPSCQueue (config : QueueConfig) (T P C : Type) where
  shared : Shared config T P C
  consumerWait : Bool
  mutex : Option (P ⊕ C)
  producers : P → MPSCPush T
  consumers : C → MPSCPop T
  begun : List (P × T)
  completed : List (P × T)

namespace MPSCQueue

variable {config : QueueConfig} {T P C : Type}

structure Initial (s : MPSCQueue config T P C) : Prop where
  shared : s.shared.Initial
  consumerWait : s.consumerWait = false
  mutex : s.mutex = none
  producers : ∀ p, s.producers p = .outside
  consumers : ∀ c, s.consumers c = .outside
  begun : s.begun = []
  completed : s.completed = []

section Steps

variable [DecidableEq P] [DecidableEq C]

inductive Step : MPSCQueue config T P C → MPSCQueue config T P C → Prop
  | callPush (s) (p : P) (element : T) : s.producers p = .outside →
      Step s { s with
        producers := update s.producers p (.tryPush (.loadHead element))
        begun := s.begun ++ [(p, element)] }
  | push (s) (p : P) (pc : TryPush T) : s.producers p = .tryPush pc →
      Step s { s with
        shared := (s.shared.push p pc).1
        producers := update s.producers p (.next pc.element (s.shared.push p pc).2) }
  | pausePush (s) (p : P) (element : T) : s.producers p = .pause element →
      Step s { s with producers := update s.producers p (.tryPush (.loadHead element)) }
  | skipWait (s) (p : P) (element : T) : s.producers p = .loadWait element → s.consumerWait = false →
      Step s { s with
        producers := update s.producers p .outside
        completed := s.completed ++ [(p, element)] }
  | loadWait (s) (p : P) (element : T) : s.producers p = .loadWait element → s.consumerWait = true →
      Step s { s with producers := update s.producers p (.lock element) }
  | lockPush (s) (p : P) (element : T) : s.producers p = .lock element → s.mutex = none →
      Step s { s with
        mutex := some (.inl p)
        producers := update s.producers p (.clearWait element) }
  | clearWait (s) (p : P) (element : T) : s.producers p = .clearWait element →
      Step s { s with
        consumerWait := false
        producers := update s.producers p (.unlock element) }
  | unlockPush (s) (p : P) (element : T) : s.producers p = .unlock element →
      Step s { s with
        mutex := none
        producers := update s.producers p (.notify element) }
  | notifyOne (s) (p : P) (element : T) (c : C) (count : Nat) : s.producers p = .notify element →
      s.consumers c = .blocked count →
      Step s { s with
        producers := update s.producers p .outside
        consumers := update s.consumers c (.lock count)
        completed := s.completed ++ [(p, element)] }
  | notifyNone (s) (p : P) (element : T) : s.producers p = .notify element →
      (∀ c count, s.consumers c ≠ .blocked count) →
      Step s { s with
        producers := update s.producers p .outside
        completed := s.completed ++ [(p, element)] }
  | callPop (s) (c : C) : s.consumers c = .outside →
      Step s { s with consumers := update s.consumers c (.tryPop 0 .loadTail) }
  | pop (s) (c : C) (count : Nat) (pc : TryPop T) : s.consumers c = .tryPop count pc →
      Step s { s with
        shared := (s.shared.pop c pc).1
        consumers := update s.consumers c (.next count (s.shared.pop c pc).2) }
  | pausePop (s) (c : C) (count : Nat) : s.consumers c = .pause count →
      Step s { s with
        consumers := update s.consumers c
          (if count = 1000 then .raiseWait count else .tryPop (count + 1) .loadTail) }
  | raiseWait (s) (c : C) (count : Nat) : s.consumers c = .raiseWait count →
      Step s { s with
        consumerWait := true
        consumers := update s.consumers c (.lock count) }
  | lockPop (s) (c : C) (count : Nat) : s.consumers c = .lock count → s.mutex = none →
      Step s { s with
        mutex := some (.inr c)
        consumers := update s.consumers c (.testWait count) }
  | testWait (s) (c : C) (count : Nat) : s.consumers c = .testWait count →
      Step s { s with
        consumers := update s.consumers c (if s.consumerWait then .wait count else .unlock count) }
  | wait (s) (c : C) (count : Nat) : s.consumers c = .wait count →
      Step s { s with
        mutex := none
        consumers := update s.consumers c (.blocked count) }
  | wakeUp (s) (c : C) (count : Nat) : s.consumers c = .blocked count →
      Step s { s with consumers := update s.consumers c (.lock count) }
  | unlockPop (s) (c : C) (count : Nat) : s.consumers c = .unlock count →
      Step s { s with
        mutex := none
        consumers := update s.consumers c (.tryPop (count + 1) .loadTail) }

variable (config T P C) in
def system : TransitionSystem (MPSCQueue config T P C) := ⟨Initial, Step⟩

end Steps

/-! ### The calls of the queue -/

def threads (s : MPSCQueue config T P C) : Threads config T P C where
  shared := s.shared
  producers := MPSCPush.call ∘ s.producers
  consumers := MPSCPop.call ∘ s.consumers

theorem Initial.threads {s : MPSCQueue config T P C} (h : s.Initial) : s.threads.Initial where
  shared := h.shared
  producers p := by simp [MPSCQueue.threads, h.producers p, MPSCPush.call]
  consumers c := by simp [MPSCQueue.threads, h.consumers c, MPSCPop.call]

variable {s s' : MPSCQueue config T P C}

/-- A producer that stays in its call, or outside of one. -/
theorem threads_producer [DecidableEq P] {p : P} {x : MPSCPush T}
    (hcall : x.call = (s.producers p).call)
    (hs : s'.threads = { s.threads with producers := MPSCPush.call ∘ update s.producers p x }) :
    s'.threads = s.threads := by
  rw [hs, comp_update_same hcall]
  rfl

theorem threads_consumer [DecidableEq C] {c : C} {x : MPSCPop T}
    (hcall : x.call = (s.consumers c).call)
    (hs : s'.threads = { s.threads with consumers := MPSCPop.call ∘ update s.consumers c x }) :
    s'.threads = s.threads := by
  rw [hs, comp_update_same hcall]
  rfl

/-- A producer that begins a call. -/
theorem threads_callPush [DecidableEq P] [DecidableEq C] {p : P} {element : T}
    (hcall : (s.producers p).call = none)
    (hs : s'.threads = { s.threads with
      producers := MPSCPush.call ∘ update s.producers p (.tryPush (.loadHead element)) }) :
    Threads.Step s.threads s'.threads := by
  rw [hs, comp_update]
  exact Threads.Step.callPush s.threads p element hcall

theorem threads_callPop [DecidableEq P] [DecidableEq C] {c : C} {count : Nat}
    (hcall : (s.consumers c).call = none)
    (hs : s'.threads = { s.threads with
      consumers := MPSCPop.call ∘ update s.consumers c (.tryPop count .loadTail) }) :
    Threads.Step s.threads s'.threads := by
  rw [hs, comp_update]
  exact Threads.Step.callPop s.threads c hcall

variable [DecidableEq P] [DecidableEq C]

/-- The protocol of the flag and the condition variable does not touch the queue. -/
theorem Step.threads (hstep : Step s s') :
    Threads.Step s.threads s'.threads ∨ s'.threads = s.threads := by
  cases hstep with
  | callPush p element hp =>
    left
    exact threads_callPush (by simp [hp, MPSCPush.call]) rfl
  | pausePush p element hp =>
    left
    exact threads_callPush (by simp [hp, MPSCPush.call]) rfl
  | push p pc hp =>
    left
    have hcall : (MPSCPush.call ∘ s.producers) p = some pc := by simp [hp, MPSCPush.call]
    simpa [MPSCQueue.threads, comp_update, MPSCPush.call_next] using
      Threads.Step.push s.threads p pc hcall
  | skipWait p element hp hwait =>
    right
    exact threads_producer (by simp [hp, MPSCPush.call]) rfl
  | loadWait p element hp hwait =>
    right
    exact threads_producer (by simp [hp, MPSCPush.call]) rfl
  | lockPush p element hp hmutex =>
    right
    exact threads_producer (by simp [hp, MPSCPush.call]) rfl
  | clearWait p element hp =>
    right
    exact threads_producer (by simp [hp, MPSCPush.call]) rfl
  | unlockPush p element hp =>
    right
    exact threads_producer (by simp [hp, MPSCPush.call]) rfl
  | notifyOne p element c count hp hc =>
    right
    simp only [MPSCQueue.threads]
    rw [comp_update_same, comp_update_same]
    · simp [hc, MPSCPop.call]
    · simp [hp, MPSCPush.call]
  | notifyNone p element hp hnone =>
    right
    exact threads_producer (by simp [hp, MPSCPush.call]) rfl
  | callPop c hc =>
    left
    exact threads_callPop (by simp [hc, MPSCPop.call]) rfl
  | pop c count pc hc =>
    left
    have hcall : (MPSCPop.call ∘ s.consumers) c = some pc := by simp [hc, MPSCPop.call]
    simpa [MPSCQueue.threads, comp_update, MPSCPop.call_next] using
      Threads.Step.pop s.threads c pc hcall
  | pausePop c count hc =>
    split
    · right
      exact threads_consumer (by simp [hc, MPSCPop.call]) rfl
    · left
      exact threads_callPop (by simp [hc, MPSCPop.call]) rfl
  | raiseWait c count hc =>
    right
    exact threads_consumer (by simp [hc, MPSCPop.call]) rfl
  | lockPop c count hc hmutex =>
    right
    exact threads_consumer (by simp [hc, MPSCPop.call]) rfl
  | testWait c count hc =>
    right
    exact threads_consumer (by split <;> simp [hc, MPSCPop.call]) rfl
  | wait c count hc =>
    right
    exact threads_consumer (by simp [hc, MPSCPop.call]) rfl
  | wakeUp c count hc =>
    right
    exact threads_consumer (by simp [hc, MPSCPop.call]) rfl
  | unlockPop c count hc =>
    left
    exact threads_callPop (by simp [hc, MPSCPop.call]) rfl

theorem threads_of_reachable (h : (system config T P C).Reachable s) :
    (Threads.system config T P C).Reachable s.threads :=
  h.map threads (fun _ => Initial.threads) fun _ _ _ hstep => Step.threads hstep

theorem table_of_reachable (h : (system config T P C).Reachable s) :
    (SlotTable.system config.Slot T P C (Shared.visit config)).Reachable s.threads.table :=
  Threads.table_of_reachable (threads_of_reachable h)

theorem Step.table (hstep : Step s s') (h : (system config T P C).Reachable s) :
    SlotTable.Step (Shared.visit config) s.threads.table s'.threads.table ∨
      s'.threads.table = s.threads.table := by
  obtain hthreads | heq := hstep.threads
  · exact hthreads.table (Threads.coupled_of_reachable (threads_of_reachable h))
  · exact .inr (congrArg Threads.table heq)

end MPSCQueue

/-- The queue between two threads, with the cache line of x86. -/
def transferQueue : QueueConfig where
  SIZE := 10000#32
  MAXIMIZE_THROUGHPUT := true
  CACHE_LINE_SIZE := 64
  size_pos := by decide
  size_le := by decide

/-- A queue that nothing has happened to. -/
def MPSCQueue.start (config : QueueConfig) {T : Type} (element : T) (P C : Type) :
    MPSCQueue config T P C where
  shared := ⟨⟨0#32, 0#32, fun _ => .empty, fun _ => element⟩, 0, 0, [], [], []⟩
  consumerWait := false
  mutex := none
  producers := fun _ => .outside
  consumers := fun _ => .outside
  begun := []
  completed := []

theorem MPSCQueue.start_initial (config : QueueConfig) {T : Type} (element : T) (P C : Type) :
    (MPSCQueue.start config element P C).Initial where
  shared := ⟨⟨rfl, rfl, fun _ => rfl⟩, rfl, rfl, rfl, rfl, rfl⟩
  consumerWait := rfl
  mutex := rfl
  producers _ := rfl
  consumers _ := rfl
  begun := rfl
  completed := rfl

end LuPlatform.Queue
