import LuPlatform.Library.Counters
import LuPlatform.Queue.QueueBase

/-! What `try_push` and `try_pop` say of a full and of an empty queue, with any number of threads and for
all template arguments. The two counters are read at different moments, as words that wrap around, and
their difference is compared as a signed one. The history of a run says what the differences were while
a call was under way. -/

namespace LuPlatform.Queue

open Loop SlotTable Transition Function Counters

/-- A call under way: where it stands, how many calls had finished and how many moments had passed when
it began, and how many tickets of either kind had been handed out when it last read the counter that it
is going to advance. -/
structure Call (A : Type) where
  pc : A
  began : Nat
  since : Nat
  reserved : Nat
  awaited : Nat

/-- The queue and its threads, and what has happened so far: the tickets handed out, the calls that
succeeded, all calls that finished, and the difference of the counters at every moment. -/
structure Calls (args : QueueArgs) (T P C : Type) where
  queue : QueueBase args T
  producers : P → Option (Call (TryPush T))
  consumers : C → Option (Call (TryPop T))
  reserved : Nat
  awaited : Nat
  pushed : Nat
  popped : Nat
  finished : Nat
  sizes : List (BitVec 32)

namespace Calls

variable {args : QueueArgs} {T P C : Type}

/-- A call that begins now. -/
def call {A : Type} (s : Calls args T P C) (pc : A) : Call A where
  pc := pc
  began := s.finished
  since := s.sizes.length
  reserved := s.reserved
  awaited := s.awaited

def push (s : Calls args T P C) (pc : TryPush T) : Calls args T P C :=
  let (queue, next) := s.queue.tryPush pc
  { s with
    queue
    reserved := match pc, next with
      | .casHead _ _, .again (.casState _ _) => s.reserved + 1
      | _, _ => s.reserved
    pushed := match next with
      | .leave true => s.pushed + 1
      | _ => s.pushed
    finished := match next with
      | .leave _ => s.finished + 1
      | _ => s.finished
    sizes := s.sizes ++ [queue.head - queue.tail] }

def pop (s : Calls args T P C) (pc : TryPop T) : Calls args T P C :=
  let (queue, next) := s.queue.tryPop pc
  { s with
    queue
    awaited := match pc, next with
      | .casTail _, .again (.casState _) => s.awaited + 1
      | _, _ => s.awaited
    popped := match next with
      | .leave (some _) => s.popped + 1
      | _ => s.popped
    finished := match next with
      | .leave _ => s.finished + 1
      | _ => s.finished
    sizes := s.sizes ++ [queue.head - queue.tail] }

/-- The call after a step. One that goes on to load the tail has just read the head. -/
def pushCall (s : Calls args T P C) (call : Call (TryPush T)) : Option (Call (TryPush T)) :=
  match (s.queue.tryPush call.pc).2 with
  | .again (.loadTail element head) =>
    some { call with
      pc := .loadTail element head
      reserved := s.reserved
      awaited := s.awaited }
  | .again pc => some { call with pc }
  | .leave _ => none

def popCall (s : Calls args T P C) (call : Call (TryPop T)) : Option (Call (TryPop T)) :=
  match (s.queue.tryPop call.pc).2 with
  | .again (.loadHead tail) =>
    some { call with
      pc := .loadHead tail
      reserved := s.reserved
      awaited := s.awaited }
  | .again pc => some { call with pc }
  | .leave _ => none

structure Initial (s : Calls args T P C) : Prop where
  queue : s.queue.Constructed
  producers : ∀ p, s.producers p = none
  consumers : ∀ c, s.consumers c = none
  reserved : s.reserved = 0
  awaited : s.awaited = 0
  pushed : s.pushed = 0
  popped : s.popped = 0
  finished : s.finished = 0
  sizes : s.sizes = [0#32]

section Steps

variable [DecidableEq P] [DecidableEq C]

inductive Step : Calls args T P C → Calls args T P C → Prop
  | callPush (s) (p : P) (element : T) : s.producers p = none →
      Step s { s with
        producers := update s.producers p (some (s.call (.loadHead element)))
        sizes := s.sizes ++ [s.queue.head - s.queue.tail] }
  | push (s) (p : P) (call : Call (TryPush T)) : s.producers p = some call →
      Step s { s.push call.pc with producers := update s.producers p (s.pushCall call) }
  | callPop (s) (c : C) : s.consumers c = none →
      Step s { s with
        consumers := update s.consumers c (some (s.call .loadTail))
        sizes := s.sizes ++ [s.queue.head - s.queue.tail] }
  | pop (s) (c : C) (call : Call (TryPop T)) : s.consumers c = some call →
      Step s { s.pop call.pc with consumers := update s.consumers c (s.popCall call) }

variable (args T P C) in
def system : TransitionSystem (Calls args T P C) := ⟨Initial, Step⟩

end Steps

/-- Fewer than `2 ^ 31` calls have finished since a call under way began. -/
structure Moderate (s : Calls args T P C) : Prop where
  push : ∀ p call, s.producers p = some call → s.finished < call.began + 2 ^ 31
  pop : ∀ c call, s.consumers c = some call → s.finished < call.began + 2 ^ 31

/-- At most `2 ^ 31` calls hold a ticket, and the head is less than half a word ahead of a tail with
which a pop is going to compare it. -/
structure Near (s : Calls args T P C) : Prop where
  held : s.reserved + s.awaited ≤ s.pushed + s.popped + 2 ^ 31
  pop : ∀ c call tail, s.consumers c = some call → call.pc = .loadHead tail →
    s.reserved < call.awaited + 2 ^ 31

/-- The counters are no further apart than the queue is large, and a call that is about to fail has seen
the queue full, or empty, at some moment since it began. -/
structure Truthful (s : Calls args T P C) : Prop where
  size : (s.queue.head - s.queue.tail).toNat ≤ args.queueSize.toNat
  full : ∀ p call, s.producers p = some call → (s.queue.tryPush call.pc).2 = .leave false →
    ∃ size ∈ s.sizes.drop call.since, args.queueSize.toNat ≤ size.toNat
  empty : ∀ c call, s.consumers c = some call → (s.queue.tryPop call.pc).2 = .leave none →
    0#32 ∈ s.sizes.drop call.since

/-! ### What a step can do -/

/-- Another moment at which nothing has changed. -/
def moment (s : Calls args T P C) : Calls args T P C :=
  { s with sizes := s.sizes ++ [s.queue.head - s.queue.tail] }

end Calls

/-- The call has its ticket. -/
def TryPush.Holds {T : Type} : TryPush T → Prop
  | .loadHead _ | .loadTail _ _ | .casHead _ _ => False
  | _ => True

def TryPop.Holds {T : Type} : TryPop T → Prop
  | .loadTail | .loadHead _ | .casTail _ => False
  | _ => True

namespace Calls

variable {args : QueueArgs} {T P C : Type}

/-- The steps of a push, as far as the counters and the tickets go. -/
inductive PushStep (s : Calls args T P C) (call : Call (TryPush T)) :
    Calls args T P C → Option (Call (TryPush T)) → Prop
  | read (element : T) : ¬ call.pc.Holds →
      PushStep s call s.moment (some { call with
        pc := .loadTail element s.queue.head
        reserved := s.reserved
        awaited := s.awaited })
  | full (element : T) (head : BitVec 32) : call.pc = .loadTail element head →
      args.queueSize.toInt ≤ (head - s.queue.tail).toInt →
      PushStep s call { s.moment with finished := s.finished + 1 } none
  | test (element : T) (head : BitVec 32) : call.pc = .loadTail element head →
      (head - s.queue.tail).toInt < args.queueSize.toInt →
      PushStep s call s.moment (some { call with pc := .casHead element head })
  | reserve (element : T) (head : BitVec 32) : call.pc = .casHead element head →
      args.SPSC = true ∨ s.queue.head = head →
      PushStep s call { s with
        queue := { s.queue with head := head + 1#32 }
        reserved := s.reserved + 1
        sizes := s.sizes ++ [head + 1#32 - s.queue.tail] }
        (some { call with pc := .casState element head })
  | work (queue : QueueBase args T) (pc : TryPush T) : call.pc.Holds → pc.Holds →
      queue.head = s.queue.head → queue.tail = s.queue.tail →
      PushStep s call { s.moment with queue } (some { call with pc })
  | done (queue : QueueBase args T) : call.pc.Holds →
      queue.head = s.queue.head → queue.tail = s.queue.tail →
      PushStep s call { s.moment with
        queue
        pushed := s.pushed + 1
        finished := s.finished + 1 } none

inductive PopStep (s : Calls args T P C) (call : Call (TryPop T)) :
    Calls args T P C → Option (Call (TryPop T)) → Prop
  | read : ¬ call.pc.Holds →
      PopStep s call s.moment (some { call with
        pc := .loadHead s.queue.tail
        reserved := s.reserved
        awaited := s.awaited })
  | empty (tail : BitVec 32) : call.pc = .loadHead tail → (s.queue.head - tail).toInt ≤ 0 →
      PopStep s call { s.moment with finished := s.finished + 1 } none
  | test (tail : BitVec 32) : call.pc = .loadHead tail → 0 < (s.queue.head - tail).toInt →
      PopStep s call s.moment (some { call with pc := .casTail tail })
  | await (tail : BitVec 32) : call.pc = .casTail tail → args.SPSC = true ∨ s.queue.tail = tail →
      PopStep s call { s with
        queue := { s.queue with tail := tail + 1#32 }
        awaited := s.awaited + 1
        sizes := s.sizes ++ [s.queue.head - (tail + 1#32)] }
        (some { call with pc := .casState tail })
  | work (queue : QueueBase args T) (pc : TryPop T) : call.pc.Holds → pc.Holds →
      queue.head = s.queue.head → queue.tail = s.queue.tail →
      PopStep s call { s.moment with queue } (some { call with pc })
  | done (queue : QueueBase args T) : call.pc.Holds →
      queue.head = s.queue.head → queue.tail = s.queue.tail →
      PopStep s call { s.moment with
        queue
        popped := s.popped + 1
        finished := s.finished + 1 } none

theorem push_step (s : Calls args T P C) (call : Call (TryPush T)) :
    PushStep s call (s.push call.pc) (s.pushCall call) := by
  obtain ⟨pc, began, since, reserved, awaited⟩ := call
  cases pc with
  | loadHead element => exact .read element id
  | loadTail element head =>
    simp only [push, pushCall, QueueBase.tryPush]
    split
    · rename_i hfull
      exact .full element head rfl hfull
    · rename_i hfree
      exact .test element head rfl (by omega)
  | casHead element head =>
    simp only [push, pushCall, QueueBase.tryPush]
    split
    · rename_i hcas
      exact .reserve element head rfl hcas
    · exact .read element id
  | casState element head =>
    simp only [push, pushCall, QueueBase.tryPush]
    split
    · cases args.SPSC <;> exact .work _ _ trivial trivial rfl rfl
    · cases args.SPSC <;> exact .work _ _ trivial trivial rfl rfl
  | spin element head =>
    simp only [push, pushCall, QueueBase.tryPush]
    split <;> exact .work s.queue _ trivial trivial rfl rfl
  | write element head => exact .work _ _ trivial trivial rfl rfl
  | publish element head => exact .done _ trivial rfl rfl

theorem pop_step (s : Calls args T P C) (call : Call (TryPop T)) :
    PopStep s call (s.pop call.pc) (s.popCall call) := by
  obtain ⟨pc, began, since, reserved, awaited⟩ := call
  cases pc with
  | loadTail => exact .read id
  | loadHead tail =>
    simp only [pop, popCall, QueueBase.tryPop]
    split
    · rename_i hempty
      exact .empty tail rfl hempty
    · rename_i hsome
      exact .test tail rfl (by omega)
  | casTail tail =>
    simp only [pop, popCall, QueueBase.tryPop]
    split
    · rename_i hcas
      exact .await tail rfl hcas
    · exact .read id
  | casState tail =>
    simp only [pop, popCall, QueueBase.tryPop]
    split
    · cases args.SPSC <;> exact .work _ _ trivial trivial rfl rfl
    · cases args.SPSC <;> exact .work _ _ trivial trivial rfl rfl
  | spin tail =>
    simp only [pop, popCall, QueueBase.tryPop]
    split <;> exact .work s.queue _ trivial trivial rfl rfl
  | move tail => exact .work _ _ trivial trivial rfl rfl
  | clear tail element => exact .done _ trivial rfl rfl

/-! ### Tickets and calls -/

def Holding {A : Type} (holds : A → Prop) (call : Option (Call A)) : Prop :=
  ∃ c, call = some c ∧ holds c.pc

/-- Every ticket has led to a call that succeeded, or its call is still under way. -/
structure Counted (s : Calls args T P C) : Prop where
  reserved : (s.reserved : ℕ∞) = s.pushed + engaged (Holding TryPush.Holds) s.producers
  awaited : (s.awaited : ℕ∞) = s.popped + engaged (Holding TryPop.Holds) s.consumers

section Tickets

variable {I A : Type} [DecidableEq I] {holds : A → Prop} {calls : I → Option (Call A)} {i : I}
variable {tickets finished : Nat}

/-- A call that gets a ticket is counted with those under way. -/
theorem tickets_begin {next : Option (Call A)} (hbefore : ¬ Holding holds (calls i))
    (hnext : Holding holds next) (h : (tickets : ℕ∞) = finished + engaged (Holding holds) calls) :
    ((tickets + 1 : Nat) : ℕ∞) = finished + engaged (Holding holds) (update calls i next) := by
  rw [engaged_begin hbefore hnext, ← add_assoc, ← h]
  exact Nat.cast_succ _

/-- A call that succeeds is counted with those that have. -/
theorem tickets_finish (hbefore : Holding holds (calls i))
    (h : (tickets : ℕ∞) = finished + engaged (Holding holds) calls) :
    (tickets : ℕ∞) = (finished + 1 : Nat) + engaged (Holding holds) (update calls i none) := by
  have hnone : ¬ Holding holds (none : Option (Call A)) := by simp [Holding]
  rw [h, engaged_finish hbefore hnone, Nat.cast_succ, add_assoc, add_comm 1]

end Tickets

theorem Initial.counted {s : Calls args T P C} (h : s.Initial) : s.Counted where
  reserved := by
    rw [engaged_none (by simp [h.producers, Holding]), h.reserved, h.pushed]
    rfl
  awaited := by
    rw [engaged_none (by simp [h.consumers, Holding]), h.awaited, h.popped]
    rfl

section Steps

variable {s s' : Calls args T P C}

theorem PushStep.counted [DecidableEq P] {p : P} {call : Call (TryPush T)}
    {next : Option (Call (TryPush T))} (hstep : PushStep s call s' next) (hp : s.producers p = some call)
    (h : (s.reserved : ℕ∞) = s.pushed + engaged (Holding TryPush.Holds) s.producers) :
    (s'.reserved : ℕ∞) =
      s'.pushed + engaged (Holding TryPush.Holds) (update s.producers p next) := by
  cases hstep with
  | read element hwithout =>
    rw [engaged_same (by simpa [hp, Holding, TryPush.Holds] using hwithout)]
    exact h
  | full element head hpc hfull =>
    rw [engaged_same (by simp [hp, Holding, TryPush.Holds, hpc])]
    exact h
  | test element head hpc hfree =>
    rw [engaged_same (by simp [hp, Holding, TryPush.Holds, hpc])]
    exact h
  | reserve element head hpc hcas =>
    apply tickets_begin _ _ h
    · simp [hp, Holding, TryPush.Holds, hpc]
    · simp [Holding, TryPush.Holds]
  | work queue pc hholds hholds' hhead htail =>
    rw [engaged_same (by simp [hp, Holding, hholds, hholds'])]
    exact h
  | done queue hholds hhead htail =>
    apply tickets_finish _ h
    simp [hp, Holding, hholds]

theorem PopStep.counted [DecidableEq C] {c : C} {call : Call (TryPop T)}
    {next : Option (Call (TryPop T))} (hstep : PopStep s call s' next) (hc : s.consumers c = some call)
    (h : (s.awaited : ℕ∞) = s.popped + engaged (Holding TryPop.Holds) s.consumers) :
    (s'.awaited : ℕ∞) =
      s'.popped + engaged (Holding TryPop.Holds) (update s.consumers c next) := by
  cases hstep with
  | read hwithout =>
    rw [engaged_same (by simpa [hc, Holding, TryPop.Holds] using hwithout)]
    exact h
  | empty tail hpc hempty =>
    rw [engaged_same (by simp [hc, Holding, TryPop.Holds, hpc])]
    exact h
  | test tail hpc hsome =>
    rw [engaged_same (by simp [hc, Holding, TryPop.Holds, hpc])]
    exact h
  | await tail hpc hcas =>
    apply tickets_begin _ _ h
    · simp [hc, Holding, TryPop.Holds, hpc]
    · simp [Holding, TryPop.Holds]
  | work queue pc hholds hholds' hhead htail =>
    rw [engaged_same (by simp [hc, Holding, hholds, hholds'])]
    exact h
  | done queue hholds hhead htail =>
    apply tickets_finish _ h
    simp [hc, Holding, hholds]

variable [DecidableEq P] [DecidableEq C]

theorem Step.counted (hstep : Step s s') (h : s.Counted) : s'.Counted := by
  obtain ⟨hreserved, hawaited⟩ := h
  cases hstep with
  | callPush p element hp =>
    refine ⟨?_, hawaited⟩
    rw [engaged_same (by simp [hp, Holding, call, TryPush.Holds])]
    exact hreserved
  | push p call hp => exact ⟨(push_step s call).counted hp hreserved, hawaited⟩
  | callPop c hc =>
    refine ⟨hreserved, ?_⟩
    rw [engaged_same (by simp [hc, Holding, call, TryPop.Holds])]
    exact hawaited
  | pop c call hc => exact ⟨hreserved, (pop_step s call).counted hc hawaited⟩

end Steps

theorem Counted.le {s : Calls args T P C} (h : s.Counted) :
    s.pushed + s.popped ≤ s.reserved + s.awaited := by
  have hpushed : (s.pushed : ℕ∞) ≤ s.reserved := h.reserved ▸ le_self_add
  have hpopped : (s.popped : ℕ∞) ≤ s.awaited := h.awaited ▸ le_self_add
  exact Nat.add_le_add (by exact_mod_cast hpushed) (by exact_mod_cast hpopped)

/-! ### What a call has read -/

/-- Nothing of what is counted goes back, and a call that succeeds has finished. -/
structure Later (s s' : Calls args T P C) : Prop where
  reserved : s.reserved ≤ s'.reserved
  awaited : s.awaited ≤ s'.awaited
  finished : s.finished ≤ s'.finished
  served : s'.pushed + s'.popped + s.finished ≤ s.pushed + s.popped + s'.finished
  sizes : s.sizes.length ≤ s'.sizes.length

/-- What a call under way has read was so since it began. -/
structure Kept (s : Calls args T P C) {A : Type} (call : Call A) : Prop where
  reserved : call.reserved ≤ s.reserved
  awaited : call.awaited ≤ s.awaited
  le : call.awaited ≤ call.reserved
  size : call.reserved ≤ call.awaited + args.queueSize.toNat
  began : call.began ≤ s.finished
  served : s.pushed + s.popped + call.began ≤ call.reserved + call.awaited + s.finished
  since : call.since < s.sizes.length

theorem Kept.later {s s' : Calls args T P C} {A : Type} {call : Call A} (h : s.Kept call)
    (hlater : Later s s') : s'.Kept call where
  reserved := h.reserved.trans hlater.reserved
  awaited := h.awaited.trans hlater.awaited
  le := h.le
  size := h.size
  began := h.began.trans hlater.finished
  served := by
    have hserved := h.served
    have hmore := hlater.served
    omega
  since := h.since.trans_le hlater.sizes

/-- What a push knows that is going to compare or to exchange the head it has read. A single producer
has read the head that is there. -/
def PushAimed (s : Calls args T P C) (call : Call (TryPush T)) : Prop :=
  match call.pc with
  | .loadTail _ head => head = BitVec.ofNat 32 call.reserved ∧
      (args.SPSC = true → s.reserved = call.reserved)
  | .casHead _ head => head = BitVec.ofNat 32 call.reserved ∧
      (args.SPSC = true → s.reserved = call.reserved) ∧
      call.reserved < s.awaited + args.queueSize.toNat
  | _ => True

def PopAimed (s : Calls args T P C) (call : Call (TryPop T)) : Prop :=
  match call.pc with
  | .loadHead tail => tail = BitVec.ofNat 32 call.awaited ∧
      (args.SPSC = true → s.awaited = call.awaited)
  | .casTail tail => tail = BitVec.ofNat 32 call.awaited ∧
      (args.SPSC = true → s.awaited = call.awaited) ∧ call.awaited < s.reserved
  | _ => True

/-- The counters are the tickets that were handed out, as far as a word shows them, and no more pushes
than the queue is large are ahead of the pops. -/
structure Coupled (s : Calls args T P C) : Prop where
  head : s.queue.head = BitVec.ofNat 32 s.reserved
  tail : s.queue.tail = BitVec.ofNat 32 s.awaited
  le : s.awaited ≤ s.reserved
  size : s.reserved ≤ s.awaited + args.queueSize.toNat
  now : ∃ before, s.sizes = before ++ [s.queue.head - s.queue.tail]

structure Sound (s : Calls args T P C) : Prop where
  counted : s.Counted
  coupled : s.Coupled
  push : ∀ p call, s.producers p = some call → s.Kept call ∧ s.PushAimed call
  pop : ∀ c call, s.consumers c = some call → s.Kept call ∧ s.PopAimed call

theorem Initial.sound {s : Calls args T P C} (h : s.Initial) : s.Sound where
  counted := h.counted
  coupled :=
    { head := by rw [h.queue.head, h.reserved]
      tail := by rw [h.queue.tail, h.awaited]
      le := by rw [h.reserved, h.awaited]
      size := by rw [h.reserved]; exact Nat.zero_le _
      now := ⟨[], by rw [h.sizes, h.queue.head, h.queue.tail]; rfl⟩ }
  push p call hp := by simp [h.producers p] at hp
  pop c call hc := by simp [h.consumers c] at hc

section Steps

variable {s s' : Calls args T P C}

theorem PushAimed.later {call : Call (TryPush T)} (h : s.PushAimed call)
    (hlater : s.awaited ≤ s'.awaited) (hsame : args.SPSC = true → s'.reserved = s.reserved) :
    s'.PushAimed call := by
  unfold PushAimed at h ⊢
  split
  · rename_i hpc
    rw [hpc] at h
    exact ⟨h.1, fun hspsc => (hsame hspsc).trans (h.2 hspsc)⟩
  · rename_i hpc
    rw [hpc] at h
    exact ⟨h.1, fun hspsc => (hsame hspsc).trans (h.2.1 hspsc),
      h.2.2.trans_le (Nat.add_le_add_right hlater _)⟩
  · trivial

theorem PopAimed.later {call : Call (TryPop T)} (h : s.PopAimed call)
    (hlater : s.reserved ≤ s'.reserved) (hsame : args.SPSC = true → s'.awaited = s.awaited) :
    s'.PopAimed call := by
  unfold PopAimed at h ⊢
  split
  · rename_i hpc
    rw [hpc] at h
    exact ⟨h.1, fun hspsc => (hsame hspsc).trans (h.2 hspsc)⟩
  · rename_i hpc
    rw [hpc] at h
    exact ⟨h.1, fun hspsc => (hsame hspsc).trans (h.2.1 hspsc), h.2.2.trans_le hlater⟩
  · trivial

/-- Fewer tickets than there are words have been handed out since the counter was read. -/
theorem Kept.bound {A : Type} {call : Call A} (h : s.Kept call) (hnear : s.Near)
    (hmoderate : s.finished < call.began + 2 ^ 31) :
    s.reserved + s.awaited < call.reserved + call.awaited + 2 ^ 32 := by
  have hserved := h.served
  have hheld := hnear.held
  omega

theorem moment_later : Later s s.moment where
  reserved := le_rfl
  awaited := le_rfl
  finished := le_rfl
  served := le_rfl
  sizes := by simp [moment]

/-- A call that begins. -/
theorem kept_call (h : s.Sound) {A : Type} (pc : A) : s.moment.Kept (s.call pc) where
  reserved := le_rfl
  awaited := le_rfl
  le := h.coupled.le
  size := h.coupled.size
  began := le_rfl
  served := Nat.add_le_add_right h.counted.le _
  since := by simp [moment, call]

/-- A call that reads its counter again. -/
theorem Kept.read (h : s.Sound) {A : Type} {call : Call A} (hcall : s.Kept call) (pc : A) :
    s.Kept { call with pc, reserved := s.reserved, awaited := s.awaited } where
  reserved := le_rfl
  awaited := le_rfl
  le := h.coupled.le
  size := h.coupled.size
  began := hcall.began
  served := Nat.add_le_add h.counted.le hcall.began
  since := hcall.since

theorem Kept.go {A : Type} {call : Call A} (h : s.Kept call) (pc : A) :
    s.Kept { call with pc } :=
  ⟨h.reserved, h.awaited, h.le, h.size, h.began, h.served, h.since⟩

/-- The counters have not moved. -/
theorem Coupled.keep (h : s.Coupled) (hhead : s'.queue.head = s.queue.head)
    (htail : s'.queue.tail = s.queue.tail) (hreserved : s'.reserved = s.reserved)
    (hawaited : s'.awaited = s.awaited)
    (hsizes : s'.sizes = s.sizes ++ [s.queue.head - s.queue.tail]) : s'.Coupled where
  head := by rw [hhead, hreserved, h.head]
  tail := by rw [htail, hawaited, h.tail]
  le := by rw [hreserved, hawaited]; exact h.le
  size := by rw [hreserved, hawaited]; exact h.size
  now := ⟨s.sizes, by rw [hsizes, hhead, htail]⟩

/-- A call that gets its ticket has read the counter that was there. -/
theorem eq_read_of_exchange {single : Bool} {counter : BitVec 32} {read now : Nat}
    (hcounter : counter = BitVec.ofNat 32 now) (hle : read ≤ now) (hbound : now < read + 2 ^ 32)
    (hsingle : single = true → now = read)
    (hcas : single = true ∨ counter = BitVec.ofNat 32 read) : now = read := by
  cases hcas with
  | inl hspsc => exact hsingle hspsc
  | inr hread =>
    rw [hcounter] at hread
    exact eq_of_ofNat_eq hle hbound hread

section Push

variable {p : P} {call : Call (TryPush T)} {next : Option (Call (TryPush T))}

theorem PushStep.later (hstep : PushStep s call s' next) : Later s s' := by
  cases hstep with
  | read element hwithout => exact moment_later
  | full element head hpc hfull => constructor <;> simp [moment]
  | test element head hpc hfree => exact moment_later
  | reserve element head hpc hcas => constructor <;> simp
  | work queue pc hholds hholds' hhead htail => constructor <;> simp [moment]
  | done queue hholds hhead htail =>
    constructor <;> simp [moment]
    omega

/-- The comparison of a push is that of the tickets. -/
theorem push_compare (hsize : args.queueSize.toNat < 2 ^ 31) (h : s.Coupled) (hkept : s.Kept call)
    (hbound : s.reserved + s.awaited < call.reserved + call.awaited + 2 ^ 32) :
    args.queueSize.toInt ≤ (BitVec.ofNat 32 call.reserved - s.queue.tail).toInt ↔
      s.awaited + args.queueSize.toNat ≤ call.reserved := by
  obtain ⟨hreserved, hawaited, hle, -, -, -, -⟩ := hkept
  have hmore := h.le
  have hfit := h.size
  rw [h.tail, toInt_sub (by decide) (by omega) (by omega), BitVec.toInt_eq_toNat_of_lt (by omega)]
  omega

theorem PushStep.coupled (hstep : PushStep s call s' next) (h : s.Coupled) (hkept : s.Kept call)
    (haimed : s.PushAimed call)
    (hbound : s.reserved + s.awaited < call.reserved + call.awaited + 2 ^ 32) : s'.Coupled := by
  cases hstep with
  | read element hwithout => exact h.keep rfl rfl rfl rfl rfl
  | full element head hpc hfull => exact h.keep rfl rfl rfl rfl rfl
  | test element head hpc hfree => exact h.keep rfl rfl rfl rfl rfl
  | reserve element head hpc hcas =>
    rw [PushAimed, hpc] at haimed
    obtain ⟨hhead, hsingle, hfree⟩ := haimed
    rw [hhead] at hcas
    have hawaited := hkept.awaited
    have hmine : s.reserved = call.reserved :=
      eq_read_of_exchange h.head hkept.reserved (by omega) hsingle hcas
    rw [← hmine] at hfree
    constructor
    · rw [hhead, hmine, BitVec.ofNat_add]
    · exact h.tail
    · exact h.le.trans (Nat.le_succ _)
    · exact hfree
    · exact ⟨s.sizes, rfl⟩
  | work queue pc hholds hholds' hhead htail => exact h.keep hhead htail rfl rfl rfl
  | done queue hholds hhead htail => exact h.keep hhead htail rfl rfl rfl

/-- What the call knows after the step. -/
theorem PushStep.goes_on (hstep : PushStep s call s' next) (hsize : args.queueSize.toNat < 2 ^ 31)
    (h : s.Sound) (hkept : s.Kept call) (haimed : s.PushAimed call)
    (hbound : s.reserved + s.awaited < call.reserved + call.awaited + 2 ^ 32) :
    ∀ call', next = some call' → s'.Kept call' ∧ s'.PushAimed call' := by
  intro call' hnext
  have hlater := hstep.later
  cases hstep with
  | read element hwithout =>
    cases hnext
    exact ⟨(Kept.read h hkept _).later hlater, h.coupled.head, fun _ => rfl⟩
  | full element head hpc hfull => cases hnext
  | test element head hpc hfree =>
    cases hnext
    rw [PushAimed, hpc] at haimed
    refine ⟨(hkept.go _).later hlater, haimed.1, haimed.2, ?_⟩
    rw [haimed.1, ← Int.not_le, push_compare hsize h.coupled hkept hbound] at hfree
    exact Nat.not_le.mp hfree
  | reserve element head hpc hcas =>
    cases hnext
    exact ⟨(hkept.go _).later hlater, trivial⟩
  | work queue pc hholds hholds' hhead htail =>
    cases hnext
    refine ⟨(hkept.go _).later hlater, ?_⟩
    cases pc with
    | loadHead element | loadTail element head | casHead element head => cases hholds'
    | casState element head | spin element head | write element head | publish element head => trivial
  | done queue hholds hhead htail => cases hnext

end Push

section Pop

variable {c : C} {call : Call (TryPop T)} {next : Option (Call (TryPop T))}

theorem PopStep.later (hstep : PopStep s call s' next) : Later s s' := by
  cases hstep with
  | read hwithout => exact moment_later
  | empty tail hpc hempty => constructor <;> simp [moment]
  | test tail hpc hsome => exact moment_later
  | await tail hpc hcas => constructor <;> simp
  | work queue pc hholds hholds' hhead htail => constructor <;> simp [moment]
  | done queue hholds hhead htail =>
    constructor <;> simp [moment]
    omega

/-- The comparison of a pop is that of the tickets, while it does not run too far behind. -/
theorem pop_compare (h : s.Coupled) (hkept : s.Kept call)
    (hnear : s.reserved < call.awaited + 2 ^ 31) :
    (s.queue.head - BitVec.ofNat 32 call.awaited).toInt ≤ 0 ↔ s.reserved ≤ call.awaited := by
  have hawaited := hkept.awaited
  have hle := h.le
  rw [h.head, toInt_sub (by decide) (by omega) (by omega)]
  omega

theorem PopStep.coupled (hstep : PopStep s call s' next) (h : s.Coupled) (hkept : s.Kept call)
    (haimed : s.PopAimed call)
    (hbound : s.reserved + s.awaited < call.reserved + call.awaited + 2 ^ 32) : s'.Coupled := by
  cases hstep with
  | read hwithout => exact h.keep rfl rfl rfl rfl rfl
  | empty tail hpc hempty => exact h.keep rfl rfl rfl rfl rfl
  | test tail hpc hsome => exact h.keep rfl rfl rfl rfl rfl
  | await tail hpc hcas =>
    rw [PopAimed, hpc] at haimed
    obtain ⟨htail, hsingle, hsome⟩ := haimed
    rw [htail] at hcas
    have hreserved := hkept.reserved
    have hmine : s.awaited = call.awaited :=
      eq_read_of_exchange h.tail hkept.awaited (by omega) hsingle hcas
    rw [← hmine] at hsome
    constructor
    · exact h.head
    · rw [htail, hmine, BitVec.ofNat_add]
    · exact hsome
    · exact h.size.trans (Nat.add_le_add_right (Nat.le_succ _) _)
    · exact ⟨s.sizes, rfl⟩
  | work queue pc hholds hholds' hhead htail => exact h.keep hhead htail rfl rfl rfl
  | done queue hholds hhead htail => exact h.keep hhead htail rfl rfl rfl

theorem PopStep.goes_on (hstep : PopStep s call s' next) (h : s.Sound) (hkept : s.Kept call)
    (haimed : s.PopAimed call)
    (hnear : ∀ tail, call.pc = .loadHead tail → s.reserved < call.awaited + 2 ^ 31) :
    ∀ call', next = some call' → s'.Kept call' ∧ s'.PopAimed call' := by
  intro call' hnext
  have hlater := hstep.later
  cases hstep with
  | read hwithout =>
    cases hnext
    exact ⟨(Kept.read h hkept _).later hlater, h.coupled.tail, fun _ => rfl⟩
  | empty tail hpc hempty => cases hnext
  | test tail hpc hsome =>
    cases hnext
    rw [PopAimed, hpc] at haimed
    refine ⟨(hkept.go _).later hlater, haimed.1, haimed.2, ?_⟩
    rw [haimed.1, ← Int.not_le, pop_compare h.coupled hkept (hnear tail hpc)] at hsome
    exact Nat.not_le.mp hsome
  | await tail hpc hcas =>
    cases hnext
    exact ⟨(hkept.go _).later hlater, trivial⟩
  | work queue pc hholds hholds' hhead htail =>
    cases hnext
    refine ⟨(hkept.go _).later hlater, ?_⟩
    cases pc with
    | loadTail | loadHead tail | casTail tail => cases hholds'
    | casState tail | spin tail | move tail | clear tail element => trivial
  | done queue hholds hhead htail => cases hnext

end Pop

section Threads

variable (producers : P → Option (Call (TryPush T))) (consumers : C → Option (Call (TryPop T)))

/-- Where the threads stand is none of the business of the counters. -/
theorem Coupled.threads (h : s.Coupled) : { s with producers, consumers }.Coupled :=
  ⟨h.head, h.tail, h.le, h.size, h.now⟩

theorem Kept.threads {A : Type} {call : Call A} (h : s.Kept call) :
    { s with producers, consumers }.Kept call :=
  ⟨h.reserved, h.awaited, h.le, h.size, h.began, h.served, h.since⟩

theorem Later.threads (h : Later s s') : Later s { s' with producers, consumers } :=
  ⟨h.reserved, h.awaited, h.finished, h.served, h.sizes⟩

end Threads

variable [DecidableEq P] [DecidableEq C]

omit [DecidableEq P] [DecidableEq C] in
/-- One thread goes on, and the others stay where they are. -/
theorem forall_update {I A : Type} [DecidableEq I] {f : I → Option A} {i : I} {x : Option A}
    {R : A → Prop} (hi : ∀ a, x = some a → R a) (hother : ∀ j a, j ≠ i → f j = some a → R a) :
    ∀ j a, update f i x j = some a → R a := by
  intro j a hj
  by_cases hji : j = i
  · subst hji
    rw [update_self] at hj
    exact hi a hj
  · rw [update_of_ne hji] at hj
    exact hother j a hji hj

theorem Step.sound (hstep : Step s s') (hsize : args.queueSize.toNat < 2 ^ 31)
    (hsingle : args.SPSC = true → Subsingleton P ∧ Subsingleton C) (hmoderate : s.Moderate)
    (hnear : s.Near) (h : s.Sound) : s'.Sound := by
  have hcounted := hstep.counted h.counted
  have hmoment : s.moment.Coupled := h.coupled.keep rfl rfl rfl rfl rfl
  cases hstep with
  | callPush p element hp =>
    refine ⟨hcounted, hmoment.threads _ _, forall_update (fun call' hnext => ?_)
      fun q call' hqp hq => ?_, fun c call' hc => ?_⟩
    · cases hnext
      exact ⟨(kept_call h _).threads _ _, trivial⟩
    · obtain ⟨hkept, haimed⟩ := h.push q call' hq
      exact ⟨hkept.later (moment_later.threads _ _), haimed⟩
    · obtain ⟨hkept, haimed⟩ := h.pop c call' hc
      exact ⟨hkept.later (moment_later.threads _ _), haimed⟩
  | push p call hp =>
    obtain ⟨hkept, haimed⟩ := h.push p call hp
    have hbound := hkept.bound hnear (hmoderate.push p call hp)
    have hpush := push_step s call
    refine ⟨hcounted, (hpush.coupled h.coupled hkept haimed hbound).threads _ _,
      forall_update (fun call' hnext => ?_) fun q call' hqp hq => ?_, fun c call' hc => ?_⟩
    · obtain ⟨hkept', haimed'⟩ := hpush.goes_on hsize h hkept haimed hbound call' hnext
      exact ⟨hkept'.threads _ _, haimed'⟩
    · obtain ⟨hkept', haimed'⟩ := h.push q call' hq
      refine ⟨hkept'.later (hpush.later.threads _ _), haimed'.later hpush.later.awaited ?_⟩
      intro hspsc
      have := (hsingle hspsc).1
      exact absurd (Subsingleton.elim q p) hqp
    · obtain ⟨hkept', haimed'⟩ := h.pop c call' hc
      exact ⟨hkept'.later (hpush.later.threads _ _),
        haimed'.later hpush.later.reserved fun _ => rfl⟩
  | callPop c hc =>
    refine ⟨hcounted, hmoment.threads _ _, fun p call' hp => ?_,
      forall_update (fun call' hnext => ?_) fun d call' hdc hd => ?_⟩
    · obtain ⟨hkept, haimed⟩ := h.push p call' hp
      exact ⟨hkept.later (moment_later.threads _ _), haimed⟩
    · cases hnext
      exact ⟨(kept_call h _).threads _ _, trivial⟩
    · obtain ⟨hkept, haimed⟩ := h.pop d call' hd
      exact ⟨hkept.later (moment_later.threads _ _), haimed⟩
  | pop c call hc =>
    obtain ⟨hkept, haimed⟩ := h.pop c call hc
    have hbound := hkept.bound hnear (hmoderate.pop c call hc)
    have hpop := pop_step s call
    refine ⟨hcounted, (hpop.coupled h.coupled hkept haimed hbound).threads _ _,
      fun p call' hp => ?_, forall_update (fun call' hnext => ?_) fun d call' hdc hd => ?_⟩
    · obtain ⟨hkept', haimed'⟩ := h.push p call' hp
      exact ⟨hkept'.later (hpop.later.threads _ _),
        haimed'.later hpop.later.awaited fun _ => rfl⟩
    · obtain ⟨hkept', haimed'⟩ := hpop.goes_on h hkept haimed (hnear.pop c call · hc) call' hnext
      exact ⟨hkept'.threads _ _, haimed'⟩
    · obtain ⟨hkept', haimed'⟩ := h.pop d call' hd
      refine ⟨hkept'.later (hpop.later.threads _ _), haimed'.later hpop.later.reserved ?_⟩
      intro hspsc
      have := (hsingle hspsc).2
      exact absurd (Subsingleton.elim d c) hdc

end Steps

/-! ### All runs -/

section Answers

variable {s : Calls args T P C}

theorem tryPush_false {q : QueueBase args T} {pc : TryPush T}
    (h : (q.tryPush pc).2 = .leave false) :
    ∃ element head, pc = .loadTail element head ∧ args.queueSize.toInt ≤ (head - q.tail).toInt := by
  cases pc with
  | loadTail element head =>
    by_cases hfull : args.queueSize.toInt ≤ (head - q.tail).toInt
    · exact ⟨element, head, rfl, hfull⟩
    · rw [QueueBase.tryPush, if_neg hfull] at h
      cases h
  | casHead element head | casState element head | spin element head =>
    rw [QueueBase.tryPush] at h
    split at h <;> cases h
  | loadHead element | write element head | publish element head => cases h

theorem tryPop_none {q : QueueBase args T} {pc : TryPop T} (h : (q.tryPop pc).2 = .leave none) :
    ∃ tail, pc = .loadHead tail ∧ (q.head - tail).toInt ≤ 0 := by
  cases pc with
  | loadHead tail =>
    by_cases hempty : (q.head - tail).toInt ≤ 0
    · exact ⟨tail, rfl, hempty⟩
    · rw [QueueBase.tryPop, if_neg hempty] at h
      cases h
  | casTail tail | casState tail | spin tail =>
    rw [QueueBase.tryPop] at h
    split at h <;> cases h
  | loadTail | move tail | clear tail element => cases h

/-- This moment is one of a call that is under way. -/
theorem Coupled.now_mem (h : s.Coupled) {since : Nat} (hsince : since < s.sizes.length) :
    s.queue.head - s.queue.tail ∈ s.sizes.drop since := by
  obtain ⟨before, hsizes⟩ := h.now
  rw [hsizes, List.length_append, List.length_singleton] at hsince
  rw [hsizes, List.drop_append_of_le_length (by omega)]
  exact List.mem_append_right _ (List.mem_singleton_self _)

/-- The difference of the counters is that of the tickets. -/
theorem Coupled.toNat_sub (hsize : args.queueSize.toNat < 2 ^ 31) (h : s.Coupled) :
    (s.queue.head - s.queue.tail).toNat = s.reserved - s.awaited := by
  have hfit := h.size
  rw [h.head, h.tail, Counters.toNat_sub h.le (by omega)]

theorem Sound.truthful (hsize : args.queueSize.toNat < 2 ^ 31) (hmoderate : s.Moderate)
    (hnear : s.Near) (h : s.Sound) : s.Truthful where
  size := by
    have hfit := h.coupled.size
    rw [h.coupled.toNat_sub hsize]
    omega
  full p call hp hfalse := by
    obtain ⟨hkept, haimed⟩ := h.push p call hp
    obtain ⟨element, head, hpc, hfull⟩ := tryPush_false hfalse
    rw [PushAimed, hpc] at haimed
    rw [haimed.1, push_compare hsize h.coupled hkept
      (hkept.bound hnear (hmoderate.push p call hp))] at hfull
    refine ⟨_, h.coupled.now_mem hkept.since, ?_⟩
    have hreserved := hkept.reserved
    rw [h.coupled.toNat_sub hsize]
    omega
  empty c call hc hnone := by
    obtain ⟨hkept, haimed⟩ := h.pop c call hc
    obtain ⟨tail, hpc, hempty⟩ := tryPop_none hnone
    rw [PopAimed, hpc] at haimed
    rw [haimed.1, pop_compare h.coupled hkept (hnear.pop c call tail hc hpc)] at hempty
    have hawaited := hkept.awaited
    have hle := h.coupled.le
    have hequal : s.reserved = s.awaited := by omega
    have hnow := h.coupled.now_mem hkept.since
    rwa [h.coupled.head, h.coupled.tail, hequal, BitVec.sub_self] at hnow

end Answers

section Runs

variable {s : Calls args T P C}

open TransitionSystem

theorem Initial.moderate (h : s.Initial) : s.Moderate where
  push p call hp := by simp [h.producers p] at hp
  pop c call hc := by simp [h.consumers c] at hc

theorem Initial.near (h : s.Initial) : s.Near where
  held := by simp [h.reserved, h.awaited]
  pop c call tail hc := by simp [h.consumers c] at hc

/-- Where the threads and the queue are few enough, no condition is left on what they have done. -/
theorem Sound.near [Finite P] [Finite C]
    (hfit : 2 * args.queueSize.toNat + Nat.card P + Nat.card C ≤ 2 ^ 31) (hmoderate : s.Moderate)
    (h : s.Sound) : s.Near := by
  have hpushes : s.reserved ≤ s.pushed + Nat.card P := by
    have hle := add_le_add_right (engaged_le_card (D := Holding TryPush.Holds) (f := s.producers))
      (s.pushed : ℕ∞)
    rw [← h.counted.reserved] at hle
    exact_mod_cast hle
  have hpops : s.awaited ≤ s.popped + Nat.card C := by
    have hle := add_le_add_right (engaged_le_card (D := Holding TryPop.Holds) (f := s.consumers))
      (s.popped : ℕ∞)
    rw [← h.counted.awaited] at hle
    exact_mod_cast hle
  constructor
  · omega
  · intro c call tail hc hpc
    obtain ⟨hkept, -⟩ := h.pop c call hc
    have hfinished := hmoderate.pop c call hc
    have hserved := hkept.served
    have hread := hkept.size
    have hfit' := h.coupled.size
    omega

variable [DecidableEq P] [DecidableEq C]

/-- The answers are right as long as the size is no negative `int`, no more calls hold a ticket than half
a word counts, and a pop compares its tail with a head that is less than that ahead. -/
theorem truthful_of_reachable (hsize : args.queueSize.toNat < 2 ^ 31)
    (hsingle : args.SPSC = true → Subsingleton P ∧ Subsingleton C)
    (h : ((system args T P C).restrict fun _ s' => s'.Moderate ∧ s'.Near).Reachable s) :
    s.Truthful := by
  have hsound : s.Sound ∧ s.Moderate ∧ s.Near := by
    refine h.invariant (I := fun s => s.Sound ∧ s.Moderate ∧ s.Near) ?_ ?_
    · intro s hs
      exact ⟨Initial.sound hs, Initial.moderate hs, Initial.near hs⟩
    · intro s s' _ hs hstep
      exact ⟨Step.sound hstep.1 hsize hsingle hs.2.1 hs.2.2 hs.1, hstep.2⟩
  exact hsound.1.truthful hsize hsound.2.1 hsound.2.2

/-- The answers of few threads that share a queue which is not too large. -/
theorem truthful_of_few [Finite P] [Finite C]
    (hfit : 2 * args.queueSize.toNat + Nat.card P + Nat.card C ≤ 2 ^ 31)
    (hsingle : args.SPSC = true → Subsingleton P ∧ Subsingleton C)
    (h : ((system args T P C).restrict fun _ s' => s'.Moderate).Reachable s) : s.Truthful := by
  have hsize : args.queueSize.toNat < 2 ^ 31 := by
    have hpos := args.queueSize_pos
    omega
  have hsound : s.Sound ∧ s.Moderate := by
    refine h.invariant (I := fun s => s.Sound ∧ s.Moderate) ?_ ?_
    · intro s hs
      exact ⟨Initial.sound hs, Initial.moderate hs⟩
    · intro s s' _ hs hstep
      exact ⟨Step.sound hstep.1 hsize hsingle hs.2 (hs.1.near hfit hs.2) hs.1, hstep.2⟩
  exact hsound.1.truthful hsize hsound.2 (hsound.1.near hfit hsound.2)

end Runs

/-! ### A size that is a negative `int` -/

section Asking

open TransitionSystem

variable [DecidableEq P] (p : P) (element : T)

def idle (args : QueueArgs) (P C : Type) (element : T) : Calls args T P C where
  queue := ⟨0#32, 0#32, fun _ => .empty, fun _ => element⟩
  producers := fun _ => none
  consumers := fun _ => none
  reserved := 0
  awaited := 0
  pushed := 0
  popped := 0
  finished := 0
  sizes := [0#32]

/-- One push is under way, and nobody else has done anything. -/
def underWay (args : QueueArgs) (C : Type) (p : P) (element : T) (call : Call (TryPush T))
    (sizes : List (BitVec 32)) : Calls args T P C :=
  { idle args P C element with producers := update (fun _ => none) p (some call), sizes }

/-- The push is going to compare the head with the tail. -/
def asking (args : QueueArgs) (C : Type) (p : P) (element : T) : Calls args T P C :=
  underWay args C p element ⟨.loadTail element 0#32, 0, 1, 0, 0⟩ [0#32, 0#32, 0#32]

omit [DecidableEq P] in
theorem initial_idle : (idle args P C element).Initial :=
  ⟨⟨rfl, rfl, fun _ => rfl⟩, fun _ => rfl, fun _ => rfl, rfl, rfl, rfl, rfl, rfl, rfl⟩

theorem guarded_underWay (call : Call (TryPush T)) (sizes : List (BitVec 32)) :
    (underWay args C p element call sizes).Moderate ∧ (underWay args C p element call sizes).Near := by
  refine ⟨⟨fun q call' _ => ?_, fun c call' hc => ?_⟩, ⟨Nat.zero_le _, fun c call' tail hc => ?_⟩⟩
  · exact Nat.add_pos_right _ (Nat.two_pow_pos 31)
  · cases hc
  · cases hc

theorem reachable_asking [DecidableEq C] :
    ((system args T P C).restrict fun _ s' => s'.Moderate ∧ s'.Near).Reachable
      (asking args C p element) := by
  let begun : Call (TryPush T) := ⟨.loadHead element, 0, 1, 0, 0⟩
  have hcall : Step (idle args P C element) (underWay args C p element begun [0#32, 0#32]) := by
    convert Step.callPush (idle args P C element) p element rfl using 1
    simp only [idle, BitVec.sub_self]
    rfl
  have hload : Step (underWay args C p element begun [0#32, 0#32]) (asking args C p element) := by
    have hp : (underWay args C p element begun [0#32, 0#32]).producers p = some begun := by
      simp [underWay]
    convert Step.push _ p begun hp using 1
    simp only [underWay, update_idem, push, QueueBase.tryPush, begun, idle, BitVec.sub_self]
    rfl
  have hbegun : ((system args T P C).restrict fun _ s' => s'.Moderate ∧ s'.Near).Reachable
      (underWay args C p element begun [0#32, 0#32]) :=
    (Reachable.initial (initial_idle element)).reaches
      (.step (.refl _) ⟨hcall, guarded_underWay p element _ _⟩)
  exact hbegun.reaches (.step (.refl _) ⟨hload, guarded_underWay p element _ _⟩)

/-- Every push finds such a queue full, also an empty one. -/
theorem not_truthful_asking (hsize : 2 ^ 31 ≤ args.queueSize.toNat) :
    ¬ (asking args C p element).Truthful := by
  intro h
  have hnegative : args.queueSize.toInt ≤ 0 := by
    rw [BitVec.toInt_eq_toNat_cond]
    omega
  have hcall : (asking args C p element).producers p = some ⟨.loadTail element 0#32, 0, 1, 0, 0⟩ := by
    simp [asking, underWay]
  have hfalse : ((asking args C p element).queue.tryPush (.loadTail element 0#32)).2 =
      .leave false := by
    simp [asking, underWay, idle, QueueBase.tryPush, hnegative]
  obtain ⟨size, hmem, hfull⟩ := h.full p _ hcall hfalse
  obtain rfl : size = 0#32 := by simpa [asking, underWay] using hmem
  rw [BitVec.toNat_zero] at hfull
  omega

/-- The largest queue of the platform is one. -/
theorem not_truthful_largest : ¬ ∀ s : Calls ⟨2147483648#32, true, true, false, 64, by decide,
    by decide⟩ Bool Unit Unit,
    ((system _ Bool Unit Unit).restrict fun _ s' => s'.Moderate).Reachable s → s.Truthful := by
  intro h
  refine not_truthful_asking () true ?_ (h _ ((reachable_asking () true).weaken fun _ _ hs => hs.1))
  decide

/-- Four elements, and a push that is going to be told that there is room. -/
theorem truthful_four : (asking ⟨4#32, true, true, false, 64, by decide, by decide⟩ Unit () true).Truthful :=
  truthful_of_reachable (by decide) (fun hspsc => absurd hspsc (by decide)) (reachable_asking () true)

end Asking

end Calls

end LuPlatform.Queue
