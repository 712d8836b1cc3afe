import LuPlatform.Library.SlotTurns
import LuPlatform.Queue.QueueBase

/-! `QueueBase` over the class that is derived from it. The base class hands out the tickets, to `push`
and `pop` as to `try_push` and `try_pop`, and leaves the slots to `do_push` and `do_pop` of the derived
class. What these two have to do for the slots to be those of a slot table is stated here once, and
what follows for the threads of the queue. -/

namespace LuPlatform.Queue

open Loop SlotTable Transition Function

/-- The derived class. `do_push` and `do_pop` go from one access of the slots to the next, and what they
are called with stays the same. -/
structure Derived (T : Type) where
  queueSize : BitVec 32
  isSPSC : Bool
  Slots : Type
  Constructed : Slots → Prop
  DoPush : Type
  DoPop : Type
  beginPush : DoPush
  beginPop : DoPop
  doPush : T → BitVec 32 → Slots → DoPush → Slots × Round DoPush Unit
  doPop : BitVec 32 → Slots → DoPop → Slots × Round DoPop T

/-- The round of a call that goes on, or ends, as the one it makes does. -/
def relayed {A B ρ ρ' : Type} (f : A → B) (g : ρ → ρ') : Round A ρ → Round B ρ'
  | .again pc => .again (f pc)
  | .leave r => .leave (g r)

/-- What a call has brought, if it is over. -/
def brought {A ρ : Type} : Round A ρ → List ρ
  | .again _ => []
  | .leave r => [r]

structure DerivedQueue {T : Type} (D : Derived T) where
  head : BitVec 32
  tail : BitVec 32
  slots : D.Slots

/-- Where `push` or `try_push` stands. The first one begins at `fetchHead`. -/
inductive PushCall {T : Type} (D : Derived T) where
  | fetchHead (element : T)
  | loadHead (element : T)
  | loadTail (element : T) (head : BitVec 32)
  | casHead (element : T) (head : BitVec 32)
  | doPush (element : T) (head : BitVec 32) (pc : D.DoPush)

inductive PopCall {T : Type} (D : Derived T) where
  | fetchTail
  | loadTail
  | loadHead (tail : BitVec 32)
  | casTail (tail : BitVec 32)
  | doPop (tail : BitVec 32) (pc : D.DoPop)

variable {T : Type} {D : Derived T}

namespace DerivedQueue

/-- With `SPSC` the head is loaded and stored where it is fetched or exchanged otherwise. -/
def push (q : DerivedQueue D) : PushCall D → DerivedQueue D × Round (PushCall D) Bool
  | .fetchHead element =>
    if D.isSPSC then (q, .again (.casHead element q.head))
    else ({ q with head := q.head + 1#32 }, .again (.doPush element q.head D.beginPush))
  | .loadHead element => (q, .again (.loadTail element q.head))
  | .loadTail element head =>
    if D.queueSize.toInt ≤ (head - q.tail).toInt then (q, .leave false)
    else (q, .again (.casHead element head))
  | .casHead element head =>
    if D.isSPSC = true ∨ q.head = head then
      ({ q with head := head + 1#32 }, .again (.doPush element head D.beginPush))
    else (q, .again (.loadTail element q.head))
  | .doPush element head pc =>
    let (slots, round) := D.doPush element head q.slots pc
    ({ q with slots }, relayed (.doPush element head) (fun _ => true) round)

/-- A call that fails returns no element. -/
def pop (q : DerivedQueue D) : PopCall D → DerivedQueue D × Round (PopCall D) (Option T)
  | .fetchTail =>
    if D.isSPSC then (q, .again (.casTail q.tail))
    else ({ q with tail := q.tail + 1#32 }, .again (.doPop q.tail D.beginPop))
  | .loadTail => (q, .again (.loadHead q.tail))
  | .loadHead tail =>
    if (q.head - tail).toInt ≤ 0 then (q, .leave none) else (q, .again (.casTail tail))
  | .casTail tail =>
    if D.isSPSC = true ∨ q.tail = tail then
      ({ q with tail := tail + 1#32 }, .again (.doPop tail D.beginPop))
    else (q, .again (.loadHead q.tail))
  | .doPop tail pc =>
    let (slots, round) := D.doPop tail q.slots pc
    ({ q with slots }, relayed (.doPop tail) some round)

theorem push_doPush (q : DerivedQueue D) {element : T} {head : BitVec 32} {pc : D.DoPush}
    {round : Round D.DoPush Unit} (h : (D.doPush element head q.slots pc).2 = round) :
    q.push (.doPush element head pc) =
      ({ q with slots := (D.doPush element head q.slots pc).1 },
        relayed (.doPush element head) (fun _ => true) round) := by
  subst h
  rfl

theorem pop_doPop (q : DerivedQueue D) {tail : BitVec 32} {pc : D.DoPop} {round : Round D.DoPop T}
    (h : (D.doPop tail q.slots pc).2 = round) :
    q.pop (.doPop tail pc) =
      ({ q with slots := (D.doPop tail q.slots pc).1 }, relayed (.doPop tail) some round) := by
  subst h
  rfl

structure Constructed (q : DerivedQueue D) : Prop where
  head : q.head = 0#32
  tail : q.tail = 0#32
  slots : D.Constructed q.slots

/-- A call that goes round for ever and changes nothing, unless another thread does. -/
def PushStalled (q : DerivedQueue D) (call : PushCall D) : Prop :=
  ∀ call', Reached (fun call => (q.push call).2) call call' →
    (q.push call').1 = q ∧ ∃ next, (q.push call').2 = .again next

def PopStalled (q : DerivedQueue D) (call : PopCall D) : Prop :=
  ∀ call', Reached (fun call => (q.pop call).2) call call' →
    (q.pop call').1 = q ∧ ∃ next, (q.pop call').2 = .again next

end DerivedQueue

/-! ### Threads -/

def PushCall.element : PushCall D → T
  | .fetchHead element | .loadHead element | .loadTail element _ | .casHead element _
  | .doPush element _ _ => element

/-- The ticket that a call goes by and does not have yet. -/
def PushCall.loaded : PushCall D → Option (BitVec 32)
  | .loadTail _ head | .casHead _ head => some head
  | _ => none

def PopCall.loaded : PopCall D → Option (BitVec 32)
  | .loadHead tail | .casTail tail => some tail
  | _ => none

/-- A call that is in `do_push`, and with what. -/
def inDoPush : Option (PushCall D) → Option (T × BitVec 32 × D.DoPush)
  | some (.doPush element head pc) => some (element, head, pc)
  | _ => none

def inDoPop : Option (PopCall D) → Option (BitVec 32 × D.DoPop)
  | some (.doPop tail pc) => some (tail, pc)
  | _ => none

/-- The queue, the calls of its threads, and what the calls that are over have pushed and popped. -/
structure QueueCalls {T : Type} (D : Derived T) (P C : Type) where
  queue : DerivedQueue D
  producers : P → Option (PushCall D)
  consumers : C → Option (PopCall D)
  pushed : List (P × T)
  popped : List (C × T)

namespace QueueCalls

variable {P C : Type}

structure Initial (s : QueueCalls D P C) : Prop where
  queue : s.queue.Constructed
  producers : ∀ p, s.producers p = none
  consumers : ∀ c, s.consumers c = none
  pushed : s.pushed = []
  popped : s.popped = []

/-- The threads in a call are stalled, all of them. -/
structure Stalled (s : QueueCalls D P C) : Prop where
  producers : ∀ p call, s.producers p = some call → s.queue.PushStalled call
  consumers : ∀ c call, s.consumers c = some call → s.queue.PopStalled call

variable [DecidableEq P] [DecidableEq C]

inductive Step : QueueCalls D P C → QueueCalls D P C → Prop
  | callPush (s) (p : P) (element : T) : s.producers p = none →
      Step s { s with producers := update s.producers p (some (.fetchHead element)) }
  | callTryPush (s) (p : P) (element : T) : s.producers p = none →
      Step s { s with producers := update s.producers p (some (.loadHead element)) }
  | push (s) (p : P) (call : PushCall D) : s.producers p = some call →
      Step s { s with
        queue := (s.queue.push call).1
        producers := update s.producers p (goingOn (s.queue.push call).2)
        pushed := match (s.queue.push call).2 with
          | .leave true => s.pushed ++ [(p, call.element)]
          | _ => s.pushed }
  | callPop (s) (c : C) : s.consumers c = none →
      Step s { s with consumers := update s.consumers c (some .fetchTail) }
  | callTryPop (s) (c : C) : s.consumers c = none →
      Step s { s with consumers := update s.consumers c (some .loadTail) }
  | pop (s) (c : C) (call : PopCall D) : s.consumers c = some call →
      Step s { s with
        queue := (s.queue.pop call).1
        consumers := update s.consumers c (goingOn (s.queue.pop call).2)
        popped := match (s.queue.pop call).2 with
          | .leave (some element) => s.popped ++ [(c, element)]
          | _ => s.popped }

variable (D P C) in
def system : TransitionSystem (QueueCalls D P C) := ⟨Initial, Step⟩

end QueueCalls

/-! ### What the derived class has to do -/

namespace Derived

variable (D)

abbrev Slot : Type := Fin D.queueSize.toNat

/-- The slots in the order of their tickets. -/
def visit (slot : BitVec 32 → D.Slot) (n : Nat) : D.Slot := slot (BitVec.ofNat 32 n)

/-- `do_push` goes round for ever and changes nothing. -/
def PushSpins (element : T) (head : BitVec 32) (slots : D.Slots) (pc : D.DoPush) : Prop :=
  ∀ pc', Reached (fun pc => (D.doPush element head slots pc).2) pc pc' →
    (D.doPush element head slots pc').1 = slots ∧
      ∃ next, (D.doPush element head slots pc').2 = .again next

def PopSpins (tail : BitVec 32) (slots : D.Slots) (pc : D.DoPop) : Prop :=
  ∀ pc', Reached (fun pc => (D.doPop tail slots pc).2) pc pc' →
    (D.doPop tail slots pc').1 = slots ∧ ∃ next, (D.doPop tail slots pc').2 = .again next

end Derived

/-! ### Threads that are stalled -/

theorem succ_ne (x : BitVec 32) : x + 1#32 ≠ x := by
  simp

namespace DerivedQueue

variable {q : DerivedQueue D}

theorem PushStalled.next {call call' : PushCall D} (h : q.PushStalled call)
    (hagain : (q.push call).2 = .again call') : q.PushStalled call' :=
  fun call'' hreached => h call'' (.of_again hagain hreached)

theorem PopStalled.next {call call' : PopCall D} (h : q.PopStalled call)
    (hagain : (q.pop call).2 = .again call') : q.PopStalled call' :=
  fun call'' hreached => h call'' (.of_again hagain hreached)

/-- The head as it is now would move. -/
theorem not_pushStalled_casHead (element : T) : ¬ q.PushStalled (.casHead element q.head) := by
  intro h
  have hsame := congrArg head (h _ .start).1
  rw [push, if_pos (Or.inr rfl)] at hsame
  exact succ_ne _ hsame

theorem not_popStalled_casTail : ¬ q.PopStalled (.casTail q.tail) := by
  intro h
  have hsame := congrArg tail (h _ .start).1
  rw [pop, if_pos (Or.inr rfl)] at hsame
  exact succ_ne _ hsame

theorem not_pushStalled_loadTail (element : T) : ¬ q.PushStalled (.loadTail element q.head) := by
  intro h
  by_cases hfull : D.queueSize.toInt ≤ (q.head - q.tail).toInt
  · obtain ⟨-, next, hnext⟩ := h _ .start
    rw [push, if_pos hfull] at hnext
    cases hnext
  · exact not_pushStalled_casHead element (h.next (by rw [push, if_neg hfull]))

theorem not_popStalled_loadHead : ¬ q.PopStalled (.loadHead q.tail) := by
  intro h
  by_cases hempty : (q.head - q.tail).toInt ≤ 0
  · obtain ⟨-, next, hnext⟩ := h _ .start
    rw [pop, if_pos hempty] at hnext
    cases hnext
  · exact not_popStalled_casTail (h.next (by rw [pop, if_neg hempty]))

/-- A push that goes round for ever has its ticket and spins at its slot. -/
theorem PushStalled.spins {call : PushCall D} (h : q.PushStalled call)
    (hloaded : D.isSPSC = true → ∀ head, call.loaded = some head → head = q.head) :
    ∃ element head pc, call = .doPush element head pc ∧ D.PushSpins element head q.slots pc := by
  have hcas : ∀ element head, q.PushStalled (.casHead element head) →
      (D.isSPSC = true → head = q.head) → False := by
    intro element head h hhead
    by_cases hcas : D.isSPSC = true ∨ q.head = head
    · obtain rfl : q.head = head := hcas.elim (fun hspsc => (hhead hspsc).symm) id
      exact not_pushStalled_casHead element h
    · exact not_pushStalled_loadTail element (h.next (by rw [push, if_neg hcas]))
  cases call with
  | fetchHead element =>
    by_cases hspsc : D.isSPSC = true
    · exact (not_pushStalled_casHead element (h.next (by rw [push, if_pos hspsc]))).elim
    · have hsame := congrArg head (h _ .start).1
      rw [push, if_neg hspsc] at hsame
      exact (succ_ne _ hsame).elim
  | loadHead element => exact (not_pushStalled_loadTail element (h.next rfl)).elim
  | loadTail element head =>
    by_cases hfull : D.queueSize.toInt ≤ (head - q.tail).toInt
    · obtain ⟨-, next, hnext⟩ := h _ .start
      rw [push, if_pos hfull] at hnext
      cases hnext
    · exact (hcas element head (h.next (by rw [push, if_neg hfull]))
        fun hspsc => hloaded hspsc head rfl).elim
  | casHead element head => exact (hcas element head h fun hspsc => hloaded hspsc head rfl).elim
  | doPush element head pc =>
    refine ⟨element, head, pc, rfl, fun pc' hreached => ?_⟩
    have hpush : Reached (fun call => (q.push call).2) (.doPush element head pc)
        (.doPush element head pc') := by
      induction hreached with
      | start => exact .start
      | round _ hround ih => exact .round ih (by rw [q.push_doPush hround]; rfl)
    obtain ⟨hsame, next, hnext⟩ := h _ hpush
    refine ⟨congrArg slots hsame, ?_⟩
    cases hround : (D.doPush element head q.slots pc').2 with
    | again pc'' => exact ⟨pc'', rfl⟩
    | leave r =>
      rw [q.push_doPush hround] at hnext
      cases hnext

theorem PopStalled.spins {call : PopCall D} (h : q.PopStalled call)
    (hloaded : D.isSPSC = true → ∀ tail, call.loaded = some tail → tail = q.tail) :
    ∃ tail pc, call = .doPop tail pc ∧ D.PopSpins tail q.slots pc := by
  have hcas : ∀ tail, q.PopStalled (.casTail tail) → (D.isSPSC = true → tail = q.tail) → False := by
    intro tail h htail
    by_cases hcas : D.isSPSC = true ∨ q.tail = tail
    · obtain rfl : q.tail = tail := hcas.elim (fun hspsc => (htail hspsc).symm) id
      exact not_popStalled_casTail h
    · exact not_popStalled_loadHead (h.next (by rw [pop, if_neg hcas]))
  cases call with
  | fetchTail =>
    by_cases hspsc : D.isSPSC = true
    · exact (not_popStalled_casTail (h.next (by rw [pop, if_pos hspsc]))).elim
    · have hsame := congrArg tail (h _ .start).1
      rw [pop, if_neg hspsc] at hsame
      exact (succ_ne _ hsame).elim
  | loadTail => exact (not_popStalled_loadHead (h.next rfl)).elim
  | loadHead tail =>
    by_cases hempty : (q.head - tail).toInt ≤ 0
    · obtain ⟨-, next, hnext⟩ := h _ .start
      rw [pop, if_pos hempty] at hnext
      cases hnext
    · exact (hcas tail (h.next (by rw [pop, if_neg hempty]))
        fun hspsc => hloaded hspsc tail rfl).elim
  | casTail tail => exact (hcas tail h fun hspsc => hloaded hspsc tail rfl).elim
  | doPop tail pc =>
    refine ⟨tail, pc, rfl, fun pc' hreached => ?_⟩
    have hpop : Reached (fun call => (q.pop call).2) (.doPop tail pc) (.doPop tail pc') := by
      induction hreached with
      | start => exact .start
      | round _ hround ih => exact .round ih (by rw [q.pop_doPop hround]; rfl)
    obtain ⟨hsame, next, hnext⟩ := h _ hpop
    refine ⟨congrArg slots hsame, ?_⟩
    cases hround : (D.doPop tail q.slots pc').2 with
    | again pc'' => exact ⟨pc'', rfl⟩
    | leave r =>
      rw [q.pop_doPop hround] at hnext
      cases hnext

end DerivedQueue

/-! ### Rounds through the array -/

/-- The shuffle of either class stays within a word. -/
theorem shuffleBits_le_word (args : QueueArgs) (elementsPerCacheLine : Nat) :
    getIndexShuffleBits args.MINIMIZE_CONTENTION args.queueSize.toNat elementsPerCacheLine +
      getIndexShuffleBits args.MINIMIZE_CONTENTION args.queueSize.toNat elementsPerCacheLine ≤ 32 := by
  by_cases hminimize : args.MINIMIZE_CONTENTION = true
  · obtain ⟨k, hle, hk⟩ := args.queueSize_pow hminimize
    exact (getIndexShuffleBits_le _ elementsPerCacheLine hk).trans (by omega)
  · simp [getIndexShuffleBits, hminimize]

/-- Where a size divides the word, the remainders of the tickets go round with the tickets. -/
theorem rounds_of_dvd {size : BitVec 32} {bits : Nat} (hbits : bits + bits ≤ 32)
    (hdvd : size.toNat ∣ 2 ^ 32) {visit : Nat → Fin size.toNat}
    (hvisit : ∀ n, (visit n).val = (remapIndex bits (BitVec.ofNat 32 n % size)).toNat) :
    Rounds visit size.toNat := by
  apply rounds_of_mod
  intro m n h
  have hremap : remapIndex bits (BitVec.ofNat 32 m % size) = remapIndex bits (BitVec.ofNat 32 n % size) :=
    BitVec.eq_of_toNat_eq (by rw [← hvisit, ← hvisit, h])
  have hremainder := congrArg BitVec.toNat (remapIndex_injective hbits hremap)
  rw [BitVec.toNat_umod, BitVec.toNat_umod, BitVec.toNat_ofNat, BitVec.toNat_ofNat,
    Nat.mod_mod_of_dvd _ hdvd, Nat.mod_mod_of_dvd _ hdvd] at hremainder
  exact hremainder

/-- The slots and the threads that are in `do_push` and `do_pop` show a slot table, and what one of the
two does to the slots are steps of the table. Where the queue is for one thread on either side there is
only one. -/
structure HandsOver {T : Type} (D : Derived T) (P C : Type) [DecidableEq P] [DecidableEq C] where
  slot : BitVec 32 → D.Slot
  Shows : D.Slots → (P → Option (T × BitVec 32 × D.DoPush)) → (C → Option (BitVec 32 × D.DoPop)) →
    Table D.Slot T P C → Prop
  oneProducer : D.isSPSC = true → Subsingleton P
  oneConsumer : D.isSPSC = true → Subsingleton C
  initial : ∀ slots, D.Constructed slots →
    ∃ t, SlotTable.Initial t ∧ Shows slots (fun _ => none) (fun _ => none) t
  producer_iff : ∀ {slots pushing popping t}, Shows slots pushing popping t →
    ∀ p, t.producers p = .outside ↔ pushing p = none
  consumer_iff : ∀ {slots pushing popping t}, Shows slots pushing popping t →
    ∀ c, t.consumers c = .outside ↔ popping c = none
  reserve : ∀ {slots pushing popping t p} (element : T) (head : BitVec 32),
    Shows slots pushing popping t → pushing p = none →
    Shows slots (update pushing p (some (element, head, D.beginPush))) popping { t with
      producers := update t.producers p (.waiting (slot head) element)
      reserved := t.reserved + 1 }
  await : ∀ {slots pushing popping t c} (tail : BitVec 32),
    Shows slots pushing popping t → popping c = none →
    Shows slots pushing (update popping c (some (tail, D.beginPop))) { t with
      consumers := update t.consumers c (.waiting (slot tail))
      awaited := t.awaited + 1 }
  push : ∀ {slots pushing popping t p element head pc},
    (SlotTable.system D.Slot T P C (D.visit slot)).Reachable t →
    Shows slots pushing popping t → pushing p = some (element, head, pc) →
    ∃ t', (SlotTable.system D.Slot T P C (D.visit slot)).Reaches t t' ∧
      Shows (D.doPush element head slots pc).1
        (update pushing p ((goingOn (D.doPush element head slots pc).2).map (element, head, ·)))
        popping t' ∧
      t'.reserved = t.reserved ∧ t'.awaited = t.awaited ∧ t'.returned = t.returned ∧
      t'.stored = t.stored ++ (brought (D.doPush element head slots pc).2).map fun _ => (p, element)
  pop : ∀ {slots pushing popping t c tail pc},
    (SlotTable.system D.Slot T P C (D.visit slot)).Reachable t →
    Shows slots pushing popping t → popping c = some (tail, pc) →
    ∃ t', (SlotTable.system D.Slot T P C (D.visit slot)).Reaches t t' ∧
      Shows (D.doPop tail slots pc).1 pushing
        (update popping c ((goingOn (D.doPop tail slots pc).2).map (tail, ·))) t' ∧
      t'.reserved = t.reserved ∧ t'.awaited = t.awaited ∧ t'.stored = t.stored ∧
      t'.returned = t.returned ++ (brought (D.doPop tail slots pc).2).map (c, ·)
  push_waits : ∀ {slots pushing popping t p element head pc}, Shows slots pushing popping t →
    pushing p = some (element, head, pc) → D.PushSpins element head slots pc →
    ∃ i e, t.producers p = .waiting i e ∧ t.states i ≠ .empty
  pop_waits : ∀ {slots pushing popping t c tail pc}, Shows slots pushing popping t →
    popping c = some (tail, pc) → D.PopSpins tail slots pc →
    ∃ i, t.consumers c = .waiting i ∧ t.states i ≠ .stored

namespace HandsOver

variable {P C : Type} [DecidableEq P] [DecidableEq C] (H : HandsOver D P C)

abbrev tables : TransitionSystem (Table D.Slot T P C) := SlotTable.system D.Slot T P C (D.visit H.slot)

/-- The queue and its threads show a table, and the counters are the tickets that were handed out. A
single thread finds the counter of its side as it has loaded it. -/
structure Follows (s : QueueCalls D P C) (t : Table D.Slot T P C) : Prop where
  shows : H.Shows s.queue.slots (inDoPush ∘ s.producers) (inDoPop ∘ s.consumers) t
  head : s.queue.head = BitVec.ofNat 32 t.reserved
  tail : s.queue.tail = BitVec.ofNat 32 t.awaited
  pushed : s.pushed = t.stored
  popped : s.popped = t.returned
  loadedHead : D.isSPSC = true → ∀ p call head, s.producers p = some call →
    call.loaded = some head → head = s.queue.head
  loadedTail : D.isSPSC = true → ∀ c call tail, s.consumers c = some call →
    call.loaded = some tail → tail = s.queue.tail

variable {H} {s s' : QueueCalls D P C} {t : Table D.Slot T P C}

theorem follows_initial (h : s.Initial) : ∃ t, H.tables.Initial t ∧ H.Follows s t := by
  obtain ⟨t, ht, hshows⟩ := H.initial s.queue.slots h.queue.slots
  have hproducers : inDoPush ∘ s.producers = fun _ => none := by
    funext p
    rw [comp_apply, h.producers p]
    rfl
  have hconsumers : inDoPop ∘ s.consumers = fun _ => none := by
    funext c
    rw [comp_apply, h.consumers c]
    rfl
  refine ⟨t, ht, ?_, ?_, ?_, ?_, ?_, ?_, ?_⟩
  · rwa [hproducers, hconsumers]
  · rw [h.queue.head, ht.reserved]
  · rw [h.queue.tail, ht.awaited]
  · rw [h.pushed, ht.stored]
  · rw [h.popped, ht.returned]
  · intro _ p call head hp
    simp [h.producers p] at hp
  · intro _ c call tail hc
    simp [h.consumers c] at hc

/-- What a producer does changes its own side only. -/
theorem Follows.producer (h : H.Follows s t) {p : P} {call : Option (PushCall D)}
    {queue : DerivedQueue D} {pushed : List (P × T)} {t' : Table D.Slot T P C}
    (hshows : H.Shows queue.slots (update (inDoPush ∘ s.producers) p (inDoPush call))
      (inDoPop ∘ s.consumers) t')
    (hhead : queue.head = BitVec.ofNat 32 t'.reserved) (htail : queue.tail = s.queue.tail)
    (hawaited : t'.awaited = t.awaited) (hstored : pushed = t'.stored)
    (hreturned : t'.returned = t.returned)
    (hloaded : D.isSPSC = true → ∀ call', call = some call' → ∀ head, call'.loaded = some head →
      head = queue.head) :
    H.Follows { s with
      queue := queue
      producers := update s.producers p call
      pushed := pushed } t' where
  shows := by
    rw [comp_update]
    exact hshows
  head := hhead
  tail := by rw [htail, hawaited, h.tail]
  pushed := hstored
  popped := by rw [hreturned, h.popped]
  loadedHead hspsc q call' head hq hcall := by
    obtain rfl := (H.oneProducer hspsc).elim p q
    simp only [update_self] at hq
    exact hloaded hspsc call' hq head hcall
  loadedTail hspsc c call' tail hc hcall := by
    rw [htail]
    exact h.loadedTail hspsc c call' tail hc hcall

theorem Follows.consumer (h : H.Follows s t) {c : C} {call : Option (PopCall D)}
    {queue : DerivedQueue D} {popped : List (C × T)} {t' : Table D.Slot T P C}
    (hshows : H.Shows queue.slots (inDoPush ∘ s.producers)
      (update (inDoPop ∘ s.consumers) c (inDoPop call)) t')
    (hhead : queue.head = s.queue.head) (htail : queue.tail = BitVec.ofNat 32 t'.awaited)
    (hreserved : t'.reserved = t.reserved) (hstored : t'.stored = t.stored)
    (hreturned : popped = t'.returned)
    (hloaded : D.isSPSC = true → ∀ call', call = some call' → ∀ tail, call'.loaded = some tail →
      tail = queue.tail) :
    H.Follows { s with
      queue := queue
      consumers := update s.consumers c call
      popped := popped } t' where
  shows := by
    rw [comp_update]
    exact hshows
  head := by rw [hhead, hreserved, h.head]
  tail := htail
  pushed := by rw [hstored, h.pushed]
  popped := hreturned
  loadedHead hspsc p call' head hp hcall := by
    rw [hhead]
    exact h.loadedHead hspsc p call' head hp hcall
  loadedTail hspsc d call' tail hd hcall := by
    obtain rfl := (H.oneConsumer hspsc).elim c d
    simp only [update_self] at hd
    exact hloaded hspsc call' hd tail hcall

/-- A producer that gets a ticket. -/
theorem Follows.reserve (h : H.Follows s t) {p : P} {element : T} {head : BitVec 32}
    (hp : inDoPush (s.producers p) = none) (hhead : head = s.queue.head) :
    ∃ t', H.tables.Reaches t t' ∧ H.Follows { s with
      queue := { s.queue with head := head + 1#32 }
      producers := update s.producers p (some (.doPush element head D.beginPush)) } t' := by
  have houtside := (H.producer_iff h.shows p).2 hp
  have hslot : H.slot head = D.visit H.slot t.reserved := by rw [Derived.visit, ← h.head, hhead]
  have hstep : SlotTable.Step (D.visit H.slot) t _ := .reserve t p element houtside
  rw [← hslot] at hstep
  refine ⟨_, .step (.refl _) hstep, h.producer (H.reserve element head h.shows hp) ?_ rfl rfl h.pushed
    rfl fun _ call' hcall head' hloaded => ?_⟩
  · simp only [hhead, h.head, BitVec.ofNat_add]
  · simp [← Option.some.inj hcall, PushCall.loaded] at hloaded

theorem Follows.await (h : H.Follows s t) {c : C} {tail : BitVec 32}
    (hc : inDoPop (s.consumers c) = none) (htail : tail = s.queue.tail) :
    ∃ t', H.tables.Reaches t t' ∧ H.Follows { s with
      queue := { s.queue with tail := tail + 1#32 }
      consumers := update s.consumers c (some (.doPop tail D.beginPop)) } t' := by
  have houtside := (H.consumer_iff h.shows c).2 hc
  have hslot : H.slot tail = D.visit H.slot t.awaited := by rw [Derived.visit, ← h.tail, htail]
  have hstep : SlotTable.Step (D.visit H.slot) t _ := .await t c houtside
  rw [← hslot] at hstep
  refine ⟨_, .step (.refl _) hstep, h.consumer (H.await tail h.shows hc) rfl ?_ rfl rfl h.popped
    fun _ call' hcall tail' hloaded => ?_⟩
  · simp only [htail, h.tail, BitVec.ofNat_add]
  · simp [← Option.some.inj hcall, PopCall.loaded] at hloaded

/-- A producer that does not come to its slot yet. -/
theorem Follows.stay (h : H.Follows s t) {p : P} {call : Option (PushCall D)}
    (hbefore : inDoPush (s.producers p) = none) (hafter : inDoPush call = none)
    (hloaded : D.isSPSC = true → ∀ call', call = some call' → ∀ head, call'.loaded = some head →
      head = s.queue.head) :
    ∃ t', H.tables.Reaches t t' ∧ H.Follows { s with producers := update s.producers p call } t' := by
  refine ⟨t, .refl t, h.producer ?_ h.head rfl rfl h.pushed rfl hloaded⟩
  rw [hafter, ← hbefore, ← comp_apply (f := inDoPush), update_eq_self]
  exact h.shows

theorem Follows.stay' (h : H.Follows s t) {c : C} {call : Option (PopCall D)}
    (hbefore : inDoPop (s.consumers c) = none) (hafter : inDoPop call = none)
    (hloaded : D.isSPSC = true → ∀ call', call = some call' → ∀ tail, call'.loaded = some tail →
      tail = s.queue.tail) :
    ∃ t', H.tables.Reaches t t' ∧ H.Follows { s with consumers := update s.consumers c call } t' := by
  refine ⟨t, .refl t, h.consumer ?_ rfl h.tail rfl rfl h.popped hloaded⟩
  rw [hafter, ← hbefore, ← comp_apply (f := inDoPop), update_eq_self]
  exact h.shows

/-- A step of `push` or `try_push`. -/
theorem Follows.push (hreachable : H.tables.Reachable t) (h : H.Follows s t) {p : P} {call : PushCall D}
    (hp : s.producers p = some call) : ∃ t', H.tables.Reaches t t' ∧ H.Follows { s with
      queue := (s.queue.push call).1
      producers := update s.producers p (goingOn (s.queue.push call).2)
      pushed := match (s.queue.push call).2 with
        | .leave true => s.pushed ++ [(p, call.element)]
        | _ => s.pushed } t' := by
  cases call with
  | fetchHead element =>
    by_cases hspsc : D.isSPSC = true
    · simp only [DerivedQueue.push, if_pos hspsc, goingOn]
      refine h.stay (by rw [hp]; rfl) rfl fun _ call hcall head hhead => ?_
      obtain rfl := Option.some.inj hcall
      exact (Option.some.inj hhead).symm
    · simp only [DerivedQueue.push, if_neg hspsc, goingOn]
      exact h.reserve (by rw [hp]; rfl) rfl
  | loadHead element =>
    refine h.stay (by rw [hp]; rfl) rfl fun _ call hcall head hhead => ?_
    obtain rfl := Option.some.inj hcall
    exact (Option.some.inj hhead).symm
  | loadTail element head =>
    by_cases hfull : D.queueSize.toInt ≤ (head - s.queue.tail).toInt
    · simp only [DerivedQueue.push, if_pos hfull, goingOn]
      exact h.stay (by rw [hp]; rfl) rfl fun _ call hcall => by cases hcall
    · simp only [DerivedQueue.push, if_neg hfull, goingOn]
      refine h.stay (by rw [hp]; rfl) rfl fun hspsc call hcall head' hhead => ?_
      obtain rfl := Option.some.inj hcall
      obtain rfl := Option.some.inj hhead
      exact h.loadedHead hspsc p _ head hp rfl
  | casHead element head =>
    by_cases hcas : D.isSPSC = true ∨ s.queue.head = head
    · simp only [DerivedQueue.push, if_pos hcas, goingOn]
      refine h.reserve (by rw [hp]; rfl) ?_
      obtain hspsc | hhead := hcas
      · exact h.loadedHead hspsc p _ head hp rfl
      · exact hhead.symm
    · simp only [DerivedQueue.push, if_neg hcas, goingOn]
      refine h.stay (by rw [hp]; rfl) rfl fun _ call hcall head' hhead => ?_
      obtain rfl := Option.some.inj hcall
      exact (Option.some.inj hhead).symm
  | doPush element head pc =>
    have hdoing : (inDoPush ∘ s.producers) p = some (element, head, pc) := by rw [comp_apply, hp]; rfl
    obtain ⟨t', hreaches, hshows, hreserved, hawaited, hreturned, hstored⟩ :=
      H.push hreachable h.shows hdoing
    have hhead : s.queue.head = BitVec.ofNat 32 t'.reserved := by rw [hreserved, h.head]
    cases hround : (D.doPush element head s.queue.slots pc).2 with
    | leave r =>
      rw [hround, ← h.pushed] at hstored
      rw [hround] at hshows
      rw [s.queue.push_doPush hround]
      refine ⟨t', hreaches, h.producer hshows hhead rfl hawaited hstored.symm hreturned ?_⟩
      exact fun _ call' hcall => by cases hcall
    | again pc' =>
      rw [hround, ← h.pushed, brought, List.map_nil, List.append_nil] at hstored
      rw [hround] at hshows
      rw [s.queue.push_doPush hround]
      refine ⟨t', hreaches, h.producer hshows hhead rfl hawaited hstored.symm hreturned ?_⟩
      intro _ call' hcall head' hloaded
      simp [← Option.some.inj hcall, PushCall.loaded] at hloaded

/-- A step of `pop` or `try_pop`. -/
theorem Follows.pop (hreachable : H.tables.Reachable t) (h : H.Follows s t) {c : C} {call : PopCall D}
    (hc : s.consumers c = some call) : ∃ t', H.tables.Reaches t t' ∧ H.Follows { s with
      queue := (s.queue.pop call).1
      consumers := update s.consumers c (goingOn (s.queue.pop call).2)
      popped := match (s.queue.pop call).2 with
        | .leave (some element) => s.popped ++ [(c, element)]
        | _ => s.popped } t' := by
  cases call with
  | fetchTail =>
    by_cases hspsc : D.isSPSC = true
    · simp only [DerivedQueue.pop, if_pos hspsc, goingOn]
      refine h.stay' (by rw [hc]; rfl) rfl fun _ call hcall tail htail => ?_
      obtain rfl := Option.some.inj hcall
      exact (Option.some.inj htail).symm
    · simp only [DerivedQueue.pop, if_neg hspsc, goingOn]
      exact h.await (by rw [hc]; rfl) rfl
  | loadTail =>
    refine h.stay' (by rw [hc]; rfl) rfl fun _ call hcall tail htail => ?_
    obtain rfl := Option.some.inj hcall
    exact (Option.some.inj htail).symm
  | loadHead tail =>
    by_cases hempty : (s.queue.head - tail).toInt ≤ 0
    · simp only [DerivedQueue.pop, if_pos hempty, goingOn]
      exact h.stay' (by rw [hc]; rfl) rfl fun _ call hcall => by cases hcall
    · simp only [DerivedQueue.pop, if_neg hempty, goingOn]
      refine h.stay' (by rw [hc]; rfl) rfl fun hspsc call hcall tail' htail => ?_
      obtain rfl := Option.some.inj hcall
      obtain rfl := Option.some.inj htail
      exact h.loadedTail hspsc c _ tail hc rfl
  | casTail tail =>
    by_cases hcas : D.isSPSC = true ∨ s.queue.tail = tail
    · simp only [DerivedQueue.pop, if_pos hcas, goingOn]
      refine h.await (by rw [hc]; rfl) ?_
      obtain hspsc | htail := hcas
      · exact h.loadedTail hspsc c _ tail hc rfl
      · exact htail.symm
    · simp only [DerivedQueue.pop, if_neg hcas, goingOn]
      refine h.stay' (by rw [hc]; rfl) rfl fun _ call hcall tail' htail => ?_
      obtain rfl := Option.some.inj hcall
      exact (Option.some.inj htail).symm
  | doPop tail pc =>
    have hdoing : (inDoPop ∘ s.consumers) c = some (tail, pc) := by rw [comp_apply, hc]; rfl
    obtain ⟨t', hreaches, hshows, hreserved, hawaited, hstored, hreturned⟩ :=
      H.pop hreachable h.shows hdoing
    have htail : s.queue.tail = BitVec.ofNat 32 t'.awaited := by rw [hawaited, h.tail]
    cases hround : (D.doPop tail s.queue.slots pc).2 with
    | leave element =>
      rw [hround, ← h.popped] at hreturned
      rw [hround] at hshows
      rw [s.queue.pop_doPop hround]
      refine ⟨t', hreaches, h.consumer hshows rfl htail hreserved hstored hreturned.symm ?_⟩
      exact fun _ call' hcall => by cases hcall
    | again pc' =>
      rw [hround, ← h.popped, brought, List.map_nil, List.append_nil] at hreturned
      rw [hround] at hshows
      rw [s.queue.pop_doPop hround]
      refine ⟨t', hreaches, h.consumer hshows rfl htail hreserved hstored hreturned.symm ?_⟩
      intro _ call' hcall tail' hloaded
      simp [← Option.some.inj hcall, PopCall.loaded] at hloaded

theorem Follows.step (hreachable : H.tables.Reachable t) (h : H.Follows s t) (hstep : QueueCalls.Step s s') :
    ∃ t', H.tables.Reaches t t' ∧ H.Follows s' t' := by
  cases hstep with
  | callPush p element hp =>
    refine h.stay (by rw [hp]; rfl) rfl fun _ call hcall head hhead => ?_
    simp [← Option.some.inj hcall, PushCall.loaded] at hhead
  | callTryPush p element hp =>
    refine h.stay (by rw [hp]; rfl) rfl fun _ call hcall head hhead => ?_
    simp [← Option.some.inj hcall, PushCall.loaded] at hhead
  | push p call hp => exact h.push hreachable hp
  | callPop c hc =>
    refine h.stay' (by rw [hc]; rfl) rfl fun _ call hcall tail htail => ?_
    simp [← Option.some.inj hcall, PopCall.loaded] at htail
  | callTryPop c hc =>
    refine h.stay' (by rw [hc]; rfl) rfl fun _ call hcall tail htail => ?_
    simp [← Option.some.inj hcall, PopCall.loaded] at htail
  | pop c call hc => exact h.pop hreachable hc

variable (H) in
/-- The queue and its threads refine the slot table. -/
theorem follows_of_reachable (h : (QueueCalls.system D P C).Reachable s) :
    ∃ t, H.tables.Reachable t ∧ H.Follows s t :=
  h.simulation H.Follows (fun _ => follows_initial) fun _ _ _ ht hfollows hstep =>
    Follows.step ht hfollows hstep

/-! ### What follows for the threads -/

theorem Follows.blocked (h : H.Follows s t) (hstalled : s.Stalled) : Blocked t where
  producers p hp := by
    rw [ne_eq, H.producer_iff h.shows, comp_apply] at hp
    cases hcall : s.producers p with
    | none => exact (hp (by rw [hcall]; rfl)).elim
    | some call =>
      obtain ⟨element, head, pc, rfl, hspins⟩ := (hstalled.producers p call hcall).spins
        fun hspsc head hloaded => h.loadedHead hspsc p call head hcall hloaded
      exact H.push_waits h.shows (by rw [comp_apply, hcall]; rfl) hspins
  consumers c hc := by
    rw [ne_eq, H.consumer_iff h.shows, comp_apply] at hc
    cases hcall : s.consumers c with
    | none => exact (hc (by rw [hcall]; rfl)).elim
    | some call =>
      obtain ⟨tail, pc, rfl, hspins⟩ := (hstalled.consumers c call hcall).spins
        fun hspsc tail hloaded => h.loadedTail hspsc c call tail hcall hloaded
      exact H.pop_waits h.shows (by rw [comp_apply, hcall]; rfl) hspins

/-- A stalled thread is at a slot of the table. -/
theorem Follows.producer_outside (h : H.Follows s t) (hstalled : s.Stalled) (p : P) :
    t.producers p = .outside ↔ s.producers p = none := by
  rw [H.producer_iff h.shows, comp_apply]
  cases hcall : s.producers p with
  | none => exact iff_of_true rfl rfl
  | some call =>
    obtain ⟨element, head, pc, rfl, -⟩ := (hstalled.producers p call hcall).spins
      fun hspsc head hloaded => h.loadedHead hspsc p call head hcall hloaded
    exact iff_of_false (Option.some_ne_none _) (Option.some_ne_none _)

theorem Follows.consumer_outside (h : H.Follows s t) (hstalled : s.Stalled) (c : C) :
    t.consumers c = .outside ↔ s.consumers c = none := by
  rw [H.consumer_iff h.shows, comp_apply]
  cases hcall : s.consumers c with
  | none => exact iff_of_true rfl rfl
  | some call =>
    obtain ⟨tail, pc, rfl, -⟩ := (hstalled.consumers c call hcall).spins
      fun hspsc tail hloaded => h.loadedTail hspsc c call tail hcall hloaded
    exact iff_of_false (Option.some_ne_none _) (Option.some_ne_none _)

variable (H) in
/-- Where all threads are stalled and a consumer is among them, no producer is in a call and the table
has no element. -/
theorem drained_of_stalled (h : (QueueCalls.system D P C).Reachable s) (hstalled : s.Stalled) {c : C}
    (hc : s.consumers c ≠ none) : ∃ t, H.Follows s t ∧ (∀ p, s.producers p = none) ∧
      ∀ i, t.states i = .empty := by
  obtain ⟨t, ht, hfollows⟩ := H.follows_of_reachable h
  obtain ⟨hproducers, hslots⟩ := drained_of_blocked ht (hfollows.blocked hstalled)
    (mt (hfollows.consumer_outside hstalled c).1 hc)
  exact ⟨t, hfollows, fun p => (hfollows.producer_outside hstalled p).1 (hproducers p), hslots⟩

variable (H) in
theorem full_of_stalled (h : (QueueCalls.system D P C).Reachable s) (hstalled : s.Stalled)
    (hrounds : Rounds (D.visit H.slot) D.queueSize.toNat) {p : P} (hp : s.producers p ≠ none) :
    ∃ t, H.Follows s t ∧ (∀ c, s.consumers c = none) ∧ ∀ i, t.states i = .stored := by
  obtain ⟨t, ht, hfollows⟩ := H.follows_of_reachable h
  obtain ⟨hconsumers, hslots⟩ := full_of_blocked ht (hfollows.blocked hstalled) hrounds
    (mt (hfollows.producer_outside hstalled p).1 hp)
  exact ⟨t, hfollows, fun c => (hfollows.consumer_outside hstalled c).1 (hconsumers c), hslots⟩

/-- Of one producer and one consumer the elements come out as they went in. -/
theorem popped_prefix_pushed (H : HandsOver D P C) [Subsingleton P] [Subsingleton C]
    (h : (QueueCalls.system D P C).Reachable s) : s.popped.map Prod.snd <+: s.pushed.map Prod.snd := by
  obtain ⟨t, ht, hfollows⟩ := H.follows_of_reachable h
  rw [hfollows.pushed, hfollows.popped]
  exact returned_prefix_stored ht

end HandsOver

end LuPlatform.Queue
