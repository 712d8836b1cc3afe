import LuPlatform.Queue.AtomicElements

/-! `AtomicQueue2` under all ways to call it. Its slots have a state each. Threads that are alone on their
side leave the state of a slot as they find it until they are through with it. -/

namespace LuPlatform.Queue

open Loop SlotTable Transition Function

namespace AtomicQueue2

/-- Where `do_push_any` stands. -/
inductive DoPushAny where
  | casState
  | spin
  | write
  | publish

inductive DoPopAny (T : Type) where
  | casState
  | spin
  | move
  | clear (element : T)

structure States (args : QueueArgs) (T : Type) where
  states : Fin args.queueSize.toNat → SlotState
  elements : Fin args.queueSize.toNat → T

variable {T : Type} (args : QueueArgs)

def doPushAny (element : T) (index : Fin args.queueSize.toNat) (slots : States args T) :
    DoPushAny → States args T × Round DoPushAny Unit
  | .casState =>
    if slots.states index = .empty then
      (if args.SPSC then slots else { slots with states := update slots.states index .storing },
        .again .write)
    else (slots, .again (if args.SPSC then .casState else .spin))
  | .spin =>
    if args.MAXIMIZE_THROUGHPUT ∧ slots.states index ≠ .empty then (slots, .again .spin)
    else (slots, .again .casState)
  | .write => ({ slots with elements := update slots.elements index element }, .again .publish)
  | .publish => ({ slots with states := update slots.states index .stored }, .leave ())

def doPopAny (index : Fin args.queueSize.toNat) (slots : States args T) :
    DoPopAny T → States args T × Round (DoPopAny T) T
  | .casState =>
    if slots.states index = .stored then
      (if args.SPSC then slots else { slots with states := update slots.states index .loading },
        .again .move)
    else (slots, .again (if args.SPSC then .casState else .spin))
  | .spin =>
    if args.MAXIMIZE_THROUGHPUT ∧ slots.states index ≠ .stored then (slots, .again .spin)
    else (slots, .again .casState)
  | .move => (slots, .again (.clear (slots.elements index)))
  | .clear element => ({ slots with states := update slots.states index .empty }, .leave element)

variable (T) in
abbrev derived : Derived T where
  queueSize := args.queueSize
  isSPSC := args.SPSC
  Slots := States args T
  Constructed slots := ∀ i, slots.states i = .empty
  DoPush := DoPushAny
  DoPop := DoPopAny T
  beginPush := .casState
  beginPop := .casState
  doPush element head := doPushAny args element (args.slot head)
  doPop tail := doPopAny args (args.slot tail)

/-! ### `try_push` and `try_pop` -/

variable {args}

/-- The queue as the two functions alone have it. -/
abbrev tryBase (q : DerivedQueue (derived T args)) : QueueBase args T :=
  ⟨q.head, q.tail, q.slots.states, q.slots.elements⟩

/-- Where `try_push` stands in all of the queue. -/
def tryPushCall : TryPush T → PushCall (derived T args)
  | .loadHead element => .loadHead element
  | .loadTail element head => .loadTail element head
  | .casHead element head => .casHead element head
  | .casState element head => .doPush element head .casState
  | .spin element head => .doPush element head .spin
  | .write element head => .doPush element head .write
  | .publish element head => .doPush element head .publish

def tryPopCall : TryPop T → PopCall (derived T args)
  | .loadTail => .loadTail
  | .loadHead tail => .loadHead tail
  | .casTail tail => .casTail tail
  | .casState tail => .doPop tail .casState
  | .spin tail => .doPop tail .spin
  | .move tail => .doPop tail .move
  | .clear tail element => .doPop tail (.clear element)

theorem tryBase_push (q : DerivedQueue (derived T args)) (pc : TryPush T) :
    tryBase (q.push (tryPushCall pc)).1 = ((tryBase q).tryPush pc).1 ∧
      (q.push (tryPushCall pc)).2 = renamed tryPushCall ((tryBase q).tryPush pc).2 := by
  cases pc with
  | loadHead element | write element head | publish element head => exact ⟨rfl, rfl⟩
  | loadTail element head | casHead element head | spin element head =>
    simp only [tryPushCall, DerivedQueue.push, QueueBase.tryPush, doPushAny, tryBase]
    split <;> exact ⟨rfl, rfl⟩
  | casState element head =>
    simp only [tryPushCall, DerivedQueue.push, QueueBase.tryPush, doPushAny, tryBase]
    split <;> cases args.SPSC <;> exact ⟨rfl, rfl⟩

theorem tryBase_pop (q : DerivedQueue (derived T args)) (pc : TryPop T) :
    tryBase (q.pop (tryPopCall pc)).1 = ((tryBase q).tryPop pc).1 ∧
      (q.pop (tryPopCall pc)).2 = renamed tryPopCall ((tryBase q).tryPop pc).2 := by
  cases pc with
  | loadTail | move tail | clear tail element => exact ⟨rfl, rfl⟩
  | loadHead tail | casTail tail | spin tail =>
    simp only [tryPopCall, DerivedQueue.pop, QueueBase.tryPop, doPopAny, tryBase]
    split <;> exact ⟨rfl, rfl⟩
  | casState tail =>
    simp only [tryPopCall, DerivedQueue.pop, QueueBase.tryPop, doPopAny, tryBase]
    split <;> cases args.SPSC <;> exact ⟨rfl, rfl⟩

/-! ### The slot table -/

/-- A thread that has found its slot as it has to be. -/
def DoPushAny.HasSlot : DoPushAny → Prop
  | .write | .publish => True
  | _ => False

def DoPopAny.HasSlot : DoPopAny T → Prop
  | .move | .clear _ => True
  | _ => False

variable (args) in
/-- A thread that is alone waits until it is through. -/
def doPushPhase (element : T) (head : BitVec 32) : DoPushAny → Producer (Fin args.queueSize.toNat) T
  | .write => if args.SPSC then .waiting (args.slot head) element else .writing (args.slot head) element
  | .publish => if args.SPSC then .waiting (args.slot head) element else .written (args.slot head) element
  | .casState | .spin => .waiting (args.slot head) element

variable (args) in
def doPopPhase (tail : BitVec 32) : DoPopAny T → Consumer (Fin args.queueSize.toNat) T
  | .move => if args.SPSC then .waiting (args.slot tail) else .moving (args.slot tail)
  | .clear element => if args.SPSC then .waiting (args.slot tail) else .moved (args.slot tail) element
  | .casState | .spin => .waiting (args.slot tail)

theorem doPushPhase_of_single (hspsc : args.SPSC = true) (element : T) (head : BitVec 32)
    (pc : DoPushAny) : doPushPhase args element head pc = .waiting (args.slot head) element := by
  cases pc <;> simp [doPushPhase, hspsc]

theorem doPopPhase_of_single (hspsc : args.SPSC = true) (tail : BitVec 32) (pc : DoPopAny T) :
    doPopPhase args tail pc = .waiting (args.slot tail) := by
  cases pc <;> simp [doPopPhase, hspsc]

structure Shows {P C : Type} (slots : States args T) (pushing : P → Option (T × BitVec 32 × DoPushAny))
    (popping : C → Option (BitVec 32 × DoPopAny T)) (t : Table (Fin args.queueSize.toNat) T P C) :
    Prop where
  states : slots.states = t.states
  elements : ∀ i, t.states i = .stored ∨ t.states i = .loading → slots.elements i = t.elements i
  producers : ∀ p, t.producers p =
    (pushing p).elim .outside fun call => doPushPhase args call.1 call.2.1 call.2.2
  consumers : ∀ c, t.consumers c = (popping c).elim .outside fun call => doPopPhase args call.1 call.2
  pushHas : args.SPSC = true → ∀ p element head pc, pushing p = some (element, head, pc) →
    pc.HasSlot → t.states (args.slot head) = .empty
  written : ∀ p element head, pushing p = some (element, head, .publish) →
    slots.elements (args.slot head) = element
  popHas : args.SPSC = true → ∀ c tail pc, popping c = some (tail, pc) → pc.HasSlot →
    t.states (args.slot tail) = .stored
  moved : ∀ c tail element, popping c = some (tail, .clear element) →
    slots.elements (args.slot tail) = element

section Shows

variable {P C : Type} {slots slots' : States args T} {pushing : P → Option (T × BitVec 32 × DoPushAny)}
  {popping : C → Option (BitVec 32 × DoPopAny T)} {t t' : Table (Fin args.queueSize.toNat) T P C}
  {p : P} {c : C} {element : T} {head tail : BitVec 32}

theorem Shows.producer_eq (h : Shows slots pushing popping t) {pc : DoPushAny}
    (hp : pushing p = some (element, head, pc)) : t.producers p = doPushPhase args element head pc := by
  rw [h.producers p, hp]
  rfl

theorem Shows.consumer_eq (h : Shows slots pushing popping t) {pc : DoPopAny T}
    (hc : popping c = some (tail, pc)) : t.consumers c = doPopPhase args tail pc := by
  rw [h.consumers c, hc]
  rfl

/-- Where threads are not alone, the slot that one has found is its own. -/
theorem Shows.pushTaken (h : Shows slots pushing popping t) (hspsc : ¬ args.SPSC = true) {pc : DoPushAny}
    (hp : pushing p = some (element, head, pc)) (hpc : pc.HasSlot) :
    (t.producers p).taken = some (args.slot head) := by
  rw [h.producer_eq hp]
  cases pc with
  | write | publish => rw [doPushPhase, if_neg hspsc, Producer.taken]
  | casState | spin => exact hpc.elim

theorem Shows.popTaken (h : Shows slots pushing popping t) (hspsc : ¬ args.SPSC = true) {pc : DoPopAny T}
    (hc : popping c = some (tail, pc)) (hpc : pc.HasSlot) :
    (t.consumers c).taken = some (args.slot tail) := by
  rw [h.consumer_eq hc]
  cases pc with
  | move | clear element => rw [doPopPhase, if_neg hspsc, Consumer.taken]
  | casState | spin => exact hpc.elim

theorem Shows.pushState (howned : Owned t) (h : Shows slots pushing popping t) {pc : DoPushAny}
    (hp : pushing p = some (element, head, pc)) (hpc : pc.HasSlot) :
    t.states (args.slot head) = .empty ∨ t.states (args.slot head) = .storing := by
  by_cases hspsc : args.SPSC = true
  · exact .inl (h.pushHas hspsc p element head pc hp hpc)
  · exact .inr (howned.storing p _ (h.pushTaken hspsc hp hpc))

theorem Shows.popState (howned : Owned t) (h : Shows slots pushing popping t) {pc : DoPopAny T}
    (hc : popping c = some (tail, pc)) (hpc : pc.HasSlot) :
    t.states (args.slot tail) = .stored ∨ t.states (args.slot tail) = .loading := by
  by_cases hspsc : args.SPSC = true
  · exact .inl (h.popHas hspsc c tail pc hc hpc)
  · exact .inr (howned.loading c _ (h.popTaken hspsc hc hpc))

theorem Shows.pushing_unique (hone : args.SPSC = true → Subsingleton P) (howned : Owned t)
    (h : Shows slots pushing popping t) {q : P} {element' : T} {head' : BitVec 32} {pc pc' : DoPushAny}
    (hp : pushing p = some (element, head, pc)) (hpc : pc.HasSlot)
    (hq : pushing q = some (element', head', pc')) (hpc' : pc'.HasSlot)
    (hslot : args.slot head' = args.slot head) : q = p := by
  by_cases hspsc : args.SPSC = true
  · exact (hone hspsc).elim q p
  · exact howned.storing_unique q p _ (h.pushTaken hspsc hq hpc') (hslot ▸ h.pushTaken hspsc hp hpc)

variable [DecidableEq P] [DecidableEq C]

omit [DecidableEq C] in
/-- A producer begins to wait, or goes on in a slot as it is. -/
theorem Shows.keepPushing (hone : args.SPSC = true → Subsingleton P) (h : Shows slots pushing popping t)
    {next : DoPushAny} (element : T) (reserved : Nat)
    (hhas : args.SPSC = true → next.HasSlot → t.states (args.slot head) = .empty)
    (hwritten : next ≠ .publish) :
    Shows slots (update pushing p (some (element, head, next))) popping { t with
      producers := update t.producers p (doPushPhase args element head next)
      reserved } where
  states := h.states
  elements := h.elements
  producers q := by
    by_cases hq : q = p
    · subst hq
      simp
    · simp [hq, h.producers q]
  consumers := h.consumers
  pushHas hspsc q element' head' pc hcall hpc := by
    obtain rfl := (hone hspsc).elim p q
    simp only [update_self, Option.some.injEq, Prod.mk.injEq] at hcall
    obtain ⟨-, rfl, rfl⟩ := hcall
    exact hhas hspsc hpc
  written q element' head' hcall := by
    by_cases hq : q = p
    · subst hq
      simp only [update_self, Option.some.injEq, Prod.mk.injEq] at hcall
      exact absurd hcall.2.2 hwritten
    · exact h.written q element' head' (by simpa [hq] using hcall)
  popHas := h.popHas
  moved := h.moved

omit [DecidableEq P] in
theorem Shows.keepPopping (hone : args.SPSC = true → Subsingleton C) (h : Shows slots pushing popping t)
    {next : DoPopAny T} (awaited : Nat)
    (hhas : args.SPSC = true → next.HasSlot → t.states (args.slot tail) = .stored)
    (hmoved : ∀ element, next = .clear element → slots.elements (args.slot tail) = element) :
    Shows slots pushing (update popping c (some (tail, next))) { t with
      consumers := update t.consumers c (doPopPhase args tail next)
      awaited } where
  states := h.states
  elements := h.elements
  producers := h.producers
  consumers d := by
    by_cases hd : d = c
    · subst hd
      simp
    · simp [hd, h.consumers d]
  pushHas := h.pushHas
  written := h.written
  popHas hspsc d tail' pc hcall hpc := by
    obtain rfl := (hone hspsc).elim c d
    simp only [update_self, Option.some.injEq, Prod.mk.injEq] at hcall
    obtain ⟨rfl, rfl⟩ := hcall
    exact hhas hspsc hpc
  moved d tail' element' hcall := by
    by_cases hd : d = c
    · subst hd
      simp only [update_self, Option.some.injEq, Prod.mk.injEq] at hcall
      obtain ⟨rfl, hnext⟩ := hcall
      exact hmoved element' hnext
    · exact h.moved d tail' element' (by simpa [hd] using hcall)

omit [DecidableEq C] in
/-- What a producer does to a slot that no consumer has and no other producer has written to. -/
theorem Shows.pushStep (hone : args.SPSC = true → Subsingleton P) (howned : Owned t)
    (h : Shows slots pushing popping t) {call : Option (T × BitVec 32 × DoPushAny)}
    (hfree : t.states (args.slot head) = .empty ∨ t.states (args.slot head) = .storing)
    (hothers : ∀ q element' head', q ≠ p → pushing q = some (element', head', .publish) →
      args.slot head' ≠ args.slot head)
    (hstates : slots'.states = t'.states)
    (helsewhere : ∀ i, i ≠ args.slot head → t'.states i = t.states i ∧
      slots'.elements i = slots.elements i ∧ t'.elements i = t.elements i)
    (hhere : t'.states (args.slot head) = .storing ∨ t'.states (args.slot head) = .empty ∨
      slots'.elements (args.slot head) = t'.elements (args.slot head))
    (hproducers : t'.producers = update t.producers p
      (call.elim .outside fun call => doPushPhase args call.1 call.2.1 call.2.2))
    (hconsumers : t'.consumers = t.consumers)
    (hcall : ∀ element' head' pc, call = some (element', head', pc) → head' = head ∧
      (args.SPSC = true → t'.states (args.slot head) = .empty) ∧
      (pc = .publish → slots'.elements (args.slot head) = element')) :
    Shows slots' (update pushing p call) popping t' where
  states := hstates
  elements i hi := by
    by_cases hslot : i = args.slot head
    · subst hslot
      obtain hstoring | hempty | heq := hhere
      · simp [hstoring] at hi
      · simp [hempty] at hi
      · exact heq
    · obtain ⟨hstate, hslots, htable⟩ := helsewhere i hslot
      rw [hstate] at hi
      rw [hslots, htable, h.elements i hi]
  producers q := by
    rw [hproducers]
    by_cases hq : q = p
    · subst hq
      simp
    · simp [hq, h.producers q]
  consumers := by
    rw [hconsumers]
    exact h.consumers
  pushHas hspsc q element' head' pc hq hpc := by
    obtain rfl := (hone hspsc).elim p q
    rw [update_self] at hq
    obtain ⟨rfl, hempty, -⟩ := hcall element' head' pc hq
    exact hempty hspsc
  written q element' head' hq := by
    by_cases hqp : q = p
    · subst hqp
      rw [update_self] at hq
      obtain ⟨rfl, -, hwritten⟩ := hcall element' head' _ hq
      exact hwritten rfl
    · rw [update_of_ne hqp] at hq
      rw [(helsewhere _ (hothers q element' head' hqp hq)).2.1]
      exact h.written q element' head' hq
  popHas hspsc c tail pc hc hpc := by
    have hstored := h.popHas hspsc c tail pc hc hpc
    have hne : args.slot tail ≠ args.slot head := by
      intro heq
      simp [← heq, hstored] at hfree
    rw [(helsewhere _ hne).1, hstored]
  moved c tail element' hc := by
    have hstate := h.popState howned hc trivial
    have hne : args.slot tail ≠ args.slot head := by
      intro heq
      rw [← heq] at hfree
      rcases hstate with hstate | hstate <;> simp [hstate] at hfree
    rw [(helsewhere _ hne).2.1]
    exact h.moved c tail element' hc

omit [DecidableEq P] in
/-- A consumer changes states only, and no slot but its own. -/
theorem Shows.popStep (hone : args.SPSC = true → Subsingleton C)
    (h : Shows slots pushing popping t) {call : Option (BitVec 32 × DoPopAny T)}
    (hfound : t.states (args.slot tail) = .stored ∨ t.states (args.slot tail) = .loading)
    (hstates : slots'.states = t'.states)
    (helsewhere : ∀ i, i ≠ args.slot tail → t'.states i = t.states i)
    (hslots : slots'.elements = slots.elements) (htable : t'.elements = t.elements)
    (hproducers : t'.producers = t.producers)
    (hconsumers : t'.consumers = update t.consumers c
      (call.elim .outside fun call => doPopPhase args call.1 call.2))
    (hcall : ∀ tail' pc, call = some (tail', pc) → ¬ args.SPSC = true ∧
      ∀ element, pc = .clear element → slots'.elements (args.slot tail') = element) :
    Shows slots' pushing (update popping c call) t' where
  states := hstates
  elements i hi := by
    rw [hslots, htable]
    by_cases hslot : i = args.slot tail
    · subst hslot
      exact h.elements _ hfound
    · rw [helsewhere i hslot] at hi
      exact h.elements i hi
  producers := by
    rw [hproducers]
    exact h.producers
  consumers d := by
    rw [hconsumers]
    by_cases hd : d = c
    · subst hd
      simp
    · simp [hd, h.consumers d]
  pushHas hspsc p element head pc hp hpc := by
    have hempty := h.pushHas hspsc p element head pc hp hpc
    have hne : args.slot head ≠ args.slot tail := by
      intro heq
      simp [← heq, hempty] at hfound
    rw [helsewhere _ hne, hempty]
  written p element head hp := by
    rw [hslots]
    exact h.written p element head hp
  popHas hspsc d tail' pc hd hpc := by
    obtain rfl := (hone hspsc).elim c d
    rw [update_self] at hd
    exact absurd hspsc (hcall tail' pc hd).1
  moved d tail' element hd := by
    by_cases hdc : d = c
    · subst hdc
      rw [update_self] at hd
      exact (hcall tail' _ hd).2 element rfl
    · rw [update_of_ne hdc] at hd
      rw [hslots]
      exact h.moved d tail' element hd

omit [DecidableEq C] in
theorem Shows.goOnPushing (hone : args.SPSC = true → Subsingleton P) (h : Shows slots pushing popping t)
    {next : DoPushAny} (hphase : t.producers p = doPushPhase args element head next)
    (hhas : args.SPSC = true → next.HasSlot → t.states (args.slot head) = .empty)
    (hwritten : next ≠ .publish) :
    Shows slots (update pushing p (some (element, head, next))) popping t := by
  have hkeep := h.keepPushing (p := p) hone element t.reserved hhas hwritten
  rwa [← hphase, update_eq_self] at hkeep

omit [DecidableEq P] in
theorem Shows.goOnPopping (hone : args.SPSC = true → Subsingleton C) (h : Shows slots pushing popping t)
    {next : DoPopAny T} (hphase : t.consumers c = doPopPhase args tail next)
    (hhas : args.SPSC = true → next.HasSlot → t.states (args.slot tail) = .stored)
    (hmoved : ∀ element, next = .clear element → slots.elements (args.slot tail) = element) :
    Shows slots pushing (update popping c (some (tail, next))) t := by
  have hkeep := h.keepPopping (c := c) hone t.awaited hhas hmoved
  rwa [← hphase, update_eq_self] at hkeep

variable {visit : Nat → Fin args.queueSize.toNat}

open TransitionSystem

theorem Shows.push (hone : args.SPSC = true → Subsingleton P) (howned : Owned t)
    (h : Shows slots pushing popping t) {pc : DoPushAny} (hp : pushing p = some (element, head, pc)) :
    ∃ t', (SlotTable.system (Fin args.queueSize.toNat) T P C visit).Reaches t t' ∧
      Shows (doPushAny args element (args.slot head) slots pc).1 (update pushing p
        ((goingOn (doPushAny args element (args.slot head) slots pc).2).map (element, head, ·)))
        popping t' ∧
      t'.reserved = t.reserved ∧ t'.awaited = t.awaited ∧ t'.returned = t.returned ∧
      t'.stored = t.stored ++
        (brought (doPushAny args element (args.slot head) slots pc).2).map fun _ => (p, element) := by
  have hphase := h.producer_eq hp
  have hthrough : pc.HasSlot → ∀ q element' head', q ≠ p →
      pushing q = some (element', head', .publish) → args.slot head' ≠ args.slot head :=
    fun hpc q element' head' hqp hq heq => hqp (h.pushing_unique hone howned hp hpc hq trivial heq)
  cases pc with
  | casState =>
    by_cases hempty : slots.states (args.slot head) = .empty
    · have htable : t.states (args.slot head) = .empty := by rw [← h.states, hempty]
      by_cases hspsc : args.SPSC = true
      · simp only [doPushAny, if_pos hempty, if_pos hspsc]
        refine ⟨t, .refl t, h.goOnPushing hone ?_ (fun _ _ => htable) (by simp), rfl, rfl, rfl,
          (List.append_nil _).symm⟩
        rw [hphase, doPushPhase_of_single hspsc, doPushPhase_of_single hspsc]
      · simp only [doPushAny, if_pos hempty, if_neg hspsc]
        refine ⟨_, .step (.refl t) (.store t p (args.slot head) element hphase htable),
          h.pushStep hone howned (.inl htable) ?_ ?_ ?_ ?_ ?_ rfl ?_, rfl, rfl, rfl,
          (List.append_nil _).symm⟩
        · intro q element' head' _ hq heq
          have hstoring := howned.storing q _ (h.pushTaken hspsc hq trivial)
          simp [heq, htable] at hstoring
        · simp [h.states]
        · exact fun i hi => ⟨update_of_ne hi _ _, rfl, rfl⟩
        · simp
        · simp [goingOn, doPushPhase, hspsc]
        · simp [goingOn, hspsc]
    · simp only [doPushAny, if_neg hempty]
      by_cases hspsc : args.SPSC = true
      · rw [if_pos hspsc]
        exact ⟨t, .refl t, h.goOnPushing hone hphase (fun _ => False.elim) (by simp), rfl, rfl, rfl,
          (List.append_nil _).symm⟩
      · rw [if_neg hspsc]
        exact ⟨t, .refl t, h.goOnPushing hone hphase (fun _ => False.elim) (by simp), rfl, rfl, rfl,
          (List.append_nil _).symm⟩
  | spin =>
    by_cases hspin : args.MAXIMIZE_THROUGHPUT = true ∧ slots.states (args.slot head) ≠ .empty
    · simp only [doPushAny, if_pos hspin]
      exact ⟨t, .refl t, h.goOnPushing hone hphase (fun _ => False.elim) (by simp), rfl, rfl, rfl,
        (List.append_nil _).symm⟩
    · simp only [doPushAny, if_neg hspin]
      exact ⟨t, .refl t, h.goOnPushing hone hphase (fun _ => False.elim) (by simp), rfl, rfl, rfl,
        (List.append_nil _).symm⟩
  | write =>
    have hstate := h.pushState howned hp trivial
    by_cases hspsc : args.SPSC = true
    · have htable := h.pushHas hspsc p element head _ hp trivial
      refine ⟨t, .refl t, h.pushStep hone howned hstate (hthrough trivial) h.states ?_ (.inr (.inl htable))
        ?_ rfl ?_, rfl, rfl, rfl, (List.append_nil _).symm⟩
      · exact fun i hi => ⟨rfl, update_of_ne hi _ _, rfl⟩
      · rw [eq_comm, update_eq_self_iff, hphase, doPushPhase_of_single hspsc]
        exact doPushPhase_of_single hspsc element head .publish
      · simp [goingOn, doPushAny, htable]
    · have hstoring := howned.storing p _ (h.pushTaken hspsc hp trivial)
      rw [doPushPhase, if_neg hspsc] at hphase
      refine ⟨_, .step (.refl t) (.write t p (args.slot head) element hphase),
        h.pushStep hone howned hstate (hthrough trivial) h.states ?_ (.inl hstoring) ?_ rfl ?_,
        rfl, rfl, rfl, (List.append_nil _).symm⟩
      · exact fun i hi => ⟨rfl, update_of_ne hi _ _, update_of_ne hi _ _⟩
      · simp [goingOn, doPushAny, doPushPhase, hspsc]
      · simp [goingOn, doPushAny, hspsc]
  | publish =>
    have hstate := h.pushState howned hp trivial
    have hwritten := h.written p element head hp
    by_cases hspsc : args.SPSC = true
    · have htable := h.pushHas hspsc p element head _ hp trivial
      rw [doPushPhase, if_pos hspsc] at hphase
      refine ⟨_, reaches_put hphase htable, h.pushStep hone howned hstate (hthrough trivial) ?_ ?_
        (.inr (.inr ?_)) rfl rfl (by simp [goingOn, doPushAny]), rfl, rfl, rfl, rfl⟩
      · simp [doPushAny, h.states]
      · exact fun i hi => ⟨update_of_ne hi _ _, rfl, update_of_ne hi _ _⟩
      · simp [doPushAny, hwritten]
    · rw [doPushPhase, if_neg hspsc] at hphase
      refine ⟨_, .step (.refl t) (.publish t p (args.slot head) element hphase),
        h.pushStep hone howned hstate (hthrough trivial) ?_ ?_ (.inr (.inr ?_)) rfl rfl
          (by simp [goingOn, doPushAny]), rfl, rfl, rfl, rfl⟩
      · simp [doPushAny, h.states]
      · exact fun i hi => ⟨update_of_ne hi _ _, rfl, rfl⟩
      · exact hwritten.trans (howned.written p _ element hphase).symm

theorem Shows.pop (hone : args.SPSC = true → Subsingleton C) (howned : Owned t)
    (h : Shows slots pushing popping t) {pc : DoPopAny T} (hc : popping c = some (tail, pc)) :
    ∃ t', (SlotTable.system (Fin args.queueSize.toNat) T P C visit).Reaches t t' ∧
      Shows (doPopAny args (args.slot tail) slots pc).1 pushing (update popping c
        ((goingOn (doPopAny args (args.slot tail) slots pc).2).map (tail, ·))) t' ∧
      t'.reserved = t.reserved ∧ t'.awaited = t.awaited ∧ t'.stored = t.stored ∧
      t'.returned = t.returned ++ (brought (doPopAny args (args.slot tail) slots pc).2).map (c, ·) := by
  have hphase := h.consumer_eq hc
  cases pc with
  | casState =>
    by_cases hstored : slots.states (args.slot tail) = .stored
    · have htable : t.states (args.slot tail) = .stored := by rw [← h.states, hstored]
      by_cases hspsc : args.SPSC = true
      · simp only [doPopAny, if_pos hstored, if_pos hspsc]
        refine ⟨t, .refl t, h.goOnPopping hone ?_ (fun _ _ => htable) (by simp), rfl, rfl, rfl,
          (List.append_nil _).symm⟩
        rw [hphase, doPopPhase_of_single hspsc, doPopPhase_of_single hspsc]
      · simp only [doPopAny, if_pos hstored, if_neg hspsc]
        refine ⟨_, .step (.refl t) (.claim t c (args.slot tail) hphase htable),
          h.popStep hone (.inl htable) ?_ ?_ rfl rfl rfl ?_ ?_, rfl, rfl, rfl,
          (List.append_nil _).symm⟩
        · simp [h.states]
        · exact fun i hi => update_of_ne hi _ _
        · simp [goingOn, doPopPhase, hspsc]
        · simp [goingOn, hspsc]
    · simp only [doPopAny, if_neg hstored]
      by_cases hspsc : args.SPSC = true
      · rw [if_pos hspsc]
        exact ⟨t, .refl t, h.goOnPopping hone hphase (fun _ => False.elim) (by simp), rfl, rfl, rfl,
          (List.append_nil _).symm⟩
      · rw [if_neg hspsc]
        exact ⟨t, .refl t, h.goOnPopping hone hphase (fun _ => False.elim) (by simp), rfl, rfl, rfl,
          (List.append_nil _).symm⟩
  | spin =>
    by_cases hspin : args.MAXIMIZE_THROUGHPUT = true ∧ slots.states (args.slot tail) ≠ .stored
    · simp only [doPopAny, if_pos hspin]
      exact ⟨t, .refl t, h.goOnPopping hone hphase (fun _ => False.elim) (by simp), rfl, rfl, rfl,
        (List.append_nil _).symm⟩
    · simp only [doPopAny, if_neg hspin]
      exact ⟨t, .refl t, h.goOnPopping hone hphase (fun _ => False.elim) (by simp), rfl, rfl, rfl,
        (List.append_nil _).symm⟩
  | move =>
    have hstate := h.popState howned hc trivial
    by_cases hspsc : args.SPSC = true
    · refine ⟨t, .refl t, h.goOnPopping hone ?_ (fun hspsc _ => h.popHas hspsc c tail _ hc trivial) ?_,
        rfl, rfl, rfl, (List.append_nil _).symm⟩
      · rw [hphase, doPopPhase_of_single hspsc, doPopPhase_of_single hspsc]
      · exact fun element hnext => DoPopAny.clear.inj hnext
    · rw [doPopPhase, if_neg hspsc] at hphase
      refine ⟨_, .step (.refl t) (.move t c (args.slot tail) hphase),
        h.popStep hone hstate h.states (fun _ _ => rfl) rfl rfl rfl ?_ ?_, rfl, rfl, rfl,
        (List.append_nil _).symm⟩
      · simp [goingOn, doPopAny, doPopPhase, hspsc, h.elements _ hstate]
      · simp [goingOn, doPopAny, hspsc]
  | clear element =>
    have hstate := h.popState howned hc trivial
    by_cases hspsc : args.SPSC = true
    · have htable := h.popHas hspsc c tail _ hc trivial
      have helement : t.elements (args.slot tail) = element := by
        rw [← h.elements _ hstate, h.moved c tail element hc]
      rw [doPopPhase, if_pos hspsc] at hphase
      refine ⟨_, reaches_take hphase htable, h.popStep hone hstate ?_ ?_ rfl rfl rfl rfl
        (by simp [goingOn, doPopAny]), rfl, rfl, rfl, by rw [helement]; rfl⟩
      · simp [doPopAny, h.states]
      · exact fun i hi => update_of_ne hi _ _
    · rw [doPopPhase, if_neg hspsc] at hphase
      refine ⟨_, .step (.refl t) (.clear t c (args.slot tail) element hphase),
        h.popStep hone hstate ?_ ?_ rfl rfl rfl rfl (by simp [goingOn, doPopAny]), rfl, rfl, rfl, rfl⟩
      · simp [doPopAny, h.states]
      · exact fun i hi => update_of_ne hi _ _

omit [DecidableEq P] [DecidableEq C] in
/-- A push that goes round for ever finds its slot in another state. -/
theorem Shows.push_waits (h : Shows slots pushing popping t) {pc : DoPushAny}
    (hp : pushing p = some (element, head, pc))
    (hspins : (derived T args).PushSpins element head slots pc) :
    ∃ i e, t.producers p = .waiting i e ∧ t.states i ≠ .empty := by
  have hpublish : ¬ Reached (fun pc => (doPushAny args element (args.slot head) slots pc).2)
      pc .publish := by
    intro hreached
    obtain ⟨-, next, hnext⟩ := hspins _ hreached
    cases hnext
  have hwrite : ¬ Reached (fun pc => (doPushAny args element (args.slot head) slots pc).2)
      pc .write := fun hreached => hpublish (.round hreached rfl)
  have hcas : slots.states (args.slot head) = .empty →
      ¬ Reached (fun pc => (doPushAny args element (args.slot head) slots pc).2) pc .casState :=
    fun hempty hreached => hwrite (.round hreached (by simp [doPushAny, hempty]))
  cases pc with
  | casState =>
    refine ⟨_, _, h.producer_eq hp, fun hempty => ?_⟩
    exact hcas (by rw [h.states, hempty]) .start
  | spin =>
    refine ⟨_, _, h.producer_eq hp, fun hempty => ?_⟩
    have hslot : slots.states (args.slot head) = .empty := by rw [h.states, hempty]
    exact hcas hslot (.round .start (by simp [doPushAny, hslot]))
  | write => exact (hwrite .start).elim
  | publish => exact (hpublish .start).elim

omit [DecidableEq P] [DecidableEq C] in
theorem Shows.pop_waits (h : Shows slots pushing popping t) {pc : DoPopAny T}
    (hc : popping c = some (tail, pc)) (hspins : (derived T args).PopSpins tail slots pc) :
    ∃ i, t.consumers c = .waiting i ∧ t.states i ≠ .stored := by
  have hclear : ∀ element, ¬ Reached (fun pc => (doPopAny args (args.slot tail) slots pc).2)
      pc (.clear element) := by
    intro element hreached
    obtain ⟨-, next, hnext⟩ := hspins _ hreached
    cases hnext
  have hmove : ¬ Reached (fun pc => (doPopAny args (args.slot tail) slots pc).2) pc .move :=
    fun hreached => hclear _ (.round hreached rfl)
  have hcas : slots.states (args.slot tail) = .stored →
      ¬ Reached (fun pc => (doPopAny args (args.slot tail) slots pc).2) pc .casState :=
    fun hstored hreached => hmove (.round hreached (by simp [doPopAny, hstored]))
  cases pc with
  | casState =>
    refine ⟨_, h.consumer_eq hc, fun hstored => ?_⟩
    exact hcas (by rw [h.states, hstored]) .start
  | spin =>
    refine ⟨_, h.consumer_eq hc, fun hstored => ?_⟩
    have hslot : slots.states (args.slot tail) = .stored := by rw [h.states, hstored]
    exact hcas hslot (.round .start (by simp [doPopAny, hslot]))
  | move => exact (hmove .start).elim
  | clear element => exact (hclear element .start).elim

/-- The elements are handed over in the slots. -/
def handsOver (args : QueueArgs) (T P C : Type) [DecidableEq P] [DecidableEq C]
    (oneProducer : args.SPSC = true → Subsingleton P) (oneConsumer : args.SPSC = true → Subsingleton C) :
    HandsOver (derived T args) P C where
  slot := args.slot
  Shows := Shows
  oneProducer := oneProducer
  oneConsumer := oneConsumer
  initial slots hslots :=
    ⟨⟨slots.states, slots.elements, fun _ => .outside, fun _ => .outside, 0, 0, [], [], []⟩,
      ⟨hslots, fun _ => rfl, fun _ => rfl, rfl, rfl, rfl, rfl, rfl⟩,
      ⟨rfl, fun _ _ => rfl, fun _ => rfl, fun _ => rfl, by simp, by simp, by simp, by simp⟩⟩
  producer_iff {slots pushing popping t} h p := by
    rw [h.producers p]
    cases hcall : pushing p with
    | none => simp
    | some call =>
      obtain ⟨element, head, pc⟩ := call
      cases hspsc : args.SPSC <;> cases pc <;> simp [doPushPhase, hspsc]
  consumer_iff {slots pushing popping t} h c := by
    rw [h.consumers c]
    cases hcall : popping c with
    | none => simp
    | some call =>
      obtain ⟨tail, pc⟩ := call
      cases hspsc : args.SPSC <;> cases pc <;> simp [doPopPhase, hspsc]
  reserve element head h _ := h.keepPushing oneProducer element _ (fun _ => False.elim) (by simp)
  await tail h _ := h.keepPopping oneConsumer _ (fun _ => False.elim) (by simp)
  push ht h hp := h.push oneProducer (owned_of_reachable ht) hp
  pop ht h hc := h.pop oneConsumer (owned_of_reachable ht) hc
  push_waits h hp hspins := h.push_waits hp hspins
  pop_waits h hc hspins := h.pop_waits hc hspins

end Shows

/-! ### The threads of the queue -/

/-- What a pop has taken out of its slot. A thread that is alone leaves the slot stored until it is
through. -/
def popInHand (slots : States args T) : Option (PopCall (derived T args)) → Multiset T
  | some (.doPop tail .move) => if args.SPSC then 0 else {slots.elements (args.slot tail)}
  | some (.doPop _ (.clear element)) => if args.SPSC then 0 else {element}
  | _ => 0

/-- The elements in the slots that are stored. -/
def storedElements (slots : States args T) : Multiset T :=
  ∑ i with slots.states i = .stored, {slots.elements i}

section Threads

variable {P C : Type} [DecidableEq P] [DecidableEq C] {s : QueueCalls (derived T args) P C}

/-- What is pushed is popped once, or is in a slot, or in the hands of one of several consumers. -/
theorem pushed_eq_popped_add_stored [Fintype C] (oneProducer : args.SPSC = true → Subsingleton P)
    (oneConsumer : args.SPSC = true → Subsingleton C)
    (h : (QueueCalls.system (derived T args) P C).Reachable s) :
    (s.pushed.map Prod.snd : Multiset T) = (s.popped.map Prod.snd : Multiset T) +
      ∑ c, popInHand s.queue.slots (s.consumers c) + storedElements s.queue.slots := by
  obtain ⟨t, ht, hfollows⟩ := (handsOver args T P C oneProducer oneConsumer).follows_of_reachable h
  have hshows : Shows s.queue.slots (inDoPush ∘ s.producers) (inDoPop ∘ s.consumers) t := hfollows.shows
  have howned := owned_of_reachable ht
  have hheld : storedElements s.queue.slots = t.held := by
    rw [storedElements, Table.held, hshows.states]
    refine Finset.sum_congr rfl fun i hi => ?_
    rw [hshows.elements i (.inl (Finset.mem_filter.1 hi).2)]
  have hhand : ∀ c, popInHand s.queue.slots (s.consumers c) = t.inHand c := by
    intro c
    have hconsumer := hshows.consumers c
    unfold Table.inHand
    rw [hconsumer, comp_apply]
    cases hcall : s.consumers c with
    | none => rfl
    | some call =>
      cases call with
      | doPop tail pc =>
        have hc : (inDoPop ∘ s.consumers) c = some (tail, pc) := by rw [comp_apply, hcall]; rfl
        cases hspsc : args.SPSC
        · cases pc with
          | casState | spin => rfl
          | move =>
            have hstate := hshows.popState howned hc trivial
            simp [popInHand, inDoPop, doPopPhase, hspsc, hshows.elements _ hstate]
          | clear element => simp [popInHand, inDoPop, doPopPhase, hspsc]
        · cases pc <;> simp [popInHand, inDoPop, doPopPhase, hspsc]
      | _ => rfl
  rw [hfollows.pushed, hfollows.popped, hheld, Finset.sum_congr rfl fun c _ => hhand c]
  exact (exactlyOnce_of_reachable ht).stored_eq

theorem stalled_for_good (oneProducer : args.SPSC = true → Subsingleton P)
    (oneConsumer : args.SPSC = true → Subsingleton C)
    (h : (QueueCalls.system (derived T args) P C).Reachable s) (hstalled : s.Stalled) :
    ((∃ c, s.consumers c ≠ none) →
      (∀ p, s.producers p = none) ∧ ∀ i, s.queue.slots.states i = .empty) ∧
    (args.queueSize.toNat ∣ 2 ^ 32 → (∃ p, s.producers p ≠ none) →
      (∀ c, s.consumers c = none) ∧ ∀ i, s.queue.slots.states i = .stored) := by
  constructor
  · rintro ⟨c, hc⟩
    obtain ⟨t, hfollows, hproducers, hslots⟩ :=
      (handsOver args T P C oneProducer oneConsumer).drained_of_stalled h hstalled hc
    exact ⟨hproducers, fun i => (congrFun hfollows.shows.states i).trans (hslots i)⟩
  · rintro hdvd ⟨p, hp⟩
    have hrounds : Rounds ((derived T args).visit args.slot) args.queueSize.toNat :=
      rounds_of_dvd (shuffleBits_le_word args _) hdvd fun n => rfl
    obtain ⟨t, hfollows, hconsumers, hslots⟩ :=
      (handsOver args T P C oneProducer oneConsumer).full_of_stalled h hstalled hrounds hp
    exact ⟨hconsumers, fun i => (congrFun hfollows.shows.states i).trans (hslots i)⟩

end Threads

/-! ### A queue of one slot -/

def oneState : QueueArgs := AtomicQueue.oneSlot.toQueueArgs

def constructOne : DerivedQueue (derived Nat oneState) := ⟨0#32, 0#32, ⟨fun _ => .empty, fun _ => 0⟩⟩

theorem reachable_constructOne : (QueueCalls.system (derived Nat oneState) Unit Unit).Reachable
    ⟨constructOne, fun _ => none, fun _ => none, [], []⟩ :=
  .initial ⟨⟨rfl, rfl, fun _ => rfl⟩, fun _ => rfl, fun _ => rfl, rfl, rfl⟩

/-- One push has come to its end. -/
theorem pushed_eq_popped_add_stored_one : ∃ s : QueueCalls (derived Nat oneState) Unit Unit,
    s.pushed = [((), 7)] ∧ (s.pushed.map Prod.snd : Multiset Nat) =
      (s.popped.map Prod.snd : Multiset Nat) +
        ∑ c, popInHand s.queue.slots (s.consumers c) + storedElements s.queue.slots := by
  have hcall := reachable_constructOne.step (.callPush _ () 7 rfl)
  have hfetched := hcall.step (.push _ () _ rfl)
  have hstoring := hfetched.step (.push _ () _ rfl)
  have hwritten := hstoring.step (.push _ () _ rfl)
  have hpushed := hwritten.step (.push _ () _ rfl)
  exact ⟨_, rfl, pushed_eq_popped_add_stored (fun _ => inferInstance) (fun _ => inferInstance) hpushed⟩

/-- A pop that has its ticket, at an empty queue. -/
def starved : QueueCalls (derived Nat oneState) Unit Unit :=
  ⟨{ constructOne with tail := 1#32 }, fun _ => none, fun _ => some (.doPop 0#32 .casState), [], []⟩

theorem reachable_starved : (QueueCalls.system (derived Nat oneState) Unit Unit).Reachable starved := by
  have hcall := reachable_constructOne.step (.callPop _ () rfl)
  have hfetched := hcall.step (.pop _ () .fetchTail rfl)
  have hconsumers : starved.consumers =
      update (update (fun _ => none) () (some .fetchTail)) () (some (.doPop 0#32 .casState)) := by
    funext c
    rfl
  rw [← show (⟨_, _, starved.consumers, _, _⟩ : QueueCalls (derived Nat oneState) Unit Unit) = starved from rfl,
    hconsumers]
  exact hfetched

theorem starved_stalled : starved.Stalled where
  producers _ _ h := by cases h
  consumers c call h := by
    obtain rfl := Option.some.inj h
    intro call' hreached
    have hspins : call' = .doPop 0#32 .casState ∨ call' = .doPop 0#32 .spin := by
      refine hreached.invariant (P := fun call => call = .doPop 0#32 .casState ∨ call = .doPop 0#32 .spin)
        ?_ (.inl rfl)
      rintro _ call'' (rfl | rfl) hagain
      · exact .inr (Round.again.inj hagain).symm
      · exact .inr (Round.again.inj hagain).symm
    obtain rfl | rfl := hspins
    · exact ⟨rfl, _, rfl⟩
    · exact ⟨rfl, _, rfl⟩

theorem stalled_for_good_starved : starved.producers () = none :=
  ((stalled_for_good (fun _ => inferInstance) (fun _ => inferInstance) reachable_starved
    starved_stalled).1 ⟨(), Option.some_ne_none _⟩).1 ()

end AtomicQueue2

/-! ### Order -/

end LuPlatform.Queue
