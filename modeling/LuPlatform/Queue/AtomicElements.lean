import LuPlatform.Queue.DerivedQueue

/-! `AtomicQueue`, whose slots are the atomic elements themselves. A slot with `NIL` is empty, so an
element comes and goes in one exchange, or with `SPSC` in a load and a store. -/

namespace LuPlatform.Queue

open Loop SlotTable Transition Function

/-- The template arguments of the queue and what they go with: the elements as `nil` gives them, their
size, and the cache line of the platform. -/
structure AtomicQueueArgs (A : Type) extends QueueArgs where
  NIL : A
  nil : A
  elementSize : Nat

namespace AtomicQueueArgs

variable {A : Type} (args : AtomicQueueArgs A)

def elementShuffleBits : Nat :=
  getIndexShuffleBits args.MINIMIZE_CONTENTION args.queueSize.toNat (args.CACHE_LINE_SIZE / args.elementSize)

/-- The slot that a ticket is mapped to. -/
def element (ticket : BitVec 32) : Fin args.queueSize.toNat :=
  ⟨(remapIndex args.elementShuffleBits (ticket % args.queueSize)).toNat,
    remapIndex_umod_lt args.queueSize_pos args.queueSize_pow _ ticket⟩

/-- What may be pushed. -/
abbrev Value : Type := { x : A // x ≠ args.NIL }

end AtomicQueueArgs

namespace AtomicQueue

/-- Where `do_push_atomic` stands, in `load` and `store` with `SPSC`. -/
inductive DoPushAtomic where
  | load
  | store
  | exchange
  | spin

inductive DoPopAtomic (A : Type) where
  | load
  | store (element : A)
  | exchange
  | spin

variable {A : Type} [DecidableEq A] (args : AtomicQueueArgs A)

abbrev Elements : Type := Fin args.queueSize.toNat → A

def construct : Elements args :=
  if args.nil ≠ args.NIL then fun _ => args.NIL else fun _ => args.nil

def doPushAtomic (element : A) (qElement : Fin args.queueSize.toNat) (elements : Elements args) :
    DoPushAtomic → Elements args × Round DoPushAtomic Unit
  | .load => (elements, .again (if elements qElement ≠ args.NIL then .load else .store))
  | .store => (update elements qElement element, .leave ())
  | .exchange =>
    if elements qElement = args.NIL then (update elements qElement element, .leave ())
    else (elements, .again .spin)
  | .spin =>
    if args.MAXIMIZE_THROUGHPUT ∧ elements qElement ≠ args.NIL then (elements, .again .spin)
    else (elements, .again .exchange)

def doPopAtomic (qElement : Fin args.queueSize.toNat) (elements : Elements args) :
    DoPopAtomic args.Value → Elements args × Round (DoPopAtomic args.Value) args.Value
  | .load =>
    if h : elements qElement ≠ args.NIL then (elements, .again (.store ⟨elements qElement, h⟩))
    else (elements, .again .load)
  | .store element => (update elements qElement args.NIL, .leave element)
  | .exchange =>
    if h : elements qElement ≠ args.NIL then
      (update elements qElement args.NIL, .leave ⟨elements qElement, h⟩)
    else (update elements qElement args.NIL, .again .spin)
  | .spin =>
    if args.MAXIMIZE_THROUGHPUT ∧ elements qElement = args.NIL then (elements, .again .spin)
    else (elements, .again .exchange)

end AtomicQueue

open AtomicQueue in
abbrev AtomicQueue {A : Type} [DecidableEq A] (args : AtomicQueueArgs A) : Derived args.Value where
  queueSize := args.queueSize
  isSPSC := args.SPSC
  Slots := Elements args
  Constructed elements := elements = construct args
  DoPush := DoPushAtomic
  DoPop := DoPopAtomic args.Value
  beginPush := if args.SPSC then .load else .exchange
  beginPop := if args.SPSC then .load else .exchange
  doPush element head := doPushAtomic args element (args.element head)
  doPop tail := doPopAtomic args (args.element tail)

namespace AtomicQueue

variable {A : Type} [DecidableEq A] {args : AtomicQueueArgs A}

theorem construct_eq (i : Fin args.queueSize.toNat) : construct args i = args.NIL := by
  by_cases h : args.nil = args.NIL <;> simp [construct, h]

/-! ### The slot table -/

/-- A slot is empty or stored. Threads wait for theirs until they are through, also a single one that has
found its slot as it has to be. -/
structure Shows {P C : Type} (elements : Elements args)
    (pushing : P → Option (args.Value × BitVec 32 × DoPushAtomic))
    (popping : C → Option (BitVec 32 × DoPopAtomic args.Value))
    (t : Table (Fin args.queueSize.toNat) args.Value P C) : Prop where
  slots : ∀ i, (t.states i = .empty ∧ elements i = args.NIL) ∨
    (t.states i = .stored ∧ elements i = t.elements i)
  producers : ∀ p, t.producers p =
    (pushing p).elim .outside fun call => .waiting (args.element call.2.1) call.1
  consumers : ∀ c, t.consumers c = (popping c).elim .outside fun call => .waiting (args.element call.1)
  pushLoading : ∀ p element head, pushing p = some (element, head, .load) → args.SPSC = true
  popLoading : ∀ c tail, popping c = some (tail, .load) → args.SPSC = true
  storing : ∀ p element head, pushing p = some (element, head, .store) →
    args.SPSC = true ∧ elements (args.element head) = args.NIL
  clearing : ∀ c tail element, popping c = some (tail, .store element) →
    args.SPSC = true ∧ elements (args.element tail) = element

section Shows

variable {P C : Type} {elements : Elements args}
  {pushing : P → Option (args.Value × BitVec 32 × DoPushAtomic)}
  {popping : C → Option (BitVec 32 × DoPopAtomic args.Value)}
  {t : Table (Fin args.queueSize.toNat) args.Value P C}

omit [DecidableEq A] in
theorem Shows.empty_iff (h : Shows elements pushing popping t) (i : Fin args.queueSize.toNat) :
    t.states i = .empty ↔ elements i = args.NIL := by
  obtain ⟨hstate, helement⟩ | ⟨hstate, helement⟩ := h.slots i
  · exact iff_of_true hstate helement
  · exact iff_of_false (by simp [hstate]) (by rw [helement]; exact (t.elements i).2)

omit [DecidableEq A] in
theorem Shows.stored_iff (h : Shows elements pushing popping t) (i : Fin args.queueSize.toNat) :
    t.states i = .stored ↔ elements i ≠ args.NIL := by
  obtain ⟨hstate, helement⟩ | ⟨hstate, helement⟩ := h.slots i
  · exact iff_of_false (by simp [hstate]) (by simp [helement])
  · exact iff_of_true hstate (by rw [helement]; exact (t.elements i).2)

omit [DecidableEq A] in
theorem Shows.element_eq (h : Shows elements pushing popping t) {i : Fin args.queueSize.toNat}
    (hi : t.states i = .stored) : elements i = t.elements i := by
  obtain ⟨hstate, -⟩ | ⟨-, helement⟩ := h.slots i
  · simp [hstate] at hi
  · exact helement

theorem shows_construct [Nontrivial A] : ∃ t : Table (Fin args.queueSize.toNat) args.Value P C,
    SlotTable.Initial t ∧ Shows (construct args) (fun _ => none) (fun _ => none) t := by
  obtain ⟨x, hx⟩ := exists_ne args.NIL
  refine ⟨⟨fun _ => .empty, fun _ => ⟨x, hx⟩, fun _ => .outside, fun _ => .outside, 0, 0, [], [], []⟩,
    ⟨fun _ => rfl, fun _ => rfl, fun _ => rfl, rfl, rfl, rfl, rfl, rfl⟩, ?_⟩
  constructor
  · exact fun i => .inl ⟨rfl, construct_eq i⟩
  · exact fun _ => rfl
  · exact fun _ => rfl
  all_goals simp

variable [DecidableEq P] [DecidableEq C]

omit [DecidableEq A] [DecidableEq C] in
/-- A producer begins to wait. -/
theorem Shows.reserve (h : Shows elements pushing popping t) (p : P) (element : args.Value)
    (head : BitVec 32) : Shows elements
      (update pushing p (some (element, head, if args.SPSC then .load else .exchange))) popping { t with
        producers := update t.producers p (.waiting (args.element head) element)
        reserved := t.reserved + 1 } where
  slots := h.slots
  producers q := by
    by_cases hq : q = p
    · subst hq
      simp
    · simp [hq, h.producers q]
  consumers := h.consumers
  pushLoading q element' head' hcall := by
    by_cases hq : q = p
    · subst hq
      by_contra hspsc
      simp [hspsc] at hcall
    · exact h.pushLoading q element' head' (by simpa [hq] using hcall)
  popLoading := h.popLoading
  storing q element' head' hcall := by
    by_cases hq : q = p
    · subst hq
      by_cases hspsc : args.SPSC = true <;> simp [hspsc] at hcall
    · exact h.storing q element' head' (by simpa [hq] using hcall)
  clearing := h.clearing

omit [DecidableEq A] [DecidableEq P] in
theorem Shows.await (h : Shows elements pushing popping t) (c : C) (tail : BitVec 32) :
    Shows elements pushing
      (update popping c (some (tail, if args.SPSC then .load else .exchange))) { t with
        consumers := update t.consumers c (.waiting (args.element tail))
        awaited := t.awaited + 1 } where
  slots := h.slots
  producers := h.producers
  consumers d := by
    by_cases hd : d = c
    · subst hd
      simp
    · simp [hd, h.consumers d]
  pushLoading := h.pushLoading
  popLoading d tail' hcall := by
    by_cases hd : d = c
    · subst hd
      by_contra hspsc
      simp [hspsc] at hcall
    · exact h.popLoading d tail' (by simpa [hd] using hcall)
  storing := h.storing
  clearing d tail' element hcall := by
    by_cases hd : d = c
    · subst hd
      by_cases hspsc : args.SPSC = true <;> simp [hspsc] at hcall
    · exact h.clearing d tail' element (by simpa [hd] using hcall)

omit [DecidableEq A] [DecidableEq C] in
/-- A producer that goes on waiting. -/
theorem Shows.keepPushing (h : Shows elements pushing popping t) {p : P} {element : args.Value}
    {head : BitVec 32} {pc : DoPushAtomic} (hp : pushing p = some (element, head, pc))
    (next : DoPushAtomic) (hload : next = .load → args.SPSC = true)
    (hstore : next = .store → args.SPSC = true ∧ elements (args.element head) = args.NIL) :
    Shows elements (update pushing p (some (element, head, next))) popping t where
  slots := h.slots
  producers q := by
    by_cases hq : q = p
    · subst hq
      simp [h.producers q, hp]
    · simp [hq, h.producers q]
  consumers := h.consumers
  pushLoading q element' head' hcall := by
    by_cases hq : q = p
    · subst hq
      simp only [update_self, Option.some.injEq, Prod.mk.injEq] at hcall
      exact hload hcall.2.2
    · exact h.pushLoading q element' head' (by simpa [hq] using hcall)
  popLoading := h.popLoading
  storing q element' head' hcall := by
    by_cases hq : q = p
    · subst hq
      simp only [update_self, Option.some.injEq, Prod.mk.injEq] at hcall
      obtain ⟨-, rfl, hnext⟩ := hcall
      exact hstore hnext
    · exact h.storing q element' head' (by simpa [hq] using hcall)
  clearing := h.clearing

omit [DecidableEq A] [DecidableEq P] in
theorem Shows.keepPopping (h : Shows elements pushing popping t) {c : C} {tail : BitVec 32}
    {pc : DoPopAtomic args.Value} (hc : popping c = some (tail, pc)) (next : DoPopAtomic args.Value)
    (hload : next = .load → args.SPSC = true)
    (hstore : ∀ element, next = .store element →
      args.SPSC = true ∧ elements (args.element tail) = element) :
    Shows elements pushing (update popping c (some (tail, next))) t where
  slots := h.slots
  producers := h.producers
  consumers d := by
    by_cases hd : d = c
    · subst hd
      simp [h.consumers d, hc]
    · simp [hd, h.consumers d]
  pushLoading := h.pushLoading
  popLoading d tail' hcall := by
    by_cases hd : d = c
    · subst hd
      simp only [update_self, Option.some.injEq, Prod.mk.injEq] at hcall
      exact hload hcall.2
    · exact h.popLoading d tail' (by simpa [hd] using hcall)
  storing := h.storing
  clearing d tail' element hcall := by
    by_cases hd : d = c
    · subst hd
      simp only [update_self, Option.some.injEq, Prod.mk.injEq] at hcall
      obtain ⟨rfl, hnext⟩ := hcall
      exact hstore element hnext
    · exact h.clearing d tail' element (by simpa [hd] using hcall)

omit [DecidableEq A] [DecidableEq C] in
/-- An element comes into a slot. No other thread has found that slot as it has to be. -/
theorem Shows.put (hone : args.SPSC = true → Subsingleton P) (h : Shows elements pushing popping t)
    {p : P} {element : args.Value} {head : BitVec 32} (hslot : elements (args.element head) = args.NIL) :
    Shows (update elements (args.element head) element) (update pushing p none) popping { t with
      producers := update t.producers p .outside
      states := update t.states (args.element head) .stored
      elements := update t.elements (args.element head) element
      stored := t.stored ++ [(p, element)] } where
  slots i := by
    by_cases hi : i = args.element head
    · subst hi
      simp
    · simpa [hi] using h.slots i
  producers q := by
    by_cases hq : q = p
    · subst hq
      simp
    · simp [hq, h.producers q]
  consumers := h.consumers
  pushLoading q element' head' hcall := by
    by_cases hq : q = p
    · subst hq
      simp at hcall
    · exact h.pushLoading q element' head' (by simpa [hq] using hcall)
  popLoading := h.popLoading
  storing q element' head' hcall := by
    by_cases hq : q = p
    · subst hq
      simp at hcall
    · obtain ⟨hspsc, -⟩ := h.storing q element' head' (by simpa [hq] using hcall)
      exact absurd ((hone hspsc).elim q p) hq
  clearing c tail element' hcall := by
    obtain ⟨hspsc, helement⟩ := h.clearing c tail element' hcall
    have hne : args.element tail ≠ args.element head := by
      intro heq
      rw [heq, hslot] at helement
      exact element'.2 helement.symm
    exact ⟨hspsc, by rw [update_of_ne hne, helement]⟩

omit [DecidableEq A] [DecidableEq P] in
theorem Shows.take (hone : args.SPSC = true → Subsingleton C) (h : Shows elements pushing popping t)
    (c : C) (tail : BitVec 32) : Shows (update elements (args.element tail) args.NIL)
      pushing (update popping c none) { t with
      consumers := update t.consumers c .outside
      states := update t.states (args.element tail) .empty
      claimed := t.claimed ++ [(c, t.elements (args.element tail))]
      returned := t.returned ++ [(c, t.elements (args.element tail))] } where
  slots i := by
    by_cases hi : i = args.element tail
    · subst hi
      simp
    · simpa [hi] using h.slots i
  producers := h.producers
  consumers d := by
    by_cases hd : d = c
    · subst hd
      simp
    · simp [hd, h.consumers d]
  pushLoading := h.pushLoading
  popLoading d tail' hcall := by
    by_cases hd : d = c
    · subst hd
      simp at hcall
    · exact h.popLoading d tail' (by simpa [hd] using hcall)
  storing p element head hcall := by
    obtain ⟨hspsc, helement⟩ := h.storing p element head hcall
    refine ⟨hspsc, ?_⟩
    by_cases heq : args.element head = args.element tail
    · rw [heq, update_self]
    · rw [update_of_ne heq, helement]
  clearing d tail' element hcall := by
    by_cases hd : d = c
    · subst hd
      simp at hcall
    · obtain ⟨hspsc, -⟩ := h.clearing d tail' element (by simpa [hd] using hcall)
      exact absurd ((hone hspsc).elim d c) hd

variable {visit : Nat → Fin args.queueSize.toNat}

open TransitionSystem

theorem Shows.push (hone : args.SPSC = true → Subsingleton P) (h : Shows elements pushing popping t)
    {p : P} {element : args.Value} {head : BitVec 32} {pc : DoPushAtomic}
    (hp : pushing p = some (element, head, pc)) :
    ∃ t', (SlotTable.system (Fin args.queueSize.toNat) args.Value P C visit).Reaches t t' ∧
      Shows (doPushAtomic args element (args.element head) elements pc).1 (update pushing p
        ((goingOn (doPushAtomic args element (args.element head) elements pc).2).map (element, head, ·)))
        popping t' ∧
      t'.reserved = t.reserved ∧ t'.awaited = t.awaited ∧ t'.returned = t.returned ∧
      t'.stored = t.stored ++
        (brought (doPushAtomic args element (args.element head) elements pc).2).map
          fun _ => (p, element) := by
  have hwaiting : t.producers p = .waiting (args.element head) element := by
    rw [h.producers p, hp]
    rfl
  have hput : elements (args.element head) = args.NIL →
      (SlotTable.system (Fin args.queueSize.toNat) args.Value P C visit).Reaches t { t with
        producers := update t.producers p .outside
        states := update t.states (args.element head) .stored
        elements := update t.elements (args.element head) element
        stored := t.stored ++ [(p, element)] } :=
    fun hslot => reaches_put hwaiting ((h.empty_iff _).2 hslot)
  cases pc with
  | load =>
    have hspsc := h.pushLoading p element head hp
    refine ⟨t, .refl t, h.keepPushing hp _ (fun _ => hspsc) fun hnext => ⟨hspsc, ?_⟩, rfl, rfl, rfl,
        (List.append_nil _).symm⟩
    by_contra hslot
    simp [hslot] at hnext
  | store =>
    have hslot := (h.storing p element head hp).2
    exact ⟨_, hput hslot, h.put hone hslot, rfl, rfl, rfl, rfl⟩
  | exchange =>
    by_cases hslot : elements (args.element head) = args.NIL
    · simp only [doPushAtomic, if_pos hslot]
      exact ⟨_, hput hslot, h.put hone hslot, rfl, rfl, rfl, rfl⟩
    · simp only [doPushAtomic, if_neg hslot]
      exact ⟨t, .refl t, h.keepPushing hp .spin (by simp) (by simp), rfl, rfl, rfl,
        (List.append_nil _).symm⟩
  | spin =>
    by_cases hspin : args.MAXIMIZE_THROUGHPUT = true ∧ elements (args.element head) ≠ args.NIL
    · simp only [doPushAtomic, if_pos hspin]
      exact ⟨t, .refl t, h.keepPushing hp .spin (by simp) (by simp), rfl, rfl, rfl,
        (List.append_nil _).symm⟩
    · simp only [doPushAtomic, if_neg hspin]
      exact ⟨t, .refl t, h.keepPushing hp .exchange (by simp) (by simp), rfl, rfl, rfl,
        (List.append_nil _).symm⟩

theorem Shows.pop (hone : args.SPSC = true → Subsingleton C) (h : Shows elements pushing popping t)
    {c : C} {tail : BitVec 32} {pc : DoPopAtomic args.Value} (hc : popping c = some (tail, pc)) :
    ∃ t', (SlotTable.system (Fin args.queueSize.toNat) args.Value P C visit).Reaches t t' ∧
      Shows (doPopAtomic args (args.element tail) elements pc).1 pushing (update popping c
        ((goingOn (doPopAtomic args (args.element tail) elements pc).2).map (tail, ·))) t' ∧
      t'.reserved = t.reserved ∧ t'.awaited = t.awaited ∧ t'.stored = t.stored ∧
      t'.returned = t.returned ++
        (brought (doPopAtomic args (args.element tail) elements pc).2).map (c, ·) := by
  have hwaiting : t.consumers c = .waiting (args.element tail) := by
    rw [h.consumers c, hc]
    rfl
  have htake : ∀ element : args.Value, elements (args.element tail) = element →
      t.elements (args.element tail) = element ∧
      (SlotTable.system (Fin args.queueSize.toNat) args.Value P C visit).Reaches t { t with
        consumers := update t.consumers c .outside
        states := update t.states (args.element tail) .empty
        claimed := t.claimed ++ [(c, t.elements (args.element tail))]
        returned := t.returned ++ [(c, t.elements (args.element tail))] } := by
    intro element helement
    have hstored := (h.stored_iff (args.element tail)).2 (by rw [helement]; exact element.2)
    exact ⟨Subtype.ext (by rw [← h.element_eq hstored, helement]), reaches_take hwaiting hstored⟩
  cases pc with
  | load =>
    have hspsc := h.popLoading c tail hc
    by_cases hslot : elements (args.element tail) ≠ args.NIL
    · simp only [doPopAtomic, dif_pos hslot]
      refine ⟨t, .refl t, h.keepPopping hc _ (by simp) fun element hnext => ⟨hspsc, ?_⟩,
        rfl, rfl, rfl, (List.append_nil _).symm⟩
      rw [← DoPopAtomic.store.inj hnext]
    · simp only [doPopAtomic, dif_neg hslot]
      exact ⟨t, .refl t, h.keepPopping hc .load (fun _ => hspsc) (by simp), rfl, rfl, rfl,
        (List.append_nil _).symm⟩
  | store element =>
    obtain ⟨heq, hreaches⟩ := htake element (h.clearing c tail element hc).2
    refine ⟨_, hreaches, h.take hone c tail, rfl, rfl, rfl, ?_⟩
    rw [heq]
    rfl
  | exchange =>
    by_cases hslot : elements (args.element tail) ≠ args.NIL
    · simp only [doPopAtomic, dif_pos hslot]
      obtain ⟨heq, hreaches⟩ := htake ⟨_, hslot⟩ rfl
      refine ⟨_, hreaches, h.take hone c tail, rfl, rfl, rfl, ?_⟩
      rw [heq]
      rfl
    · simp only [doPopAtomic, dif_neg hslot]
      have hsame : update elements (args.element tail) args.NIL = elements := by
        rw [← not_not.1 hslot, update_eq_self]
      rw [hsame]
      exact ⟨t, .refl t, h.keepPopping hc .spin (by simp) (by simp), rfl, rfl, rfl,
        (List.append_nil _).symm⟩
  | spin =>
    by_cases hspin : args.MAXIMIZE_THROUGHPUT = true ∧ elements (args.element tail) = args.NIL
    · simp only [doPopAtomic, if_pos hspin]
      exact ⟨t, .refl t, h.keepPopping hc .spin (by simp) (by simp), rfl, rfl, rfl,
        (List.append_nil _).symm⟩
    · simp only [doPopAtomic, if_neg hspin]
      exact ⟨t, .refl t, h.keepPopping hc .exchange (by simp) (by simp), rfl, rfl, rfl,
        (List.append_nil _).symm⟩

omit [DecidableEq P] [DecidableEq C] in
/-- A push that goes round for ever finds its slot taken. -/
theorem Shows.push_waits (h : Shows elements pushing popping t) {p : P} {element : args.Value}
    {head : BitVec 32} {pc : DoPushAtomic} (hp : pushing p = some (element, head, pc))
    (hspins : (AtomicQueue args).PushSpins element head elements pc) :
    ∃ i e, t.producers p = .waiting i e ∧ t.states i ≠ .empty := by
  have hwaiting : t.producers p = .waiting (args.element head) element := by
    rw [h.producers p, hp]
    rfl
  refine ⟨_, _, hwaiting, fun hempty => ?_⟩
  have hslot := (h.empty_iff _).1 hempty
  have hexchange : ¬ Reached (fun pc => (doPushAtomic args element (args.element head) elements pc).2)
      pc .exchange := by
    intro hreached
    obtain ⟨-, next, hnext⟩ := hspins _ hreached
    simp [doPushAtomic, hslot] at hnext
  have hstore : ¬ Reached (fun pc => (doPushAtomic args element (args.element head) elements pc).2)
      pc .store := by
    intro hreached
    obtain ⟨-, next, hnext⟩ := hspins _ hreached
    cases hnext
  cases pc with
  | load => exact hstore (.round .start (by simp [doPushAtomic, hslot]))
  | store => exact hstore .start
  | exchange => exact hexchange .start
  | spin => exact hexchange (.round .start (by simp [doPushAtomic, hslot]))

omit [DecidableEq P] [DecidableEq C] in
theorem Shows.pop_waits (h : Shows elements pushing popping t) {c : C} {tail : BitVec 32}
    {pc : DoPopAtomic args.Value} (hc : popping c = some (tail, pc))
    (hspins : (AtomicQueue args).PopSpins tail elements pc) :
    ∃ i, t.consumers c = .waiting i ∧ t.states i ≠ .stored := by
  have hwaiting : t.consumers c = .waiting (args.element tail) := by
    rw [h.consumers c, hc]
    rfl
  refine ⟨_, hwaiting, fun hstored => ?_⟩
  have hslot := (h.stored_iff _).1 hstored
  have hexchange : ¬ Reached (fun pc => (doPopAtomic args (args.element tail) elements pc).2)
      pc .exchange := by
    intro hreached
    obtain ⟨-, next, hnext⟩ := hspins _ hreached
    simp [doPopAtomic, hslot] at hnext
  have hstore : ∀ element, ¬ Reached (fun pc => (doPopAtomic args (args.element tail) elements pc).2)
      pc (.store element) := by
    intro element hreached
    obtain ⟨-, next, hnext⟩ := hspins _ hreached
    cases hnext
  cases pc with
  | load => exact hstore ⟨_, hslot⟩ (.round .start (by simp [doPopAtomic, hslot]))
  | store element => exact hstore element .start
  | exchange => exact hexchange .start
  | spin => exact hexchange (.round .start (by simp [doPopAtomic, hslot]))

/-- The elements of the queue are handed over in its slots. -/
def handsOver [Nontrivial A] (args : AtomicQueueArgs A) (P C : Type) [DecidableEq P] [DecidableEq C]
    (oneProducer : args.SPSC = true → Subsingleton P) (oneConsumer : args.SPSC = true → Subsingleton C) :
    HandsOver (AtomicQueue args) P C where
  slot := args.element
  Shows := Shows
  oneProducer := oneProducer
  oneConsumer := oneConsumer
  initial := by
    rintro _ rfl
    exact shows_construct
  producer_iff h p := by
    rw [h.producers p]
    rename_i pushing popping t
    cases pushing p <;> simp
  consumer_iff h c := by
    rw [h.consumers c]
    rename_i pushing popping t
    cases popping c <;> simp
  reserve element head h _ := h.reserve _ element head
  await tail h _ := h.await _ tail
  push _ h hp := h.push oneProducer hp
  pop _ h hc := h.pop oneConsumer hc
  push_waits h hp hspins := h.push_waits hp hspins
  pop_waits h hc hspins := h.pop_waits hc hspins

end Shows

/-! ### The threads of the queue -/

/-- The elements that are in the slots. -/
def held (elements : Elements args) : Multiset A := ∑ i with elements i ≠ args.NIL, {elements i}

section Threads

variable [Nontrivial A] {P C : Type} [DecidableEq P] [DecidableEq C]
  {s : QueueCalls (AtomicQueue args) P C}

omit [Nontrivial A] [DecidableEq P] [DecidableEq C] in
theorem Shows.held_eq {elements : Elements args}
    {pushing : P → Option (args.Value × BitVec 32 × DoPushAtomic)}
    {popping : C → Option (BitVec 32 × DoPopAtomic args.Value)}
    {t : Table (Fin args.queueSize.toNat) args.Value P C} (h : Shows elements pushing popping t) :
    held elements = t.held.map Subtype.val := by
  rw [held, Table.held, ← Multiset.coe_mapAddMonoidHom, map_sum]
  have hslots : (Finset.univ.filter fun i => elements i ≠ args.NIL) =
      Finset.univ.filter fun i => t.states i = .stored :=
    Finset.filter_congr fun i _ => (h.stored_iff i).symm
  rw [hslots]
  refine Finset.sum_congr rfl fun i hi => ?_
  rw [h.element_eq (Finset.mem_filter.1 hi).2]
  rfl

/-- What is pushed is popped once, or is in a slot. -/
theorem pushed_eq_popped_add_held [Fintype C] (oneProducer : args.SPSC = true → Subsingleton P)
    (oneConsumer : args.SPSC = true → Subsingleton C)
    (h : (QueueCalls.system (AtomicQueue args) P C).Reachable s) :
    (s.pushed.map fun x => x.2.val : Multiset A) =
      (s.popped.map fun x => x.2.val : Multiset A) + held s.queue.slots := by
  obtain ⟨t, ht, hfollows⟩ := (handsOver args P C oneProducer oneConsumer).follows_of_reachable h
  have hhands : ∀ c, t.inHand c = [] := by
    intro c
    unfold Table.inHand
    rw [hfollows.shows.consumers c]
    cases (inDoPop ∘ s.consumers) c <;> rfl
  have honce := congrArg (Multiset.map Subtype.val) (exactlyOnce_of_reachable ht).stored_eq
  simp only [hhands, Multiset.coe_nil, Finset.sum_const_zero, add_zero, Multiset.map_add,
    Multiset.map_coe, List.map_map] at honce
  rw [hfollows.pushed, hfollows.popped, Shows.held_eq hfollows.shows]
  exact honce

theorem waits_for_good (oneProducer : args.SPSC = true → Subsingleton P)
    (oneConsumer : args.SPSC = true → Subsingleton C)
    (h : (QueueCalls.system (AtomicQueue args) P C).Reachable s) (hstalled : s.Stalled) :
    ((∃ c, s.consumers c ≠ none) →
      (∀ p, s.producers p = none) ∧ ∀ i, s.queue.slots i = args.NIL) ∧
    (args.queueSize.toNat ∣ 2 ^ 32 → (∃ p, s.producers p ≠ none) →
      (∀ c, s.consumers c = none) ∧ ∀ i, s.queue.slots i ≠ args.NIL) := by
  constructor
  · rintro ⟨c, hc⟩
    obtain ⟨t, hfollows, hproducers, hslots⟩ :=
      (handsOver args P C oneProducer oneConsumer).drained_of_stalled h hstalled hc
    exact ⟨hproducers, fun i => (hfollows.shows.empty_iff i).1 (hslots i)⟩
  · rintro hdvd ⟨p, hp⟩
    have hrounds : Rounds ((AtomicQueue args).visit args.element) args.queueSize.toNat :=
      rounds_of_dvd (shuffleBits_le_word args.toQueueArgs _) hdvd fun n => rfl
    obtain ⟨t, hfollows, hconsumers, hslots⟩ :=
      (handsOver args P C oneProducer oneConsumer).full_of_stalled h hstalled hrounds hp
    exact ⟨hconsumers, fun i => (hfollows.shows.stored_iff i).1 (hslots i)⟩

end Threads

/-- A queue of one slot. -/
def oneSlot : AtomicQueueArgs Nat where
  SIZE := 1
  MINIMIZE_CONTENTION := true
  MAXIMIZE_THROUGHPUT := true
  SPSC := false
  CACHE_LINE_SIZE := 64
  size_pos := by decide
  size_le := fun _ => by decide
  NIL := 0
  nil := 0
  elementSize := 8

theorem reachable_oneSlot : (QueueCalls.system (AtomicQueue oneSlot) Unit Unit).Reachable
    ⟨⟨0#32, 0#32, construct oneSlot⟩, fun _ => none, fun _ => none, [], []⟩ :=
  .initial ⟨⟨rfl, rfl, rfl⟩, fun _ => rfl, fun _ => rfl, rfl, rfl⟩

/-- One push has come to its end. -/
theorem exists_pushed : ∃ s, (QueueCalls.system (AtomicQueue oneSlot) Unit Unit).Reachable s ∧
    s.pushed = [((), ⟨7, by decide⟩)] := by
  have hcall := reachable_oneSlot.step (.callPush _ () ⟨7, by decide⟩ rfl)
  have hfetched := hcall.step (.push _ () _ rfl)
  have hpushed := hfetched.step (.push _ () _ rfl)
  exact ⟨_, hpushed, rfl⟩

theorem pushed_eq_popped_add_held_one : ∃ s : QueueCalls (AtomicQueue oneSlot) Unit Unit,
    s.pushed = [((), ⟨7, by decide⟩)] ∧ (s.pushed.map fun x => x.2.val : Multiset Nat) =
      (s.popped.map fun x => x.2.val : Multiset Nat) + held s.queue.slots := by
  obtain ⟨s, hreachable, hpushed⟩ := exists_pushed
  exact ⟨s, hpushed,
    pushed_eq_popped_add_held (fun _ => inferInstance) (fun _ => inferInstance) hreachable⟩

/-- A pop that has its ticket, at an empty queue. -/
def starved : QueueCalls (AtomicQueue oneSlot) Unit Unit :=
  ⟨⟨0#32, 1#32, construct oneSlot⟩, fun _ => none, fun _ => some (.doPop 0#32 .exchange), [], []⟩

theorem reachable_starved : (QueueCalls.system (AtomicQueue oneSlot) Unit Unit).Reachable starved := by
  have hcall := reachable_oneSlot.step (.callPop _ () rfl)
  have hfetched := hcall.step (.pop _ () .fetchTail rfl)
  have hconsumers : starved.consumers =
      update (update (fun _ => none) () (some .fetchTail)) () (some (.doPop 0#32 .exchange)) := by
    funext c
    rfl
  rw [← show (⟨_, _, starved.consumers, _, _⟩ : QueueCalls (AtomicQueue oneSlot) Unit Unit) = starved from rfl,
    hconsumers]
  exact hfetched

theorem starved_stalled : starved.Stalled where
  producers _ _ h := by cases h
  consumers c call h := by
    obtain rfl := Option.some.inj h
    intro call' hreached
    have hspins : call' = .doPop 0#32 .exchange ∨ call' = .doPop 0#32 .spin := by
      refine hreached.invariant (P := fun call => call = .doPop 0#32 .exchange ∨ call = .doPop 0#32 .spin)
        ?_ (.inl rfl)
      rintro _ call'' (rfl | rfl) hagain
      · exact .inr (Round.again.inj hagain).symm
      · exact .inr (Round.again.inj hagain).symm
    obtain rfl | rfl := hspins
    · have hsame : update (construct oneSlot) (oneSlot.element 0#32) oneSlot.NIL = construct oneSlot :=
        update_eq_self_iff.2 (construct_eq _).symm
      exact ⟨congrArg (DerivedQueue.mk (D := AtomicQueue oneSlot) 0#32 1#32) hsame, _, rfl⟩
    · exact ⟨rfl, _, rfl⟩

theorem waits_for_good_starved : starved.producers () = none :=
  ((waits_for_good (fun _ => inferInstance) (fun _ => inferInstance) reachable_starved
    starved_stalled).1 ⟨(), Option.some_ne_none _⟩).1 ()

end AtomicQueue

end LuPlatform.Queue
