import LuPlatform.Library.TransitionSystem
import Mathlib.Algebra.BigOperators.Group.Finset.Basic
import Mathlib.Algebra.BigOperators.Group.Multiset.Basic
import Mathlib.Data.Finset.Card
import Mathlib.Data.Set.Card

/-! Producers and consumers that hand elements over in slots. A ticket names the slot a thread waits
for; the thread takes the slot by setting its state, works on its element alone, and sets the state
again to pass the slot on. Nothing orders the threads that wait for one slot. Every element that was
stored is in a stored slot or with the one consumer that claimed it. -/

namespace LuPlatform.SlotTable

open Transition

inductive SlotState where
  | empty | storing | stored | loading
  deriving DecidableEq, Repr

/-- Where a producer stands with its element. -/
inductive Producer (S T : Type) where
  | outside
  | waiting (i : S) (element : T)
  | writing (i : S) (element : T)
  | written (i : S) (element : T)

inductive Consumer (S T : Type) where
  | outside
  | waiting (i : S)
  | moving (i : S)
  | moved (i : S) (element : T)

/-- The slots and the threads, and what has happened so far. -/
structure Table (S T P C : Type) where
  states : S → SlotState
  elements : S → T
  producers : P → Producer S T
  consumers : C → Consumer S T
  reserved : Nat
  awaited : Nat
  stored : List (P × T)
  claimed : List (C × T)
  returned : List (C × T)

variable {S T P C : Type}

section Steps

variable [DecidableEq S] [DecidableEq P] [DecidableEq C] (visit : Nat → S)

open Function in
/-- Ticket `n` is for the slot `visit n`. -/
inductive Step : Table S T P C → Table S T P C → Prop
  | reserve (t) (p : P) (e : T) : t.producers p = .outside →
      Step t { t with
        producers := update t.producers p (.waiting (visit t.reserved) e)
        reserved := t.reserved + 1 }
  | store (t) (p : P) (i : S) (e : T) : t.producers p = .waiting i e → t.states i = .empty →
      Step t { t with
        producers := update t.producers p (.writing i e)
        states := update t.states i .storing }
  | write (t) (p : P) (i : S) (e : T) : t.producers p = .writing i e →
      Step t { t with
        producers := update t.producers p (.written i e)
        elements := update t.elements i e }
  | publish (t) (p : P) (i : S) (e : T) : t.producers p = .written i e →
      Step t { t with
        producers := update t.producers p .outside
        states := update t.states i .stored
        stored := t.stored ++ [(p, e)] }
  | await (t) (c : C) : t.consumers c = .outside →
      Step t { t with
        consumers := update t.consumers c (.waiting (visit t.awaited))
        awaited := t.awaited + 1 }
  | claim (t) (c : C) (i : S) : t.consumers c = .waiting i → t.states i = .stored →
      Step t { t with
        consumers := update t.consumers c (.moving i)
        states := update t.states i .loading
        claimed := t.claimed ++ [(c, t.elements i)] }
  | move (t) (c : C) (i : S) : t.consumers c = .moving i →
      Step t { t with consumers := update t.consumers c (.moved i (t.elements i)) }
  | clear (t) (c : C) (i : S) (e : T) : t.consumers c = .moved i e →
      Step t { t with
        consumers := update t.consumers c .outside
        states := update t.states i .empty
        returned := t.returned ++ [(c, e)] }

end Steps

/-- All slots are empty and nobody has begun. -/
structure Initial (t : Table S T P C) : Prop where
  states : ∀ i, t.states i = .empty
  producers : ∀ p, t.producers p = .outside
  consumers : ∀ c, t.consumers c = .outside
  reserved : t.reserved = 0
  awaited : t.awaited = 0
  stored : t.stored = []
  claimed : t.claimed = []
  returned : t.returned = []

variable (S T P C) in
def system [DecidableEq S] [DecidableEq P] [DecidableEq C] (visit : Nat → S) :
    TransitionSystem (Table S T P C) :=
  ⟨Initial, Step visit⟩

section Once

variable [DecidableEq S] [DecidableEq P] [DecidableEq C] {visit : Nat → S} {t : Table S T P C}

open TransitionSystem Function

/-- A producer that puts its element into an empty slot in one go. -/
theorem reaches_put {p : P} {i : S} {e : T} (hp : t.producers p = .waiting i e)
    (hi : t.states i = .empty) :
    (system S T P C visit).Reaches t { t with
      producers := update t.producers p .outside
      states := update t.states i .stored
      elements := update t.elements i e
      stored := t.stored ++ [(p, e)] } := by
  have hstore : (system S T P C visit).Reaches t _ := .step (.refl t) (Step.store t p i e hp hi)
  have hwrite := hstore.step (Step.write _ p i e (update_self ..))
  have hpublish := hwrite.step (Step.publish _ p i e (update_self ..))
  simpa only [update_idem] using hpublish

theorem reaches_take {c : C} {i : S} (hc : t.consumers c = .waiting i) (hi : t.states i = .stored) :
    (system S T P C visit).Reaches t { t with
      consumers := update t.consumers c .outside
      states := update t.states i .empty
      claimed := t.claimed ++ [(c, t.elements i)]
      returned := t.returned ++ [(c, t.elements i)] } := by
  have hclaim : (system S T P C visit).Reaches t _ := .step (.refl t) (Step.claim t c i hc hi)
  have hmove := hclaim.step (Step.move _ c i (update_self ..))
  have hclear := hmove.step (Step.clear _ c i (t.elements i) (update_self ..))
  simpa only [update_idem] using hclear

end Once

/-! ### Ownership -/

/-- The slot a producer has taken. -/
def Producer.taken : Producer S T → Option S
  | .writing i _ | .written i _ => some i
  | _ => none

def Consumer.taken : Consumer S T → Option S
  | .moving i | .moved i _ => some i
  | _ => none

/-- A slot is worked on by the one thread that took it. -/
structure Owned (t : Table S T P C) : Prop where
  storing : ∀ p i, (t.producers p).taken = some i → t.states i = .storing
  storing_unique : ∀ p q i, (t.producers p).taken = some i → (t.producers q).taken = some i → p = q
  written : ∀ p i e, t.producers p = .written i e → t.elements i = e
  loading : ∀ c i, (t.consumers c).taken = some i → t.states i = .loading
  loading_unique : ∀ c d i, (t.consumers c).taken = some i → (t.consumers d).taken = some i → c = d
  moved : ∀ c i e, t.consumers c = .moved i e → t.elements i = e

theorem Initial.owned {t : Table S T P C} (h : Initial t) : Owned t where
  storing p i hp := by simp [h.producers p, Producer.taken] at hp
  storing_unique p q i hp := by simp [h.producers p, Producer.taken] at hp
  written p i e hp := by simp [h.producers p] at hp
  loading c i hc := by simp [h.consumers c, Consumer.taken] at hc
  loading_unique c d i hc := by simp [h.consumers c, Consumer.taken] at hc
  moved c i e hc := by simp [h.consumers c] at hc

section Steps

variable [DecidableEq S] [DecidableEq P] [DecidableEq C] {visit : Nat → S}

/-- What is done to a slot is not done to one in another state. -/
theorem update_elsewhere {A : Type} (states : S → SlotState) {i j : S} (h : states j ≠ states i)
    (f : S → A) (x : A) : Function.update f i x j = f j := by
  apply Function.update_of_ne
  rintro rfl
  exact h rfl

/-- A slot that is not stored before and after makes no difference to the stored ones. -/
theorem stored_update_iff (states : S → SlotState) (i : S) (x : SlotState)
    (hi : states i ≠ .stored) (hx : x ≠ .stored) (j : S) :
    Function.update states i x j = .stored ↔ states j = .stored := by
  by_cases hj : j = i
  · subst hj
    simp [hi, hx]
  · rw [Function.update_of_ne hj]

attribute [local grind =] Function.update_apply Producer.taken Consumer.taken

theorem Step.owned {t t' : Table S T P C} (h : Owned t) (hstep : Step visit t t') : Owned t' := by
  obtain ⟨hstoring, hunique, hwritten, hloading, hunique', hmoved⟩ := h
  have hwriter : ∀ p i e, t.producers p = .written i e → (t.producers p).taken = some i := by
    intro p i e hp
    rw [hp, Producer.taken]
  have hmover : ∀ c i e, t.consumers c = .moved i e → (t.consumers c).taken = some i := by
    intro c i e hc
    rw [hc, Consumer.taken]
  cases hstep with
  | reserve p e hp => constructor <;> simp only <;> grind
  | store p i e hp hi => constructor <;> simp only <;> grind
  | write p i e hp =>
    have hp' : (t.producers p).taken = some i := by rw [hp, Producer.taken]
    constructor <;> simp only <;> grind
  | publish p i e hp => constructor <;> simp only <;> grind
  | await c hc => constructor <;> simp only <;> grind
  | claim c i hc hi => constructor <;> simp only <;> grind
  | move c i hc => constructor <;> simp only <;> grind
  | clear c i e hc => constructor <;> simp only <;> grind

end Steps

/-! ### Nothing is lost, duplicated or overwritten -/

section Held

variable [Fintype S]

/-- The elements in the slots that are stored. -/
def Table.held (t : Table S T P C) : Multiset T := ∑ i with t.states i = .stored, {t.elements i}

def heldAt (t : Table S T P C) (i : S) : Multiset T :=
  if t.states i = .stored then {t.elements i} else 0

theorem held_eq (t : Table S T P C) : t.held = ∑ i, heldAt t i := Finset.sum_filter _ _

/-- Where one slot changes, its element goes or another one comes. -/
theorem held_change [DecidableEq S] {t u : Table S T P C} (i : S)
    (h : ∀ j, j ≠ i → u.states j = t.states j ∧ u.elements j = t.elements j) :
    u.held + heldAt t i = t.held + heldAt u i := by
  have hrest : ∑ j ∈ Finset.univ.erase i, heldAt u j = ∑ j ∈ Finset.univ.erase i, heldAt t j := by
    refine Finset.sum_congr rfl fun j hj => ?_
    obtain ⟨hstate, helement⟩ := h j (Finset.ne_of_mem_erase hj)
    rw [heldAt, heldAt, hstate, helement]
  rw [held_eq, held_eq, ← Finset.add_sum_erase _ _ (Finset.mem_univ i), hrest,
    ← Finset.add_sum_erase _ (heldAt t) (Finset.mem_univ i)]
  ac_rfl

/-- A slot that is stored neither before nor after does not matter. -/
theorem held_same [DecidableEq S] {t u : Table S T P C} (i : S)
    (h : ∀ j, j ≠ i → u.states j = t.states j ∧ u.elements j = t.elements j)
    (hi : t.states i ≠ .stored) (hi' : u.states i ≠ .stored) : u.held = t.held := by
  have hchange := held_change i h
  rwa [heldAt, if_neg hi, heldAt, if_neg hi', add_zero, add_zero] at hchange

theorem card_held (t : Table S T P C) :
    Multiset.card t.held = (Finset.univ.filter fun i => t.states i = .stored).card := by
  rw [Table.held, Multiset.card_sum, Finset.card_eq_sum_ones]
  rfl

end Held

section Claims

variable [DecidableEq C]

def Table.claimedBy (t : Table S T P C) (c : C) : List T :=
  (t.claimed.filter (·.1 = c)).map Prod.snd

def Table.returnedBy (t : Table S T P C) (c : C) : List T :=
  (t.returned.filter (·.1 = c)).map Prod.snd

/-- What a consumer has claimed and not returned yet. -/
def Table.inHand (t : Table S T P C) (c : C) : List T :=
  match t.consumers c with
  | .moving i => [t.elements i]
  | .moved _ e => [e]
  | _ => []

end Claims

theorem inHand_congr {t u : Table S T P C} {c : C} (h : u.consumers c = t.consumers c)
    (hmoving : ∀ i, t.consumers c = .moving i → u.elements i = t.elements i) :
    u.inHand c = t.inHand c := by
  unfold Table.inHand
  rw [h]
  cases hcase : t.consumers c with
  | moving i => exact congrArg (fun e => [e]) (hmoving i hcase)
  | _ => rfl

/-- Every element that was stored has been claimed by one consumer or is in a stored slot, and every
consumer returns what it claimed. -/
structure ExactlyOnce [Fintype S] [DecidableEq C] (t : Table S T P C) : Prop where
  stored : (t.stored.map Prod.snd : Multiset T) = (t.claimed.map Prod.snd : Multiset T) + t.held
  returned : ∀ c, t.claimedBy c = t.returnedBy c ++ t.inHand c

theorem Initial.exactlyOnce [Fintype S] [DecidableEq C] {t : Table S T P C} (h : Initial t) :
    ExactlyOnce t where
  stored := by
    rw [h.stored, h.claimed, Table.held, Finset.filter_false_of_mem fun i _ => by simp [h.states i]]
    rfl
  returned c := by
    simp [Table.claimedBy, Table.returnedBy, Table.inHand, h.claimed, h.returned, h.consumers c]

/-- A step that neither stores nor claims. -/
theorem ExactlyOnce.keep [Fintype S] [DecidableEq C] {t t' : Table S T P C} (h : ExactlyOnce t)
    (hstored : t'.stored = t.stored)
    (hclaimed : t'.claimed = t.claimed) (hheld : t'.held = t.held) :
    (t'.stored.map Prod.snd : Multiset T) = (t'.claimed.map Prod.snd : Multiset T) + t'.held := by
  rw [hstored, hclaimed, hheld, h.stored]

section Steps

variable [Fintype S] [DecidableEq S] [DecidableEq P] [DecidableEq C] {visit : Nat → S}

theorem Step.exactlyOnce_stored {t t' : Table S T P C} (howned : Owned t) (h : ExactlyOnce t)
    (hstep : Step visit t t') :
    (t'.stored.map Prod.snd : Multiset T) = (t'.claimed.map Prod.snd : Multiset T) + t'.held := by
  have hother : ∀ {β : Type} (f : S → β) (i : S) (x : β) (j : S), j ≠ i →
      Function.update f i x j = f j := fun f i x j hj => Function.update_of_ne hj x f
  cases hstep with
  | reserve p e hp => exact h.stored
  | store p i e hp hi =>
    refine h.keep rfl rfl (held_same i (fun j hj => ⟨hother _ i _ j hj, rfl⟩) ?_ ?_)
    · simp [hi]
    · simp
  | write p i e hp =>
    have hi := howned.storing p i (by rw [hp, Producer.taken])
    refine h.keep rfl rfl (held_same i (fun j hj => ⟨rfl, hother _ i _ j hj⟩) ?_ ?_)
    · simp [hi]
    · simp [hi]
  | publish p i e hp =>
    have hi := howned.storing p i (by rw [hp, Producer.taken])
    have hchange := held_change (t := t)
      (u := { t with
        producers := Function.update t.producers p .outside
        states := Function.update t.states i .stored
        stored := t.stored ++ [(p, e)] }) i fun j hj => ⟨hother _ i _ j hj, rfl⟩
    rw [heldAt, if_neg (by simp [hi]), heldAt, if_pos (Function.update_self ..), add_zero,
      howned.written p i e hp] at hchange
    rw [hchange, ← add_assoc, ← h.stored, List.map_append, ← Multiset.coe_add]
    rfl
  | await c hc => exact h.stored
  | claim c i hc hi =>
    have hchange := held_change (t := t)
      (u := { t with
        consumers := Function.update t.consumers c (.moving i)
        states := Function.update t.states i .loading
        claimed := t.claimed ++ [(c, t.elements i)] }) i fun j hj => ⟨hother _ i _ j hj, rfl⟩
    rw [heldAt, if_pos hi, heldAt, if_neg (by simp), add_zero] at hchange
    rw [h.stored, ← hchange, List.map_append, ← Multiset.coe_add, add_assoc]
    congr 1
    exact add_comm _ _
  | move c i hc => exact h.stored
  | clear c i e hc =>
    have hi := howned.loading c i (by rw [hc, Consumer.taken])
    refine h.keep rfl rfl (held_same i (fun j hj => ⟨hother _ i _ j hj, rfl⟩) ?_ ?_)
    · simp [hi]
    · simp

/-- Other consumers see nothing of what one does with its own slot. -/
theorem Step.exactlyOnce_returned {t t' : Table S T P C} (howned : Owned t) (h : ExactlyOnce t)
    (hstep : Step visit t t') (c : C) : t'.claimedBy c = t'.returnedBy c ++ t'.inHand c := by
  have hc := h.returned c
  cases hstep with
  | reserve p e hp => exact hc
  | store p i e hp hi => exact hc
  | publish p i e hp => exact hc
  | write p i e hp =>
    have hi := howned.storing p i (by rw [hp, Producer.taken])
    have hhand : ∀ j, t.consumers c = .moving j → Function.update t.elements i e j = t.elements j := by
      intro j hj
      have hloading := howned.loading c j (by rw [hj, Consumer.taken])
      exact update_elsewhere t.states (by simp [hi, hloading]) t.elements e
    rw [← inHand_congr (t := t) (u := { t with
      producers := Function.update t.producers p (.written i e)
      elements := Function.update t.elements i e }) rfl hhand] at hc
    exact hc
  | await d hd =>
    by_cases hcd : c = d
    · subst hcd
      simpa [Table.claimedBy, Table.returnedBy, Table.inHand, hd] using hc
    · simpa [Table.claimedBy, Table.returnedBy, Table.inHand, Function.update_of_ne hcd] using hc
  | claim d i hd hi =>
    by_cases hcd : c = d
    · subst hcd
      have hbefore : t.claimedBy c = t.returnedBy c := by simpa [Table.inHand, hd] using hc
      simpa [Table.claimedBy, Table.returnedBy, Table.inHand] using hbefore
    · have hdc : ¬ d = c := fun heq => hcd heq.symm
      simpa [Table.claimedBy, Table.returnedBy, Table.inHand, Function.update_of_ne hcd, hdc] using hc
  | move d i hd =>
    by_cases hcd : c = d
    · subst hcd
      simpa [Table.claimedBy, Table.returnedBy, Table.inHand, hd] using hc
    · simpa [Table.claimedBy, Table.returnedBy, Table.inHand, Function.update_of_ne hcd] using hc
  | clear d i e hd =>
    by_cases hcd : c = d
    · subst hcd
      simpa [Table.claimedBy, Table.returnedBy, Table.inHand, hd] using hc
    · have hdc : ¬ d = c := fun heq => hcd heq.symm
      simpa [Table.claimedBy, Table.returnedBy, Table.inHand, Function.update_of_ne hcd, hdc] using hc

theorem Step.exactlyOnce {t t' : Table S T P C} (howned : Owned t) (h : ExactlyOnce t)
    (hstep : Step visit t t') : ExactlyOnce t' :=
  ⟨hstep.exactlyOnce_stored howned h, hstep.exactlyOnce_returned howned h⟩

end Steps

/-! ### All consumers -/

section Consumers

variable [Fintype C] [DecidableEq C]

/-- A list of what consumers did, consumer by consumer. -/
theorem map_snd_eq_sum (l : List (C × T)) :
    (l.map Prod.snd : Multiset T) = ∑ c, ((l.filter (·.1 = c)).map Prod.snd : Multiset T) := by
  induction l with
  | nil => simp
  | cons x l ih =>
    have hone : ∀ c, (((x :: l).filter (·.1 = c)).map Prod.snd : Multiset T) =
        (if x.1 = c then {x.2} else 0) + ((l.filter (·.1 = c)).map Prod.snd : Multiset T) := by
      intro c
      by_cases hc : x.1 = c
      · rw [List.filter_cons_of_pos (by simpa using hc), if_pos hc]
        rfl
      · rw [List.filter_cons_of_neg (by simpa using hc), if_neg hc, zero_add]
    rw [Finset.sum_congr rfl fun c _ => hone c, Finset.sum_add_distrib, ← ih,
      Finset.sum_ite_eq Finset.univ x.1, if_pos (Finset.mem_univ _)]
    rfl

/-- Every element that was stored has been returned once, or a consumer has it in hand, or it is in a
stored slot. -/
theorem ExactlyOnce.stored_eq [Fintype S] {t : Table S T P C} (h : ExactlyOnce t) :
    (t.stored.map Prod.snd : Multiset T) =
      (t.returned.map Prod.snd : Multiset T) + ∑ c, (t.inHand c : Multiset T) + t.held := by
  have hclaimed : ∀ c, (t.claimedBy c : Multiset T) = (t.returnedBy c : Multiset T) + t.inHand c := by
    intro c
    rw [h.returned c, Multiset.coe_add]
  rw [h.stored, map_snd_eq_sum t.claimed, map_snd_eq_sum t.returned, ← Finset.sum_add_distrib]
  congr 1
  exact Finset.sum_congr rfl fun c _ => hclaimed c

end Consumers

/-! ### Tickets -/

section Engaged

variable {Q A : Type} {D : A → Prop} {f : Q → A} {q : Q} {x : A}

/-- How many threads stand where `D` says. -/
noncomputable def engaged (D : A → Prop) (f : Q → A) : ℕ∞ := {q | D (f q)}.encard

theorem engaged_none (h : ∀ q, ¬ D (f q)) : engaged D f = 0 := by
  simp [engaged, h]

theorem engaged_le_card [Finite Q] : engaged D f ≤ Nat.card Q := by
  rw [engaged, ← (Set.toFinite _).cast_ncard_eq]
  exact_mod_cast Set.ncard_le_card _

theorem engaged_full [Finite Q] (h : engaged D f = Nat.card Q) (q : Q) : D (f q) := by
  have huniv : {q | D (f q)} = Set.univ := by
    apply (Set.toFinite _).eq_of_subset_of_encard_le (Set.subset_univ _)
    rw [← engaged, h, ← Set.finite_univ.cast_ncard_eq, Set.ncard_univ]
  have hq : q ∈ {q | D (f q)} := huniv ▸ Set.mem_univ q
  exact hq

variable [DecidableEq Q]

theorem engaged_same (h : D x ↔ D (f q)) : engaged D (Function.update f q x) = engaged D f := by
  unfold engaged
  congr 1
  ext r
  by_cases hr : r = q
  · subst hr
    simp [h]
  · simp [Function.update_of_ne hr]

theorem engaged_begin (hq : ¬ D (f q)) (hx : D x) :
    engaged D (Function.update f q x) = engaged D f + 1 := by
  unfold engaged
  rw [← Set.encard_insert_of_notMem (a := q) (by simpa using hq)]
  congr 1
  ext r
  by_cases hr : r = q
  · subst hr
    simp [hx]
  · simp [hr]

theorem engaged_finish (hq : D (f q)) (hx : ¬ D x) :
    engaged D f = engaged D (Function.update f q x) + 1 := by
  have hbegin := engaged_begin (f := Function.update f q x) (q := q) (x := f q)
    (by simpa using hx) hq
  rwa [Function.update_idem, Function.update_eq_self] at hbegin

end Engaged

/-- Every ticket has led to an element, or its thread still waits for the slot or works on it. -/
structure Counted (t : Table S T P C) : Prop where
  reserved : (t.reserved : ℕ∞) = t.stored.length + engaged (· ≠ .outside) t.producers
  awaited : (t.awaited : ℕ∞) = t.claimed.length + engaged (∃ i, · = .waiting i) t.consumers

theorem Initial.counted {t : Table S T P C} (h : Initial t) : Counted t where
  reserved := by
    rw [engaged_none (by simp [h.producers]), h.reserved, h.stored]
    rfl
  awaited := by
    rw [engaged_none (by simp [h.consumers]), h.awaited, h.claimed]
    rfl

section Steps

variable [DecidableEq S] [DecidableEq P] [DecidableEq C] {visit : Nat → S}

theorem Step.counted {t t' : Table S T P C} (h : Counted t) (hstep : Step visit t t') :
    Counted t' := by
  obtain ⟨hreserved, hawaited⟩ := h
  cases hstep with
  | reserve p e hp =>
    refine ⟨?_, hawaited⟩
    rw [engaged_begin (by simp [hp]) (by simp), ← add_assoc, ← hreserved]
    exact Nat.cast_succ _
  | store p i e hp hi => exact ⟨by rwa [engaged_same (by simp [hp])], hawaited⟩
  | write p i e hp => exact ⟨by rwa [engaged_same (by simp [hp])], hawaited⟩
  | publish p i e hp =>
    refine ⟨?_, hawaited⟩
    rw [engaged_finish (q := p) (x := .outside) (by simp [hp]) (by simp)] at hreserved
    rw [hreserved, List.length_append, List.length_singleton, Nat.cast_succ, add_assoc, add_comm 1]
  | await c hc =>
    refine ⟨hreserved, ?_⟩
    rw [engaged_begin (by simp [hc]) (by simp), ← add_assoc, ← hawaited]
    exact Nat.cast_succ _
  | claim c i hc hi =>
    refine ⟨hreserved, ?_⟩
    rw [engaged_finish (q := c) (x := .moving i) (by simp [hc]) (by simp)] at hawaited
    rw [hawaited, List.length_append, List.length_singleton, Nat.cast_succ, add_assoc, add_comm 1]
  | move c i hc => exact ⟨hreserved, by rwa [engaged_same (by simp [hc])]⟩
  | clear c i e hc => exact ⟨hreserved, by rwa [engaged_same (by simp [hc])]⟩

end Steps

/-! ### All runs -/

section Runs

variable [DecidableEq S] [DecidableEq P] [DecidableEq C] {visit : Nat → S} {t : Table S T P C}

open TransitionSystem

theorem owned_of_reachable (h : (system S T P C visit).Reachable t) : Owned t :=
  h.invariant (I := Owned) (fun _ => Initial.owned) fun _ _ _ howned hstep => Step.owned howned hstep

theorem exactlyOnce_of_reachable [Fintype S] (h : (system S T P C visit).Reachable t) :
    ExactlyOnce t :=
  h.invariant (I := ExactlyOnce) (fun _ => Initial.exactlyOnce) fun _ _ hreachable honce hstep =>
    Step.exactlyOnce (owned_of_reachable hreachable) honce hstep

theorem counted_of_reachable (h : (system S T P C visit).Reachable t) : Counted t :=
  h.invariant (I := Counted) (fun _ => Initial.counted) fun _ _ _ hcounted hstep =>
    Step.counted hcounted hstep

/-- Nobody works: the tickets that no consumer has taken are those of the stored slots. -/
theorem reserved_of_idle [Fintype S] (h : (system S T P C visit).Reachable t)
    (hproducers : ∀ p, t.producers p = .outside) (hconsumers : ∀ c, t.consumers c = .outside) :
    t.reserved = t.awaited + (Finset.univ.filter fun i => t.states i = .stored).card := by
  obtain ⟨hreserved, hawaited⟩ := counted_of_reachable h
  rw [engaged_none (by simp [hproducers]), add_zero, Nat.cast_inj] at hreserved
  rw [engaged_none (by simp [hconsumers]), add_zero, Nat.cast_inj] at hawaited
  have hcard := congrArg Multiset.card (exactlyOnce_of_reachable h).stored
  rw [Multiset.card_add, card_held, Multiset.coe_card, Multiset.coe_card, List.length_map,
    List.length_map] at hcard
  rw [hreserved, hawaited, hcard]

end Runs

end LuPlatform.SlotTable
