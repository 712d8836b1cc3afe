import LuPlatform.Library.SlotOrder

/-! One producer and one consumer. The tickets between theirs are those of the stored slots, one slot
each, and both go through the tickets in order; so the elements come out as they went in. -/

namespace LuPlatform.SlotTable

open Transition Function

variable {S T P C : Type}

/-- The slot that a producer waits for or works on. -/
def Producer.aim : Producer S T → Option S
  | .outside => none
  | .waiting i _ | .writing i _ | .written i _ => some i

/-- The slots of the tickets from the consumer's to the producer's are the stored ones, and hold what
was stored there. -/
structure InOrder (visit : Nat → S) (t : Table S T P C) : Prop where
  claimed : t.claimed.map Prod.snd <+: t.stored.map Prod.snd
  aim : ∀ p i, (t.producers p).aim = some i → i = visit t.stored.length
  held : ∀ n, t.claimed.length ≤ n → n < t.stored.length →
    t.states (visit n) = .stored ∧ (t.stored.map Prod.snd)[n]? = some (t.elements (visit n))
  mem : ∀ i, t.states i = .stored →
    ∃ n, t.claimed.length ≤ n ∧ n < t.stored.length ∧ visit n = i
  distinct : ∀ m n, t.claimed.length ≤ m → m < n → n < t.stored.length → visit m ≠ visit n

variable {visit : Nat → S} {t t' : Table S T P C}

theorem Initial.inOrder (h : Initial t) : InOrder visit t where
  claimed := by simp [h.claimed]
  aim p i hp := by simp [h.producers p, Producer.aim] at hp
  held n _ hn := by simp [h.stored] at hn
  mem i hi := by simp [h.states i] at hi
  distinct m n _ _ hn := by simp [h.stored] at hn

/-- What is done to slots that are not stored does not matter. -/
theorem InOrder.keep (h : InOrder visit t)
    (hstates : ∀ i, t'.states i = .stored ↔ t.states i = .stored)
    (helements : ∀ i, t.states i = .stored → t'.elements i = t.elements i)
    (hstored : t'.stored = t.stored) (hclaimed : t'.claimed = t.claimed)
    (haim : ∀ p i, (t'.producers p).aim = some i → i = visit t.stored.length) : InOrder visit t' where
  claimed := by
    rw [hclaimed, hstored]
    exact h.claimed
  aim := by
    rw [hstored]
    exact haim
  held n hlow hhigh := by
    rw [hclaimed] at hlow
    rw [hstored] at hhigh ⊢
    obtain ⟨hstate, helement⟩ := h.held n hlow hhigh
    rw [hstates, helements _ hstate]
    exact ⟨hstate, helement⟩
  mem i hi := by
    rw [hclaimed, hstored]
    exact h.mem i ((hstates i).mp hi)
  distinct := by
    rw [hclaimed, hstored]
    exact h.distinct

variable [DecidableEq S]

/-- The producer's slot is stored behind the others. -/
theorem InOrder.publish (h : InOrder visit t) {p : P} {i : S} {e : T} (hi : t.states i ≠ .stored)
    (hnext : i = visit t.stored.length) (he : t.elements i = e)
    (hstates : t'.states = update t.states i .stored) (helements : t'.elements = t.elements)
    (hstored : t'.stored = t.stored ++ [(p, e)]) (hclaimed : t'.claimed = t.claimed)
    (haim : ∀ p, (t'.producers p).aim = none) : InOrder visit t' := by
  have hlength : t'.stored.length = t.stored.length + 1 := by simp [hstored]
  have hother : ∀ n, t.claimed.length ≤ n → n < t.stored.length → visit n ≠ i := by
    rintro n hlow hhigh rfl
    exact hi (h.held n hlow hhigh).1
  have hcount : t.claimed.length ≤ t.stored.length := by simpa using h.claimed.length_le
  constructor
  · rw [hclaimed, hstored, List.map_append]
    exact h.claimed.trans (List.prefix_append _ _)
  · intro p i hp
    rw [haim p] at hp
    cases hp
  · intro n hlow hhigh
    rw [hclaimed] at hlow
    rw [hlength] at hhigh
    rw [hstates, helements, hstored, List.map_append]
    rcases Nat.lt_succ_iff_lt_or_eq.mp hhigh with hlt | rfl
    · obtain ⟨hstate, helement⟩ := h.held n hlow hlt
      rw [update_of_ne (hother n hlow hlt), List.getElem?_append_left (by simpa using hlt)]
      exact ⟨hstate, helement⟩
    · rw [← hnext, update_self, he]
      simp
  · intro j hj
    rw [hclaimed, hlength]
    by_cases hji : j = i
    · exact ⟨t.stored.length, hcount, Nat.lt_succ_self _, by rw [hji, hnext]⟩
    · rw [hstates, update_of_ne hji] at hj
      obtain ⟨n, hlow, hhigh, hn⟩ := h.mem j hj
      exact ⟨n, hlow, by omega, hn⟩
  · intro m n hlow hlt hhigh
    rw [hclaimed] at hlow
    rw [hlength] at hhigh
    rcases Nat.lt_succ_iff_lt_or_eq.mp hhigh with hinside | rfl
    · exact h.distinct m n hlow hlt hinside
    · rw [← hnext]
      exact hother m hlow hlt

/-- The consumer's slot is the first of the others. -/
theorem InOrder.claim (h : InOrder visit t) {c : C} {i : S} (hi : t.states i = .stored)
    (hnext : i = visit t.claimed.length) (hstates : t'.states = update t.states i .loading)
    (helements : t'.elements = t.elements) (hstored : t'.stored = t.stored)
    (hclaimed : t'.claimed = t.claimed ++ [(c, t.elements i)])
    (hproducers : t'.producers = t.producers) : InOrder visit t' := by
  have hlength : t'.claimed.length = t.claimed.length + 1 := by simp [hclaimed]
  have hleft : t.claimed.length < t.stored.length := by
    obtain ⟨n, hlow, hhigh, _⟩ := h.mem i hi
    omega
  have hother : ∀ n, t.claimed.length + 1 ≤ n → n < t.stored.length → visit n ≠ i := by
    intro n hlow hhigh heq
    exact h.distinct _ n le_rfl hlow hhigh (by rw [← hnext, heq])
  constructor
  · rw [hclaimed, hstored, List.map_append]
    obtain ⟨_, helement⟩ := h.held _ le_rfl hleft
    rw [← hnext] at helement
    have hsplit := (List.prefix_iff_eq_take.mp h.claimed)
    rw [List.length_map] at hsplit
    have hget : t.claimed.length < (t.stored.map Prod.snd).length := by simpa using hleft
    rw [List.getElem?_eq_getElem hget, Option.some.injEq] at helement
    have htake : t.claimed.map Prod.snd ++ [t.elements i] =
        (t.stored.map Prod.snd).take (t.claimed.length + 1) := by
      rw [List.take_succ_eq_append_getElem hget, ← hsplit, helement]
    simp only [List.map_cons, List.map_nil, htake]
    exact List.take_prefix _ _
  · rw [hproducers, hstored]
    exact h.aim
  · intro n hlow hhigh
    rw [hlength] at hlow
    rw [hstored] at hhigh ⊢
    rw [hstates, helements, update_of_ne (hother n hlow hhigh)]
    exact h.held n (by omega) hhigh
  · intro j hj
    have hji : j ≠ i := by
      rintro rfl
      simp [hstates] at hj
    rw [hstates, update_of_ne hji] at hj
    obtain ⟨n, hlow, hhigh, hn⟩ := h.mem j hj
    have hne : n ≠ t.claimed.length := by
      rintro rfl
      exact hji (hn.symm.trans hnext.symm)
    rw [hlength, hstored]
    exact ⟨n, by omega, hhigh, hn⟩
  · intro m n hlow hlt hhigh
    rw [hlength] at hlow
    rw [hstored] at hhigh
    exact h.distinct m n (by omega) hlt hhigh

variable [DecidableEq P] [DecidableEq C] [Subsingleton P]

theorem Step.inOrder (howned : Owned t) (hcounted : Counted t) (hnext : NextInLine visit t)
    (h : InOrder visit t) (hstep : Step visit t t') : InOrder visit t' := by
  cases hstep with
  | reserve p e hp =>
    refine h.keep (fun _ => Iff.rfl) (fun _ _ => rfl) rfl rfl fun q j hq => ?_
    obtain rfl := Subsingleton.elim p q
    have hreserved := hcounted.reserved
    rw [engaged_none fun q => by simp [Subsingleton.elim q p, hp], add_zero, Nat.cast_inj] at hreserved
    simp only [update_self, Producer.aim, Option.some.injEq] at hq
    rw [← hq, hreserved]
  | store p i e hp hi =>
    have hkeep := stored_update_iff t.states i .storing (by simp [hi]) (by decide)
    refine h.keep hkeep (fun _ _ => rfl) rfl rfl fun q j hq => ?_
    obtain rfl := Subsingleton.elim p q
    simp only [update_self, Producer.aim] at hq
    exact h.aim p j (by rw [hp, Producer.aim, hq])
  | write p i e hp =>
    refine h.keep (fun _ => Iff.rfl) (fun j hj => ?_) rfl rfl fun q j hq => ?_
    · have hi := howned.storing p i (by rw [hp, Producer.taken])
      exact update_elsewhere t.states (by simp [hi, hj]) t.elements e
    · obtain rfl := Subsingleton.elim p q
      simp only [update_self, Producer.aim] at hq
      exact h.aim p j (by rw [hp, Producer.aim, hq])
  | publish p i e hp =>
    have hi : t.states i ≠ .stored := by simp [howned.storing p i (by rw [hp, Producer.taken])]
    refine h.publish (p := p) hi (h.aim p i (by rw [hp, Producer.aim])) (howned.written p i e hp)
      rfl rfl rfl rfl fun q => ?_
    obtain rfl := Subsingleton.elim p q
    simp [Producer.aim]
  | await c hc => exact h.keep (fun _ => Iff.rfl) (fun _ _ => rfl) rfl rfl h.aim
  | claim c i hc hi => exact h.claim (c := c) hi (hnext c i hc) rfl rfl rfl rfl rfl
  | move c i hc => exact h.keep (fun _ => Iff.rfl) (fun _ _ => rfl) rfl rfl h.aim
  | clear c i e hc =>
    have hi := howned.loading c i (by rw [hc, Consumer.taken])
    have hkeep := stored_update_iff t.states i .empty (by simp [hi]) (by decide)
    exact h.keep hkeep (fun _ _ => rfl) rfl rfl h.aim

open TransitionSystem

variable [Subsingleton C]

theorem inOrder_of_reachable (h : (system S T P C visit).Reachable t) : InOrder visit t :=
  h.invariant (I := InOrder visit) (fun _ => Initial.inOrder) fun _ _ hreachable horder hstep =>
    Step.inOrder (owned_of_reachable hreachable) (counted_of_reachable hreachable)
      (nextInLine_of_reachable hreachable) horder hstep

/-- First in, first out. -/
theorem returned_prefix_stored [Fintype S] (h : (system S T P C visit).Reachable t) :
    t.returned.map Prod.snd <+: t.stored.map Prod.snd := by
  cases hempty : t.returned with
  | nil => simp
  | cons x returned =>
    rw [← hempty]
    exact (returned_initial h x.1).trans (inOrder_of_reachable h).claimed

end LuPlatform.SlotTable
