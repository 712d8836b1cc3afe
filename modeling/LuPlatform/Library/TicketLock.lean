import LuPlatform.Library.SlotTable

/-! A lock that serves its customers by number. Numbers are drawn in order and never wrap here: this is
what a lock with counters of some width implements. -/

namespace LuPlatform.TicketLock

open Transition TransitionSystem SlotTable

inductive Customer where
  | outside
  | waiting (number : Nat)
  | holding (number : Nat)
  deriving DecidableEq, Repr

def Customer.Waits : Customer → Prop
  | .waiting _ => True
  | _ => False

def Customer.Holds : Customer → Prop
  | .holding _ => True
  | _ => False

structure Lock (I : Type) where
  drawn : Nat := 0
  served : Nat := 0
  customers : I → Customer := fun _ => .outside
  admitted : List Nat := []

section Steps

variable {I : Type} [DecidableEq I]

inductive Step (t : Lock I) : Lock I → Prop
  | draw (i : I) (hi : t.customers i = .outside) :
      Step t { t with
        drawn := t.drawn + 1
        customers := Function.update t.customers i (.waiting t.drawn) }
  | enter (i : I) (hi : t.customers i = .waiting t.served) :
      Step t { t with
        customers := Function.update t.customers i (.holding t.served)
        admitted := t.admitted ++ [t.served] }
  | leave (i : I) (number : Nat) (hi : t.customers i = .holding number) :
      Step t { t with
        served := number + 1
        customers := Function.update t.customers i .outside }

def system : TransitionSystem (Lock I) where
  Initial t := t = {}
  Step := Step

/-- The numbers from the next one to be admitted up to the last one drawn have a waiting customer
each, and whoever holds the lock was admitted last. -/
structure Orderly (t : Lock I) : Prop where
  admitted : t.admitted = List.range t.admitted.length
  free : (∀ i, ¬ (t.customers i).Holds) → t.served = t.admitted.length
  holding : ∀ i number, t.customers i = .holding number →
    number = t.served ∧ t.admitted.length = t.served + 1
  exclusive : ∀ i j, (t.customers i).Holds → (t.customers j).Holds → i = j
  waiting : ∀ i number, t.customers i = .waiting number →
    t.admitted.length ≤ number ∧ number < t.drawn
  everyone : ∀ number, t.admitted.length ≤ number → number < t.drawn →
    ∃ i, t.customers i = .waiting number
  distinct : ∀ i j number, t.customers i = .waiting number → t.customers j = .waiting number → i = j
  counted : (t.drawn : ℕ∞) = t.admitted.length + engaged Customer.Waits t.customers

theorem Customer.holds_iff {c : Customer} : c.Holds ↔ ∃ number, c = .holding number := by
  cases c <;> simp [Holds]

omit [DecidableEq I] in
theorem Orderly.initial : Orderly ({} : Lock I) := by
  refine ⟨rfl, fun _ => rfl, ?_, ?_, ?_, ?_, ?_, ?_⟩
  · simp
  · simp [Customer.Holds]
  · simp
  · simp
  · simp
  · rw [engaged_none (by simp [Customer.Waits])]
    rfl

theorem Orderly.draw {t : Lock I} (h : Orderly t) {i : I} (hi : t.customers i = .outside) :
    Orderly { t with
      drawn := t.drawn + 1
      customers := Function.update t.customers i (.waiting t.drawn) } := by
  have hle : t.admitted.length ≤ t.drawn := by
    have hcounted := h.counted
    have : (t.admitted.length : ℕ∞) ≤ t.drawn := hcounted ▸ le_self_add
    exact_mod_cast this
  refine ⟨h.admitted, ?_, ?_, ?_, ?_, ?_, ?_, ?_⟩
  · intro hfree
    apply h.free
    intro j
    have := hfree j
    grind [Function.update_apply, Customer.Holds]
  · have := h.holding
    grind [Function.update_apply]
  · have := h.exclusive
    grind [Function.update_apply, Customer.Holds]
  · have := h.waiting
    grind [Function.update_apply]
  · intro number hfrom hto
    by_cases hlast : number = t.drawn
    · exact ⟨i, by simp [hlast]⟩
    · obtain ⟨j, hj⟩ := h.everyone number hfrom (by simp at hto; omega)
      exact ⟨j, by grind [Function.update_apply]⟩
  · have := h.distinct
    have := h.waiting
    grind [Function.update_apply]
  · rw [engaged_begin (by simp [hi, Customer.Waits]) (by simp [Customer.Waits]), ← add_assoc,
      ← h.counted, Nat.cast_add, Nat.cast_one]

theorem Orderly.enter {t : Lock I} (h : Orderly t) {i : I}
    (hi : t.customers i = .waiting t.served) :
    Orderly { t with
      customers := Function.update t.customers i (.holding t.served)
      admitted := t.admitted ++ [t.served] } := by
  -- a customer whose number is served waits for nobody
  have hnobody : ∀ j, ¬ (t.customers j).Holds := by
    intro j hj
    obtain ⟨number, hj⟩ := Customer.holds_iff.1 hj
    have hholding := h.holding j number hj
    have hwaiting := h.waiting i t.served hi
    omega
  have hserved := h.free hnobody
  refine ⟨?_, ?_, ?_, ?_, ?_, ?_, ?_, ?_⟩
  · have hadmitted := h.admitted
    rw [List.length_append, List.length_singleton, List.range_succ, ← hserved]
    rw [← hserved] at hadmitted
    rw [← hadmitted]
  · intro hfree
    have := hfree i
    simp [Customer.Holds] at this
  · simp only [Customer.holds_iff, not_exists] at hnobody
    grind [Function.update_apply]
  · grind [Function.update_apply, Customer.Holds]
  · have := h.waiting
    have := h.distinct
    grind [Function.update_apply]
  · intro number hfrom hto
    simp only [List.length_append, List.length_singleton] at hfrom
    obtain ⟨j, hj⟩ := h.everyone number (by omega) hto
    exact ⟨j, by grind [Function.update_apply]⟩
  · have := h.distinct
    grind [Function.update_apply]
  · have hcounted := h.counted
    rw [engaged_finish (q := i) (x := .holding t.served) (by simp [hi, Customer.Waits])
      (by simp [Customer.Waits])] at hcounted
    rw [hcounted, List.length_append, List.length_singleton, Nat.cast_add, Nat.cast_one, add_assoc,
      add_comm (1 : ℕ∞)]

theorem Orderly.leave {t : Lock I} (h : Orderly t) {i : I} {number : Nat}
    (hi : t.customers i = .holding number) :
    Orderly { t with
      served := number + 1
      customers := Function.update t.customers i .outside } := by
  obtain ⟨rfl, hlast⟩ := h.holding i number hi
  -- nobody else holds the lock
  have halone : ∀ j, (Function.update t.customers i .outside j).Holds → False := by
    have := h.exclusive
    grind [Function.update_apply, Customer.Holds]
  refine ⟨h.admitted, fun _ => hlast.symm, ?_, ?_, ?_, ?_, ?_, ?_⟩
  · intro j other hj
    exact (halone j (Customer.holds_iff.2 ⟨other, hj⟩)).elim
  · intro j k hj
    exact (halone j hj).elim
  · have := h.waiting
    grind [Function.update_apply]
  · intro other hfrom hto
    obtain ⟨j, hj⟩ := h.everyone other hfrom hto
    exact ⟨j, by grind [Function.update_apply]⟩
  · have := h.distinct
    grind [Function.update_apply]
  · rw [engaged_same (by simp [hi, Customer.Waits])]
    exact h.counted

theorem Orderly.step {t t' : Lock I} (h : Orderly t) (hstep : Step t t') : Orderly t' := by
  cases hstep with
  | draw i hi => exact h.draw hi
  | enter i hi => exact h.enter hi
  | leave i number hi => exact h.leave hi

theorem orderly_of_reachable {t : Lock I} (h : system.Reachable t) : Orderly t := by
  apply Reachable.invariant _ _ h
  · intro t hinitial
    exact hinitial ▸ Orderly.initial
  · intro t t' _ ht hstep
    exact ht.step hstep

omit [DecidableEq I] in
/-- With nobody holding the lock, the number served is that of the first customer who waits. -/
theorem Orderly.next_waits {t : Lock I} (h : Orderly t)
    (hfree : ∀ i, ¬ (t.customers i).Holds) {i : I} {number : Nat}
    (hi : t.customers i = .waiting number) : ∃ j, t.customers j = .waiting t.served := by
  have hserved := h.free hfree
  have hwaiting := h.waiting i number hi
  apply h.everyone <;> omega

omit [DecidableEq I] in
/-- The lock serves the customer admitted last or the one to be admitted next. -/
theorem Orderly.served_near {t : Lock I} (h : Orderly t) :
    t.served ≤ t.admitted.length ∧ t.admitted.length ≤ t.served + 1 := by
  by_cases hfree : ∀ i, ¬ (t.customers i).Holds
  · have := h.free hfree
    omega
  · simp only [not_forall, not_not, Customer.holds_iff] at hfree
    obtain ⟨i, number, hi⟩ := hfree
    have := h.holding i number hi
    omega

omit [DecidableEq I] in
/-- A customer's turn is nearer than the number of those who wait. -/
theorem Orderly.waiting_near {t : Lock I} (h : Orderly t) {bound : Nat}
    (hfew : engaged Customer.Waits t.customers < bound) {i : I} {number : Nat}
    (hi : t.customers i = .waiting number) : t.served ≤ number ∧ number < t.served + bound := by
  have hwaiting := h.waiting i number hi
  have hnear := h.served_near
  have hdrawn : t.drawn < t.admitted.length + bound := by
    have hlt : (t.drawn : ℕ∞) < t.admitted.length + bound := by
      rw [h.counted]
      exact (ENat.add_lt_add_iff_left (ENat.natCast_ne_top _)).2 hfew
    exact_mod_cast hlt
  omega

end Steps

end LuPlatform.TicketLock
