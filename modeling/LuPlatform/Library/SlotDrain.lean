import LuPlatform.Library.SlotOrder

/-! What is due before a last element. When the last element becomes stored in a slot that comes up
after all slots with elements that are due, a single consumer has claimed all that is due before it
claims the last element. -/

namespace LuPlatform.SlotTable

open Transition

variable {S T P C : Type} {visit : Nat → S} {due : Multiset T}

/-- What is due has been claimed or is in slots that come up before slot `i`. -/
def Covered (visit : Nat → S) (due : Multiset T) (t : Table S T P C) (i : S) : Prop :=
  ∃ slots : Finset S, (∀ j ∈ slots, t.states j = .stored ∧ Before visit t.claimed.length j i) ∧
    due ≤ (t.claimed.map Prod.snd : Multiset T) + ∑ j ∈ slots, {t.elements j}

/-- What is due is claimed before a last element is, or will be. -/
structure Draining (visit : Nat → S) (last : T → Prop) (due : Multiset T) (t : Table S T P C) :
    Prop where
  covered : ∀ i, t.states i = .stored → last (t.elements i) → Covered visit due t i
  claimed : (∃ x ∈ t.claimed, last x.2) → due ≤ (t.claimed.map Prod.snd : Multiset T)

/-- No last element becomes stored in a slot that comes up before one with an element that is due. -/
def LastInTurn (visit : Nat → S) (last : T → Prop) (due : Multiset T) (t t' : Table S T P C) : Prop :=
  ∀ i, t.states i ≠ .stored → t'.states i = .stored → last (t.elements i) →
    ∀ j, t.states j = .stored → t.elements j ∈ due → Before visit t.claimed.length j i

variable {last : T → Prop} {t t' : Table S T P C} {i : S}

theorem Covered.keep (h : Covered visit due t i)
    (hstates : ∀ j, t.states j = .stored → t'.states j = .stored ∧ t'.elements j = t.elements j)
    (hclaimed : t'.claimed = t.claimed) : Covered visit due t' i := by
  obtain ⟨slots, hslots, hdue⟩ := h
  refine ⟨slots, fun j hj => ⟨(hstates j (hslots j hj).1).1, ?_⟩, ?_⟩
  · rw [hclaimed]
    exact (hslots j hj).2
  · have hsum : ∑ j ∈ slots, ({t'.elements j} : Multiset T) = ∑ j ∈ slots, {t.elements j} :=
      Finset.sum_congr rfl fun j hj => by rw [(hstates j (hslots j hj).1).2]
    rwa [hclaimed, hsum]

/-- The consumer claims the slot that comes up. -/
theorem Covered.claim [DecidableEq S] (h : Covered visit due t i) {c : C} {k : S}
    (hnext : k = visit t.claimed.length) (hstates : t'.states = Function.update t.states k .loading)
    (helements : t'.elements = t.elements) (hclaimed : t'.claimed = t.claimed ++ [(c, t.elements k)]) :
    Covered visit due t' i := by
  obtain ⟨slots, hslots, hdue⟩ := h
  refine ⟨slots.erase k, fun j hj => ?_, ?_⟩
  · obtain ⟨hne, hmem⟩ := Finset.mem_erase.mp hj
    rw [hstates, Function.update_of_ne hne, hclaimed, List.length_append]
    exact ⟨(hslots j hmem).1, (hslots j hmem).2.succ (hnext ▸ hne)⟩
  · have hsplit : (t'.claimed.map Prod.snd : Multiset T) =
        (t.claimed.map Prod.snd : Multiset T) + {t.elements k} := by
      rw [hclaimed, List.map_append, ← Multiset.coe_add]
      rfl
    rw [hsplit, helements]
    by_cases hk : k ∈ slots
    · rwa [add_assoc, Finset.add_sum_erase slots (fun j => ({t.elements j} : Multiset T)) hk]
    · rw [Finset.erase_eq_of_notMem hk, add_right_comm]
      exact hdue.trans (Multiset.le_add_right _ _)

/-- Before the slot that comes up there is none. -/
theorem Covered.next (h : Covered visit due t (visit t.claimed.length)) :
    due ≤ (t.claimed.map Prod.snd : Multiset T) := by
  obtain ⟨slots, hslots, hdue⟩ := h
  have hnone : slots = ∅ := Finset.eq_empty_of_forall_notMem fun j hj => (hslots j hj).2.not_next
  rwa [hnone, Finset.sum_empty, add_zero] at hdue

section Stored

variable [Fintype S]

theorem covered_of_before [DecidableEq C] (honce : ExactlyOnce t)
    (hdue : due ≤ (t.stored.map Prod.snd : Multiset T))
    (hbefore : ∀ j, t.states j = .stored → t.elements j ∈ due → Before visit t.claimed.length j i) :
    Covered visit due t i := by
  classical
  set slots := Finset.univ.filter fun j => t.states j = .stored with hslots
  refine ⟨slots.filter fun j => t.elements j ∈ due, fun j hj => ?_, ?_⟩
  · obtain ⟨hj, hmem⟩ := Finset.mem_filter.mp hj
    have hstored := (Finset.mem_filter.mp hj).2
    exact ⟨hstored, hbefore j hstored hmem⟩
  -- the elements that are not due do not count
  · have hheld : t.held = ∑ j ∈ slots with t.elements j ∈ due, {t.elements j} +
        ∑ j ∈ slots with t.elements j ∉ due, {t.elements j} :=
      (Finset.sum_filter_add_sum_filter_not slots _ _).symm
    rw [honce.stored, hheld, ← add_assoc] at hdue
    refine Multiset.le_iff_count.mpr fun x => ?_
    have hcount := Multiset.le_iff_count.mp hdue x
    rw [Multiset.count_add] at hcount
    by_cases hx : x ∈ due
    · have hzero : Multiset.count x (∑ j ∈ slots with t.elements j ∉ due, {t.elements j}) = 0 := by
        rw [Multiset.count_sum', Finset.sum_eq_zero]
        intro j hj
        refine Multiset.count_eq_zero_of_notMem fun hmem => ?_
        rw [Multiset.mem_singleton.mp hmem] at hx
        exact (Finset.mem_filter.mp hj).2 hx
      rwa [hzero, add_zero] at hcount
    · rw [Multiset.count_eq_zero_of_notMem hx]
      exact Nat.zero_le _

/-- While no last element has been stored, anything may be due. -/
theorem draining_of_none [DecidableEq C] (honce : ExactlyOnce t) (hnone : ∀ x ∈ t.stored, ¬ last x.2) :
    Draining visit last due t := by
  have hmem : ∀ e, e ∈ (t.claimed.map Prod.snd : Multiset T) + t.held → ¬ last e := by
    intro e he
    rw [← honce.stored] at he
    obtain ⟨x, hx, rfl⟩ := List.mem_map.mp (Multiset.mem_coe.mp he)
    exact hnone x hx
  refine ⟨fun i hi hlast => ?_, ?_⟩
  · refine absurd hlast (hmem _ (Multiset.mem_add.mpr (.inr ?_)))
    exact Multiset.mem_sum.mpr ⟨i, Finset.mem_filter.mpr ⟨Finset.mem_univ i, hi⟩,
      Multiset.mem_singleton_self _⟩
  · rintro ⟨x, hx, hlast⟩
    exact absurd hlast (hmem _ (Multiset.mem_add.mpr (.inl (List.mem_map_of_mem hx))))

variable [DecidableEq S] [DecidableEq P] [DecidableEq C]

theorem Step.draining (howned : Owned t) (hnext : NextInLine visit t) (honce : ExactlyOnce t)
    (hdue : due ≤ (t.stored.map Prod.snd : Multiset T)) (h : Draining visit last due t)
    (hstep : Step visit t t') (hturn : LastInTurn visit last due t t') :
    Draining visit last due t' := by
  obtain ⟨hcovered, hclaimed⟩ := h
  cases hstep with
  | reserve p e hp => exact ⟨hcovered, hclaimed⟩
  | await c hc => exact ⟨hcovered, hclaimed⟩
  | move c i hc => exact ⟨hcovered, hclaimed⟩
  | store p i e hp hi =>
    have hkeep := stored_update_iff t.states i .storing (by simp [hi]) (by decide)
    refine ⟨fun k hk hlast => ?_, hclaimed⟩
    exact (hcovered k ((hkeep k).mp hk) hlast).keep (fun j hj => ⟨(hkeep j).mpr hj, rfl⟩) rfl
  | write p i e hp =>
    have hi := howned.storing p i (by rw [hp, Producer.taken])
    have hother : ∀ j, t.states j = .stored → Function.update t.elements i e j = t.elements j := by
      intro j hj
      exact update_elsewhere t.states (by simp [hi, hj]) t.elements e
    refine ⟨fun k hk hlast => ?_, hclaimed⟩
    have hlast' : last (t.elements k) := (hother k hk).subst hlast
    exact (hcovered k hk hlast').keep (fun j hj => ⟨hj, hother j hj⟩) rfl
  | publish p i e hp =>
    have hi : t.states i ≠ .stored := by simp [howned.storing p i (by rw [hp, Producer.taken])]
    have hkeep : ∀ j, t.states j = .stored → Function.update t.states i .stored j = .stored := by
      intro j hj
      rw [Function.update_apply]
      split
      · rfl
      · exact hj
    refine ⟨fun k hk hlast => ?_, hclaimed⟩
    have hcover : Covered visit due t k := by
      by_cases hki : k = i
      · subst hki
        exact covered_of_before honce hdue (hturn k hi (Function.update_self ..) hlast)
      · exact hcovered k (by simpa [hki] using hk) hlast
    exact hcover.keep (fun j hj => ⟨hkeep j hj, rfl⟩) rfl
  | claim c i hc hi =>
    have hvisit := hnext c i hc
    refine ⟨fun k hk hlast => ?_, ?_⟩
    · have hki : k ≠ i := by
        rintro rfl
        simp at hk
      simp only [Function.update_of_ne hki] at hk
      exact (hcovered k hk hlast).claim (c := c) hvisit rfl rfl rfl
    · rintro ⟨x, hx, hlast⟩
      have hmore : (t.claimed.map Prod.snd : Multiset T) ≤
          ((t.claimed ++ [(c, t.elements i)]).map Prod.snd : Multiset T) := by
        rw [List.map_append, ← Multiset.coe_add]
        exact Multiset.le_add_right _ _
      obtain hx | hx := List.mem_append.mp hx
      · exact (hclaimed ⟨x, hx, hlast⟩).trans hmore
      · obtain rfl := List.mem_singleton.mp hx
        have hcover := hcovered i hi hlast
        rw [hvisit] at hcover
        exact hcover.next.trans hmore
  | clear c i e hc =>
    have hi := howned.loading c i (by rw [hc, Consumer.taken])
    have hkeep := stored_update_iff t.states i .empty (by simp [hi]) (by decide)
    refine ⟨fun k hk hlast => ?_, hclaimed⟩
    exact (hcovered k ((hkeep k).mp hk) hlast).keep (fun j hj => ⟨(hkeep j).mpr hj, rfl⟩) rfl

end Stored

end LuPlatform.SlotTable
