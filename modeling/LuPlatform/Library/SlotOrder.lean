import LuPlatform.Library.SlotTable

/-! The order in which a single consumer meets the elements of one sender. It takes the slots in the
order of its tickets, so what counts is that an element goes into a slot that comes up after those
that still hold earlier elements of its sender. -/

namespace LuPlatform.SlotTable

open Transition

variable {S T P C A : Type}

/-- From ticket `k` on, slot `j` comes up before slot `i` does. -/
def Before (visit : Nat → S) (k : Nat) (j i : S) : Prop :=
  ∀ n, k ≤ n → visit n = i → ∃ m, k ≤ m ∧ m < n ∧ visit m = j

theorem Before.not_next {visit : Nat → S} {k : Nat} {j : S} : ¬ Before visit k j (visit k) := by
  intro h
  obtain ⟨m, hle, hlt, _⟩ := h k le_rfl rfl
  omega

theorem Before.succ {visit : Nat → S} {k : Nat} {j i : S} (h : Before visit k j i)
    (hj : j ≠ visit k) : Before visit (k + 1) j i := by
  intro n hn hi
  obtain ⟨m, hle, hlt, hm⟩ := h n (by omega) hi
  have hne : m ≠ k := by
    rintro rfl
    exact hj hm.symm
  exact ⟨m, by omega, hlt, hm⟩

/-- A slot that becomes stored comes up after those that hold elements of the same sender. -/
def InTurn (visit : Nat → S) (sender : T → A) (t t' : Table S T P C) : Prop :=
  ∀ i, t.states i ≠ .stored → t'.states i = .stored →
    ∀ j, t.states j = .stored → sender (t.elements j) = sender (t.elements i) →
      Before visit t.claimed.length j i

/-! ### One consumer -/

section Single

variable [DecidableEq S] [DecidableEq P] [DecidableEq C] [Subsingleton C] {visit : Nat → S}

/-- The consumer waits for the slot that comes up next. -/
def NextInLine (visit : Nat → S) (t : Table S T P C) : Prop :=
  ∀ c i, t.consumers c = .waiting i → i = visit t.claimed.length

theorem Step.nextInLine {t t' : Table S T P C} (hcounted : Counted t) (h : NextInLine visit t)
    (hstep : Step visit t t') : NextInLine visit t' := by
  intro d j hd
  cases hstep with
  | reserve p e hp => exact h d j hd
  | store p i e hp hi => exact h d j hd
  | write p i e hp => exact h d j hd
  | publish p i e hp => exact h d j hd
  | await c hc =>
    obtain rfl := Subsingleton.elim c d
    have hawaited := hcounted.awaited
    rw [engaged_none fun q => by simp [Subsingleton.elim q c, hc], add_zero, Nat.cast_inj] at hawaited
    simp only [Function.update_self, Consumer.waiting.injEq] at hd
    rw [← hd, hawaited]
  | claim c i hc hi =>
    obtain rfl := Subsingleton.elim c d
    simp at hd
  | move c i hc =>
    obtain rfl := Subsingleton.elim c d
    simp at hd
  | clear c i e hc =>
    obtain rfl := Subsingleton.elim c d
    simp at hd

theorem nextInLine_of_reachable {t : Table S T P C} (h : (system S T P C visit).Reachable t) :
    NextInLine visit t :=
  h.invariant (I := NextInLine visit) (fun s hs c i hc => by simp [hs.consumers c] at hc)
    fun _ _ hreachable hnext hstep => Step.nextInLine (counted_of_reachable hreachable) hnext hstep

end Single

/-! ### The stored slots of one sender -/

section Queued

variable [DecidableEq A] {visit : Nat → S} {sender : T → A}

/-- The slots that hold elements of sender `a`, in the order in which they come up, are what is stored
of it and not yet claimed. -/
structure Queued (visit : Nat → S) (sender : T → A) (t : Table S T P C) (a : A) (slots : List S) :
    Prop where
  nodup : slots.Nodup
  mem : ∀ j, j ∈ slots ↔ t.states j = .stored ∧ sender (t.elements j) = a
  order : slots.Pairwise (Before visit t.claimed.length)
  stored : (t.stored.map Prod.snd).filter (sender · = a) =
    (t.claimed.map Prod.snd).filter (sender · = a) ++ slots.map t.elements

def Ordered (visit : Nat → S) (sender : T → A) (t : Table S T P C) : Prop :=
  ∀ a, ∃ slots, Queued visit sender t a slots

theorem Initial.ordered {t : Table S T P C} (h : Initial t) : Ordered visit sender t := by
  intro a
  refine ⟨[], List.nodup_nil, fun j => by simp [h.states j], List.Pairwise.nil, ?_⟩
  simp [h.stored, h.claimed]

variable {t t' : Table S T P C} {a : A} {slots : List S}

/-- What is done to a slot that is not stored does not matter. -/
theorem Queued.keep (h : Queued visit sender t a slots)
    (hstates : ∀ j, t'.states j = .stored ↔ t.states j = .stored)
    (helements : ∀ j, t.states j = .stored → t'.elements j = t.elements j)
    (hstored : t'.stored = t.stored) (hclaimed : t'.claimed = t.claimed) :
    Queued visit sender t' a slots where
  nodup := h.nodup
  mem j := by
    rw [h.mem, hstates]
    refine and_congr_right fun hj => ?_
    rw [helements j hj]
  order := by
    rw [hclaimed]
    exact h.order
  stored := by
    have hmap : slots.map t'.elements = slots.map t.elements :=
      List.map_congr_left fun j hj => helements j ((h.mem j).mp hj).1
    rw [hstored, hclaimed, hmap]
    exact h.stored

variable [DecidableEq S]

theorem Queued.publish (h : Queued visit sender t a slots) {p : P} {i : S} {e : T}
    (hi : t.states i ≠ .stored) (he : t.elements i = e)
    (hturn : sender e = a → ∀ j, t.states j = .stored → sender (t.elements j) = a →
      Before visit t.claimed.length j i)
    (hstates : t'.states = Function.update t.states i .stored) (helements : t'.elements = t.elements)
    (hstored : t'.stored = t.stored ++ [(p, e)]) (hclaimed : t'.claimed = t.claimed) :
    ∃ slots', Queued visit sender t' a slots' := by
  have hnew : i ∉ slots := fun hmem => hi ((h.mem i).mp hmem).1
  by_cases ha : sender e = a
  · refine ⟨slots ++ [i], ?_, fun j => ?_, ?_, ?_⟩
    · exact List.nodup_append.mpr ⟨h.nodup, List.nodup_singleton i, by
        rintro j hj k hk rfl
        exact hnew (List.mem_singleton.mp hk ▸ hj)⟩
    · rw [List.mem_append, List.mem_singleton, h.mem, hstates, helements]
      by_cases hj : j = i
      · subst hj
        simp [he, ha]
      · simp [hj]
    · rw [hclaimed, List.pairwise_append]
      refine ⟨h.order, List.pairwise_singleton _ _, fun j hj k hk => ?_⟩
      obtain rfl := List.mem_singleton.mp hk
      obtain ⟨hj, hsender⟩ := (h.mem j).mp hj
      exact hturn ha j hj hsender
    · rw [hstored, hclaimed, helements, List.map_append, List.filter_append, h.stored]
      simp [ha, he]
  · refine ⟨slots, h.nodup, fun j => ?_, ?_, ?_⟩
    · rw [h.mem, hstates, helements]
      by_cases hj : j = i
      · subst hj
        simp [hi, he, ha]
      · simp [hj]
    · rw [hclaimed]
      exact h.order
    · rw [hstored, hclaimed, helements, List.map_append, List.filter_append, h.stored]
      simp [ha]

/-- The slot that comes up is the first one of its sender. -/
theorem Queued.claim (h : Queued visit sender t a slots) {c : C} {i : S} (hi : t.states i = .stored)
    (hnext : i = visit t.claimed.length)
    (hstates : t'.states = Function.update t.states i .loading)
    (helements : t'.elements = t.elements) (hstored : t'.stored = t.stored)
    (hclaimed : t'.claimed = t.claimed ++ [(c, t.elements i)]) :
    ∃ slots', Queued visit sender t' a slots' := by
  have hlength : t'.claimed.length = t.claimed.length + 1 := by simp [hclaimed]
  by_cases ha : sender (t.elements i) = a
  · have hmem : i ∈ slots := (h.mem i).mpr ⟨hi, ha⟩
    cases slots with
    | nil => cases hmem
    | cons j slots =>
      have horder := List.pairwise_cons.mp h.order
      obtain rfl : j = i := by
        by_contra hne
        have hbefore := horder.1 i ((List.mem_cons.mp hmem).resolve_left fun heq => hne heq.symm)
        rw [hnext] at hbefore
        exact hbefore.not_next
      have hnodup := List.nodup_cons.mp h.nodup
      refine ⟨slots, hnodup.2, fun k => ?_, ?_, ?_⟩
      · have hk := h.mem k
        rw [hstates, helements]
        by_cases hkj : k = j
        · subst hkj
          simp [hnodup.1]
        · simpa [hkj] using hk
      · rw [hlength]
        refine horder.2.imp_of_mem fun {k l} hk _ hbefore => hbefore.succ ?_
        rintro rfl
        exact hnodup.1 (hnext ▸ hk)
      · rw [hstored, hclaimed, helements, h.stored, List.map_append, List.filter_append]
        simp [ha]
  · have hnew : i ∉ slots := fun hmem => ha ((h.mem i).mp hmem).2
    refine ⟨slots, h.nodup, fun j => ?_, ?_, ?_⟩
    · rw [h.mem, hstates, helements]
      by_cases hj : j = i
      · subst hj
        simp [ha]
      · simp [hj]
    · rw [hlength]
      refine h.order.imp_of_mem fun {j k} hj _ hbefore => hbefore.succ ?_
      rintro rfl
      exact hnew (hnext ▸ hj)
    · rw [hstored, hclaimed, helements, h.stored, List.map_append, List.filter_append]
      simp [ha]

variable [DecidableEq P] [DecidableEq C]

theorem Step.ordered (howned : Owned t) (hnext : NextInLine visit t) (h : Ordered visit sender t)
    (hstep : Step visit t t') (hturn : InTurn visit sender t t') : Ordered visit sender t' := by
  intro a
  obtain ⟨slots, hslots⟩ := h a
  cases hstep with
  | reserve p e hp => exact ⟨slots, hslots.keep (fun _ => Iff.rfl) (fun _ _ => rfl) rfl rfl⟩
  | store p i e hp hi =>
    have hkeep := stored_update_iff t.states i .storing (by simp [hi]) (by decide)
    exact ⟨slots, hslots.keep hkeep (fun _ _ => rfl) rfl rfl⟩
  | write p i e hp =>
    have hi := howned.storing p i (by rw [hp, Producer.taken])
    refine ⟨slots, hslots.keep (fun _ => Iff.rfl) (fun j hj => ?_) rfl rfl⟩
    exact update_elsewhere t.states (by simp [hi, hj]) t.elements e
  | publish p i e hp =>
    have hi : t.states i ≠ .stored := by simp [howned.storing p i (by rw [hp, Producer.taken])]
    have he := howned.written p i e hp
    refine hslots.publish (p := p) hi he (fun ha j hj hsender => ?_) rfl rfl rfl rfl
    exact hturn i hi (Function.update_self ..) j hj (by rw [hsender, he, ha])
  | await c hc => exact ⟨slots, hslots.keep (fun _ => Iff.rfl) (fun _ _ => rfl) rfl rfl⟩
  | claim c i hc hi => exact hslots.claim (c := c) hi (hnext c i hc) rfl rfl rfl rfl
  | move c i hc => exact ⟨slots, hslots.keep (fun _ => Iff.rfl) (fun _ _ => rfl) rfl rfl⟩
  | clear c i e hc =>
    have hi := howned.loading c i (by rw [hc, Consumer.taken])
    have hkeep := stored_update_iff t.states i .empty (by simp [hi]) (by decide)
    exact ⟨slots, hslots.keep hkeep (fun _ _ => rfl) rfl rfl⟩

end Queued

/-! ### All runs -/

section Runs

variable [DecidableEq S] [DecidableEq P] [DecidableEq C] [DecidableEq A] [Subsingleton C]
  {visit : Nat → S} {sender : T → A} {t : Table S T P C}

open TransitionSystem

theorem ordered_of_reachable
    (h : ((system S T P C visit).restrict (InTurn visit sender)).Reachable t) :
    Ordered visit sender t := by
  refine h.invariant (I := Ordered visit sender) (fun _ => Initial.ordered) ?_
  rintro s s' hreachable hordered ⟨hstep, hturn⟩
  exact Step.ordered (owned_of_reachable hreachable.of_restrict)
    (nextInLine_of_reachable hreachable.of_restrict) hordered hstep hturn

/-- What is claimed of a sender's elements is the beginning of what was stored of them. -/
theorem claimed_initial
    (h : ((system S T P C visit).restrict (InTurn visit sender)).Reachable t) (a : A) :
    (t.claimed.map Prod.snd).filter (sender · = a) <+: (t.stored.map Prod.snd).filter (sender · = a) := by
  obtain ⟨slots, hslots⟩ := ordered_of_reachable h a
  rw [hslots.stored]
  exact List.prefix_append _ _

/-- A single consumer has returned the beginning of what it claimed. -/
theorem returned_initial [Fintype S] (h : (system S T P C visit).Reachable t) (c : C) :
    t.returned.map Prod.snd <+: t.claimed.map Prod.snd := by
  have hreturned := (exactlyOnce_of_reachable h).returned c
  have hall : ∀ l : List (C × T), l.filter (·.1 = c) = l := fun l =>
    List.filter_eq_self.mpr fun x _ => decide_eq_true (Subsingleton.elim x.1 c)
  rw [Table.claimedBy, Table.returnedBy, hall, hall] at hreturned
  rw [hreturned]
  exact List.prefix_append _ _

end Runs

end LuPlatform.SlotTable
