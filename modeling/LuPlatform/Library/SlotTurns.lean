import LuPlatform.Library.SlotFifo
import Mathlib.Data.Nat.Count

/-! The tickets of one slot. Its elements come in and go out in turns, so where nobody can do anything
but wait, a consumer waits only if more tickets were handed out to consumers than to producers, and a
producer waits only if the producers are ahead by more than all slots. -/

namespace LuPlatform.SlotTable

open Transition Function

variable {S T P C : Type}

/-- Whoever is in a call waits for a slot that is not in the state it waits for. -/
structure Blocked (t : Table S T P C) : Prop where
  producers : ∀ p, t.producers p ≠ .outside → ∃ i e, t.producers p = .waiting i e ∧ t.states i ≠ .empty
  consumers : ∀ c, t.consumers c ≠ .outside → ∃ i, t.consumers c = .waiting i ∧ t.states i ≠ .stored

/-- What is worked on has somebody who works on it. -/
structure Manned (t : Table S T P C) : Prop where
  storing : ∀ i, t.states i = .storing → ∃ p, (t.producers p).taken = some i
  loading : ∀ i, t.states i = .loading → ∃ c, (t.consumers c).taken = some i

theorem Initial.manned {t : Table S T P C} (h : Initial t) : Manned t where
  storing i hi := by simp [h.states i] at hi
  loading i hi := by simp [h.states i] at hi

/-- Nobody works where everybody waits. -/
theorem Blocked.empty_or_stored {t : Table S T P C} (h : Blocked t) (hmanned : Manned t) (i : S) :
    t.states i = .empty ∨ t.states i = .stored := by
  cases hi : t.states i with
  | empty => exact .inl rfl
  | stored => exact .inr rfl
  | storing =>
    obtain ⟨p, hp⟩ := hmanned.storing i hi
    obtain ⟨j, e, hwaiting, -⟩ := h.producers p (by rintro hout; simp [hout, Producer.taken] at hp)
    simp [hwaiting, Producer.taken] at hp
  | loading =>
    obtain ⟨c, hc⟩ := hmanned.loading i hi
    obtain ⟨j, hwaiting, -⟩ := h.consumers c (by rintro hout; simp [hout, Consumer.taken] at hc)
    simp [hwaiting, Consumer.taken] at hc

/-! ### One slot -/

section Turns

variable [DecidableEq S]

/-- Of the tickets for a slot so many have led to an element in it, and so many to one out of it. -/
structure Turns (visit : Nat → S) (t : Table S T P C) (put taken : S → Nat) : Prop where
  reserved : ∀ i, (Nat.count (visit · = i) t.reserved : ℕ∞) =
    put i + engaged (fun x => x.aim = some i) t.producers
  awaited : ∀ i, (Nat.count (visit · = i) t.awaited : ℕ∞) =
    taken i + engaged (· = .waiting i) t.consumers
  turn : ∀ i, put i = taken i + if t.states i = .stored then 1 else 0

def TakesTurns (visit : Nat → S) (t : Table S T P C) : Prop := ∃ put taken, Turns visit t put taken

variable {visit : Nat → S} {t t' : Table S T P C} {put taken : S → Nat}

theorem Initial.takesTurns (h : Initial t) : TakesTurns visit t := by
  refine ⟨fun _ => 0, fun _ => 0, fun i => ?_, fun i => ?_, fun i => ?_⟩
  · rw [engaged_none (by simp [h.producers, Producer.aim]), h.reserved]
    simp
  · rw [engaged_none (by simp [h.consumers]), h.awaited]
    simp
  · simp [h.states i]

theorem count_next (visit : Nat → S) (n : Nat) (i : S) :
    (Nat.count (visit · = i) (n + 1) : ℕ∞) =
      Nat.count (visit · = i) n + if visit n = i then 1 else 0 := by
  rw [Nat.count_succ]
  split <;> simp

/-- A step that reserves or awaits no ticket and changes no turn. -/
theorem Turns.keep (h : Turns visit t put taken) (hreserved : t'.reserved = t.reserved)
    (hawaited : t'.awaited = t.awaited) (hstates : ∀ i, t'.states i = .stored ↔ t.states i = .stored)
    (hproducers : ∀ i, engaged (fun x => x.aim = some i) t'.producers =
      engaged (fun x => x.aim = some i) t.producers)
    (hconsumers : ∀ i, engaged (· = .waiting i) t'.consumers = engaged (· = .waiting i) t.consumers) :
    Turns visit t' put taken where
  reserved i := by rw [hreserved, hproducers, h.reserved i]
  awaited i := by rw [hawaited, hconsumers, h.awaited i]
  turn i := by rw [h.turn i, if_congr (hstates i) rfl rfl]

variable [DecidableEq P] [DecidableEq C]

/-- Somebody is still at work, unless it is the thread that stops. -/
theorem exists_update {Q A : Type} [DecidableEq Q] {D : A → Prop} {f : Q → A} {q : Q} {x : A}
    (h : ∃ r, D (f r)) (hx : D (f q) → D x) : ∃ r, D (update f q x r) := by
  obtain ⟨r, hr⟩ := h
  by_cases hrq : r = q
  · subst hrq
    exact ⟨r, by simpa using hx hr⟩
  · exact ⟨r, by simpa [update_of_ne hrq] using hr⟩

/-- A slot that has been set to another state was not the one in question. -/
theorem eq_of_update {states : S → SlotState} {i j : S} {x y : SlotState} (h : update states i x j = y)
    (hx : x ≠ y) : j ≠ i ∧ states j = y := by
  by_cases hji : j = i
  · subst hji
    exact absurd (by simpa using h) hx
  · exact ⟨hji, by rwa [update_of_ne hji] at h⟩

theorem Step.manned (h : Manned t) (hstep : Step visit t t') : Manned t' := by
  obtain ⟨hstoring, hloading⟩ := h
  have hproducer : ∀ p i (x : Producer S T), t.states i = .storing →
      ((t.producers p).taken = some i → x.taken = some i) →
      ∃ q, (update t.producers p x q).taken = some i := fun p i x hi hx =>
    exists_update (D := fun y => Producer.taken y = some i) (hstoring i hi) hx
  have hconsumer : ∀ c i (x : Consumer S T), t.states i = .loading →
      ((t.consumers c).taken = some i → x.taken = some i) →
      ∃ d, (update t.consumers c x d).taken = some i := fun c i x hi hx =>
    exists_update (D := fun y => Consumer.taken y = some i) (hloading i hi) hx
  cases hstep with
  | reserve p e hp => exact ⟨fun i hi => hproducer p i _ hi (by simp [hp, Producer.taken]), hloading⟩
  | write p i e hp => exact ⟨fun j hj => hproducer p j _ hj (by simp [hp, Producer.taken]), hloading⟩
  | store p i e hp hi =>
    refine ⟨fun j hj => ?_, fun j hj => hloading j (eq_of_update hj (by simp)).2⟩
    by_cases hji : j = i
    · exact ⟨p, by simp [hji, Producer.taken]⟩
    · refine hproducer p j _ ?_ (by simp [hp, Producer.taken])
      simpa [update_of_ne hji] using hj
  | publish p i e hp =>
    refine ⟨fun j hj => ?_, fun j hj => hloading j (eq_of_update hj (by simp)).2⟩
    obtain ⟨hji, hstate⟩ := eq_of_update hj (by simp)
    exact hproducer p j _ hstate (by simp [hp, Producer.taken, hji.symm])
  | await c hc => exact ⟨hstoring, fun i hi => hconsumer c i _ hi (by simp [hc, Consumer.taken])⟩
  | move c i hc => exact ⟨hstoring, fun j hj => hconsumer c j _ hj (by simp [hc, Consumer.taken])⟩
  | claim c i hc hi =>
    refine ⟨fun j hj => hstoring j (eq_of_update hj (by simp)).2, fun j hj => ?_⟩
    by_cases hji : j = i
    · exact ⟨c, by simp [hji, Consumer.taken]⟩
    · refine hconsumer c j _ ?_ (by simp [hc, Consumer.taken])
      simpa [update_of_ne hji] using hj
  | clear c i e hc =>
    refine ⟨fun j hj => hstoring j (eq_of_update hj (by simp)).2, fun j hj => ?_⟩
    obtain ⟨hji, hstate⟩ := eq_of_update hj (by simp)
    exact hconsumer c j _ hstate (by simp [hc, Consumer.taken, hji.symm])

omit [DecidableEq C] in
/-- An element comes into a slot. -/
theorem Turns.publish (h : Turns visit t put taken) {p : P} {i : S} {e : T}
    (hp : t.producers p = .written i e) (hi : t.states i ≠ .stored) :
    Turns visit { t with
      producers := update t.producers p .outside
      states := update t.states i .stored
      stored := t.stored ++ [(p, e)] } (update put i (put i + 1)) taken where
  reserved j := by
    simp only
    rw [h.reserved j]
    by_cases hji : j = i
    · subst hji
      rw [update_self, engaged_finish (q := p) (x := .outside) (by simp [hp, Producer.aim])
        (by simp [Producer.aim])]
      push_cast
      ac_rfl
    · have hij : ¬ i = j := fun heq => hji heq.symm
      rw [update_of_ne hji, engaged_same (by simp [hp, Producer.aim, hij])]
  awaited := h.awaited
  turn j := by
    have hturn := h.turn j
    by_cases hji : j = i
    · subst hji
      simp_all
    · simp_all

omit [DecidableEq P] in
/-- An element goes out of a slot. -/
theorem Turns.claim (h : Turns visit t put taken) {c : C} {i : S} (hc : t.consumers c = .waiting i)
    (hi : t.states i = .stored) :
    Turns visit { t with
      consumers := update t.consumers c (.moving i)
      states := update t.states i .loading
      claimed := t.claimed ++ [(c, t.elements i)] } put (update taken i (taken i + 1)) where
  reserved := h.reserved
  awaited j := by
    simp only
    rw [h.awaited j]
    by_cases hji : j = i
    · subst hji
      rw [update_self, engaged_finish (q := c) (x := .moving j) (by simp [hc]) (by simp)]
      push_cast
      ac_rfl
    · have hij : ¬ i = j := fun heq => hji heq.symm
      rw [update_of_ne hji, engaged_same (by simp [hc, hij])]
  turn j := by
    have hturn := h.turn j
    by_cases hji : j = i
    · subst hji
      simp_all
    · simp_all

omit [DecidableEq C] in
theorem Turns.reserve (h : Turns visit t put taken) {p : P} (e : T) (hp : t.producers p = .outside) :
    Turns visit { t with
      producers := update t.producers p (.waiting (visit t.reserved) e)
      reserved := t.reserved + 1 } put taken where
  reserved i := by
    simp only
    rw [count_next, h.reserved i]
    split
    · rw [engaged_begin (by simp [hp, Producer.aim]) (by simpa [Producer.aim]), add_assoc]
    · rw [engaged_same (by simpa [hp, Producer.aim]), add_zero]
  awaited := h.awaited
  turn := h.turn

omit [DecidableEq P] in
theorem Turns.await (h : Turns visit t put taken) {c : C} (hc : t.consumers c = .outside) :
    Turns visit { t with
      consumers := update t.consumers c (.waiting (visit t.awaited))
      awaited := t.awaited + 1 } put taken where
  reserved := h.reserved
  awaited i := by
    simp only
    rw [count_next, h.awaited i]
    split
    · rw [engaged_begin (by simp [hc]) (by simpa), add_assoc]
    · rw [engaged_same (by simpa [hc]), add_zero]
  turn := h.turn

theorem Step.takesTurns (howned : Owned t) (h : TakesTurns visit t) (hstep : Step visit t t') :
    TakesTurns visit t' := by
  obtain ⟨put, taken, h⟩ := h
  cases hstep with
  | reserve p e hp => exact ⟨put, taken, h.reserve e hp⟩
  | await c hc => exact ⟨put, taken, h.await hc⟩
  | publish p i e hp =>
    have hi := howned.storing p i (by rw [hp, Producer.taken])
    exact ⟨_, taken, h.publish hp (by simp [hi])⟩
  | claim c i hc hi => exact ⟨put, _, h.claim hc hi⟩
  | store p i e hp hi =>
    refine ⟨put, taken, h.keep rfl rfl ?_ (fun j => ?_) fun j => rfl⟩
    · exact stored_update_iff t.states i .storing (by simp [hi]) (by decide)
    · exact engaged_same (by simp [hp, Producer.aim])
  | write p i e hp =>
    refine ⟨put, taken, h.keep rfl rfl (fun j => Iff.rfl) (fun j => ?_) fun j => rfl⟩
    exact engaged_same (by simp [hp, Producer.aim])
  | move c i hc =>
    refine ⟨put, taken, h.keep rfl rfl (fun j => Iff.rfl) (fun j => rfl) fun j => ?_⟩
    exact engaged_same (by simp [hc])
  | clear c i e hc =>
    have hi := howned.loading c i (by rw [hc, Consumer.taken])
    refine ⟨put, taken, h.keep rfl rfl ?_ (fun j => rfl) fun j => ?_⟩
    · exact stored_update_iff t.states i .empty (by simp [hi]) (by decide)
    · exact engaged_same (by simp [hc])

end Turns

/-! ### Where everybody waits -/

section Waiting

variable [DecidableEq S] {visit : Nat → S} {t : Table S T P C} {put taken : S → Nat}

theorem engaged_pos {Q A : Type} {D : A → Prop} {f : Q → A} {q : Q} (h : D (f q)) :
    1 ≤ engaged D f :=
  Set.one_le_encard_iff_nonempty.2 ⟨q, h⟩

/-- A consumer that waits has a slot to which no producer has come in this turn. -/
theorem Turns.count_lt (h : Turns visit t put taken) (hblocked : Blocked t) (hmanned : Manned t)
    {c : C} {i : S} (hc : t.consumers c = .waiting i) :
    Nat.count (visit · = i) t.reserved < Nat.count (visit · = i) t.awaited := by
  obtain ⟨j, hwaiting, hj⟩ := hblocked.consumers c (by simp [hc])
  obtain rfl : i = j := Consumer.waiting.inj (hc.symm.trans hwaiting)
  have hempty : t.states i = .empty := (hblocked.empty_or_stored hmanned i).resolve_right hj
  have hnobody : ∀ p, ¬ (t.producers p).aim = some i := by
    intro p hp
    obtain ⟨k, e, hwaiting, hk⟩ := hblocked.producers p (by rintro hout; simp [hout, Producer.aim] at hp)
    rw [hwaiting, Producer.aim, Option.some.injEq] at hp
    exact hk (hp ▸ hempty)
  have hreserved := h.reserved i
  rw [engaged_none hnobody, add_zero, Nat.cast_inj] at hreserved
  have hawaited := h.awaited i
  have hmore : ((taken i + 1 : ℕ) : ℕ∞) ≤ Nat.count (visit · = i) t.awaited := by
    rw [hawaited]
    push_cast
    gcongr
    exact engaged_pos hc
  have hturn := h.turn i
  rw [if_neg hj, add_zero] at hturn
  rw [Nat.cast_le] at hmore
  omega

/-- A producer that waits has a slot to which another one has come before, in this turn. -/
theorem Turns.count_add_one_lt (h : Turns visit t put taken) (hblocked : Blocked t)
    (hmanned : Manned t) {p : P} {i : S} {e : T} (hp : t.producers p = .waiting i e) :
    Nat.count (visit · = i) t.awaited + 1 < Nat.count (visit · = i) t.reserved := by
  obtain ⟨j, e', hwaiting, hj⟩ := hblocked.producers p (by simp [hp])
  obtain ⟨rfl, -⟩ : i = j ∧ e = e' := Producer.waiting.inj (hp.symm.trans hwaiting)
  have hstored : t.states i = .stored := (hblocked.empty_or_stored hmanned i).resolve_left hj
  have hnobody : ∀ c, ¬ t.consumers c = .waiting i := by
    intro c hc
    obtain ⟨k, hwaiting, hk⟩ := hblocked.consumers c (by simp [hc])
    obtain rfl : i = k := Consumer.waiting.inj (hc.symm.trans hwaiting)
    exact hk hstored
  have hawaited := h.awaited i
  rw [engaged_none hnobody, add_zero, Nat.cast_inj] at hawaited
  have hreserved := h.reserved i
  have hmore : ((put i + 1 : ℕ) : ℕ∞) ≤ Nat.count (visit · = i) t.reserved := by
    rw [hreserved]
    push_cast
    gcongr
    exact engaged_pos (by rw [hp, Producer.aim])
  have hturn := h.turn i
  rw [if_pos hstored] at hturn
  rw [Nat.cast_le] at hmore
  omega

end Waiting

/-! ### Rounds -/

/-- Every slot comes up once in each so many tickets. -/
def Rounds (visit : Nat → S) (size : Nat) : Prop := ∀ m i, ∃! k, k < size ∧ visit (m + k) = i

theorem count_round [DecidableEq S] {visit : Nat → S} {size : Nat} (h : Rounds visit size) (m : Nat)
    (i : S) : Nat.count (visit · = i) (m + size) = Nat.count (visit · = i) m + 1 := by
  obtain ⟨k, ⟨hk, hki⟩, hunique⟩ := h m i
  have hone : Nat.count (fun l => visit (m + l) = i) size = 1 := by
    rw [Nat.count_eq_card_filter_range, Finset.card_eq_one]
    refine ⟨k, Finset.ext fun l => ?_⟩
    rw [Finset.mem_filter, Finset.mem_range, Finset.mem_singleton]
    constructor
    · exact hunique l
    · rintro rfl
      exact ⟨hk, hki⟩
  rw [Nat.count_add, hone]

/-- Slots that go by the remainder of the ticket. -/
theorem rounds_of_mod {size : Nat} {visit : Nat → Fin size}
    (h : ∀ m n, visit m = visit n → m % size = n % size) : Rounds visit size := by
  intro m i
  have hinjective : Function.Injective fun k : Fin size => visit (m + k) := by
    intro k l hkl
    have hmod : (k : Nat) % size = l % size := Nat.ModEq.add_left_cancel' m (h _ _ hkl)
    rw [Nat.mod_eq_of_lt k.isLt, Nat.mod_eq_of_lt l.isLt] at hmod
    exact Fin.ext hmod
  obtain ⟨k, hk⟩ := (Finite.injective_iff_surjective.1 hinjective) i
  refine ⟨k, ⟨k.isLt, hk⟩, ?_⟩
  rintro l ⟨hl, hli⟩
  have hlk : (⟨l, hl⟩ : Fin size) = k := hinjective (hli.trans hk.symm)
  rw [← hlk]

/-! ### All runs -/

section Runs

variable [DecidableEq S] [DecidableEq P] [DecidableEq C] {visit : Nat → S} {t : Table S T P C}

open TransitionSystem

theorem manned_of_reachable (h : (system S T P C visit).Reachable t) : Manned t :=
  h.invariant (I := Manned) (fun _ => Initial.manned) fun _ _ _ hmanned hstep =>
    Step.manned hmanned hstep

theorem takesTurns_of_reachable (h : (system S T P C visit).Reachable t) : TakesTurns visit t :=
  h.invariant (I := TakesTurns visit) (fun _ => Initial.takesTurns) fun _ _ hreachable hturns hstep =>
    Step.takesTurns (owned_of_reachable hreachable) hturns hstep

theorem reserved_lt_of_blocked (h : (system S T P C visit).Reachable t) (hblocked : Blocked t) {c : C}
    (hc : t.consumers c ≠ .outside) : t.reserved < t.awaited := by
  obtain ⟨put, taken, hturns⟩ := takesTurns_of_reachable h
  obtain ⟨i, hwaiting, -⟩ := hblocked.consumers c hc
  by_contra hle
  have hcount := hturns.count_lt hblocked (manned_of_reachable h) hwaiting
  exact absurd (Nat.count_monotone (visit · = i) (Nat.le_of_not_lt hle)) (Nat.not_le.2 hcount)

theorem awaited_lt_of_blocked (h : (system S T P C visit).Reachable t) (hblocked : Blocked t) {p : P}
    (hp : t.producers p ≠ .outside) : t.awaited < t.reserved := by
  obtain ⟨put, taken, hturns⟩ := takesTurns_of_reachable h
  obtain ⟨i, e, hwaiting, -⟩ := hblocked.producers p hp
  by_contra hle
  have hcount := hturns.count_add_one_lt hblocked (manned_of_reachable h) hwaiting
  have hmono := Nat.count_monotone (visit · = i) (Nat.le_of_not_lt hle)
  omega

/-- A slot that is stored where everybody waits has had fewer consumers than producers. -/
theorem awaited_lt_of_stored (h : (system S T P C visit).Reachable t) (hblocked : Blocked t) {i : S}
    (hi : t.states i = .stored) : t.awaited < t.reserved := by
  obtain ⟨put, taken, hturns⟩ := takesTurns_of_reachable h
  have hnobody : ∀ c, ¬ t.consumers c = .waiting i := by
    intro c hc
    obtain ⟨k, hwaiting, hk⟩ := hblocked.consumers c (by simp [hc])
    obtain rfl : i = k := Consumer.waiting.inj (hc.symm.trans hwaiting)
    exact hk hi
  have hawaited := hturns.awaited i
  rw [engaged_none hnobody, add_zero, Nat.cast_inj] at hawaited
  have hput : ((put i : ℕ) : ℕ∞) ≤ Nat.count (visit · = i) t.reserved := by
    rw [hturns.reserved i]
    exact le_self_add
  rw [Nat.cast_le] at hput
  have hturn := hturns.turn i
  rw [if_pos hi] at hturn
  by_contra hle
  have hmono := Nat.count_monotone (visit · = i) (Nat.le_of_not_lt hle)
  omega

/-- No consumer waits in vain: where everybody waits, and a consumer among them, there is no producer
and no element. -/
theorem drained_of_blocked (h : (system S T P C visit).Reachable t) (hblocked : Blocked t) {c : C}
    (hc : t.consumers c ≠ .outside) : (∀ p, t.producers p = .outside) ∧ ∀ i, t.states i = .empty := by
  have hbehind := reserved_lt_of_blocked h hblocked hc
  constructor
  · intro p
    by_contra hp
    exact absurd (awaited_lt_of_blocked h hblocked hp) (by omega)
  · intro i
    refine (hblocked.empty_or_stored (manned_of_reachable h) i).resolve_right fun hi => ?_
    exact absurd (awaited_lt_of_stored h hblocked hi) (by omega)

/-- No producer waits in vain: where everybody waits, and a producer among them, there is no consumer
and no slot without an element. -/
theorem full_of_blocked (h : (system S T P C visit).Reachable t) (hblocked : Blocked t) {size : Nat}
    (hrounds : Rounds visit size) {p : P} (hp : t.producers p ≠ .outside) :
    (∀ c, t.consumers c = .outside) ∧ ∀ i, t.states i = .stored := by
  have hahead := awaited_lt_of_blocked h hblocked hp
  constructor
  · intro c
    by_contra hc
    exact absurd (reserved_lt_of_blocked h hblocked hc) (by omega)
  obtain ⟨put, taken, hturns⟩ := takesTurns_of_reachable h
  have hmanned := manned_of_reachable h
  have hfar : t.awaited + size < t.reserved := by
    obtain ⟨i, e, hwaiting, -⟩ := hblocked.producers p hp
    by_contra hle
    have hcount := hturns.count_add_one_lt hblocked hmanned hwaiting
    have hmono := Nat.count_monotone (visit · = i) (Nat.le_of_not_lt hle)
    have hround := count_round hrounds t.awaited i
    omega
  intro i
  -- a slot without an element would have no producer for one of its tickets
  refine (hblocked.empty_or_stored hmanned i).resolve_left fun hi => ?_
  have hnobody : ∀ p, ¬ (t.producers p).aim = some i := by
    intro p hp
    obtain ⟨k, e, hwaiting, hk⟩ := hblocked.producers p (by rintro hout; simp [hout, Producer.aim] at hp)
    rw [hwaiting, Producer.aim, Option.some.injEq] at hp
    exact hk (hp ▸ hi)
  have hreserved := hturns.reserved i
  rw [engaged_none hnobody, add_zero, Nat.cast_inj] at hreserved
  have htaken : ((taken i : ℕ) : ℕ∞) ≤ Nat.count (visit · = i) t.awaited := by
    rw [hturns.awaited i]
    exact le_self_add
  rw [Nat.cast_le] at htaken
  have hturn := hturns.turn i
  rw [if_neg (by simp [hi])] at hturn
  have hmono := Nat.count_monotone (visit · = i) hfar.le
  have hround := count_round hrounds t.awaited i
  omega

end Runs

end LuPlatform.SlotTable
