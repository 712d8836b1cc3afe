import LuPlatform.Library.ActionRuns
import LuPlatform.Library.SlotTable

/-! The barrier. A waiter leaves when it reads zero, which `release` stores, and the next round counts
its arrivals in the same counter. -/

namespace LuPlatform.Common

open Actions SlotTable

structure Barrier where
  counter : BitVec 32 := 0
  deriving DecidableEq, Repr

/-- Outside of `wait()`, or in its loop since it was counted in a round. -/
inductive BarrierThread where
  | outside
  | spinning (round : Nat)
  deriving DecidableEq, Repr

/-- The threads that call `wait()` over and over, and one that calls `release` over and over. -/
structure BarrierState (I : Type) where
  barrier : Barrier := {}
  threads : I → BarrierThread := fun _ => .outside
  /-- The releaser has read the number that it expects. -/
  storing : Bool := false
  /-- How many rounds were released. -/
  round : Nat := 0

inductive BarrierAction (I : Type) where
  | fetchAdd (i : I)
  | load (i : I)
  | loadExpected
  | store
  deriving DecidableEq, Repr

namespace BarrierState

section Steps

variable {I : Type} [DecidableEq I] (expected : BitVec 32)

def setThread (s : BarrierState I) (i : I) (t : BarrierThread) : BarrierState I :=
  { s with threads := Function.update s.threads i t }

def fetchAdd (s : BarrierState I) (i : I) : BarrierState I :=
  { s.setThread i (.spinning s.round) with barrier := { counter := s.barrier.counter + 1 } }

def load (s : BarrierState I) (i : I) : BarrierState I :=
  if s.barrier.counter = 0 then s.setThread i .outside else s

def loadExpected (s : BarrierState I) : BarrierState I :=
  { s with storing := expected = s.barrier.counter }

def store (s : BarrierState I) : BarrierState I :=
  { s with barrier := { counter := 0 }, storing := false, round := s.round + 1 }

def step (s : BarrierState I) : BarrierAction I → Option (BarrierState I)
  | .fetchAdd i =>
    match s.threads i with
    | .outside => some (s.fetchAdd i)
    | .spinning _ => none
  | .load i =>
    match s.threads i with
    | .outside => none
    | .spinning _ => some (s.load i)
  | .loadExpected => if s.storing then none else some (s.loadExpected expected)
  | .store => if s.storing then some s.store else none

/-- What a step can be. -/
inductive Step (s : BarrierState I) : BarrierAction I → BarrierState I → Prop
  | fetchAdd {i : I} (hi : s.threads i = .outside) : Step s (.fetchAdd i) (s.fetchAdd i)
  | leave {i : I} {round : Nat} (hi : s.threads i = .spinning round) (hzero : s.barrier.counter = 0) :
      Step s (.load i) (s.setThread i .outside)
  | stay {i : I} {round : Nat} (hi : s.threads i = .spinning round) (hcounter : s.barrier.counter ≠ 0) :
      Step s (.load i) s
  | loadExpected (hstoring : s.storing = false) : Step s .loadExpected (s.loadExpected expected)
  | store (hstoring : s.storing = true) : Step s .store s.store

theorem step_cases {s s' : BarrierState I} {a : BarrierAction I} (h : s.step expected a = some s') :
    Step expected s a s' := by
  cases a with
  | fetchAdd i =>
    cases hi : s.threads i with
    | outside =>
      simp only [step, hi, Option.some.injEq] at h
      exact h ▸ .fetchAdd hi
    | spinning round => simp [step, hi] at h
  | load i =>
    cases hi : s.threads i with
    | outside => simp [step, hi] at h
    | spinning round =>
      simp only [step, hi, Option.some.injEq, load] at h
      by_cases hzero : s.barrier.counter = 0
      · rw [if_pos hzero] at h
        exact h ▸ .leave hi hzero
      · rw [if_neg hzero] at h
        exact h ▸ .stay hi hzero
  | loadExpected =>
    simp only [step, Option.ite_none_left_eq_some, Option.some.injEq, Bool.not_eq_true] at h
    obtain ⟨hstoring, rfl⟩ := h
    exact .loadExpected hstoring
  | store =>
    simp only [step, Option.ite_none_right_eq_some, Option.some.injEq] at h
    obtain ⟨hstoring, rfl⟩ := h
    exact .store hstoring

/-- Who spins behind an arrival: who has arrived, or spun before. -/
theorem fetchAdd_spinning {s : BarrierState I} {i j : I} {round : Nat}
    (hj : (s.fetchAdd i).threads j = .spinning round) :
    round = s.round ∨ s.threads j = .spinning round := by
  by_cases hji : j = i
  · simp only [fetchAdd, setThread, hji, Function.update_self, BarrierThread.spinning.injEq] at hj
    exact .inl hj.symm
  · simp only [fetchAdd, setThread, Function.update_of_ne hji] at hj
    exact .inr hj

theorem fetchAdd_keeps {s : BarrierState I} {i j : I} {round : Nat} (hi : s.threads i = .outside)
    (hj : s.threads j = .spinning round) : (s.fetchAdd i).threads j = .spinning round := by
  have hji : j ≠ i := by
    rintro rfl
    simp [hi] at hj
  simpa only [fetchAdd, setThread, Function.update_of_ne hji] using hj

theorem leave_spinning {s : BarrierState I} {i j : I} {round : Nat}
    (hj : (s.setThread i .outside).threads j = .spinning round) :
    s.threads j = .spinning round := by
  by_cases hji : j = i
  · simp [setThread, hji] at hj
  · simpa only [setThread, Function.update_of_ne hji] using hj

end Steps

/-- A thread that was counted in an earlier round spins while the counter counts the arrivals of a
later one. -/
def Overtaken {I : Type} (s : BarrierState I) (i : I) : Prop :=
  ∃ round, s.threads i = .spinning round ∧ round < s.round ∧ s.barrier.counter ≠ 0

def Reusable {I : Type} (s : BarrierState I) : Prop := ∀ i, ¬ s.Overtaken i

/-- Every thread that was released has left `wait()`. -/
def Left {I : Type} (s : BarrierState I) : Prop :=
  ∀ i round, s.threads i = .spinning round → s.round ≤ round

/-- The counter counts the arrivals of this round, and the releaser stores when all have arrived. -/
structure Counted {I : Type} (s : BarrierState I) : Prop where
  rounds : ∀ i round, s.threads i = .spinning round → round ≤ s.round
  counter : (s.barrier.counter.toNat : ℕ∞) = engaged (· = .spinning s.round) s.threads
  full : s.storing = true → ∀ i, s.threads i = .spinning s.round

variable {T : BitVec 32} {s s' : BarrierState (Fin T.toNat)} {a : BarrierAction (Fin T.toNat)}
  {actions : List (BarrierAction (Fin T.toNat))}

theorem Counted.initial : Counted ({} : BarrierState (Fin T.toNat)) := by
  refine ⟨?_, ?_, ?_⟩
  · simp
  · rw [engaged_none (by simp)]
    rfl
  · simp

theorem engaged_fetchAdd {i : Fin T.toNat} (hi : s.threads i = .outside) :
    engaged (· = .spinning s.round) (Function.update s.threads i (.spinning s.round)) =
      engaged (· = .spinning s.round) s.threads + 1 :=
  engaged_begin (by simp [hi]) rfl

/-- A thread that arrives finds room in the counter. -/
theorem Counted.room (h : Counted s) {i : Fin T.toNat} (hi : s.threads i = .outside) :
    s.barrier.counter.toNat + 1 < 2 ^ 32 := by
  have hbegin := engaged_fetchAdd hi
  have hcard : engaged (· = .spinning s.round)
      (Function.update s.threads i (.spinning s.round)) ≤ Nat.card (Fin T.toNat) :=
    engaged_le_card
  rw [hbegin, ← h.counter, Nat.card_fin] at hcard
  have : s.barrier.counter.toNat + 1 ≤ T.toNat := by exact_mod_cast hcard
  have := T.isLt
  omega

theorem Counted.toNat_succ (h : Counted s) {i : Fin T.toNat} (hi : s.threads i = .outside) :
    (s.barrier.counter + 1).toNat = s.barrier.counter.toNat + 1 := by
  rw [BitVec.toNat_add]
  apply Nat.mod_eq_of_lt
  exact h.room hi

theorem Counted.fetchAdd_ne_zero (h : Counted s) {i : Fin T.toNat} (hi : s.threads i = .outside) :
    (s.fetchAdd i).barrier.counter ≠ 0 := by
  intro hzero
  have hsucc := h.toNat_succ hi
  rw [show s.barrier.counter + 1 = (s.fetchAdd i).barrier.counter from rfl, hzero] at hsucc
  simp at hsucc

theorem Counted.fetchAdd (h : Counted s) {i : Fin T.toNat} (hi : s.threads i = .outside) :
    Counted (s.fetchAdd i) := by
  refine ⟨?_, ?_, ?_⟩
  · intro j round hj
    rcases fetchAdd_spinning hj with rfl | hbefore
    · exact Nat.le_refl _
    · exact h.rounds j round hbefore
  · rw [show (s.fetchAdd i).barrier.counter = s.barrier.counter + 1 from rfl, h.toNat_succ hi,
      Nat.cast_add, h.counter, Nat.cast_one]
    exact (engaged_fetchAdd hi).symm
  · intro hstoring
    exact absurd (h.full hstoring i) (by simp [hi])

theorem Counted.leave (h : Counted s) (i : Fin T.toNat) (hzero : s.barrier.counter = 0) :
    Counted (s.setThread i .outside) := by
  have hnone : engaged (· = .spinning s.round) s.threads = 0 := by
    rw [← h.counter, hzero]
    rfl
  have hothers : ∀ j, s.threads j ≠ .spinning s.round := by
    intro j hj
    have : j ∈ {j | s.threads j = .spinning s.round} := hj
    rw [engaged, Set.encard_eq_zero] at hnone
    rw [hnone] at this
    exact this
  refine ⟨?_, ?_, ?_⟩
  · intro j round' hj
    apply h.rounds j
    exact leave_spinning hj
  · rw [show (s.setThread i .outside).barrier.counter = s.barrier.counter from rfl, h.counter]
    exact (engaged_same (by simp [hothers i])).symm
  · intro hstoring
    exact absurd (h.full hstoring i) (hothers i)

theorem Counted.loadExpected (h : Counted s) : Counted (s.loadExpected T) := by
  refine ⟨h.rounds, h.counter, ?_⟩
  intro hstoring
  have hcounter : T = s.barrier.counter := by simpa [BarrierState.loadExpected] using hstoring
  have hall : engaged (· = .spinning s.round) s.threads = Nat.card (Fin T.toNat) := by
    rw [Nat.card_fin, ← h.counter, ← hcounter]
  exact engaged_full hall

theorem Counted.store (h : Counted s) : Counted s.store := by
  have hnone : ∀ j, s.threads j ≠ .spinning (s.round + 1) := by
    intro j hj
    have := h.rounds j _ hj
    omega
  refine ⟨?_, ?_, ?_⟩
  · intro j round hj
    have := h.rounds j round hj
    exact Nat.le_succ_of_le this
  · exact (engaged_none hnone).symm
  · simp [BarrierState.store]

theorem Counted.step (h : Counted s) (hstep : Step T s a s') : Counted s' := by
  cases hstep with
  | fetchAdd hi => exact h.fetchAdd hi
  | leave hi hzero => exact h.leave _ hzero
  | stay hi hcounter => exact h
  | loadExpected hstoring => exact h.loadExpected
  | store hstoring => exact h.store

theorem counted_of_run (hrun : run (step T) {} actions = some s) : Counted s := by
  apply run_invariant (P := fun _ s => Counted s) Counted.initial _ hrun
  intro actions s a s' _ h hstep
  exact h.step (step_cases T hstep)

/-! ### When the barrier can be reused -/

/-- An arrival is counted while a released thread still spins, or every released thread has left. -/
theorem Counted.reusable_fetchAdd (h : Counted s) {i : Fin T.toNat} (hi : s.threads i = .outside) :
    (s.fetchAdd i).Reusable ↔ s.Left := by
  have hcounter := h.fetchAdd_ne_zero hi
  constructor
  · intro hreusable j round hj
    by_contra hlt
    apply hreusable j
    exact ⟨round, fetchAdd_keeps hi hj, Nat.lt_of_not_le hlt, hcounter⟩
  · rintro hleft j ⟨round, hj, hlt, -⟩
    have hlater : round < s.round := hlt
    rcases fetchAdd_spinning hj with rfl | hbefore
    · exact absurd hlater (Nat.lt_irrefl _)
    · have := hleft j round hbefore
      omega

theorem Reusable.leave (h : s.Reusable) (i : Fin T.toNat) : (s.setThread i .outside).Reusable := by
  rintro j ⟨round, hj, hlater⟩
  apply h j
  exact ⟨round, leave_spinning hj, hlater⟩

theorem Reusable.step_iff (h : s.Reusable) (hcounted : Counted s) (hstep : Step T s a s') :
    s'.Reusable ↔ ∀ i, a = .fetchAdd i → s.Left := by
  cases hstep with
  | fetchAdd hi => simpa using hcounted.reusable_fetchAdd hi
  | leave hi hzero => simpa using h.leave _
  | stay hi hcounter => simpa using h
  | loadExpected hstoring =>
    have hsame : (s.loadExpected T).Reusable := h
    simpa using hsame
  | store hstoring =>
    have hzero : s.store.Reusable := by
      rintro j ⟨round, -, -, hcounter⟩
      exact hcounter rfl
    simpa using hzero

/-- The barrier can be reused through a whole run if and only if no thread enters `wait()` for a new
round before every thread that was released has left it. -/
theorem reusable_iff_left (hrun : run (step T) {} actions = some s) :
    Always (step T) {} (fun _ s => s.Reusable) actions ↔
      EachStep (step T) {} (fun a s => ∀ i, a = .fetchAdd i → s.Left) actions := by
  apply always_iff_eachStep _ _ hrun
  · simp [Reusable, Overtaken]
  · intro before a after s s' _ hbefore halways _ hstep
    apply (halways.last hbefore).step_iff (counted_of_run hbefore)
    exact step_cases T hstep

/-- Two threads that both leave before one of them comes back. -/
theorem both_left : Always (step 2) ({} : BarrierState (Fin (BitVec.toNat (2 : BitVec 32))))
    (fun _ s => s.Reusable) [.fetchAdd ⟨0, by decide⟩, .fetchAdd ⟨1, by decide⟩, .loadExpected, .store,
      .load ⟨0, by decide⟩, .load ⟨1, by decide⟩, .fetchAdd ⟨0, by decide⟩] := by
  apply (reusable_iff_left (s := _) rfl).2
  simp [eachStep_cons, eachStep_nil, BarrierState.step, Left, BarrierState.fetchAdd, setThread,
    BarrierState.loadExpected, BarrierState.store, load]

/-- Two threads, the first of which comes back before the second one has read the zero. -/
theorem waiter_overtaken : ∃ s : BarrierState (Fin (BitVec.toNat (2 : BitVec 32))),
    run (step 2) {} [.fetchAdd ⟨0, by decide⟩, .fetchAdd ⟨1, by decide⟩, .loadExpected, .store,
      .load ⟨0, by decide⟩, .fetchAdd ⟨0, by decide⟩] = some s ∧
    s.threads ⟨1, by decide⟩ = .spinning 0 ∧ s.round = 1 ∧ s.barrier.counter = 1 ∧ ¬ s.Reusable := by
  refine ⟨_, rfl, rfl, rfl, rfl, fun hreusable => ?_⟩
  apply hreusable ⟨1, by decide⟩
  exact ⟨0, rfl, by decide, by decide⟩

/-! ### Behind an overtaken thread -/

/-- With a thread missing, the count that the releaser expects is not reached. -/
theorem Overtaken.not_storing (h : Counted s) {i : Fin T.toNat} (hi : s.Overtaken i) :
    s.storing = false := by
  obtain ⟨round, hspinning, hlater, -⟩ := hi
  by_contra hstoring
  have hfull := h.full (by simpa using hstoring) i
  rw [hspinning, BarrierThread.spinning.injEq] at hfull
  omega

theorem Overtaken.step (h : Counted s) {i : Fin T.toNat} (hi : s.Overtaken i)
    (hstep : Step T s a s') : s'.Overtaken i ∧ s'.round = s.round := by
  obtain ⟨round, hspinning, hlater, hcounter⟩ := id hi
  cases hstep with
  | fetchAdd hj =>
    exact ⟨⟨round, fetchAdd_keeps hj hspinning, hlater, h.fetchAdd_ne_zero hj⟩, rfl⟩
  | leave hj hzero => exact absurd hzero hcounter
  | stay hj hother => exact ⟨hi, rfl⟩
  | loadExpected hstoring => exact ⟨⟨round, hspinning, hlater, hcounter⟩, rfl⟩
  | store hstoring =>
    rw [hi.not_storing h] at hstoring
    exact absurd hstoring Bool.false_ne_true

/-- A thread that was overtaken spins for ever, and the releaser stores no zero any more. -/
theorem Overtaken.for_ever {before after : List (BarrierAction (Fin T.toNat))} {i : Fin T.toNat}
    (hbefore : run (BarrierState.step T) {} before = some s) (hi : s.Overtaken i)
    (hrun : run (BarrierState.step T) s after = some s') :
    s'.Overtaken i ∧ s'.storing = false ∧ s'.round = s.round := by
  have hall : Counted s' ∧ s'.Overtaken i ∧ s'.round = s.round := by
    apply run_invariant (P := fun _ s' => Counted s' ∧ s'.Overtaken i ∧ s'.round = s.round) _ _ hrun
    · exact ⟨counted_of_run hbefore, hi, rfl⟩
    · rintro actions t a t' _ ⟨hcounted, hover, hround⟩ hstep
      obtain ⟨hover', hround'⟩ := hover.step hcounted (step_cases T hstep)
      exact ⟨hcounted.step (step_cases T hstep), hover', hround'.trans hround⟩
  exact ⟨hall.2.1, hall.2.1.not_storing hall.1, hall.2.2⟩

/-! ### How many threads can share it -/

/-- Arrivals one after the other. -/
theorem run_arrivals {I : Type} [DecidableEq I] (expected : BitVec 32) {arrivals : List I}
    (hnodup : arrivals.Nodup) {s : BarrierState I} (hout : ∀ i ∈ arrivals, s.threads i = .outside) :
    ∃ s', run (BarrierState.step expected) s (arrivals.map .fetchAdd) = some s' ∧
      (∀ i ∈ arrivals, s'.threads i = .spinning s.round) ∧
      (∀ i round, s.threads i = .spinning round → s'.threads i = .spinning round) ∧
      s'.barrier.counter = s.barrier.counter + BitVec.ofNat 32 arrivals.length ∧
      s'.storing = s.storing ∧ s'.round = s.round := by
  induction arrivals generalizing s with
  | nil => exact ⟨s, rfl, by simp, fun _ _ h => h, by simp, rfl, rfl⟩
  | cons i arrivals ih =>
    obtain ⟨hfirst, hrest⟩ := List.nodup_cons.1 hnodup
    have hi := hout i List.mem_cons_self
    have hothers : ∀ j ∈ arrivals, (s.fetchAdd i).threads j = .outside := by
      intro j hj
      have hji : j ≠ i := by
        rintro rfl
        exact hfirst hj
      simp only [BarrierState.fetchAdd, setThread, Function.update_of_ne hji]
      exact hout j (List.mem_cons_of_mem i hj)
    obtain ⟨s', hrun, harrived, hkept, hcounter, hstoring, hround⟩ := ih hrest hothers
    refine ⟨s', ?_, ?_, ?_, ?_, hstoring, hround⟩
    · simp only [List.map_cons, run, BarrierState.step, hi, Option.bind_some]
      exact hrun
    · intro j hj
      rcases List.mem_cons.1 hj with rfl | hj
      · apply hkept
        simp [BarrierState.fetchAdd, setThread]
      · exact harrived j hj
    · intro j round hj
      apply hkept
      exact fetchAdd_keeps hi hj
    · rw [hcounter, List.length_cons, Nat.add_comm arrivals.length, BitVec.ofNat_add,
        ← BitVec.add_assoc]
      rfl

/-- A single thread has left before it comes back. -/
theorem left_of_single (hT : T.toNat ≤ 1) {i : Fin T.toNat} (hi : s.threads i = .outside) :
    s.Left := by
  intro j round hj
  have hji : j = i := by
    apply Fin.ext
    omega
  rw [hji, hi] at hj
  cases hj

/-- The round is released, and one of its threads leaves and comes back. -/
theorem run_return {I : Type} [DecidableEq I] {expected : BitVec 32} {s : BarrierState I} {i : I}
    {round : Nat} (hi : s.threads i = .spinning round) (hstoring : s.storing = false)
    (hexpected : s.barrier.counter = expected) :
    run (BarrierState.step expected) s [.loadExpected, .store, .load i, .fetchAdd i] =
      some ((s.store.setThread i .outside).fetchAdd i) := by
  have hload : s.step expected .loadExpected = some { s with storing := true } := by
    simp [BarrierState.step, hstoring, BarrierState.loadExpected, hexpected]
  have hstore : ({ s with storing := true } : BarrierState I).step expected .store = some s.store := rfl
  have hleave : s.store.step expected (.load i) = some (s.store.setThread i .outside) := by
    simp [BarrierState.step, BarrierState.store, hi, load]
  have hreturn : (s.store.setThread i .outside).step expected (.fetchAdd i) =
      some ((s.store.setThread i .outside).fetchAdd i) := by
    simp [BarrierState.step, setThread]
  simp only [run, hload, hstore, hleave, hreturn, Option.bind_some]

theorem exists_overtaken (hT : 1 < T.toNat) :
    ∃ actions s, run (step T) ({} : BarrierState (Fin T.toNat)) actions = some s ∧ ¬ s.Reusable := by
  let first : Fin T.toNat := ⟨0, Nat.lt_trans Nat.zero_lt_one hT⟩
  let second : Fin T.toNat := ⟨1, hT⟩
  have hne : second ≠ first := by simp [first, second]
  obtain ⟨s, hrun, harrived, -, hcounter, hstoring, hround⟩ :=
    run_arrivals T (List.nodup_finRange T.toNat) (s := ({} : BarrierState (Fin T.toNat))) (by simp)
  have hfirst := harrived first (List.mem_finRange first)
  have hsecond := harrived second (List.mem_finRange second)
  have hexpected : s.barrier.counter = T := by simpa using hcounter
  refine ⟨(List.finRange T.toNat).map .fetchAdd ++
    [.loadExpected, .store, .load first, .fetchAdd first],
    (s.store.setThread first .outside).fetchAdd first, ?_, fun hreusable => ?_⟩
  · rw [run_append, hrun, Option.bind_some]
    exact run_return hfirst hstoring hexpected
  · apply hreusable second
    refine ⟨0, ?_, ?_, ?_⟩
    · simp [BarrierState.fetchAdd, setThread, Function.update_of_ne hne, BarrierState.store, hsecond]
    · simp [BarrierState.fetchAdd, setThread, BarrierState.store]
    · simp [BarrierState.fetchAdd, setThread, BarrierState.store]

/-- The barrier can be reused in all runs if and only if one thread waits at most. -/
theorem reusable_iff_single :
    (∀ actions (s : BarrierState (Fin T.toNat)), run (step T) {} actions = some s → s.Reusable) ↔
      T.toNat ≤ 1 := by
  constructor
  · intro h
    by_contra hmany
    obtain ⟨actions, s, hrun, hover⟩ := exists_overtaken (Nat.lt_of_not_le hmany)
    exact hover (h actions s hrun)
  · intro hT actions s hrun
    apply run_invariant (P := fun _ s => s.Reusable) _ _ hrun
    · simp [Reusable, Overtaken]
    · intro before s a s' hbefore hreusable hstep
      have hcases := step_cases T hstep
      rw [hreusable.step_iff (counted_of_run hbefore) hcases]
      rintro i rfl
      cases hcases with
      | fetchAdd hi => exact left_of_single hT hi

end BarrierState

end LuPlatform.Common
