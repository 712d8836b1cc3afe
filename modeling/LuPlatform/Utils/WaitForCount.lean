import LuPlatform.Library.ActionRuns
import Mathlib.Data.BitVec

/-! The gate that waits for a number of counts. `increment` notifies and `wait` tests at one and the
same value of a counter that goes on growing. Each critical section is one step; a waiter that was
woken, by `notify_all` or for no reason, tests again when it has the mutex back. -/

namespace LuPlatform.Utils

open Actions

structure WaitForCount where
  numberOfCountWaiting : BitVec 32
  count : BitVec 32 := 0
  deriving DecidableEq, Repr

namespace WaitForCount

def increment (w : WaitForCount) : WaitForCount := { w with count := w.count + 1 }

/-- The predicate of the wait, and what `increment` tests before it notifies. -/
def reached (w : WaitForCount) : Bool := w.count = w.numberOfCountWaiting

end WaitForCount

/-- Outside of `wait()`, asleep in it, or woken and on the way back to the mutex. -/
inductive Waiter where
  | outside | waiting | notified
  deriving DecidableEq, Repr

def Waiter.notify : Waiter → Waiter
  | .waiting => .notified
  | t => t

theorem Waiter.notify_ne_outside {t : Waiter} (h : t ≠ .outside) : t.notify ≠ .outside := by
  cases t <;> simp_all [notify]

theorem Waiter.notify_ne_waiting (t : Waiter) : t.notify ≠ .waiting := by
  cases t <;> simp [notify]

structure GateState (I : Type) where
  gate : WaitForCount
  waiters : I → Waiter := fun _ => .outside
  /-- How often `increment` was called. -/
  increments : Nat := 0

inductive GateAction (I : Type) where
  | increment
  | wait (i : I)
  /-- A wait may end for no reason. -/
  | wake (i : I)
  | retest (i : I)
  deriving DecidableEq, Repr

/-- The actions that test the predicate of a wait. -/
def GateAction.Tests {I : Type} : GateAction I → Prop
  | .wait _ => True
  | .retest _ => True
  | _ => False

namespace GateState

section Steps

variable {I : Type} [DecidableEq I]

def initial (n : BitVec 32) : GateState I := { gate := { numberOfCountWaiting := n } }

def setWaiter (s : GateState I) (i : I) (t : Waiter) : GateState I :=
  { s with waiters := Function.update s.waiters i t }

@[simp] theorem setWaiter_self (s : GateState I) (i : I) (t : Waiter) :
    (s.setWaiter i t).waiters i = t :=
  Function.update_self ..

theorem setWaiter_of_ne (s : GateState I) {i j : I} (t : Waiter) (h : j ≠ i) :
    (s.setWaiter i t).waiters j = s.waiters j :=
  Function.update_of_ne h ..

def increment (s : GateState I) : GateState I :=
  { gate := s.gate.increment
    waiters := if s.gate.increment.reached then fun i => (s.waiters i).notify else s.waiters
    increments := s.increments + 1 }

/-- A wait returns, or sleeps and leaves the mutex. -/
def test (s : GateState I) (i : I) : GateState I :=
  s.setWaiter i (if s.gate.reached then .outside else .waiting)

def step (s : GateState I) : GateAction I → Option (GateState I)
  | .increment => some s.increment
  | .wait i => if s.waiters i = .outside then some (s.test i) else none
  | .wake i => if s.waiters i = .waiting then some (s.setWaiter i .notified) else none
  | .retest i => if s.waiters i = .notified then some (s.test i) else none

/-- What a step can be. -/
inductive Step (s : GateState I) : GateAction I → GateState I → Prop
  | increment : Step s .increment s.increment
  | wake {i : I} (hi : s.waiters i = .waiting) : Step s (.wake i) (s.setWaiter i .notified)
  | test {a : GateAction I} {i : I} (ha : a = .wait i ∧ s.waiters i = .outside ∨
      a = .retest i ∧ s.waiters i = .notified) : Step s a (s.test i)

theorem step_cases {s s' : GateState I} {a : GateAction I} (h : s.step a = some s') :
    Step s a s' := by
  cases a with
  | increment => exact Option.some.inj h ▸ .increment
  | wait i =>
    simp only [step, Option.ite_none_right_eq_some, Option.some.injEq] at h
    obtain ⟨hi, rfl⟩ := h
    exact .test (.inl ⟨rfl, hi⟩)
  | wake i =>
    simp only [step, Option.ite_none_right_eq_some, Option.some.injEq] at h
    obtain ⟨hi, rfl⟩ := h
    exact .wake hi
  | retest i =>
    simp only [step, Option.ite_none_right_eq_some, Option.some.injEq] at h
    obtain ⟨hi, rfl⟩ := h
    exact .test (.inr ⟨rfl, hi⟩)

/-- Once `increment` was called as often as awaited, nobody is asleep in `wait()`. -/
def Open (s : GateState I) : Prop :=
  s.gate.numberOfCountWaiting.toNat ≤ s.increments → ∀ i, s.waiters i ≠ .waiting

/-- An action that tests once enough counts were made does it when the counter, which wraps, shows
the number awaited. -/
def InTime (a : GateAction I) (s : GateState I) : Prop :=
  a.Tests → s.gate.numberOfCountWaiting.toNat ≤ s.increments →
    s.increments % 2 ^ 32 = s.gate.numberOfCountWaiting.toNat

/-- The counter holds the number of calls, as far as it can. -/
def Counted (s : GateState I) : Prop := s.gate.count = BitVec.ofNat 32 s.increments

variable {n : BitVec 32} {s s' : GateState I} {a : GateAction I} {actions : List (GateAction I)}

omit [DecidableEq I] in
theorem Counted.reached_iff (h : Counted s) : s.gate.reached = true ↔
    s.increments % 2 ^ 32 = s.gate.numberOfCountWaiting.toNat := by
  rw [WaitForCount.reached, decide_eq_true_eq, h, ← BitVec.toNat_inj, BitVec.toNat_ofNat]

theorem Counted.step (h : Counted s) (hstep : Step s a s') : Counted s' := by
  cases hstep with
  | increment =>
    have hcount : s.gate.count + 1 = BitVec.ofNat 32 (s.increments + 1) := by
      rw [h, BitVec.ofNat_add]
      rfl
    exact hcount
  | wake hi => exact h
  | test ha => exact h

theorem Step.numberOfCountWaiting (hstep : Step s a s') :
    s'.gate.numberOfCountWaiting = s.gate.numberOfCountWaiting := by
  cases hstep <;> rfl

theorem Step.increments_le (hstep : Step s a s') : s.increments ≤ s'.increments := by
  cases hstep with
  | increment => exact Nat.le_succ _
  | wake hi => exact Nat.le_refl _
  | test ha => exact Nat.le_refl _

theorem numberOfCountWaiting_of_run {s₀ : GateState I} (hrun : run step s₀ actions = some s) :
    s.gate.numberOfCountWaiting = s₀.gate.numberOfCountWaiting := by
  apply run_invariant (P := fun _ s =>
    s.gate.numberOfCountWaiting = s₀.gate.numberOfCountWaiting) _ _ hrun
  · rfl
  · intro before s a s' _ h hstep
    exact (step_cases hstep).numberOfCountWaiting.trans h

theorem counted_of_run (hrun : run step (initial n) actions = some s) : Counted s := by
  apply run_invariant (P := fun _ s => Counted s) _ _ hrun
  · rfl
  · intro actions s a s' _ h hstep
    exact h.step (step_cases hstep)

/-- The call that makes the count enough wakes everybody. -/
theorem Open.increment (h : s.Open) (hcounted : Counted s) : s.increment.Open := by
  intro henough i
  by_cases hbefore : s.gate.numberOfCountWaiting.toNat ≤ s.increments
  · have hawake := h hbefore i
    simp only [GateState.increment]
    split
    · exact Waiter.notify_ne_waiting _
    · exact hawake
  · have hexact : s.increments + 1 = s.gate.numberOfCountWaiting.toNat := by
      have henough' : s.gate.numberOfCountWaiting.toNat ≤ s.increments + 1 := henough
      omega
    have hreached : s.gate.increment.reached = true := by
      have hsmall : s.increments + 1 < 2 ^ 32 := hexact ▸ s.gate.numberOfCountWaiting.isLt
      have hcounted' : Counted s.increment := hcounted.step .increment
      apply hcounted'.reached_iff.2
      exact (Nat.mod_eq_of_lt hsmall).trans hexact
    simp only [GateState.increment, hreached, if_true]
    exact Waiter.notify_ne_waiting _

theorem Open.wake (h : s.Open) (i : I) : (s.setWaiter i .notified).Open := by
  intro henough j
  by_cases hji : j = i
  · simp [hji]
  · rw [setWaiter_of_ne s _ hji]
    exact h henough j

theorem Open.test_iff (h : s.Open) (i : I) : (s.test i).Open ↔
    (s.gate.numberOfCountWaiting.toNat ≤ s.increments → s.gate.reached = true) := by
  constructor
  · intro hopen henough
    by_contra hother
    apply hopen henough i
    simp [test, hother]
  · intro htest henough j
    by_cases hji : j = i
    · simp [test, hji, htest henough]
    · rw [test, setWaiter_of_ne s _ hji]
      exact h henough j

theorem Open.step_iff (h : s.Open) (hcounted : Counted s) (hstep : Step s a s') :
    s'.Open ↔ InTime a s := by
  cases hstep with
  | increment => exact iff_of_true (h.increment hcounted) fun htests => htests.elim
  | wake hi => exact iff_of_true (h.wake _) fun htests => htests.elim
  | test ha =>
    have htests : a.Tests := by
      rcases ha with ⟨rfl, -⟩ | ⟨rfl, -⟩ <;> trivial
    rw [h.test_iff, hcounted.reached_iff, InTime, forall_prop_of_true htests]

/-- The gate stays open through a whole run if and only if no waiter tests when the count has gone
past the number awaited. -/
theorem open_iff_inTime (hrun : run step (initial n) actions = some s) :
    Always step (initial n) (fun _ s => s.Open) actions ↔
      EachStep step (initial n) InTime actions := by
  apply always_iff_eachStep _ _ hrun
  · simp [Open, initial]
  · intro before a after s s' _ hbefore halways _ hstep
    apply (halways.last hbefore).step_iff (counted_of_run hbefore)
    exact step_cases hstep

/-- A waiter for one count, and one call. -/
theorem open_one_count : Always step (initial 1) (fun _ (s : GateState Unit) => s.Open)
    [.wait (), .increment, .retest ()] := by
  apply (open_iff_inTime (s := _) rfl).2
  simp [eachStep_cons, eachStep_nil, step, InTime, GateAction.Tests, initial, increment,
    WaitForCount.increment, WaitForCount.reached, test, setWaiter]

/-- Two calls for one count, and a waiter that comes after them. -/
theorem late_waiter_blocked : ∃ s : GateState Unit,
    run step (initial 1) [.increment, .increment, .wait ()] = some s ∧ s.increments = 2 ∧
      s.waiters () = .waiting ∧ ¬ s.Open := by
  refine ⟨_, rfl, rfl, rfl, fun hopen => ?_⟩
  apply hopen (by decide) ()
  rfl

/-! ### Behind the number awaited -/

/-- As long as no call is made beyond the number awaited, the gate is open. -/
theorem open_of_increments_le (hrun : run step (initial n) actions = some s)
    (hcalls : s.increments ≤ n.toNat) : s.Open := by
  have hall : s.increments ≤ n.toNat → s.Open := by
    apply run_invariant (P := fun _ s => s.increments ≤ n.toNat → s.Open) _ _ hrun
    · simp [Open, initial]
    · intro before s a s' hbefore hopen hstep hle
      have hcases := step_cases hstep
      have hfew := hcases.increments_le.trans hle
      apply ((hopen hfew).step_iff (counted_of_run hbefore) hcases).2
      intro _ henough
      rw [numberOfCountWaiting_of_run hbefore] at henough ⊢
      rw [Nat.le_antisymm hfew henough]
      exact Nat.mod_eq_of_lt n.isLt
  exact hall hcalls

/-- Past the number awaited, no test lets a thread out. -/
theorem Step.stays_inside (hcounted : Counted s)
    (hpast : s.gate.numberOfCountWaiting.toNat < s.increments)
    (hwrap : s.increments < s.gate.numberOfCountWaiting.toNat + 2 ^ 32) {i : I}
    (hi : s.waiters i ≠ .outside) (hstep : Step s a s') : s'.waiters i ≠ .outside := by
  cases hstep with
  | increment =>
    simp only [GateState.increment]
    split
    · exact Waiter.notify_ne_outside hi
    · exact hi
  | @wake j hj =>
    by_cases hij : i = j
    · simp [hij]
    · rwa [setWaiter_of_ne s _ hij]
  | @test _ j ha =>
    have hother : s.gate.reached = false := by
      rw [← Bool.not_eq_true, hcounted.reached_iff]
      intro hexact
      have hdiv := Nat.div_add_mod s.increments (2 ^ 32)
      have hsmall := s.gate.numberOfCountWaiting.isLt
      omega
    by_cases hij : i = j
    · simp [GateState.test, hother, hij]
    · rwa [GateState.test, setWaiter_of_ne s _ hij]

/-- A waiter that sleeps when the count has gone past the number awaited comes out of `wait()` only
after the counter has wrapped around. -/
theorem blocked_until_wrap {before after : List (GateAction I)}
    (hbefore : run step (initial n) before = some s) (hpast : n.toNat < s.increments) {i : I}
    (hi : s.waiters i = .waiting) (hrun : run step s after = some s')
    (hwrap : s'.increments < n.toNat + 2 ^ 32) : s'.waiters i ≠ .outside := by
  have hnumber := numberOfCountWaiting_of_run hbefore
  have hall : Counted s' ∧ n.toNat < s'.increments ∧
      (s'.increments < n.toNat + 2 ^ 32 → s'.waiters i ≠ .outside) := by
    apply run_invariant (P := fun _ s' => Counted s' ∧ n.toNat < s'.increments ∧
      (s'.increments < n.toNat + 2 ^ 32 → s'.waiters i ≠ .outside)) _ _ hrun
    · exact ⟨counted_of_run hbefore, hpast, by simp [hi]⟩
    · rintro actions t a t' ht ⟨hcounted, hlate, hinside⟩ hstep
      have hcases := step_cases hstep
      have hmono := hcases.increments_le
      have hnumber' : t.gate.numberOfCountWaiting = n :=
        (numberOfCountWaiting_of_run ht).trans hnumber
      refine ⟨hcounted.step hcases, hlate.trans_le hmono, fun hwrap' => ?_⟩
      have hsoon := hmono.trans_lt hwrap'
      apply hcases.stays_inside hcounted
      · exact hinside hsoon
      · rwa [hnumber']
      · rwa [hnumber']
  exact hall.2.2 hwrap

end Steps

end GateState

end LuPlatform.Utils
