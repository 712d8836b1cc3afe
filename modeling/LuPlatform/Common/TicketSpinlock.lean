import LuPlatform.Library.ActionRuns
import LuPlatform.Library.Counters
import LuPlatform.Library.TicketLock

/-! The ticket spinlock. A guard gives its own ticket back to `unlock`; the plain `unlock()` takes
`m_next`, adds one, and `unlock(ticket)` adds one again. -/

namespace LuPlatform.Common

open Transition TransitionSystem SlotTable Actions TicketLock

structure TicketSpinlock where
  ticket : BitVec 32 := 0
  next : BitVec 32 := 0
  deriving DecidableEq, Repr

namespace TicketSpinlock

/-- How far a ticket is from its turn. -/
def position (l : TicketSpinlock) (ticket : BitVec 32) : BitVec 32 := ticket - l.next

/-- `unlock(ticket)`. -/
def unlock (l : TicketSpinlock) (ticket : BitVec 32) : TicketSpinlock :=
  { l with next := ticket + 1 }

/-- What the plain `unlock()` hands to `unlock(ticket)`. -/
def plainTicket (l : TicketSpinlock) : BitVec 32 := l.next + 1

theorem position_eq_zero {l : TicketSpinlock} {ticket : BitVec 32} :
    l.position ticket = 0 ↔ ticket = l.next := by
  rw [position]
  constructor
  · intro h
    rw [← BitVec.sub_add_cancel ticket l.next, h]
    exact BitVec.zero_add _
  · rintro rfl
    exact BitVec.sub_self _

end TicketSpinlock

/-- Where a thread stands: in `lock` with its ticket, behind it, or in the plain `unlock()` with what
it has made of `m_next`. -/
inductive LockThread where
  | outside
  | waiting (ticket : BitVec 32)
  | holding (ticket : BitVec 32)
  | unlocking (ticket : BitVec 32)
  deriving DecidableEq, Repr

def LockThread.Waits : LockThread → Prop
  | .waiting _ => True
  | _ => False

/-- Between `lock` and the end of its `unlock`. -/
def LockThread.Inside : LockThread → Prop
  | .holding _ => True
  | .unlocking _ => True
  | _ => False

structure LockState (I : Type) where
  lock : TicketSpinlock := {}
  threads : I → LockThread := fun _ => .outside
  /-- The tickets that `lock` returned. -/
  admitted : List (BitVec 32) := []

/-- The atomic operations. A round of the loop in `lock` is one of them. -/
inductive LockAction (I : Type) where
  | fetchAdd (i : I)
  | load (i : I)
  | destroyGuard (i : I)
  | loadNext (i : I)
  | store (i : I)
  deriving DecidableEq, Repr

namespace LockState

variable {I : Type} [DecidableEq I]

def setThread (s : LockState I) (i : I) (thread : LockThread) : LockState I :=
  { s with threads := Function.update s.threads i thread }

def fetchAdd (s : LockState I) (i : I) : LockState I :=
  { s.setThread i (.waiting s.lock.ticket) with lock := { s.lock with ticket := s.lock.ticket + 1 } }

def load (s : LockState I) (i : I) (ticket : BitVec 32) : LockState I :=
  if s.lock.position ticket = 0 then
    { s.setThread i (.holding ticket) with admitted := s.admitted ++ [ticket] }
  else
    s

def unlock (s : LockState I) (i : I) (ticket : BitVec 32) : LockState I :=
  { s.setThread i .outside with lock := s.lock.unlock ticket }

def step (s : LockState I) : LockAction I → Option (LockState I)
  | .fetchAdd i =>
    match s.threads i with
    | .outside => some (s.fetchAdd i)
    | _ => none
  | .load i =>
    match s.threads i with
    | .waiting ticket => some (s.load i ticket)
    | _ => none
  | .destroyGuard i =>
    match s.threads i with
    | .holding ticket => some (s.unlock i ticket)
    | _ => none
  | .loadNext i =>
    match s.threads i with
    | .holding _ => some (s.setThread i (.unlocking s.lock.plainTicket))
    | _ => none
  | .store i =>
    match s.threads i with
    | .unlocking ticket => some (s.unlock i ticket)
    | _ => none

/-- What a fair lock promises. -/
structure Fair (s : LockState I) : Prop where
  exclusive : ∀ i j, (s.threads i).Inside → (s.threads j).Inside → i = j
  consecutive : s.admitted = (List.range s.admitted.length).map (BitVec.ofNat 32)
  next : (∀ i, ¬ (s.threads i).Inside) → s.lock.next = BitVec.ofNat 32 s.admitted.length
  enters : (∀ i, ¬ (s.threads i).Inside) → (∃ i, (s.threads i).Waits) →
    ∃ i ticket, s.threads i = .waiting ticket ∧ s.lock.position ticket = 0

/-! ### The lock by numbers -/

/-- A thread of the program and a customer of the lock that never wraps. -/
def Matches : LockThread → Customer → Prop
  | .outside, .outside => True
  | .waiting ticket, .waiting number => ticket = BitVec.ofNat 32 number
  | .holding ticket, .holding number => ticket = BitVec.ofNat 32 number
  | .unlocking ticket, .holding number => ticket = BitVec.ofNat 32 (number + 1)
  | _, _ => False

structure Implements (s : LockState I) (t : Lock I) : Prop where
  ticket : s.lock.ticket = BitVec.ofNat 32 t.drawn
  next : s.lock.next = BitVec.ofNat 32 t.served
  admitted : s.admitted = t.admitted.map (BitVec.ofNat 32)
  threads : ∀ i, Matches (s.threads i) (t.customers i)

theorem Matches.inside_iff {thread : LockThread} {c : Customer} (h : Matches thread c) :
    thread.Inside ↔ c.Holds := by
  cases thread <;> cases c <;> simp_all [Matches, LockThread.Inside, Customer.Holds]

theorem Matches.waits_iff {thread : LockThread} {c : Customer} (h : Matches thread c) :
    thread.Waits ↔ c.Waits := by
  cases thread <;> cases c <;> simp_all [Matches, LockThread.Waits, Customer.Waits]

omit [DecidableEq I] in
theorem Implements.engaged_eq {s : LockState I} {t : Lock I} (h : Implements s t) :
    engaged LockThread.Waits s.threads = engaged Customer.Waits t.customers := by
  unfold engaged
  congr 1
  ext i
  exact (h.threads i).waits_iff

theorem Matches.update {threads : I → LockThread} {customers : I → Customer}
    (h : ∀ j, Matches (threads j) (customers j)) {i : I} {thread : LockThread} {c : Customer}
    (hi : Matches thread c) (j : I) :
    Matches (Function.update threads i thread j) (Function.update customers i c j) := by
  by_cases hj : j = i
  · rw [hj, Function.update_self, Function.update_self]
    exact hi
  · rw [Function.update_of_ne hj, Function.update_of_ne hj]
    exact h j

omit [DecidableEq I] in
theorem Implements.initial : Implements ({} : LockState I) {} :=
  ⟨rfl, rfl, rfl, fun _ => trivial⟩

theorem Implements.fetchAdd {s : LockState I} {t : Lock I} (h : Implements s t) (i : I) :
    Implements (s.fetchAdd i) { t with
      drawn := t.drawn + 1
      customers := Function.update t.customers i (.waiting t.drawn) } := by
  refine ⟨?_, h.next, h.admitted, Matches.update h.threads h.ticket⟩
  rw [BitVec.ofNat_add, ← h.ticket]
  rfl

theorem Implements.admit {s : LockState I} {t : Lock I} (h : Implements s t) (i : I)
    {ticket : BitVec 32} (hticket : ticket = BitVec.ofNat 32 t.served) :
    Implements { s.setThread i (.holding ticket) with admitted := s.admitted ++ [ticket] } { t with
      customers := Function.update t.customers i (.holding t.served)
      admitted := t.admitted ++ [t.served] } := by
  refine ⟨h.ticket, h.next, ?_, Matches.update h.threads hticket⟩
  rw [List.map_append, ← h.admitted, hticket]
  rfl

/-- The end of an `unlock` that hands over the ticket it was taken with. -/
theorem Implements.unlock {s : LockState I} {t : Lock I} (h : Implements s t) (i : I) {number : Nat}
    {ticket : BitVec 32} (hticket : ticket = BitVec.ofNat 32 number) :
    Implements (s.unlock i ticket) { t with
      served := number + 1
      customers := Function.update t.customers i .outside } := by
  refine ⟨h.ticket, ?_, h.admitted, Matches.update h.threads trivial⟩
  rw [BitVec.ofNat_add, ← hticket]
  rfl

theorem Implements.loadNext {s : LockState I} {t : Lock I} (h : Implements s t) {i : I}
    (hi : t.customers i = .holding t.served) :
    Implements (s.setThread i (.unlocking s.lock.plainTicket)) t := by
  have hmatches : Matches (.unlocking s.lock.plainTicket) (t.customers i) := by
    rw [hi, Matches, BitVec.ofNat_add, ← h.next]
    rfl
  refine ⟨h.ticket, h.next, h.admitted, ?_⟩
  have hupdate := Matches.update (i := i) h.threads hmatches
  rwa [Function.update_eq_self] at hupdate

omit [DecidableEq I] in
theorem Implements.waiting {s : LockState I} {t : Lock I} (h : Implements s t) {i : I}
    {ticket : BitVec 32} (hi : s.threads i = .waiting ticket) :
    ∃ number, t.customers i = .waiting number ∧ ticket = BitVec.ofNat 32 number := by
  have hmatches := h.threads i
  cases hc : t.customers i <;> simp_all [Matches]

omit [DecidableEq I] in
theorem Implements.holding {s : LockState I} {t : Lock I} (h : Implements s t) {i : I}
    {ticket : BitVec 32} (hi : s.threads i = .holding ticket) :
    ∃ number, t.customers i = .holding number ∧ ticket = BitVec.ofNat 32 number := by
  have hmatches := h.threads i
  cases hc : t.customers i <;> simp_all [Matches]

omit [DecidableEq I] in
theorem Implements.unlocking {s : LockState I} {t : Lock I} (h : Implements s t) {i : I}
    {ticket : BitVec 32} (hi : s.threads i = .unlocking ticket) :
    ∃ number, t.customers i = .holding number ∧ ticket = BitVec.ofNat 32 (number + 1) := by
  have hmatches := h.threads i
  cases hc : t.customers i <;> simp_all [Matches]

omit [DecidableEq I] in
/-- A ticket is at its turn when its number is, as long as fewer wait than a counter can tell
apart. -/
theorem Implements.position_eq_zero_iff {s : LockState I} {t : Lock I} (h : Implements s t)
    (ht : Orderly t) (hfew : engaged LockThread.Waits s.threads < (2 ^ 32 : Nat)) {i : I}
    {number : Nat} (hi : t.customers i = .waiting number) :
    s.lock.position (BitVec.ofNat 32 number) = 0 ↔ number = t.served := by
  rw [h.engaged_eq] at hfew
  have hnear := ht.waiting_near hfew hi
  rw [TicketSpinlock.position_eq_zero, h.next]
  constructor
  · exact Counters.eq_of_ofNat_eq hnear.1 hnear.2
  · rintro rfl
    rfl

/-- A plain `unlock()` apart, the spinlock does what the lock that never wraps does. -/
theorem Implements.step {s s' : LockState I} {t : Lock I} {a : LockAction I} (h : Implements s t)
    (ht : Orderly t) (hfew : engaged LockThread.Waits s.threads < (2 ^ 32 : Nat))
    (hguard : ∀ i, a ≠ .store i) (hstep : s.step a = some s') :
    ∃ t', (TicketLock.Step t t' ∨ t' = t) ∧ Implements s' t' := by
  cases a with
  | fetchAdd i =>
    cases hi : s.threads i with
    | outside =>
      simp only [LockState.step, hi, Option.some.injEq] at hstep
      have hc : t.customers i = .outside := by
        have hmatches := h.threads i
        cases hc : t.customers i <;> simp_all [Matches]
      exact ⟨_, .inl (.draw i hc), hstep ▸ h.fetchAdd i⟩
    | _ => simp [LockState.step, hi] at hstep
  | load i =>
    cases hi : s.threads i with
    | waiting ticket =>
      simp only [LockState.step, hi, Option.some.injEq, load] at hstep
      obtain ⟨number, hc, rfl⟩ := h.waiting hi
      have hturn := h.position_eq_zero_iff ht hfew hc
      by_cases hzero : s.lock.position (BitVec.ofNat 32 number) = 0
      · rw [if_pos hzero] at hstep
        obtain rfl := hturn.1 hzero
        exact ⟨_, .inl (.enter i hc), hstep ▸ h.admit i rfl⟩
      · rw [if_neg hzero] at hstep
        exact ⟨t, .inr rfl, hstep ▸ h⟩
    | _ => simp [LockState.step, hi] at hstep
  | destroyGuard i =>
    cases hi : s.threads i with
    | holding ticket =>
      simp only [LockState.step, hi, Option.some.injEq] at hstep
      obtain ⟨number, hc, hticket⟩ := h.holding hi
      exact ⟨_, .inl (.leave i number hc), hstep ▸ h.unlock i hticket⟩
    | _ => simp [LockState.step, hi] at hstep
  | loadNext i =>
    cases hi : s.threads i with
    | holding ticket =>
      simp only [LockState.step, hi, Option.some.injEq] at hstep
      obtain ⟨number, hc, -⟩ := h.holding hi
      obtain ⟨rfl, -⟩ := ht.holding i number hc
      exact ⟨t, .inr rfl, hstep ▸ h.loadNext hc⟩
    | _ => simp [LockState.step, hi] at hstep
  | store i => exact absurd rfl (hguard i)

omit [DecidableEq I] in
theorem Implements.fair {s : LockState I} {t : Lock I} (h : Implements s t) (ht : Orderly t) :
    s.Fair := by
  have hfree : (∀ i, ¬ (s.threads i).Inside) → ∀ i, ¬ (t.customers i).Holds := by
    intro hs i
    rw [← (h.threads i).inside_iff]
    exact hs i
  have hlength : s.admitted.length = t.admitted.length := by rw [h.admitted, List.length_map]
  refine ⟨fun i j hi hj => ?_, ?_, fun hs => ?_, fun hs => ?_⟩
  · apply ht.exclusive
    · exact (h.threads i).inside_iff.1 hi
    · exact (h.threads j).inside_iff.1 hj
  · rw [hlength, ← ht.admitted, h.admitted]
  · rw [h.next, ht.free (hfree hs), hlength]
  · rintro ⟨i, hi⟩
    cases hthread : s.threads i with
    | waiting ticket =>
      obtain ⟨number, hc, -⟩ := h.waiting hthread
      obtain ⟨j, hj⟩ := ht.next_waits (hfree hs) hc
      have hmatches := h.threads j
      rw [hj] at hmatches
      cases hthread' : s.threads j with
      | waiting ticket' =>
        rw [hthread', Matches] at hmatches
        refine ⟨j, ticket', hthread', ?_⟩
        rw [TicketSpinlock.position_eq_zero, h.next, hmatches]
      | _ => simp [hthread', Matches] at hmatches
    | _ => simp [hthread, LockThread.Waits] at hi

/-- The plain `unlock()` goes past one ticket. -/
theorem Implements.store_unfair {s : LockState I} {t : Lock I} (h : Implements s t) (ht : Orderly t)
    {i : I} {ticket : BitVec 32} (hi : s.threads i = .unlocking ticket) :
    ¬ (s.unlock i ticket).Fair := by
  intro hfair
  obtain ⟨number, hc, rfl⟩ := h.unlocking hi
  obtain ⟨rfl, hlast⟩ := ht.holding i number hc
  have hnobody : ∀ j, ¬ ((s.unlock i (BitVec.ofNat 32 (t.served + 1))).threads j).Inside := by
    intro j hj
    by_cases hji : j = i
    · simp [LockState.unlock, setThread, hji, LockThread.Inside] at hj
    · apply hji
      apply ht.exclusive
      · rw [← (h.threads j).inside_iff]
        simpa [LockState.unlock, setThread, Function.update_of_ne hji] using hj
      · simp [hc, Customer.Holds]
  have hnext := hfair.next hnobody
  have hlength : s.admitted.length = t.served + 1 := by rw [h.admitted, List.length_map, hlast]
  rw [show (s.unlock i (BitVec.ofNat 32 (t.served + 1))).admitted = s.admitted from rfl,
    hlength] at hnext
  have hone : BitVec.ofNat 32 (t.served + 1) + 1 = BitVec.ofNat 32 (t.served + 1) := hnext
  simp at hone

/-! ### Runs -/

theorem exists_implemented {s : LockState I} {actions : List (LockAction I)}
    (hfew : Always LockState.step {} (fun _ s => engaged LockThread.Waits s.threads < (2 ^ 32 : Nat))
      actions)
    (hguards : EachStep LockState.step {} (fun a _ => ∀ i, a ≠ .store i) actions)
    (hrun : run LockState.step {} actions = some s) :
    ∃ t, system.Reachable t ∧ Implements s t := by
  induction actions using List.reverseRecOn generalizing s with
  | nil =>
    cases hrun
    exact ⟨{}, .initial rfl, .initial⟩
  | append_singleton actions a ih =>
    obtain ⟨s', hbefore, hstep⟩ := exists_before hrun
    rw [always_concat] at hfew
    rw [eachStep_concat] at hguards
    obtain ⟨t, ht, himplements⟩ := ih hfew.1 hguards.1 hbefore
    obtain ⟨t', hnext, himplements'⟩ := himplements.step (orderly_of_reachable ht)
      (hfew.1.last hbefore) (hguards.2 s' hbefore) hstep
    refine ⟨t', ?_, himplements'⟩
    rcases hnext with hnext | rfl
    · exact ht.reaches (.step (.refl _) hnext)
    · exact ht

/-- With fewer than 2^32 threads waiting, the lock is fair in every state of a run if and only if
every release of the run is one by a guard. -/
theorem fair_iff_guards {actions : List (LockAction I)} {s : LockState I}
    (hrun : run LockState.step {} actions = some s)
    (hfew : Always LockState.step {} (fun _ s => engaged LockThread.Waits s.threads < (2 ^ 32 : Nat))
      actions) :
    Always LockState.step {} (fun _ s => s.Fair) actions ↔ ∀ a ∈ actions, ∀ i, a ≠ .store i := by
  rw [← eachStep_iff_forall_mem hrun]
  apply always_iff_eachStep _ _ hrun
  · exact Implements.initial.fair .initial
  · rintro before a after s s' rfl hbefore _ hguards hstep
    have hfewBefore : Always LockState.step {}
        (fun _ s => engaged LockThread.Waits s.threads < (2 ^ 32 : Nat)) before :=
      hfew.of_append
    obtain ⟨t, ht, himplements⟩ := exists_implemented hfewBefore hguards hbefore
    have horderly := orderly_of_reachable ht
    constructor
    · rintro hfair i rfl
      cases hi : s.threads i with
      | unlocking ticket =>
        simp only [LockState.step, hi, Option.some.injEq] at hstep
        exact himplements.store_unfair horderly hi (hstep ▸ hfair)
      | _ => simp [LockState.step, hi] at hstep
    · intro hguard
      obtain ⟨t', hnext, himplements'⟩ :=
        himplements.step horderly (hfewBefore.last hbefore) hguard hstep
      apply himplements'.fair
      rcases hnext with hnext | rfl
      · exact horderly.step hnext
      · exact horderly

/-- One thread with a guard. -/
theorem fair_one_guard : Always LockState.step {} (fun _ (s : LockState Unit) => s.Fair)
    [.fetchAdd (), .load (), .destroyGuard ()] := by
  have hrun : ∃ s : LockState Unit,
      run LockState.step {} [.fetchAdd (), .load (), .destroyGuard ()] = some s := ⟨_, rfl⟩
  obtain ⟨s, hrun⟩ := hrun
  apply (fair_iff_guards hrun _).2
  · simp
  · intro before after s _ _
    apply lt_of_le_of_lt engaged_le_card
    simp

/-- Two threads, the first of which releases with the plain `unlock()`: the second one waits for
ticket one, and `m_next` has gone past it. -/
theorem plain_unlock_skips : ∃ s : LockState Bool,
    run LockState.step {}
      [.fetchAdd false, .load false, .fetchAdd true, .loadNext false, .store false] = some s ∧
    s.lock.next = 2 ∧ s.threads true = .waiting 1 ∧ s.threads false = .outside ∧ ¬ s.Fair := by
  refine ⟨_, rfl, rfl, rfl, rfl, fun hfair => ?_⟩
  have hnext := hfair.next (by
    intro i
    cases i <;> exact id)
  exact absurd hnext (by decide)

end LockState

end LuPlatform.Common
