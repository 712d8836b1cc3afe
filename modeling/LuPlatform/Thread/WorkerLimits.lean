import LuPlatform.Thread.JobRuns

/-! The limits of `getMaxWorkers`. Its subtraction is one of unsigned numbers: on a machine with few
cores it reaches zero for one priority and wraps for the ones below. -/

namespace LuPlatform.Thread

open Transition TransitionSystem

/-- No limit is zero or above that of the machine, and none falls when the priority rises. -/
structure LimitsInOrder (hardwareConcurrency : BitVec 32) : Prop where
  positive : ∀ priority, priority ≠ .dedicated → 1 ≤ getMaxWorkers hardwareConcurrency priority
  bounded : ∀ priority, priority ≠ .dedicated →
    getMaxWorkers hardwareConcurrency priority ≤ maxWorkers hardwareConcurrency
  monotone : ∀ priority other : Priority, other ≠ .dedicated → priority.value ≤ other.value →
    getMaxWorkers hardwareConcurrency priority ≤ getMaxWorkers hardwareConcurrency other

/-- With nothing in progress and no pause, `popJob` gives the oldest job of the highest priority
that has any. -/
def PopsHighest (hardwareConcurrency : BitVec 32) : Prop :=
  ∀ s, (JobSystem.system hardwareConcurrency fun _ _ => True).Reachable s →
    s.manager.processing = [] → s.manager.pauseJobs = false →
      ∀ priority item items, s.manager.jobQueue priority = item :: items →
        (∀ other : Priority, priority.value < other.value → s.manager.jobQueue other = []) →
          ∃ m, s.manager.popJob hardwareConcurrency = some (item, m)

variable {hardwareConcurrency : BitVec 32}

theorem maxWorkers_of_four_le (h : 4 ≤ hardwareConcurrency) :
    maxWorkers hardwareConcurrency = hardwareConcurrency := by
  apply if_neg
  simp only [BitVec.le_def] at h ⊢
  have : (4 : BitVec 32).toNat = 4 := rfl
  have : (2 : BitVec 32).toNat = 2 := rfl
  omega

/-- From four cores on the subtraction does not wrap. -/
theorem getMaxWorkers_toNat (h : 4 ≤ hardwareConcurrency) {priority : Priority}
    (hpriority : priority ≠ .dedicated) :
    (getMaxWorkers hardwareConcurrency priority).toNat =
      hardwareConcurrency.toNat - (3 - priority.value) := by
  have hfour : 4 ≤ hardwareConcurrency.toNat := by simpa [BitVec.le_def] using h
  have hsmall : (BitVec.ofNat 32 (3 - priority.value)).toNat = 3 - priority.value := by
    rw [BitVec.toNat_ofNat]
    apply Nat.mod_eq_of_lt
    omega
  rw [getMaxWorkers, if_neg hpriority, maxWorkers_of_four_le h,
    show Priority.high.value = 3 from rfl, BitVec.toNat_sub_of_le, hsmall]
  rw [BitVec.le_def, hsmall]
  omega

theorem Priority.value_le_three {priority : Priority} (h : priority ≠ .dedicated) :
    priority.value ≤ 3 := by
  cases priority <;> simp_all [Priority.value]

theorem limitsInOrder_of_four_le (h : 4 ≤ hardwareConcurrency) :
    LimitsInOrder hardwareConcurrency := by
  have hfour : 4 ≤ hardwareConcurrency.toNat := by simpa [BitVec.le_def] using h
  refine ⟨fun priority hpriority => ?_, fun priority hpriority => ?_,
    fun priority other hother hle => ?_⟩
  · rw [BitVec.le_def, getMaxWorkers_toNat h hpriority]
    have : (1 : BitVec 32).toNat = 1 := rfl
    omega
  · rw [BitVec.le_def, getMaxWorkers_toNat h hpriority, maxWorkers_of_four_le h]
    apply Nat.sub_le
  · have hpriority : priority ≠ .dedicated := by
      intro heq
      subst heq
      have := Priority.value_le_three hother
      have : Priority.dedicated.value = 4 := rfl
      omega
    rw [BitVec.le_def, getMaxWorkers_toNat h hpriority, getMaxWorkers_toNat h hother]
    omega

/-! ### What is popped -/

namespace JobManager

theorem popAt_empty {m : JobManager} {priority : Priority} (h : m.jobQueue priority = []) :
    m.popAt hardwareConcurrency priority = none := by
  simp [popAt, eligible, h]

theorem popAt_starved {m : JobManager} {priority : Priority}
    (h : getMaxWorkers hardwareConcurrency priority = 0) :
    m.popAt hardwareConcurrency priority = none := by
  simp [popAt, eligible, h]

theorem popAt_first {m : JobManager} {priority : Priority} {item : WorkItem} {items : List WorkItem}
    (hqueue : m.jobQueue priority = item :: items) (hpause : m.pauseJobs = false)
    (hlimit : m.processing.length < (getMaxWorkers hardwareConcurrency priority).toNat) :
    m.popAt hardwareConcurrency priority =
      some (item, { m.setQueue priority items with processing := m.processing ++ [item] }) := by
  simp [popAt, eligible, hqueue, hpause, hlimit]

/-- The loop of `popJob` goes from the highest priority down. -/
theorem popJob_highest {m : JobManager} {priority : Priority} {popped : WorkItem × JobManager}
    (hpop : m.popAt hardwareConcurrency priority = some popped)
    (habove : ∀ other : Priority, priority.value < other.value → m.jobQueue other = []) :
    m.popJob hardwareConcurrency = some popped := by
  have hskip : ∀ other : Priority, priority.value < other.value →
      m.popAt hardwareConcurrency other = none := fun other hlt => popAt_empty (habove other hlt)
  unfold popJob
  cases priority with
  | dedicated => simp [hpop]
  | high => simp [hpop, hskip .dedicated (by decide)]
  | normal =>
    simp [hpop, hskip .dedicated (by decide), hskip .high (by decide)]
  | low =>
    simp [hpop, hskip .dedicated (by decide), hskip .high (by decide),
      hskip .normal (by decide)]
  | lowPausable =>
    simp [hpop, hskip .dedicated (by decide), hskip .high (by decide),
      hskip .normal (by decide), hskip .low (by decide)]

theorem popJob_none {m : JobManager} {priority : Priority}
    (hlimit : getMaxWorkers hardwareConcurrency priority = 0)
    (hqueue : ∀ other, other ≠ priority → m.jobQueue other = []) :
    m.popJob hardwareConcurrency = none := by
  rw [popJob, List.findSome?_eq_none_iff]
  intro other _
  by_cases hsame : other = priority
  · rw [hsame]
    apply popAt_starved hlimit
  · apply popAt_empty (hqueue other hsame)

end JobManager

theorem popsHighest_of_four_le (h : 4 ≤ hardwareConcurrency) : PopsHighest hardwareConcurrency := by
  intro s _ hidle hpause priority item items hqueue habove
  have hlimit : 0 < (getMaxWorkers hardwareConcurrency priority).toNat := by
    by_cases hdedicated : priority = .dedicated
    · simp [getMaxWorkers, hdedicated]
    · exact (limitsInOrder_of_four_le h).positive priority hdedicated
  exact ⟨_, JobManager.popJob_highest
    (JobManager.popAt_first hqueue hpause (by simpa [hidle] using hlimit)) habove⟩

/-- Where a limit is zero, the first job of that priority is left where it is. -/
theorem not_popsHighest {priority : Priority}
    (hlimit : getMaxWorkers hardwareConcurrency priority = 0) : ¬ PopsHighest hardwareConcurrency := by
  intro h
  have hadded : (({} : JobSystem).addJob hardwareConcurrency none priority).manager =
      ({} : JobManager).enqueue 0 none priority := by
    simp [JobSystem.addJob, JobSystem.startWorkers, JobManager.startWorkers, hlimit]
  have hreachable : (JobSystem.system hardwareConcurrency fun _ _ => True).Reachable
      (({} : JobSystem).addJob hardwareConcurrency none priority) :=
    (Reachable.initial rfl).reaches (.step (.refl _) ⟨.addJob none priority, trivial, rfl⟩)
  have hothers : ∀ other, other ≠ priority →
      (({} : JobManager).enqueue 0 none priority).jobQueue other = [] := by
    intro other hne
    exact JobManager.setQueue_of_ne _ _ hne
  obtain ⟨m, hpop⟩ := h _ hreachable (by rw [hadded]; rfl) (by rw [hadded]; rfl) priority
    ⟨0, _, priority, none⟩ [] (by rw [hadded]; exact JobManager.setQueue_same _ _ _)
    (fun other hlt => by rw [hadded]; exact hothers other (fun heq => by simp [heq] at hlt))
  rw [hadded, JobManager.popJob_none hlimit hothers] at hpop
  exact absurd hpop (by simp)

theorem exists_starved (h : ¬ 4 ≤ hardwareConcurrency) :
    ∃ priority, priority ≠ .dedicated ∧ getMaxWorkers hardwareConcurrency priority = 0 := by
  simp only [BitVec.le_def, show (4 : BitVec 32).toNat = 4 from rfl] at h
  by_cases hthree : hardwareConcurrency = 3
  · subst hthree
    exact ⟨.lowPausable, by decide, by decide⟩
  · have hmax : maxWorkers hardwareConcurrency = 1 := by
      apply if_pos
      rw [BitVec.le_def, show (2 : BitVec 32).toNat = 2 from rfl]
      have : hardwareConcurrency.toNat ≠ 3 := fun heq => hthree (BitVec.eq_of_toNat_eq heq)
      omega
    refine ⟨.normal, by decide, ?_⟩
    simp [getMaxWorkers, hmax, Priority.value]

/-- No priority is starved on a machine with four cores or more, and on no other one. -/
theorem workers_never_starve_iff (hardwareConcurrency : BitVec 32) :
    (LimitsInOrder hardwareConcurrency ∧ PopsHighest hardwareConcurrency) ↔
      4 ≤ hardwareConcurrency := by
  refine ⟨fun h => ?_, fun h => ⟨limitsInOrder_of_four_le h, popsHighest_of_four_le h⟩⟩
  by_contra hfew
  obtain ⟨priority, _, hlimit⟩ := exists_starved hfew
  apply not_popsHighest hlimit h.2

/-- With two cores the limit of `PRIORITY_NORMAL` is zero, and that of `PRIORITY_LOW` is no limit. -/
theorem two_cores_starve_normal : getMaxWorkers 2 .normal = 0 ∧ getMaxWorkers 2 .low = 4294967295 ∧
    ¬ LimitsInOrder 2 ∧ ¬ PopsHighest 2 := by
  have hzero : getMaxWorkers 2 .normal = 0 := by decide
  refine ⟨hzero, by decide, fun h => ?_, not_popsHighest hzero⟩
  have hpositive := h.positive .normal (by decide)
  rw [hzero] at hpositive
  exact absurd hpositive (by decide)

end LuPlatform.Thread
