import LuPlatform.Thread.JobRuns

/-! Whether a job that could run has a worker to take it. Workers sleep in a wait without a timeout,
so every operation that makes a job poppable has to leave one of them awake. Lifting the pause makes
the pausable jobs poppable and wakes nobody. -/

namespace LuPlatform.Thread

open Transition TransitionSystem

section Eligible

variable {hardwareConcurrency : BitVec 32}

namespace JobManager

theorem popAt_isSome (m : JobManager) (priority : Priority) :
    (m.popAt hardwareConcurrency priority).isSome = m.eligible hardwareConcurrency priority := by
  unfold popAt
  cases heligible : m.eligible hardwareConcurrency priority with
  | false => rfl
  | true =>
    cases hqueue : m.jobQueue priority with
    | nil => simp [eligible, hqueue] at heligible
    | cons item items => simp

theorem popJob_isSome (m : JobManager) :
    (m.popJob hardwareConcurrency).isSome = true ↔
      ∃ priority, m.eligible hardwareConcurrency priority = true := by
  have hpriorities : ∀ priority : Priority,
      priority ∈ [Priority.dedicated, .high, .normal, .low, .lowPausable] := by
    intro priority
    cases priority <;> decide
  rw [popJob, List.findSome?_isSome_iff]
  simp only [popAt_isSome]
  exact ⟨fun ⟨priority, _, h⟩ => ⟨priority, h⟩, fun ⟨priority, h⟩ => ⟨priority, hpriorities priority, h⟩⟩

/-- A job stays poppable where the queue does not lose it, the pause is not lifted and no more jobs
are in progress. -/
theorem eligible_mono {m m' : JobManager} {priority : Priority}
    (hpause : m.pauseJobs = true → m'.pauseJobs = true)
    (hqueue : m'.jobQueue priority ≠ [] → m.jobQueue priority ≠ [])
    (hprocessing : m'.processing.length = m.processing.length)
    (h : m'.eligible hardwareConcurrency priority = true) :
    m.eligible hardwareConcurrency priority = true := by
  simp only [eligible, Bool.and_eq_true, Bool.not_eq_true', Bool.and_eq_false_iff,
    List.isEmpty_eq_false_iff, decide_eq_true_eq, hprocessing] at h ⊢
  obtain ⟨⟨hpausable, hitems⟩, hlimit⟩ := h
  refine ⟨⟨hpausable.imp_right fun hpaused => ?_, hqueue hitems⟩, hlimit⟩
  cases hm : m.pauseJobs with
  | false => rfl
  | true => rw [hpause hm] at hpaused; exact hpaused

end JobManager

end Eligible

namespace JobSystem

variable {hardwareConcurrency : BitVec 32}

/-- A job is poppable, but no worker will come for it. -/
def Stranded (hardwareConcurrency : BitVec 32) (s : JobSystem) : Prop :=
  s.manager.running = true ∧ (s.manager.popJob hardwareConcurrency).isSome = true ∧
    ∀ worker ∈ s.manager.workers, s.threads[worker]? = some .waiting

instance (s : JobSystem) : Decidable (s.Stranded hardwareConcurrency) :=
  inferInstanceAs (Decidable (_ ∧ _ ∧ _))

/-- Lifting the pause finds a worker awake, or no pausable job that could run. -/
def LiftsSafely (hardwareConcurrency : BitVec 32) (s : JobSystem) : Prop :=
  (∃ worker ∈ s.manager.workers, s.threads[worker]? ≠ some .waiting) ∨
    s.manager.jobQueue .lowPausable = [] ∨
    (getMaxWorkers hardwareConcurrency .lowPausable).toNat ≤ s.manager.processing.length

/-- The operations of a manager that goes on running. -/
def ordinary : JobAction → Bool
  | .cancelJobs | .notifyAll | .cancelJobsReturn | .restart => false
  | _ => true

def SafelyPaused (hardwareConcurrency : BitVec 32) (a : JobAction) (s : JobSystem) : Prop :=
  ordinary a = true ∧ (a = .unPauseJobs → s.LiftsSafely hardwareConcurrency)

structure Attended (hardwareConcurrency : BitVec 32) (s : JobSystem) : Prop where
  running : s.manager.running = true
  listed : ∀ worker < s.threads.length, worker ∈ s.manager.workers
  staying : ∀ worker : Nat, s.threads[worker]? ≠ some .leaving
  awake : (∃ priority, s.manager.eligible hardwareConcurrency priority = true) →
    ∃ worker ∈ s.manager.workers, s.threads[worker]? ≠ some .waiting

theorem Attended.not_stranded {s : JobSystem} (h : s.Attended hardwareConcurrency) :
    ¬ s.Stranded hardwareConcurrency := by
  rintro ⟨-, hpop, hasleep⟩
  obtain ⟨worker, hmem, hawake⟩ := h.awake (s.manager.popJob_isSome.1 hpop)
  exact hawake (hasleep worker hmem)

/-- A change of the manager that makes no job poppable. -/
theorem Attended.manager {s s' : JobSystem} (h : s.Attended hardwareConcurrency)
    (hthreads : s'.threads = s.threads) (hworkers : s'.manager.workers = s.manager.workers)
    (hrunning : s'.manager.running = s.manager.running)
    (heligible : ∀ priority, s'.manager.eligible hardwareConcurrency priority = true →
      s.manager.eligible hardwareConcurrency priority = true) :
    s'.Attended hardwareConcurrency := by
  obtain ⟨hr, hlisted, hstaying, hawake⟩ := h
  refine ⟨hrunning.trans hr, ?_, ?_, ?_⟩
  · rwa [hthreads, hworkers]
  · rwa [hthreads]
  · rw [hthreads, hworkers]
    exact fun ⟨priority, hp⟩ => hawake ⟨priority, heligible priority hp⟩

/-- A worker that goes on is awake, whatever it did to the queues. -/
theorem Attended.goesOn {s s' : JobSystem} (h : s.Attended hardwareConcurrency) {worker : Nat}
    {t : JobWorker} (hworker : worker < s.threads.length)
    (hthreads : s'.threads = s.threads.set worker t)
    (hworkers : s'.manager.workers = s.manager.workers)
    (hrunning : s'.manager.running = s.manager.running) (hwaiting : t ≠ .waiting)
    (hleaving : t ≠ .leaving) : s'.Attended hardwareConcurrency := by
  obtain ⟨hr, hlisted, hstaying, -⟩ := h
  refine ⟨hrunning.trans hr, ?_, ?_, fun _ => ⟨worker, ?_, ?_⟩⟩
  · rwa [hthreads, hworkers, List.length_set]
  · intro other
    by_cases hsame : worker = other
    · rw [hthreads, ← hsame, List.getElem?_set_self hworker]
      simpa using hleaving
    · rw [hthreads, List.getElem?_set_ne hsame]
      exact hstaying other
  · rw [hworkers]
    exact hlisted worker hworker
  · rw [hthreads, List.getElem?_set_self hworker]
    simpa using hwaiting

theorem Attended.worker {s s' : JobSystem} (h : s.Attended hardwareConcurrency) {worker : Nat}
    (hstep : WorkerStep hardwareConcurrency s worker s') : s'.Attended hardwareConcurrency := by
  have halive := hstep.alive
  cases hstep with
  | pop ht hidle hrunning hpop =>
    obtain ⟨priority, items, -, rfl⟩ := JobManager.popJob_cases hpop
    exact h.goesOn halive rfl rfl rfl (by simp) (by simp)
  | wait ht hidle hrunning hpop =>
    -- nothing is poppable, so nobody has to be awake
    refine ⟨h.running, ?_, ?_, fun heligible => ?_⟩
    · simpa [setThread] using h.listed
    · intro other
      by_cases hsame : worker = other
      · simp [setThread, ← hsame, List.getElem?_set_self halive]
      · simpa [setThread, List.getElem?_set_ne hsame] using h.staying other
    · have hsome := s.manager.popJob_isSome.2 heligible
      rw [hpop] at hsome
      exact absurd hsome (by simp)
  | leave ht hidle hrunning => simp [h.running] at hrunning
  | copy ht hfind => exact h.goesOn halive rfl rfl rfl (by simp) (by simp)
  | lost ht hfind => exact h.goesOn halive rfl rfl rfl (by simp) (by simp)
  | call ht => exact h.goesOn halive rfl rfl rfl (by simp) (by simp)
  | complete ht => exact h.goesOn halive rfl rfl rfl (by simp) (by simp)
  | free ht => exact h.goesOn halive rfl rfl rfl (by simp) (by simp)
  | remove ht => exact absurd ht (h.staying worker)

/-- `addJob` wakes somebody when its job is poppable. -/
theorem Attended.addJob {s : JobSystem} (h : s.Attended hardwareConcurrency)
    (callback : Option Callback) (priority : Priority) :
    (s.addJob hardwareConcurrency callback priority).Attended hardwareConcurrency := by
  unfold JobSystem.addJob
  rw [if_pos h.running]
  unfold startWorkers
  have hworkers : (s.manager.enqueue s.jobs callback priority).workers = s.manager.workers := rfl
  have hprocessing :
      (s.manager.enqueue s.jobs callback priority).processing = s.manager.processing := rfl
  cases hstart : (s.manager.enqueue s.jobs callback priority).startWorkers hardwareConcurrency
      priority with
  | nothing =>
    -- the new job is not poppable: its priority has all the workers it may have
    refine h.manager rfl rfl rfl fun other heligible => ?_
    have heligible : (s.manager.enqueue s.jobs callback priority).eligible hardwareConcurrency
      other = true := heligible
    have hlimit : (getMaxWorkers hardwareConcurrency priority).toNat ≤ s.manager.processing.length := by
      unfold JobManager.startWorkers at hstart
      grind
    refine @JobManager.eligible_mono _ _ (s.manager.enqueue s.jobs callback priority) other id
      (fun hqueue => ?_) rfl heligible
    by_cases hsame : other = priority
    · subst hsame
      simp only [JobManager.eligible, hprocessing, Bool.and_eq_true, decide_eq_true_eq] at heligible
      omega
    · simpa [JobManager.enqueue, hsame] using hqueue
  | notifyAll =>
    have hmore : s.manager.processing.length < s.manager.workers.length := by
      unfold JobManager.startWorkers at hstart
      grind
    refine ⟨h.running, by simpa [notifyAll, hworkers] using h.listed, ?_, fun _ => ?_⟩
    · intro worker
      simp only [notifyAll, List.getElem?_map]
      cases ht : s.threads[worker]? with
      | none => simp
      | some t =>
        have hstaying := h.staying worker
        rw [ht] at hstaying
        cases t <;> simp_all [JobWorker.notify]
    · obtain ⟨worker, hworker⟩ := List.exists_mem_of_length_pos (Nat.zero_lt_of_lt hmore)
      refine ⟨worker, hworker, ?_⟩
      simp only [notifyAll, List.getElem?_map]
      cases s.threads[worker]? with
      | none => simp
      | some t => cases t <;> simp [JobWorker.notify]
  | newWorker =>
    refine ⟨h.running, ?_, ?_, fun _ => ⟨s.threads.length, ?_, ?_⟩⟩
    · intro worker hworker
      simp only [newWorker, hworkers, List.length_append, List.length_singleton] at hworker ⊢
      rcases Nat.lt_succ_iff_lt_or_eq.1 hworker with hlt | rfl
      · exact List.mem_append_left _ (h.listed worker hlt)
      · simp
    · intro worker
      simp only [newWorker, List.getElem?_append]
      split
      · exact h.staying worker
      · cases worker - s.threads.length <;> simp
    · simp [newWorker]
    · simp [newWorker]

theorem Attended.cancelJob {s : JobSystem} (h : s.Attended hardwareConcurrency)
    (jobID : BitVec 32) : (s.cancelJob jobID).Attended hardwareConcurrency := by
  unfold JobSystem.cancelJob
  cases hcancel : s.manager.cancelQueued jobID with
  | none =>
    refine h.manager rfl rfl rfl fun priority => ?_
    exact JobManager.eligible_mono id id (cancelFirst_length _ _)
  | some cancelled =>
    obtain ⟨priority, before, after, hqueue, -, hm⟩ := JobManager.cancelQueued_cases hcancel
    refine h.manager rfl (by simp only [hm]; rfl) (by simp only [hm]; rfl) fun other => ?_
    simp only [hm]
    refine JobManager.eligible_mono id ?_ rfl
    intro hother hempty
    by_cases hsame : other = priority
    · subst hsame
      rw [hqueue] at hempty
      simp at hempty
    · rw [JobManager.setQueue_of_ne _ _ hsame] at hother
      exact hother hempty

theorem Attended.unPauseJobs {s : JobSystem} (h : s.Attended hardwareConcurrency)
    (hlifts : s.LiftsSafely hardwareConcurrency) :
    Attended hardwareConcurrency
      { s with manager := { s.manager with pauseJobs := false } } := by
  refine ⟨h.running, h.listed, h.staying, fun ⟨priority, heligible⟩ => ?_⟩
  simp only [JobManager.eligible, Bool.and_false, Bool.not_false, Bool.true_and, Bool.and_eq_true,
    Bool.not_eq_true', List.isEmpty_eq_false_iff, decide_eq_true_eq] at heligible
  by_cases hpausable : priority = .lowPausable
  · subst hpausable
    rcases hlifts with hawake | hempty | hlimit
    · exact hawake
    · exact absurd hempty heligible.1
    · omega
  · refine h.awake ⟨priority, ?_⟩
    simp [JobManager.eligible, hpausable, heligible]

theorem attended_of_reachable {s : JobSystem}
    (h : (system hardwareConcurrency (SafelyPaused hardwareConcurrency)).Reachable s) :
    s.Attended hardwareConcurrency := by
  refine Reachable.invariant ?_ ?_ h
  · rintro s rfl
    exact ⟨rfl, by simp, by simp, fun ⟨priority, h⟩ => by simp [JobManager.eligible] at h⟩
  · rintro s s' - hattended ⟨a, hG, hstep⟩
    cases step_cases hardwareConcurrency hstep with
    | addJob callback priority => exact hattended.addJob callback priority
    | cancelJob jobID => exact hattended.cancelJob jobID
    | cancelJobs => exact absurd hG.1 (by decide)
    | notifyAll hcancelling => exact absurd hG.1 (by decide)
    | cancelJobsReturn hcancelling hworkers => exact absurd hG.1 (by decide)
    | restart hrunning => exact absurd hG.1 (by decide)
    | pauseJobs =>
      exact hattended.manager rfl rfl rfl fun priority =>
        JobManager.eligible_mono (fun _ => rfl) id rfl
    | unPauseJobs => exact hattended.unPauseJobs (hG.2 rfl)
    | wake hwaiting =>
      exact hattended.goesOn (List.getElem?_eq_some_iff.1 hwaiting).1 rfl rfl rfl (by simp) (by simp)
    | worker hworker => exact hattended.worker hworker

end JobSystem

end LuPlatform.Thread
