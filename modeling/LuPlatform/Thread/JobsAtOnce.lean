import LuPlatform.Thread.JobOwnership
import LuPlatform.Thread.JobQueueRuns

/-! How many jobs of a queue the manager has at once. A job of the queue that is queued or executing
there is in progress for the queue too, unless the queue let go of it: a job that executes cannot be
stopped, so a cancelled one goes on beside its successor. -/

namespace LuPlatform.Thread

open Census Actions

/-- The job that a worker executes, up to the callback. -/
def JobWorker.executing : JobWorker → Option Nat
  | .holding job => some job
  | .completing item => some item.job
  | _ => none

@[simp] theorem JobWorker.notify_executing (t : JobWorker) : t.notify.executing = t.executing := by
  cases t <;> rfl

namespace JobSystem

variable {hardwareConcurrency : BitVec 32} {s s' : JobSystem}

/-- In how many places of the manager a job is queued or executing. -/
def placed (s : JobSystem) (job : Nat) : Nat :=
  census WorkItem.itemJob job s.manager.queued + census JobWorker.executing job s.threads

theorem placed_notifyAll (s : JobSystem) (job : Nat) : s.notifyAll.placed job = s.placed job := by
  rw [placed, placed]
  congr 1
  exact census_map JobWorker.notify_executing s.threads

theorem placed_startWorkers (s : JobSystem) (priority : Priority) (job : Nat) :
    (s.startWorkers hardwareConcurrency priority).placed job = s.placed job := by
  unfold startWorkers
  cases s.manager.startWorkers hardwareConcurrency priority with
  | nothing => rfl
  | notifyAll => exact s.placed_notifyAll job
  | newWorker =>
    change census WorkItem.itemJob job s.manager.queued +
      census JobWorker.executing job (s.threads ++ [.ready]) = _
    simp [placed, census_singleton, JobWorker.executing]

/-- What is submitted comes into one place. -/
theorem placed_submit (s : JobSystem) (new : Nat) (callback : Option Callback) (priority : Priority)
    (job : Nat) : (s.submit hardwareConcurrency new callback priority).1.placed job ≤
      s.placed job + hit job (some new) := by
  unfold submit
  split
  · rw [placed_startWorkers]
    have hset := JobManager.census_setQueue { s.manager with jobCounter := s.manager.nextId } priority
      (s.manager.jobQueue priority ++ [WorkItem.mk new s.manager.nextId priority callback]) job
    rw [census_append, census_singleton, ← Nat.add_assoc] at hset
    have hsame : census WorkItem.itemJob job
        ({ s.manager with jobCounter := s.manager.nextId } : JobManager).queued =
          census WorkItem.itemJob job s.manager.queued := rfl
    simp only [WorkItem.itemJob] at hset hsame
    simp only [placed, JobManager.enqueue]
    omega
  · exact Nat.le_add_right _ _

theorem submit_jobs (s : JobSystem) (new : Nat) (callback : Option Callback) (priority : Priority) :
    (s.submit hardwareConcurrency new callback priority).1.jobs = s.jobs := by
  unfold submit startWorkers
  split
  · split <;> rfl
  · rfl

theorem placed_cancelJob (s : JobSystem) (jobID : BitVec 32) (job : Nat) :
    (s.cancelJob jobID).placed job ≤ s.placed job := by
  unfold cancelJob
  cases hcancel : s.manager.cancelQueued jobID with
  | none => exact Nat.le_refl _
  | some cancelled =>
    obtain ⟨item, m⟩ := cancelled
    obtain ⟨priority, before, after, hqueue, -, rfl⟩ := JobManager.cancelQueued_cases hcancel
    have hqueued := s.manager.census_setQueue priority (before ++ after) job
    rw [hqueue, census_remove] at hqueued
    simp only [placed]
    omega

theorem cancelJob_jobs (s : JobSystem) (jobID : BitVec 32) : (s.cancelJob jobID).jobs = s.jobs := by
  unfold cancelJob
  split <;> rfl

theorem census_executing {worker : Nat} {t : JobWorker} (ht : s.threads[worker]? = some t)
    (t' : JobWorker) (job : Nat) :
    census JobWorker.executing job (s.threads.set worker t') + hit job t.executing =
      census JobWorker.executing job s.threads + hit job t'.executing := by
  simp only [← census_singleton]
  exact census_set _ _ ht t'

/-- A worker that goes on with what it had, or with nothing. -/
theorem placed_setThread {worker : Nat} {t t' : JobWorker} (ht : s.threads[worker]? = some t)
    (hless : t'.executing = t.executing ∨ t'.executing = none) (job : Nat) :
    (s.setThread worker t').placed job ≤ s.placed job := by
  have hmove := census_executing ht t' job
  have hle : hit job t'.executing ≤ hit job t.executing := by
    rcases hless with hsame | hnone
    · rw [hsame]
    · rw [hnone]
      exact Nat.zero_le _
  simp only [placed, setThread]
  omega

theorem WorkerStep.placed_le {worker : Nat} (h : WorkerStep hardwareConcurrency s worker s')
    (job : Nat) : s'.placed job ≤ s.placed job := by
  cases h with
  | @pop t item m ht hidle hrunning hpop =>
    obtain ⟨priority, items, hqueue, rfl⟩ := JobManager.popJob_cases hpop
    have hnone : t.executing = none := by
      rcases hidle with rfl | rfl <;> rfl
    have hqueued := s.manager.census_setQueue priority items job
    have hmove := census_executing ht (.holding item.job) job
    rw [hqueue, census_cons item items, census_singleton, WorkItem.itemJob] at hqueued
    rw [hnone, hit_none] at hmove
    change census WorkItem.itemJob job (s.manager.setQueue priority items).queued + _ ≤ _
    simp only [placed, JobWorker.executing] at hmove ⊢
    omega
  | wait ht hidle hrunning hpop => exact placed_setThread ht (.inr rfl) job
  | leave ht hidle hrunning => exact placed_setThread ht (.inr rfl) job
  | copy ht hfind =>
    have hjob := List.find?_some hfind
    apply placed_setThread ht (.inl _) job
    exact congrArg some (of_decide_eq_true hjob)
  | lost ht hfind => exact placed_setThread ht (.inr rfl) job
  | call ht => exact placed_setThread ht (.inr rfl) job
  | complete ht => exact placed_setThread ht (.inr rfl) job
  | free ht => exact placed_setThread ht (.inr rfl) job
  | remove ht => exact placed_setThread ht (.inr rfl) job

theorem WorkerStep.jobs_eq {worker : Nat} (h : WorkerStep hardwareConcurrency s worker s') :
    s'.jobs = s.jobs := by
  cases h <;> rfl

/-- A step brings no job into a place but one that it allocates. -/
theorem placed_step {a : JobAction} (h : s.step hardwareConcurrency a = some s') :
    s.jobs ≤ s'.jobs ∧
      ∀ job, s'.placed job + allocated s.jobs job ≤ s.placed job + allocated s'.jobs job := by
  have hquiet : s'.jobs = s.jobs → (∀ job, s'.placed job ≤ s.placed job) → s.jobs ≤ s'.jobs ∧
      ∀ job, s'.placed job + allocated s.jobs job ≤ s.placed job + allocated s'.jobs job := by
    intro hjobs hplaced
    rw [hjobs]
    exact ⟨Nat.le_refl _, fun job => Nat.add_le_add_right (hplaced job) _⟩
  cases step_cases hardwareConcurrency h with
  | addJob callback priority =>
    rw [addJob_eq_submit, submit_jobs]
    refine ⟨Nat.le_succ _, fun job => ?_⟩
    have hsubmit := @placed_submit hardwareConcurrency { s with jobs := s.jobs + 1 } s.jobs callback
      priority job
    have hbefore : ({ s with jobs := s.jobs + 1 } : JobSystem).placed job = s.placed job := rfl
    rw [allocated_succ]
    omega
  | cancelJob jobID => exact hquiet (s.cancelJob_jobs jobID) (s.placed_cancelJob jobID)
  | cancelJobs =>
    apply hquiet rfl
    intro job
    exact Nat.add_le_add_right (Nat.zero_le _) _
  | notifyAll hcancelling => exact hquiet rfl fun job => (s.placed_notifyAll job).le
  | cancelJobsReturn hcancelling hworkers => exact hquiet rfl fun _ => Nat.le_refl _
  | restart hrunning => exact hquiet rfl fun _ => Nat.le_refl _
  | pauseJobs => exact hquiet rfl fun _ => Nat.le_refl _
  | unPauseJobs => exact hquiet rfl fun _ => Nat.le_refl _
  | wake hwaiting => exact hquiet rfl (placed_setThread hwaiting (.inr rfl))
  | worker hworker => exact hquiet hworker.jobs_eq hworker.placed_le

/-- The callback is the end of a job. -/
theorem placed_call {worker : Nat} {item : WorkItem}
    (ht : s.threads[worker]? = some (.completing item))
    (h : s.step hardwareConcurrency (.worker worker) = some s') (job : Nat) :
    s'.placed job + hit job (some item.job) = s.placed job := by
  have hmove := census_executing ht (.called item) job
  simp only [step, workerStep, ht, Option.some.injEq] at h
  simp only [JobWorker.executing, hit_none] at hmove
  rw [← h]
  simp only [placed, setThread, raise]
  omega

end JobSystem

namespace JobQueueSystem

variable {same : Nat → Nat → Bool} {hardwareConcurrency : BitVec 32} {s s' : JobQueueSystem}

/-- The jobs that are queued or executing in the manager. -/
def inManager (s : JobQueueSystem) : List Nat :=
  s.system.manager.queued.map (·.job) ++ s.system.threads.filterMap (·.executing)

theorem mem_inManager {job : Nat} : job ∈ s.inManager ↔ 0 < s.system.placed job := by
  rw [inManager, List.mem_append, List.mem_map, List.mem_filterMap, JobSystem.placed]
  constructor
  · rintro (⟨item, hitem, hjob⟩ | ⟨t, ht, hjob⟩)
    · have := census_pos hitem (show item.itemJob = some job from congrArg some hjob)
      omega
    · have := census_pos ht hjob
      omega
  · intro hpos
    by_cases hqueued : 0 < census WorkItem.itemJob job s.system.manager.queued
    · obtain ⟨item, hitem, hjob⟩ := exists_of_census_pos hqueued
      exact .inl ⟨item, hitem, Option.some.inj hjob⟩
    · have hexecuting : 0 < census JobWorker.executing job s.system.threads := by omega
      obtain ⟨t, ht, hjob⟩ := exists_of_census_pos hexecuting
      exact .inr ⟨t, ht, hjob⟩

/-- The jobs that the queue submitted, has not let go of, and the manager still has. -/
def outstanding (s : JobQueueSystem) : List Nat :=
  s.submitted.filter fun job => job ∈ s.inManager ∧ job ∉ s.released

/-- Where the jobs of the queue are. One that waits is not in the manager, and one that is there is
in progress for the queue or was let go of. -/
structure Tracked (s : JobQueueSystem) : Prop where
  placed : ∀ job, s.system.placed job ≤ JobSystem.allocated s.system.jobs job
  distinct : (s.submitted ++ s.queue.jobQueue.map (·.job)).Nodup
  allocated : ∀ job ∈ s.submitted ++ s.queue.jobQueue.map (·.job), job < s.system.jobs
  waiting : ∀ p ∈ s.queue.jobQueue, s.system.placed p.job = 0
  submitted : ∀ p ∈ s.queue.processing, p.job ∈ s.submitted
  kept : ∀ job ∈ s.submitted, 0 < s.system.placed job →
    job ∈ s.released ∨ ∃ p ∈ s.queue.processing, p.job = job
  bound : s.queue.processing.length ≤ s.queue.jobsAtOnce

theorem Tracked.initial (lifo : Bool) (jobsAtOnce : Nat) (priority : Priority) :
    Tracked (initial lifo jobsAtOnce priority) := by
  refine ⟨fun _ => Nat.zero_le _, .nil, ?_, ?_, ?_, ?_, Nat.zero_le _⟩ <;>
    simp [JobQueueSystem.initial]

theorem Tracked.waiting_lt (h : s.Tracked) {p : JobPointer} (hp : p ∈ s.queue.jobQueue) :
    p.job < s.system.jobs := by
  apply h.allocated
  exact List.mem_append_right _ (List.mem_map_of_mem hp)

theorem Tracked.submitted_lt (h : s.Tracked) {job : Nat} (hjob : job ∈ s.submitted) :
    job < s.system.jobs := by
  apply h.allocated
  exact List.mem_append_left _ hjob

/-- Jobs come into the manager only as they are allocated. -/
theorem Tracked.system (h : s.Tracked) {system : JobSystem} (hjobs : s.system.jobs ≤ system.jobs)
    (hplaced : ∀ job, system.placed job + JobSystem.allocated s.system.jobs job ≤
      s.system.placed job + JobSystem.allocated system.jobs job) :
    (s.setSystem system).Tracked := by
  have hold : ∀ job < s.system.jobs, system.placed job ≤ s.system.placed job := by
    intro job hjob
    have hstep := hplaced job
    rw [JobSystem.allocated, if_pos hjob, JobSystem.allocated, if_pos (hjob.trans_le hjobs)] at hstep
    omega
  refine ⟨fun job => ?_, h.distinct, fun job hjob => ?_, fun p hp => ?_, h.submitted,
    fun job hjob hpos => ?_, h.bound⟩
  · have hstep := hplaced job
    have := h.placed job
    simp only [setSystem]
    omega
  · exact (h.allocated job hjob).trans_le hjobs
  · have := hold p.job (h.waiting_lt hp)
    have := h.waiting p hp
    simp only [setSystem]
    omega
  · apply h.kept job hjob
    exact Nat.lt_of_lt_of_le hpos (hold job (h.submitted_lt hjob))

/-- Entries may go as long as each of them was let go of, or its job is not in the manager. -/
theorem Tracked.shrink (h : s.Tracked) {queue : JobQueue} {released : List Nat}
    (hwaiting : queue.jobQueue.Sublist s.queue.jobQueue)
    (hprocessing : queue.processing.Sublist s.queue.processing)
    (hlimit : queue.jobsAtOnce = s.queue.jobsAtOnce) (hreleased : s.released ⊆ released)
    (hgone : ∀ p ∈ s.queue.processing, p ∈ queue.processing ∨ p.job ∈ released ∨
      s.system.placed p.job = 0) :
    Tracked { s with queue, released } := by
  have hjobs := (hwaiting.map (·.job)).append_left s.submitted
  refine ⟨h.placed, h.distinct.sublist hjobs, fun job hjob => ?_, fun p hp => ?_, fun p hp => ?_,
    fun job hjob hpos => ?_, ?_⟩
  · exact h.allocated job (hjobs.subset hjob)
  · exact h.waiting p (hwaiting.subset hp)
  · exact h.submitted p (hprocessing.subset hp)
  · rcases h.kept job hjob hpos with hlet | ⟨p, hp, rfl⟩
    · exact .inl (hreleased hlet)
    · rcases hgone p hp with hstays | hlet | hnowhere
      · exact .inr ⟨p, hstays, rfl⟩
      · exact .inl hlet
      · have hpos' : 0 < s.system.placed p.job := hpos
        omega
  · rw [hlimit]
    exact hprocessing.length_le.trans h.bound

theorem push_perm (q : JobQueue) (job : Nat) :
    (q.push job).jobQueue.Perm ({ job } :: q.jobQueue) := by
  unfold JobQueue.push
  split
  · exact List.perm_append_singleton _ _
  · exact .refl _

theorem push_processing (q : JobQueue) (job : Nat) :
    (q.push job).processing = q.processing ∧ (q.push job).jobsAtOnce = q.jobsAtOnce := by
  unfold JobQueue.push
  split <;> exact ⟨rfl, rfl⟩

/-- The job that the caller has just allocated. -/
theorem Tracked.push (h : s.Tracked) : Tracked { s with
    system := { s.system with jobs := s.system.jobs + 1 }
    queue := s.queue.push s.system.jobs } := by
  have hnowhere : s.system.placed s.system.jobs = 0 := by
    have hplaced := h.placed s.system.jobs
    rw [JobSystem.allocated, if_neg (Nat.lt_irrefl _)] at hplaced
    omega
  have hperm := push_perm s.queue s.system.jobs
  have hall : (s.submitted ++ (s.queue.push s.system.jobs).jobQueue.map (·.job)).Perm
      (s.system.jobs :: (s.submitted ++ s.queue.jobQueue.map (·.job))) := by
    apply ((hperm.map (·.job)).append_left s.submitted).trans
    rw [List.map_cons]
    exact List.perm_middle
  obtain ⟨hprocessing, hlimit⟩ := push_processing s.queue s.system.jobs
  refine ⟨fun job => ?_, ?_, fun job hjob => ?_, fun p hp => ?_, ?_, ?_, ?_⟩
  · rw [JobSystem.allocated_succ]
    exact (h.placed job).trans (Nat.le_add_right _ _)
  · apply hall.nodup_iff.2
    apply List.nodup_cons.2
    refine ⟨fun hmem => ?_, h.distinct⟩
    exact Nat.lt_irrefl _ (h.allocated _ hmem)
  · rcases List.mem_cons.1 (hall.subset hjob) with rfl | hmem
    · exact Nat.lt_succ_self _
    · exact Nat.lt_succ_of_lt (h.allocated job hmem)
  · rcases List.mem_cons.1 (hperm.subset hp) with rfl | hmem
    · exact hnowhere
    · exact h.waiting p hmem
  · rw [hprocessing]
    exact h.submitted
  · rw [hprocessing]
    exact h.kept
  · rw [hprocessing, hlimit]
    exact h.bound

theorem queued_processing {q : JobQueue} {p : JobPointer} (h : q.next = some p) (id : BitVec 32) :
    (q.queued id).processing = q.processing ++ if id > 0 then [{ p with id }] else [] := by
  have hgetLast : q.jobQueue.getLast? = some p := by
    rw [(next_cases h).2]
    exact List.getLast?_concat
  simp [JobQueue.queued, hgetLast]

variable (hardwareConcurrency) in
/-- The manager has the job in one place and the queue has it in progress, or neither has it. -/
theorem submission_cases (s : JobQueueSystem) (p : JobPointer) :
    (0 < (s.submission hardwareConcurrency p).2 ∧ ∀ job,
      (s.submission hardwareConcurrency p).1.placed job ≤
        s.system.placed job + hit job (some p.job)) ∨
    ((s.submission hardwareConcurrency p).2 = 0 ∧ ∀ job,
      (s.submission hardwareConcurrency p).1.placed job ≤ s.system.placed job) := by
  cases hrunning : s.system.manager.running with
  | true =>
    refine .inl ⟨?_, fun job => s.system.placed_submit p.job (some self) s.queue.priority job⟩
    rw [submission, JobSystem.submit, if_pos hrunning]
    exact s.system.manager.nextId_pos
  | false =>
    rw [submission, JobSystem.submit, hrunning]
    exact .inr ⟨rfl, fun job => Nat.le_refl _⟩

variable (hardwareConcurrency) in
theorem submission_placed (s : JobQueueSystem) (p : JobPointer) (job : Nat) :
    (s.submission hardwareConcurrency p).1.placed job ≤ s.system.placed job + hit job (some p.job) := by
  rcases s.submission_cases hardwareConcurrency p with ⟨-, hplaced⟩ | ⟨-, hplaced⟩
  · exact hplaced job
  · exact (hplaced job).trans (Nat.le_add_right _ _)

variable (hardwareConcurrency) in
theorem submission_placed_of_ne (s : JobQueueSystem) {p : JobPointer} {job : Nat} (h : p.job ≠ job) :
    (s.submission hardwareConcurrency p).1.placed job ≤ s.system.placed job := by
  have hplaced := s.submission_placed hardwareConcurrency p job
  rwa [hit_of_ne h] at hplaced

variable (hardwareConcurrency) in
theorem submission_jobs (s : JobQueueSystem) (p : JobPointer) :
    (s.submission hardwareConcurrency p).1.jobs = s.system.jobs :=
  s.system.submit_jobs p.job (some self) s.queue.priority

/-- The next job only goes over from those that wait to those submitted. -/
theorem submitted_perm {p : JobPointer} (h : s.queue.next = some p) :
    ((s.submitted ++ [p.job]) ++ s.queue.jobQueue.dropLast.map (·.job)).Perm
      (s.submitted ++ s.queue.jobQueue.map (·.job)) := by
  rw [List.append_assoc]
  conv_rhs => rw [(next_cases h).2, List.map_append]
  exact List.perm_append_comm.append_left s.submitted

theorem mem_of_next {p : JobPointer} (h : s.queue.next = some p) : p ∈ s.queue.jobQueue := by
  rw [(next_cases h).2]
  exact List.mem_append_right _ List.mem_cons_self

theorem Tracked.submit_placed (h : s.Tracked) {p : JobPointer} (hnext : s.queue.next = some p)
    (job : Nat) : (s.submission hardwareConcurrency p).1.placed job ≤
      JobSystem.allocated s.system.jobs job := by
  by_cases hsame : p.job = job
  · have hplaced := s.submission_placed hardwareConcurrency p p.job
    rw [hit_self, h.waiting p (mem_of_next hnext)] at hplaced
    rw [← hsame, JobSystem.allocated, if_pos (h.waiting_lt (mem_of_next hnext))]
    exact hplaced
  · exact (s.submission_placed_of_ne hardwareConcurrency hsame).trans (h.placed job)

/-- Those that still wait are not in the manager. -/
theorem Tracked.submit_waiting (h : s.Tracked) {p q : JobPointer} (hnext : s.queue.next = some p)
    (hq : q ∈ s.queue.jobQueue.dropLast) : (s.submission hardwareConcurrency p).1.placed q.job = 0 := by
  have hother : p.job ≠ q.job := by
    intro hsame
    apply List.disjoint_of_nodup_append ((submitted_perm hnext).nodup_iff.2 h.distinct)
    · exact List.mem_append_right _ List.mem_cons_self
    · rw [hsame]
      exact List.mem_map_of_mem hq
  have hplaced := s.submission_placed_of_ne hardwareConcurrency hother
  rw [h.waiting q (List.dropLast_subset _ hq)] at hplaced
  exact Nat.le_zero.1 hplaced

theorem Tracked.submit_kept (h : s.Tracked) {p : JobPointer} (hnext : s.queue.next = some p) {job : Nat}
    (hjob : job ∈ s.submitted ++ [p.job])
    (hpos : 0 < (s.submission hardwareConcurrency p).1.placed job) :
    job ∈ s.released ∨
      ∃ q ∈ (s.queue.queued (s.submission hardwareConcurrency p).2).processing, q.job = job := by
  rw [queued_processing hnext]
  rcases List.mem_append.1 hjob with hbefore | hnew
  · have hother : p.job ≠ job := by
      rintro rfl
      apply List.disjoint_of_nodup_append h.distinct hbefore
      exact List.mem_map_of_mem (mem_of_next hnext)
    have hplaced := s.submission_placed_of_ne hardwareConcurrency hother
    rcases h.kept job hbefore (hpos.trans_le hplaced) with hlet | ⟨q, hq, hsame⟩
    · exact .inl hlet
    · exact .inr ⟨q, List.mem_append_left _ hq, hsame⟩
  · obtain rfl := List.mem_singleton.1 hnew
    rcases s.submission_cases hardwareConcurrency p with ⟨hid, -⟩ | ⟨-, hsame⟩
    · refine .inr ⟨{ p with id := (s.submission hardwareConcurrency p).2 }, ?_, rfl⟩
      rw [if_pos hid]
      exact List.mem_append_right _ List.mem_cons_self
    · have hplaced := hsame p.job
      rw [h.waiting p (mem_of_next hnext)] at hplaced
      omega

theorem Tracked.submit (h : s.Tracked) {p : JobPointer} (hnext : s.queue.next = some p) :
    (s.submitNext hardwareConcurrency p).Tracked := by
  have hperm := submitted_perm hnext
  have hjobs := s.submission_jobs hardwareConcurrency p
  have hprocessing := queued_processing hnext (s.submission hardwareConcurrency p).2
  refine ⟨fun job => ?_, hperm.nodup_iff.2 h.distinct, fun job hjob => ?_,
    fun q hq => h.submit_waiting hnext hq, fun q hq => ?_,
    fun job hjob hpos => h.submit_kept hnext hjob hpos, ?_⟩
  · simp only [submitNext, hjobs]
    exact h.submit_placed hnext job
  · simp only [submitNext, hjobs]
    exact h.allocated job (hperm.subset hjob)
  · simp only [submitNext, hprocessing, List.mem_append] at hq ⊢
    rcases hq with hbefore | hnew
    · exact .inl (h.submitted q hbefore)
    · split at hnew
      · rw [List.mem_singleton.1 hnew]
        exact .inr List.mem_cons_self
      · cases hnew
  · have hroom := (next_cases hnext).1
    simp only [submitNext, hprocessing, List.length_append]
    change _ ≤ s.queue.jobsAtOnce
    split
    · rwa [List.length_singleton]
    · exact hroom.le

theorem Tracked.quiet (h : s.Tracked) {system : JobSystem} (hjobs : system.jobs = s.system.jobs)
    (hplaced : ∀ job, system.placed job ≤ s.system.placed job) : (s.setSystem system).Tracked := by
  apply h.system
  · exact hjobs.ge
  · intro job
    rw [hjobs]
    exact Nat.add_le_add_right (hplaced job) _

theorem cancelJobs_quiet (pointers : List JobPointer) (system : JobSystem) :
    (pointers.foldl (fun system p => system.cancelJob p.id) system).jobs = system.jobs ∧
      ∀ job, (pointers.foldl (fun system p => system.cancelJob p.id) system).placed job ≤
        system.placed job := by
  induction pointers generalizing system with
  | nil => exact ⟨rfl, fun _ => Nat.le_refl _⟩
  | cons p pointers ih =>
    obtain ⟨hjobs, hplaced⟩ := ih (system.cancelJob p.id)
    refine ⟨hjobs.trans (system.cancelJob_jobs p.id), fun job => ?_⟩
    exact (hplaced job).trans (system.placed_cancelJob p.id job)

/-- A job whose completion was told is in the manager no more. -/
theorem Tracked.completed (h : s.Tracked) {worker job : Nat} {system : JobSystem}
    (hstep : s.system.step hardwareConcurrency (.worker worker) = some system)
    (hjob : s.completion worker = some job) : system.placed job = 0 := by
  obtain ⟨item, ht, rfl⟩ := completion_cases hjob
  have hcall := JobSystem.placed_call ht hstep item.job
  have hone := (h.placed item.job).trans (JobSystem.allocated_le_one _ _)
  rw [hit_self] at hcall
  omega

/-- An entry goes when the one that is met was let go of, or its job is not in the manager. -/
theorem Tracked.erase (h : s.Tracked) {job : Nat} {released : List Nat}
    (hfound : ∀ p, s.queue.findProcessing same job = some p →
      p.job ∈ released ∨ s.system.placed p.job = 0) :
    Tracked { s with
      queue := s.queue.eraseProcessing same job
      released := s.released ++ released } := by
  apply h.shrink
  · exact .refl _
  · exact List.eraseP_sublist
  · rfl
  · exact List.subset_append_left _ _
  · intro p hp
    rcases JobQueue.mem_eraseProcessing hp with hstays | hfind
    · exact .inl hstays
    · rcases hfound p hfind with hlet | hnowhere
      · exact .inr (.inl (List.mem_append_right _ hlet))
      · exact .inr (.inr hnowhere)

theorem Tracked.complete (h : s.Tracked) {worker job : Nat} {system : JobSystem}
    (hstep : s.system.step hardwareConcurrency (.worker worker) = some system)
    (hjob : s.completion worker = some job) :
    ((s.setSystem system).takeCompleted same job).Tracked := by
  obtain ⟨hjobs, hplaced⟩ := JobSystem.placed_step hstep
  apply (h.system hjobs hplaced).erase
  intro p hfind
  by_cases hown : p.job = job
  · exact .inr (hown ▸ h.completed hstep hjob)
  · rw [hfind]
    exact .inl (by simpa using hown)

theorem Tracked.abort (h : s.Tracked) (job : Nat) : (s.takeAborted same job).Tracked := by
  apply h.erase
  intro p hfind
  rw [hfind]
  exact .inl List.mem_cons_self

theorem Tracked.cancelJobs (h : s.Tracked) : s.cancelJobs.Tracked := by
  obtain ⟨hjobs, hplaced⟩ := cancelJobs_quiet s.queue.processing s.system
  have hsystem : (s.setSystem s.cancelJobs.system).Tracked := h.quiet hjobs hplaced
  apply hsystem.shrink
  · exact List.nil_sublist _
  · exact List.nil_sublist _
  · rfl
  · exact List.subset_append_left _ _
  · intro q hq
    exact .inr (.inl (List.mem_append_right _ (List.mem_map_of_mem hq)))

theorem Tracked.change (h : s.Tracked) (hchange : Change same hardwareConcurrency s s') :
    s'.Tracked := by
  cases hchange with
  | manager hstep =>
    obtain ⟨hjobs, hplaced⟩ := JobSystem.placed_step hstep
    exact h.system hjobs hplaced
  | complete hstep hjob => exact h.complete hstep hjob
  | abort job => exact h.abort job
  | submit hnext => exact h.submit hnext
  | push hnew => exact h.push
  | reject =>
    apply h.system
    · exact Nat.le_succ _
    · intro job
      change s.system.placed job + _ ≤ s.system.placed job +
        JobSystem.allocated (s.system.jobs + 1) job
      rw [JobSystem.allocated_succ]
      omega
  | @cancel job p hfind =>
    apply (h.quiet (s.system.cancelJob_jobs p.id) (s.system.placed_cancelJob p.id)).erase
    intro q hfound
    obtain rfl := Option.some.inj (hfound.symm.trans hfind)
    exact .inl List.mem_cons_self
  | free job =>
    have hsystem : ∀ events, (s.setSystem (s.system.raise events)).Tracked :=
      fun _ => h.quiet rfl fun _ => Nat.le_refl _
    apply (hsystem _).shrink
    · exact List.eraseP_sublist
    · exact .refl _
    · rfl
    · exact List.Subset.refl _
    · exact fun q hq => .inl hq
  | cancelJobs => exact h.cancelJobs

/-- What the queue counts bounds what the manager has. -/
theorem Tracked.outstanding_le (h : s.Tracked) : s.outstanding.length ≤ s.queue.jobsAtOnce := by
  have hnodup : s.outstanding.Nodup := (List.nodup_append.1 h.distinct).1.filter _
  have hsub : s.outstanding ⊆ s.queue.processing.map (·.job) := by
    intro job hjob
    obtain ⟨hsubmitted, hthere⟩ := List.mem_filter.1 hjob
    obtain ⟨hplaced, hheld⟩ := of_decide_eq_true hthere
    rcases h.kept job hsubmitted (mem_inManager.1 hplaced) with hlet | ⟨p, hp, rfl⟩
    · exact absurd hlet hheld
    · exact List.mem_map_of_mem hp
  calc s.outstanding.length ≤ (s.queue.processing.map (·.job)).length :=
        (List.subperm_of_subset hnodup hsub).length_le
    _ = s.queue.processing.length := List.length_map _
    _ ≤ s.queue.jobsAtOnce := h.bound

/-! ### Order and doubles -/

/-- First in, first out: the submitted jobs and then those that wait, from the one that comes next. -/
def InOrder (s : JobQueueSystem) : Prop :=
  s.queue.lifo = false →
    (s.submitted ++ (s.queue.jobQueue.map (·.job)).reverse).Pairwise (· < ·)

theorem InOrder.shrink (h : s.InOrder) {system : JobSystem} {queue : JobQueue} {released : List Nat}
    (hlifo : queue.lifo = s.queue.lifo) (hwaiting : queue.jobQueue.Sublist s.queue.jobQueue) :
    InOrder { s with system, queue, released } := by
  intro hfifo
  apply List.Pairwise.sublist _ (h (hlifo ▸ hfifo))
  exact (hwaiting.map (·.job)).reverse.append_left s.submitted

/-- The job just allocated is the last of all. -/
theorem InOrder.push (h : s.InOrder) (htracked : s.Tracked) : InOrder { s with
    system := { s.system with jobs := s.system.jobs + 1 }
    queue := s.queue.push s.system.jobs } := by
  intro hfifo
  have hfirst : s.queue.lifo = false := by
    unfold JobQueue.push at hfifo
    split at hfifo <;> exact hfifo
  have hpush : (s.queue.push s.system.jobs).jobQueue =
      { job := s.system.jobs } :: s.queue.jobQueue := by
    rw [JobQueue.push, hfirst]
    rfl
  simp only [hpush, List.map_cons, List.reverse_cons, ← List.append_assoc]
  apply List.pairwise_append.2
  refine ⟨h hfirst, List.pairwise_singleton _ _, fun job hjob newest hnewest => ?_⟩
  rw [List.mem_singleton.1 hnewest]
  apply htracked.allocated
  simpa using hjob

theorem InOrder.change (h : s.InOrder) (htracked : s.Tracked)
    (hchange : Change same hardwareConcurrency s s') : s'.InOrder := by
  cases hchange with
  | manager hstep => exact h.shrink rfl (.refl _)
  | complete hstep hjob => exact h.shrink rfl (.refl _)
  | abort job => exact h.shrink rfl (.refl _)
  | submit hnext =>
    intro hfifo
    have hbefore := h hfifo
    rw [(next_cases hnext).2] at hbefore
    simpa [submitNext, JobQueue.queued] using hbefore
  | push hnew => exact h.push htracked
  | reject => exact h.shrink rfl (.refl _)
  | cancel hfind => exact h.shrink rfl (.refl _)
  | free job => exact h.shrink rfl List.eraseP_sublist
  | cancelJobs => exact h.shrink rfl (List.nil_sublist _)

def entries (s : JobQueueSystem) : List Nat := (s.queue.jobQueue ++ s.queue.processing).map (·.job)

theorem Tracked.entries_lt (h : s.Tracked) {job : Nat} (hjob : job ∈ s.entries) :
    job < s.system.jobs := by
  obtain ⟨p, hp, rfl⟩ := List.mem_map.1 hjob
  rcases List.mem_append.1 hp with hwaiting | hprocessing
  · exact h.waiting_lt hwaiting
  · exact h.submitted_lt (h.submitted p hprocessing)

theorem has_false {q : JobQueue} {job : Nat} (h : q.has same job = false) {p : JobPointer}
    (hp : p ∈ q.jobQueue ++ q.processing) : same p.job job = false := by
  rw [JobQueue.has, ← List.any_append, List.any_eq_false] at h
  simpa using h p hp

/-- No entry is to an earlier one the same. -/
def Unequal (same : Nat → Nat → Bool) (s : JobQueueSystem) : Prop :=
  ∀ older ∈ s.entries, ∀ newer ∈ s.entries, older < newer → same older newer = false

theorem Unequal.subset (h : s.Unequal same) (hsub : s'.entries ⊆ s.entries) : s'.Unequal same := by
  intro older holder newer hnewer
  exact h older (hsub holder) newer (hsub hnewer)

theorem entries_subset {queue : JobQueue} (hwaiting : queue.jobQueue.Sublist s.queue.jobQueue)
    (hprocessing : queue.processing.Sublist s.queue.processing) :
    (queue.jobQueue ++ queue.processing).map (·.job) ⊆ s.entries :=
  ((hwaiting.append hprocessing).map _).subset

/-- The next job goes over from one list to the other, or is refused. -/
theorem submit_entries {p : JobPointer} (hnext : s.queue.next = some p) :
    (s.submitNext hardwareConcurrency p).entries ⊆ s.entries := by
  intro job hjob
  obtain ⟨q, hq, rfl⟩ := List.mem_map.1 hjob
  rcases List.mem_append.1 hq with hwaiting | hprocessing
  · exact List.mem_map_of_mem (List.mem_append_left _ (List.dropLast_subset _ hwaiting))
  · simp only [submitNext, queued_processing hnext, List.mem_append] at hprocessing
    rcases hprocessing with hbefore | hnew
    · exact List.mem_map_of_mem (List.mem_append_right _ hbefore)
    · split at hnew
      · have hsame : q.job = p.job := by rw [List.mem_singleton.1 hnew]
        rw [hsame]
        exact List.mem_map_of_mem (List.mem_append_left _ (mem_of_next hnext))
      · cases hnew

theorem push_entries {q : JobQueue} {new job : Nat}
    (hjob : job ∈ ((q.push new).jobQueue ++ (q.push new).processing).map (·.job)) :
    job = new ∨ job ∈ (q.jobQueue ++ q.processing).map (·.job) := by
  rw [(push_processing q new).1, List.map_append, List.mem_append] at hjob
  rw [List.map_append, List.mem_append]
  rcases hjob with hwaiting | hprocessing
  · rcases List.mem_cons.1 (((push_perm q new).map (·.job)).subset hwaiting) with hsame | hbefore
    · exact .inl hsame
    · exact .inr (.inl hbefore)
  · exact .inr (.inr hprocessing)

/-- The new job is the newest, and no other one has said that it is the same. -/
theorem Unequal.push (h : s.Unequal same) (htracked : s.Tracked)
    (hnew : s.queue.has same s.system.jobs = false) : Unequal same { s with
      system := { s.system with jobs := s.system.jobs + 1 }
      queue := s.queue.push s.system.jobs } := by
  intro older holder newer hnewer hlt
  have hknown : newer ≤ s.system.jobs := by
    rcases push_entries hnewer with rfl | hbefore
    · exact Nat.le_refl _
    · exact (htracked.entries_lt hbefore).le
  rcases push_entries holder with rfl | hbefore
  · omega
  · rcases push_entries hnewer with rfl | hbefore'
    · obtain ⟨p, hp, rfl⟩ := List.mem_map.1 hbefore
      exact has_false hnew hp
    · exact h older hbefore newer hbefore' hlt

theorem Unequal.change (h : s.Unequal same) (htracked : s.Tracked)
    (hchange : Change same hardwareConcurrency s s') : s'.Unequal same := by
  cases hchange with
  | manager hstep => exact h.subset (List.Subset.refl _)
  | complete hstep hjob => exact h.subset (entries_subset (.refl _) List.eraseP_sublist)
  | abort job => exact h.subset (entries_subset (.refl _) List.eraseP_sublist)
  | submit hnext => exact h.subset (submit_entries hnext)
  | push hnew => exact h.push htracked hnew
  | reject => exact h.subset (List.Subset.refl _)
  | cancel hfind => exact h.subset (entries_subset (.refl _) List.eraseP_sublist)
  | free job => exact h.subset (entries_subset List.eraseP_sublist (.refl _))
  | cancelJobs => exact h.subset (entries_subset (List.nil_sublist _) (List.nil_sublist _))

theorem kept_of_run {lifo : Bool} {jobsAtOnce : Nat} {priority : Priority}
    {actions : List JobQueueAction}
    (hrun : run (step same hardwareConcurrency) (initial lifo jobsAtOnce priority) actions = some s) :
    s.Tracked ∧ s.InOrder ∧ s.Unequal same := by
  apply run_keeps (P := fun s => s.Tracked ∧ s.InOrder ∧ s.Unequal same) _ _ hrun
  · rintro s s' hchange ⟨htracked, horder, hunequal⟩
    exact ⟨htracked.change hchange, horder.change htracked hchange, hunequal.change htracked hchange⟩
  · refine ⟨.initial lifo jobsAtOnce priority, fun _ => .nil, ?_⟩
    intro older holder
    cases holder

/-- In every state of every run, at most `jobsAtOnce` of the jobs that the queue submitted and has not
let go of are queued or executing in the manager, no job is in both lists of the queue, nor is one
there that an earlier one takes for the same, and the jobs of a queue that is not `lifo` were
submitted in the order in which they were added, which is the order of their names. -/
theorem jobs_at_once {lifo : Bool} {jobsAtOnce : Nat} {priority : Priority}
    {actions : List JobQueueAction}
    (hrun : run (step same hardwareConcurrency) (initial lifo jobsAtOnce priority) actions = some s) :
    s.outstanding.length ≤ jobsAtOnce ∧
      (∀ p ∈ s.queue.jobQueue, ∀ p' ∈ s.queue.processing, p.job ≠ p'.job ∧
        same (min p.job p'.job) (max p.job p'.job) = false) ∧
      (lifo = false → s.submitted.Pairwise (· < ·)) := by
  obtain ⟨htracked, horder, hunequal⟩ := kept_of_run hrun
  obtain ⟨hlifo, hlimit⟩ := settings_of_run hrun
  refine ⟨?_, fun p hp p' hp' => ?_, fun hfifo => ?_⟩
  · exact htracked.outstanding_le.trans hlimit.le
  · have hother : p.job ≠ p'.job := by
      intro hsame
      apply List.disjoint_of_nodup_append htracked.distinct (htracked.submitted p' hp')
      rw [← hsame]
      exact List.mem_map_of_mem hp
    have hentry : p.job ∈ s.entries := List.mem_map_of_mem (List.mem_append_left _ hp)
    have hentry' : p'.job ∈ s.entries := List.mem_map_of_mem (List.mem_append_right _ hp')
    refine ⟨hother, ?_⟩
    rcases Nat.lt_or_gt_of_ne hother with hlt | hgt
    · rw [min_eq_left hlt.le, max_eq_right hlt.le]
      exact hunequal _ hentry _ hentry' hlt
    · rw [min_eq_right hgt.le, max_eq_left hgt.le]
      exact hunequal _ hentry' _ hentry hgt
  · exact (List.pairwise_append.1 (horder (hlifo.trans hfifo))).1

/-- Two jobs of which one is submitted at the completion of the other. -/
theorem jobs_at_once_two : ∃ s : JobQueueSystem,
    run (step (fun a b => a = b) 4) (initial false 1 .low) [.addJob, .addJob, .manager (.worker 0),
      .manager (.worker 0), .manager (.worker 0)] = some s ∧
    s.submitted = [0, 1] ∧ s.outstanding.length ≤ 1 := by
  have hrun : ∃ s : JobQueueSystem,
      run (step (fun a b => a = b) 4) (initial false 1 .low) [.addJob, .addJob, .manager (.worker 0),
        .manager (.worker 0), .manager (.worker 0)] = some s ∧ s.submitted = [0, 1] := ⟨_, rfl, rfl⟩
  obtain ⟨s, hrun, hsubmitted⟩ := hrun
  exact ⟨s, hrun, hsubmitted, (jobs_at_once hrun).1⟩

/-- A cancelled job executes on, and the next one is submitted. -/
theorem cancelled_beside_next : ∃ s : JobQueueSystem,
    run (step (fun a b => a = b) 4) (initial false 1 .low)
      [.addJob, .manager (.worker 0), .cancelJob 0, .addJob] = some s ∧
    s.queue.jobsAtOnce = 1 ∧ s.submitted.filter (· ∈ s.inManager) = [0, 1] :=
  ⟨_, rfl, rfl, rfl⟩

/-- Where the manager has none of the jobs that the queue let go of, the bound is one on all that the
queue submitted. -/
theorem inManager_le {lifo : Bool} {jobsAtOnce : Nat} {priority : Priority}
    {actions : List JobQueueAction}
    (hrun : run (step same hardwareConcurrency) (initial lifo jobsAtOnce priority) actions = some s)
    (hgone : ∀ job ∈ s.released, job ∉ s.inManager) :
    (s.submitted.filter (· ∈ s.inManager)).length ≤ jobsAtOnce := by
  have hsame : s.submitted.filter (· ∈ s.inManager) = s.outstanding := by
    apply List.filter_congr
    intro job _
    have := hgone job
    grind
  rw [hsame]
  exact (kept_of_run hrun).1.outstanding_le.trans (settings_of_run hrun).2.le

end JobQueueSystem

end LuPlatform.Thread
