import LuPlatform.Library.Census
import LuPlatform.Thread.JobRuns

/-! Who has a job. Each job that was ever allocated is queued, being processed by one worker, about
to be freed by one, or freed, and it is in one of these places once. -/

namespace LuPlatform.Thread

open Transition TransitionSystem Census

/-- The job that a worker has taken and not yet erased. -/
def JobWorker.inProgress : JobWorker → Option Nat
  | .holding job => some job
  | .completing item => some item.job
  | .called item => some item.job
  | _ => none

/-- The job that a worker frees next. -/
def JobWorker.toFree : JobWorker → Option Nat
  | .erased item => some item.job
  | _ => none

def JobEvent.freedJob : JobEvent → Option Nat
  | .freed job => some job
  | _ => none

def JobEvent.handedJob : JobEvent → Option Nat
  | .handed job _ => some job
  | _ => none

def WorkItem.itemJob (item : WorkItem) : Option Nat := some item.job

@[simp] theorem JobWorker.notify_inProgress (t : JobWorker) : t.notify.inProgress = t.inProgress := by
  cases t <;> rfl

@[simp] theorem JobWorker.notify_toFree (t : JobWorker) : t.notify.toFree = t.toFree := by
  cases t <;> rfl

/-- Callbacks do not change hands. -/
theorem WorkItem.census_abortEvents {name : JobEvent → Option Nat}
    (hname : ∀ job id, name (.onJobAbort job id) = none) (item : WorkItem) (job : Nat) :
    census name job item.abortEvents = 0 := by
  unfold abortEvents
  split <;> simp [census_singleton, hname]

theorem WorkItem.census_completeEvents {name : JobEvent → Option Nat}
    (hname : ∀ job id, name (.onJobComplete job id) = none) (item : WorkItem) (job : Nat) :
    census name job item.completeEvents = 0 := by
  unfold completeEvents
  split <;> simp [census_singleton, hname]

theorem census_abortAll {name : JobEvent → Option Nat}
    (hname : ∀ job id, name (.onJobAbort job id) = none) (items : List WorkItem) (job : Nat) :
    census name job (items.flatMap (·.abortEvents)) = 0 := by
  induction items with
  | nil => rfl
  | cons item items ih =>
    rw [List.flatMap_cons, census_append, item.census_abortEvents hname, ih]

/-- `cancelJobs` frees what it finds queued. -/
theorem census_freedQueue (items : List WorkItem) (job : Nat) :
    census JobEvent.freedJob job
      (items.flatMap fun item => item.abortEvents ++ [.freed item.job]) =
        census WorkItem.itemJob job items := by
  refine census_flatMap (fun item => ?_) items
  rw [census_append, item.census_abortEvents (fun _ _ => rfl), census_singleton, Nat.zero_add]
  rfl

theorem census_handedQueue (items : List WorkItem) (job : Nat) :
    census JobEvent.handedJob job
      (items.flatMap fun item => item.abortEvents ++ [.freed item.job]) = 0 := by
  induction items with
  | nil => rfl
  | cons item items ih =>
    rw [List.flatMap_cons, census_append, census_append, item.census_abortEvents (fun _ _ => rfl),
      census_singleton, ih]
    rfl

namespace JobManager

theorem census_setQueue (m : JobManager) (priority : Priority) (items : List WorkItem) (job : Nat) :
    census WorkItem.itemJob job (m.setQueue priority items).queued +
      census WorkItem.itemJob job (m.jobQueue priority) =
      census WorkItem.itemJob job m.queued + census WorkItem.itemJob job items := by
  cases priority <;> simp [queued, setQueue, Function.update] <;> omega

theorem census_cancelFirst (jobID : BitVec 32) (items : List WorkItem) (job : Nat) :
    census WorkItem.itemJob job (cancelFirst jobID items) = census WorkItem.itemJob job items := by
  induction items with
  | nil => rfl
  | cons item items ih =>
    rw [cancelFirst]
    split
    · rw [census_cons item.cancel items, census_cons item items]
      rfl
    · rw [census_cons item (cancelFirst jobID items), census_cons item items, ih]

end JobManager

namespace JobSystem

variable {hardwareConcurrency : BitVec 32}

/-- One for each of the jobs that were allocated. -/
def allocated (jobs job : Nat) : Nat := if job < jobs then 1 else 0

theorem allocated_succ (jobs job : Nat) :
    allocated (jobs + 1) job = allocated jobs job + hit job (some jobs) := by
  unfold allocated
  rcases Nat.lt_trichotomy job jobs with hlt | rfl | hgt
  · rw [if_pos (by omega), if_pos hlt, hit_of_ne (by omega)]
  · simp
  · rw [if_neg (by omega), if_neg (by omega), hit_of_ne (by omega)]

theorem allocated_le_one (jobs job : Nat) : allocated jobs job ≤ 1 := by
  unfold allocated
  split <;> omega

/-- A job in progress belongs to a worker, every job is in one place, and one that was handed out is
not queued again. -/
structure Owned (s : JobSystem) : Prop where
  progress : ∀ job, census WorkItem.itemJob job s.manager.processing =
    census JobWorker.inProgress job s.threads
  once : ∀ job, census WorkItem.itemJob job s.manager.queued +
    census JobWorker.inProgress job s.threads + census JobWorker.toFree job s.threads +
      census JobEvent.freedJob job s.events = allocated s.jobs job
  handed : ∀ job, census JobEvent.handedJob job s.events +
    census WorkItem.itemJob job s.manager.queued ≤ allocated s.jobs job

/-- A step that leaves every count alone. -/
theorem Owned.same {s s' : JobSystem} (h : s.Owned) (hjobs : s'.jobs = s.jobs)
    (hprocessing : ∀ job, census WorkItem.itemJob job s'.manager.processing =
      census WorkItem.itemJob job s.manager.processing)
    (hqueued : s'.manager.queued = s.manager.queued)
    (hprogress : ∀ job, census JobWorker.inProgress job s'.threads =
      census JobWorker.inProgress job s.threads)
    (hfree : ∀ job, census JobWorker.toFree job s'.threads = census JobWorker.toFree job s.threads)
    (hfreed : ∀ job, census JobEvent.freedJob job s'.events = census JobEvent.freedJob job s.events)
    (hhanded : ∀ job, census JobEvent.handedJob job s'.events =
      census JobEvent.handedJob job s.events) : s'.Owned := by
  obtain ⟨hp, ho, hh⟩ := h
  refine ⟨fun job => ?_, fun job => ?_, fun job => ?_⟩
  · rw [hprocessing, hprogress, hp]
  · rw [hqueued, hprogress, hfree, hfreed, hjobs, ho]
  · rw [hhanded, hqueued, hjobs]
    exact hh job

/-- A freed job is nowhere else. -/
theorem Owned.freed_gone {s : JobSystem} (h : s.Owned) {job : Nat} (hfreed : .freed job ∈ s.events) :
    (∀ item ∈ s.manager.queued, item.job ≠ job) ∧ (∀ item ∈ s.manager.processing, item.job ≠ job) ∧
      ∀ t ∈ s.threads, t.inProgress ≠ some job := by
  have hpos : 0 < census JobEvent.freedJob job s.events := census_pos hfreed rfl
  have honce := h.once job
  have := allocated_le_one s.jobs job
  refine ⟨fun item hitem hjob => ?_, fun item hitem hjob => ?_, fun t ht hjob => ?_⟩
  · have := census_pos hitem (show item.itemJob = some job from congrArg some hjob)
    omega
  · have := census_pos hitem (show item.itemJob = some job from congrArg some hjob)
    have := h.progress job
    omega
  · have := census_pos ht hjob
    omega

/-- A queued job is in no worker's hands. -/
theorem Owned.queued_idle {s : JobSystem} (h : s.Owned) {item : WorkItem}
    (hitem : item ∈ s.manager.queued) : ∀ t ∈ s.threads, t.inProgress ≠ some item.job := by
  intro t ht hjob
  have hqueued := census_pos hitem (show item.itemJob = some item.job from rfl)
  have hprogress := census_pos ht hjob
  have honce := h.once item.job
  have := allocated_le_one s.jobs item.job
  omega

theorem Owned.worker_unique {s : JobSystem} (h : s.Owned) {t t' : JobWorker} (ht : t ∈ s.threads)
    (ht' : t' ∈ s.threads) {job : Nat} (hjob : t.inProgress = some job)
    (hjob' : t'.inProgress = some job) : t = t' := by
  by_contra hne
  have htwo := two_le_census ht ht' hne hjob hjob'
  have honce := h.once job
  have := allocated_le_one s.jobs job
  omega

theorem Owned.job_lt {s : JobSystem} (h : s.Owned) {t : JobWorker} (ht : t ∈ s.threads) {job : Nat}
    (hjob : t.inProgress = some job) : job < s.jobs := by
  have hpos := census_pos ht hjob
  have honce := h.once job
  by_contra hge
  rw [allocated, if_neg hge] at honce
  omega

/-- The jobs being processed are different ones. -/
theorem Owned.processing_pairwise {s : JobSystem} (h : s.Owned) :
    s.manager.processing.Pairwise fun item item' => item.job ≠ item'.job := by
  have hle : ∀ job, census WorkItem.itemJob job s.manager.processing ≤ 1 := by
    intro job
    have honce := h.once job
    have := allocated_le_one s.jobs job
    rw [h.progress]
    omega
  generalize s.manager.processing = items at hle
  induction items with
  | nil => exact .nil
  | cons first items ih =>
    refine .cons (fun item hitem hjob => ?_) (ih fun job => ?_)
    · have hfirst := hle first.job
      rw [census_cons first items, census_singleton, WorkItem.itemJob, hit_self] at hfirst
      have hpos := census_pos hitem (show item.itemJob = some first.job from congrArg some hjob.symm)
      omega
    · have hjob := hle job
      rw [census_cons first items] at hjob
      omega

theorem Owned.initial : Owned {} :=
  ⟨fun _ => rfl, fun _ => rfl, fun _ => Nat.le_refl 0⟩

theorem Owned.notifyAll {s : JobSystem} (h : s.Owned) : s.notifyAll.Owned :=
  h.same rfl (fun _ => rfl) rfl (fun _ => census_map JobWorker.notify_inProgress s.threads)
    (fun _ => census_map JobWorker.notify_toFree s.threads) (fun _ => rfl) (fun _ => rfl)

theorem Owned.startWorkers {s : JobSystem} (h : s.Owned) (priority : Priority) :
    (s.startWorkers hardwareConcurrency priority).Owned := by
  unfold JobSystem.startWorkers
  cases s.manager.startWorkers hardwareConcurrency priority with
  | nothing => exact h
  | notifyAll => exact h.notifyAll
  | newWorker =>
    refine h.same rfl (fun _ => rfl) rfl (fun _ => ?_) (fun _ => ?_) (fun _ => rfl) (fun _ => rfl)
    · simp [newWorker, census_singleton, JobWorker.inProgress]
    · simp [newWorker, census_singleton, JobWorker.toFree]

theorem Owned.addJob {s : JobSystem} (h : s.Owned) (callback : Option Callback)
    (priority : Priority) : (s.addJob hardwareConcurrency callback priority).Owned := by
  have hqueued : ∀ job,
      census WorkItem.itemJob job (s.manager.enqueue s.jobs callback priority).queued =
        census WorkItem.itemJob job s.manager.queued + hit job (some s.jobs) := by
    intro job
    have hset := JobManager.census_setQueue { s.manager with jobCounter := s.manager.nextId } priority
      (s.manager.jobQueue priority ++ [WorkItem.mk s.jobs s.manager.nextId priority callback]) job
    rw [census_append, census_singleton, ← Nat.add_assoc] at hset
    have hsame : census WorkItem.itemJob job
        ({ s.manager with jobCounter := s.manager.nextId } : JobManager).queued =
          census WorkItem.itemJob job s.manager.queued := rfl
    simp only [WorkItem.itemJob] at hset hsame ⊢
    unfold JobManager.enqueue
    omega
  unfold JobSystem.addJob
  split
  · have hbefore : Owned
        { s with
          manager := s.manager.enqueue s.jobs callback priority
          jobs := s.jobs + 1
          events := s.events ++ [.accepted s.jobs s.manager.nextId] } := by
      refine ⟨h.progress, fun job => ?_, fun job => ?_⟩
      · have honce := h.once job
        have := hqueued job
        simp only [allocated_succ, census_append, census_singleton, JobEvent.freedJob, hit_none] at honce ⊢
        omega
      · have hhanded := h.handed job
        have := hqueued job
        simp only [allocated_succ, census_append, census_singleton, JobEvent.handedJob, hit_none]
          at hhanded ⊢
        omega
    exact hbefore.startWorkers priority
  · refine ⟨h.progress, fun job => ?_, fun job => ?_⟩
    · have honce := h.once job
      simp only [allocated_succ, census_append, census_singleton, JobEvent.freedJob] at honce ⊢
      omega
    · have hhanded := h.handed job
      simp only [allocated_succ, census_append, census_singleton, JobEvent.handedJob, hit_none] at hhanded ⊢
      omega

theorem Owned.cancelJob {s : JobSystem} (h : s.Owned) (jobID : BitVec 32) :
    (s.cancelJob jobID).Owned := by
  unfold JobSystem.cancelJob
  cases hcancel : s.manager.cancelQueued jobID with
  | none =>
    refine h.same rfl (fun job => JobManager.census_cancelFirst jobID _ job) rfl (fun _ => rfl)
      (fun _ => rfl) (fun job => ?_) (fun job => ?_) <;>
    simp [census_singleton, JobEvent.freedJob, JobEvent.handedJob]
  | some cancelled =>
    obtain ⟨item, m⟩ := cancelled
    obtain ⟨priority, before, after, hqueue, -, rfl⟩ := JobManager.cancelQueued_cases hcancel
    have hqueued := fun job => s.manager.census_setQueue priority (before ++ after) job
    simp only [hqueue, census_remove] at hqueued
    refine ⟨h.progress, fun job => ?_, fun job => ?_⟩
    · have honce := h.once job
      have := hqueued job
      simp only [census_append, census_cons (JobEvent.freed _) [_], census_singleton,
        JobEvent.freedJob, WorkItem.itemJob, hit_none] at honce this ⊢
      omega
    · have hhanded := h.handed job
      have := hqueued job
      simp only [census_append, census_cons (JobEvent.freed _) [_], census_singleton,
        JobEvent.handedJob, hit_none] at hhanded this ⊢
      omega

theorem Owned.cancelJobs {s : JobSystem} (h : s.Owned) : s.cancelJobs.Owned := by
  have hempty : s.manager.cancelAll.queued = [] := rfl
  refine ⟨fun job => ?_, fun job => ?_, fun job => ?_⟩
  · exact (census_map (fun _ => rfl) _).trans (h.progress job)
  · have honce := h.once job
    have habort : census JobEvent.freedJob job (s.manager.processing.flatMap (·.abortEvents)) = 0 :=
      census_abortAll (fun _ _ => rfl) _ job
    simp only [JobSystem.cancelJobs, census_append, census_freedQueue, habort, hempty, census_nil]
    omega
  · have hhanded := h.handed job
    have habort : census JobEvent.handedJob job (s.manager.processing.flatMap (·.abortEvents)) = 0 :=
      census_abortAll (fun _ _ => rfl) _ job
    simp only [JobSystem.cancelJobs, census_append, census_handedQueue, habort, hempty, census_nil]
    omega

/-- A worker that keeps what it has. -/
theorem Owned.goesOn {s : JobSystem} (h : s.Owned) {worker : Nat} {t t' : JobWorker}
    (ht : s.threads[worker]? = some t) (hprogress : t'.inProgress = t.inProgress)
    (hfree : t'.toFree = t.toFree) : (s.setThread worker t').Owned := by
  refine h.same rfl (fun _ => rfl) rfl (fun job => ?_) (fun job => ?_) (fun _ => rfl) (fun _ => rfl)
  · have hset := census_set JobWorker.inProgress job ht t'
    simp only [census_singleton, hprogress] at hset
    exact Nat.add_right_cancel hset
  · have hset := census_set JobWorker.toFree job ht t'
    simp only [census_singleton, hfree] at hset
    exact Nat.add_right_cancel hset

/-- Callbacks leave the jobs where they are. -/
theorem Owned.raise {s : JobSystem} (h : s.Owned) {events : List JobEvent}
    (hfreed : ∀ job, census JobEvent.freedJob job events = 0)
    (hhanded : ∀ job, census JobEvent.handedJob job events = 0) : (s.raise events).Owned := by
  refine h.same rfl (fun _ => rfl) rfl (fun _ => rfl) (fun _ => rfl) (fun job => ?_)
    (fun job => ?_)
  · simp [JobSystem.raise, hfreed]
  · simp [JobSystem.raise, hhanded]

/-- A worker that holds a job finds it in the list of those being processed. -/
theorem Owned.mem_processing {s : JobSystem} (h : s.Owned) {worker : Nat} {t : JobWorker} {job : Nat}
    (ht : s.threads[worker]? = some t) (hjob : t.inProgress = some job) :
    ∃ item ∈ s.manager.processing, item.job = job := by
  have hpos := census_pos (List.mem_of_getElem? ht) hjob
  rw [← h.progress job] at hpos
  obtain ⟨item, hitem, hname⟩ := exists_of_census_pos hpos
  exact ⟨item, hitem, Option.some.inj hname⟩

/-- What one worker has is counted anew when it goes on. -/
theorem census_threads {s : JobSystem} {worker : Nat} {t : JobWorker}
    (ht : s.threads[worker]? = some t) (t' : JobWorker) (job : Nat) :
    census JobWorker.inProgress job (s.threads.set worker t') + hit job t.inProgress =
        census JobWorker.inProgress job s.threads + hit job t'.inProgress ∧
      census JobWorker.toFree job (s.threads.set worker t') + hit job t.toFree =
        census JobWorker.toFree job s.threads + hit job t'.toFree := by
  simp only [← census_singleton]
  exact ⟨census_set _ _ ht t', census_set _ _ ht t'⟩

theorem Owned.pop {s : JobSystem} (h : s.Owned) {worker : Nat} {t : JobWorker} {item : WorkItem}
    {m : JobManager} (ht : s.threads[worker]? = some t) (hidle : t = .ready ∨ t = .notified)
    (hpop : s.manager.popJob hardwareConcurrency = some (item, m)) :
    Owned { s with
      manager := m
      threads := s.threads.set worker (.holding item.job)
      events := s.events ++ [.handed item.job worker] } := by
  obtain ⟨priority, items, hqueue, rfl⟩ := JobManager.popJob_cases hpop
  have hnone : t.inProgress = none ∧ t.toFree = none := by
    rcases hidle with rfl | rfl <;> exact ⟨rfl, rfl⟩
  have hqueued := fun job => s.manager.census_setQueue priority items job
  have hmove := census_threads ht (.holding item.job)
  simp only [hqueue, census_cons item items, census_singleton, WorkItem.itemJob] at hqueued
  simp only [hnone, hit_none] at hmove
  refine ⟨fun job => ?_, fun job => ?_, fun job => ?_⟩
  · have hprogress := h.progress job
    have := hmove job
    simp only [census_append, census_singleton, JobWorker.inProgress, WorkItem.itemJob]
      at hprogress this ⊢
    omega
  · have honce := h.once job
    have := hqueued job
    have := hmove job
    change census WorkItem.itemJob job (s.manager.setQueue priority items).queued + _ + _ + _ = _
    simp only [census_append, census_singleton, JobWorker.inProgress, JobWorker.toFree,
      JobEvent.freedJob, hit_none] at honce this ⊢
    omega
  · have hhanded := h.handed job
    have := hqueued job
    change _ + census WorkItem.itemJob job (s.manager.setQueue priority items).queued ≤ _
    simp only [census_append, census_singleton, JobEvent.handedJob] at hhanded ⊢
    omega

theorem Owned.endComplete {s : JobSystem} (h : s.Owned) {worker : Nat} {item : WorkItem}
    (ht : s.threads[worker]? = some (.called item)) : (s.endComplete worker item).Owned := by
  obtain ⟨listed, hlisted, hjob⟩ := h.mem_processing ht rfl
  have hmove := census_threads ht (.erased item)
  simp only [JobWorker.inProgress, JobWorker.toFree, hit_none] at hmove
  refine ⟨fun job => ?_, fun job => ?_, h.handed⟩
  · obtain ⟨removed, hremoved, -, hcount⟩ := census_eraseP WorkItem.itemJob job
      (p := fun listed : WorkItem => listed.job = item.job) hlisted (by simpa using hjob)
    have hprogress := h.progress job
    have := hmove job
    rw [census_singleton, WorkItem.itemJob, of_decide_eq_true hremoved] at hcount
    simp only [JobSystem.endComplete, JobManager.complete]
    omega
  · have honce := h.once job
    have := hmove job
    change census WorkItem.itemJob job s.manager.queued +
      census JobWorker.inProgress job (s.threads.set worker (.erased item)) +
        census JobWorker.toFree job (s.threads.set worker (.erased item)) +
          census JobEvent.freedJob job s.events = _
    simp only [JobSystem.endComplete]
    omega

theorem Owned.free {s : JobSystem} (h : s.Owned) {worker : Nat} {item : WorkItem}
    (ht : s.threads[worker]? = some (.erased item)) :
    ((s.setThread worker .ready).raise [.freed item.job]).Owned := by
  have hmove := census_threads ht .ready
  simp only [JobWorker.inProgress, JobWorker.toFree, hit_none] at hmove
  refine ⟨fun job => ?_, fun job => ?_, fun job => ?_⟩
  · have hprogress := h.progress job
    have := hmove job
    simp only [JobSystem.raise, setThread]
    omega
  · have honce := h.once job
    have := hmove job
    simp only [JobSystem.raise, setThread, census_append, census_singleton, JobEvent.freedJob]
    omega
  · have hhanded := h.handed job
    simp only [JobSystem.raise, setThread, census_append, census_singleton, JobEvent.handedJob,
      hit_none]
    omega

theorem Owned.worker {s s' : JobSystem} (h : s.Owned) {worker : Nat}
    (hstep : WorkerStep hardwareConcurrency s worker s') : s'.Owned := by
  cases hstep with
  | pop ht hidle hrunning hpop => exact h.pop ht hidle hpop
  | wait ht hidle hrunning hpop =>
    rcases hidle with rfl | rfl <;> exact h.goesOn ht rfl rfl
  | leave ht hidle hrunning =>
    rcases hidle with rfl | rfl <;> exact h.goesOn ht rfl rfl
  | copy ht hfind =>
    have hjob := List.find?_some hfind
    exact h.goesOn ht (congrArg some (of_decide_eq_true hjob)) rfl
  | lost ht hfind =>
    obtain ⟨item, hitem, hjob⟩ := h.mem_processing ht rfl
    exact absurd hjob (by simpa using List.find?_eq_none.1 hfind item hitem)
  | @call item ht =>
    have hcalled : (s.setThread worker (.called item)).Owned := h.goesOn ht rfl rfl
    exact hcalled.raise (WorkItem.census_completeEvents (fun _ _ => rfl) _)
      (WorkItem.census_completeEvents (fun _ _ => rfl) _)
  | complete ht => exact h.endComplete ht
  | free ht => exact h.free ht
  | remove ht =>
    have hgone : (s.setThread worker .gone).Owned := h.goesOn ht rfl rfl
    exact ⟨hgone.progress, hgone.once, hgone.handed⟩

theorem Owned.step {s s' : JobSystem} (h : s.Owned) {a : JobAction}
    (hstep : s.step hardwareConcurrency a = some s') : s'.Owned := by
  cases step_cases hardwareConcurrency hstep with
  | addJob callback priority => exact h.addJob callback priority
  | cancelJob jobID => exact h.cancelJob jobID
  | cancelJobs => exact h.cancelJobs
  | notifyAll hcancelling => exact h.notifyAll
  | cancelJobsReturn hcancelling hworkers => exact ⟨h.progress, h.once, h.handed⟩
  | restart hrunning => exact ⟨h.progress, h.once, h.handed⟩
  | pauseJobs => exact ⟨h.progress, h.once, h.handed⟩
  | unPauseJobs => exact ⟨h.progress, h.once, h.handed⟩
  | wake hwaiting => exact h.goesOn hwaiting rfl rfl
  | worker hworker => exact h.worker hworker

theorem owned_of_reachable {G : JobAction → JobSystem → Prop} {s : JobSystem}
    (h : (system hardwareConcurrency G).Reachable s) : s.Owned :=
  Reachable.invariant (fun _ hs => hs ▸ Owned.initial)
    (fun _ _ _ howned ⟨_, _, hstep⟩ => howned.step hstep) h

end JobSystem

end LuPlatform.Thread
