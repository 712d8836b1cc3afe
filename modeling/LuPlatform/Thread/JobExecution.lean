import LuPlatform.Thread.JobOwnership

/-! Whether a job has run when it is reported done. A worker hands each job straight to
`onJobComplete`: the call of `doWork` is commented out. -/

namespace LuPlatform.Thread

open Transition TransitionSystem Census

def JobEvent.workedJob : JobEvent → Option Nat
  | .doWork job => some job
  | _ => none

namespace JobSystem

variable {hardwareConcurrency : BitVec 32}

/-- The manager or a worker still has the job. -/
def Held (s : JobSystem) (job : Nat) : Prop :=
  (∃ item ∈ s.manager.queued, item.job = job) ∨ (∃ item ∈ s.manager.processing, item.job = job) ∨
    ∃ t ∈ s.threads, t.toFree = some job

/-- A job is handed out at most once, it is freed once when nobody has it any more and not before,
and one that is reported done ran once before. -/
structure Handled (s : JobSystem) : Prop where
  handed : ∀ job, census JobEvent.handedJob job s.events ≤ 1
  held : ∀ job < s.jobs, s.Held job → census JobEvent.freedJob job s.events = 0
  freed : ∀ job < s.jobs, ¬ s.Held job → census JobEvent.freedJob job s.events = 1
  worked : ∀ before after job id, s.events = before ++ .onJobComplete job id :: after →
    census JobEvent.workedJob job before = 1

/-- No worker is about to report a job done. -/
def CompletesSilently (a : JobAction) (s : JobSystem) : Prop :=
  ∀ worker item, a = .worker worker → s.threads[worker]? = some (.completing item) →
    item.callback = none

theorem Owned.held_iff {s : JobSystem} (h : s.Owned) (job : Nat) :
    s.Held job ↔ 0 < census WorkItem.itemJob job s.manager.queued +
      census JobWorker.inProgress job s.threads + census JobWorker.toFree job s.threads := by
  have hitems : ∀ items : List WorkItem, (∃ item ∈ items, item.job = job) ↔
      0 < census WorkItem.itemJob job items := by
    intro items
    refine ⟨fun ⟨item, hitem, hjob⟩ => census_pos hitem (congrArg some hjob), fun hpos => ?_⟩
    obtain ⟨item, hitem, hname⟩ := exists_of_census_pos hpos
    exact ⟨item, hitem, Option.some.inj hname⟩
  have hthreads : (∃ t ∈ s.threads, t.toFree = some job) ↔
      0 < census JobWorker.toFree job s.threads :=
    ⟨fun ⟨_, ht, hname⟩ => census_pos ht hname, exists_of_census_pos⟩
  rw [Held, hitems, hitems, hthreads, h.progress]
  omega

theorem startWorkers_events (s : JobSystem) (priority : Priority) :
    (s.startWorkers hardwareConcurrency priority).events = s.events := by
  unfold startWorkers
  split <;> rfl

/-- A step never says that a job ran, and only a worker with a callback says that one is
complete. -/
theorem step_events {s s' : JobSystem} {a : JobAction}
    (hstep : s.step hardwareConcurrency a = some s') :
    ∃ later, s'.events = s.events ++ later ∧ (∀ job, .doWork job ∉ later) ∧
      ∀ job id, .onJobComplete job id ∈ later → ¬ CompletesSilently a s := by
  have hnone : s.events = s.events ++ [] := (List.append_nil _).symm
  cases step_cases hardwareConcurrency hstep with
  | addJob callback priority =>
    unfold addJob
    split
    · exact ⟨_, startWorkers_events _ priority, by simp, by simp⟩
    · exact ⟨_, rfl, by simp, by simp⟩
  | cancelJob jobID =>
    unfold cancelJob
    cases s.manager.cancelQueued jobID with
    | none => exact ⟨_, rfl, by simp, by simp⟩
    | some cancelled => exact ⟨_, rfl, by simp, by simp⟩
  | cancelJobs =>
    have habort : ∀ (item : WorkItem), ∀ e ∈ item.abortEvents, e = .onJobAbort item.job item.id := by
      intro item e he
      unfold WorkItem.abortEvents at he
      split at he
      · exact List.mem_singleton.1 he
      · exact absurd he (List.not_mem_nil)
    have hevents : ∀ e ∈ (s.manager.queued.flatMap fun item => item.abortEvents ++
        [.freed item.job]) ++ s.manager.processing.flatMap (·.abortEvents),
        ∃ item : WorkItem, e = .onJobAbort item.job item.id ∨ e = .freed item.job := by
      intro e he
      rcases List.mem_append.1 he with he | he
      · obtain ⟨item, -, he⟩ := List.mem_flatMap.1 he
        rcases List.mem_append.1 he with he | he
        · exact ⟨item, .inl (habort item e he)⟩
        · exact ⟨item, .inr (List.mem_singleton.1 he)⟩
      · obtain ⟨item, -, he⟩ := List.mem_flatMap.1 he
        exact ⟨item, .inl (habort item e he)⟩
    refine ⟨_, rfl, fun job he => ?_, fun job id he => ?_⟩
    · obtain ⟨item, h | h⟩ := hevents _ he <;> simp at h
    · obtain ⟨item, h | h⟩ := hevents _ he <;> simp at h
  | notifyAll hcancelling => exact ⟨[], hnone, by simp, by simp⟩
  | cancelJobsReturn hcancelling hworkers => exact ⟨[], hnone, by simp, by simp⟩
  | restart hrunning => exact ⟨[], hnone, by simp, by simp⟩
  | pauseJobs => exact ⟨[], hnone, by simp, by simp⟩
  | unPauseJobs => exact ⟨[], hnone, by simp, by simp⟩
  | wake hwaiting => exact ⟨[], hnone, by simp, by simp⟩
  | worker hworker =>
    cases hworker with
    | call ht =>
      rename_i item
      refine ⟨item.completeEvents, rfl, fun job he => ?_, fun job id he hsilent => ?_⟩
      · unfold WorkItem.completeEvents at he
        split at he <;> simp at he
      · simp [WorkItem.completeEvents, hsilent _ item rfl ht] at he
    | pop ht hidle hrunning hpop => exact ⟨_, rfl, by simp, by simp⟩
    | free ht => exact ⟨_, rfl, by simp, by simp⟩
    | wait ht hidle hrunning hpop => exact ⟨[], hnone, by simp, by simp⟩
    | leave ht hidle hrunning => exact ⟨[], hnone, by simp, by simp⟩
    | copy ht hfind => exact ⟨[], hnone, by simp, by simp⟩
    | lost ht hfind => exact ⟨[], hnone, by simp, by simp⟩
    | complete ht => exact ⟨[], hnone, by simp, by simp⟩
    | remove ht => exact ⟨[], hnone, by simp, by simp⟩

/-- No run ever says that a job ran. -/
theorem no_doWork_of_reachable {G : JobAction → JobSystem → Prop} {s : JobSystem}
    (h : (system hardwareConcurrency G).Reachable s) (job : Nat) : .doWork job ∉ s.events := by
  refine Reachable.invariant (I := fun s => .doWork job ∉ s.events)
    (fun s (hs : s = {}) => by simp [hs]) ?_ h
  rintro s s' - hnone ⟨a, -, hstep⟩ hmem
  obtain ⟨later, hevents, hnever, -⟩ := step_events hstep
  rw [hevents] at hmem
  exact (List.mem_append.1 hmem).elim hnone (hnever job)

theorem no_onJobComplete_of_reachable {s : JobSystem}
    (h : (system hardwareConcurrency CompletesSilently).Reachable s) (job : Nat) (id : BitVec 32) :
    .onJobComplete job id ∉ s.events := by
  refine Reachable.invariant (I := fun s => .onJobComplete job id ∉ s.events)
    (fun s (hs : s = {}) => by simp [hs]) ?_ h
  rintro s s' - hnone ⟨a, hsilent, hstep⟩ hmem
  obtain ⟨later, hevents, -, hcomplete⟩ := step_events hstep
  rw [hevents] at hmem
  exact (List.mem_append.1 hmem).elim hnone fun hlater => hcomplete job id hlater hsilent

theorem Owned.handled {s : JobSystem} (h : s.Owned)
    (hcomplete : ∀ job id, .onJobComplete job id ∉ s.events) : s.Handled := by
  refine ⟨fun job => ?_, fun job hjob hheld => ?_, fun job hjob hheld => ?_, ?_⟩
  · have hhanded := h.handed job
    have := allocated_le_one s.jobs job
    omega
  · have honce := h.once job
    have := allocated_le_one s.jobs job
    rw [h.held_iff] at hheld
    omega
  · have honce := h.once job
    rw [allocated, if_pos hjob] at honce
    rw [h.held_iff] at hheld
    omega
  · intro before after job id hevents
    exact absurd (by simp [hevents]) (hcomplete job id)

end JobSystem

end LuPlatform.Thread
