import LuPlatform.Thread.JobQueueRuns

/-! Whether the jobs of a queue wait for ever. A job is submitted when one is added and when one in
progress comes to its end; a cancellation takes a job from those in progress and submits none. -/

namespace LuPlatform.Thread

open Actions

namespace JobQueueSystem

variable {same : Nat → Nat → Bool} {hardwareConcurrency : BitVec 32} {s s' : JobQueueSystem}

/-- Jobs wait, and there is none in progress whose end would submit them. -/
def Stalled (s : JobQueueSystem) : Prop := s.queue.processing = [] ∧ s.queue.jobQueue ≠ []

/-- `cancelJob` does not take the only job in progress while others wait. -/
def LeavesOne (same : Nat → Nat → Bool) (a : JobQueueAction) (s : JobQueueSystem) : Prop :=
  ∀ job p, a = .cancelJob job → s.queue.processing = [p] → same p.job job = true →
    s.queue.jobQueue = []

theorem submitNext_processing {p : JobPointer} (hnext : s.queue.next = some p)
    (hid : (s.submission hardwareConcurrency p).2 > 0) :
    (s.submitNext hardwareConcurrency p).queue.processing ≠ [] := by
  have hlast : s.queue.jobQueue.getLast? = some p := by
    rw [(next_cases hnext).2]
    exact List.getLast?_concat
  simp only [submitNext, JobQueue.queued, if_pos hid, hlast]
  simp

/-- The loop ends with a job accepted, with as many in progress as may be, or with none waiting. -/
theorem queueNextJobs_not_stalled {rounds : Nat} (hk : 1 ≤ s.queue.jobsAtOnce)
    (hrounds : s.queue.jobQueue.length ≤ rounds) :
    ¬ (s.queueNextJobs hardwareConcurrency rounds).Stalled := by
  induction rounds generalizing s with
  | zero =>
    rintro ⟨-, hwaiting⟩
    apply hwaiting
    exact List.eq_nil_of_length_eq_zero (Nat.le_zero.1 hrounds)
  | succ rounds ih =>
    rw [queueNextJobs]
    cases hnext : s.queue.next with
    | none =>
      rintro ⟨hidle, hwaiting⟩
      rw [JobQueue.next, hidle, if_pos (by exact hk), List.getLast?_eq_none_iff] at hnext
      exact hwaiting hnext
    | some p =>
      dsimp only
      split
      · rename_i hid
        rintro ⟨hidle, -⟩
        exact submitNext_processing hnext hid hidle
      · apply ih
        · exact hk
        · have hlength := congrArg List.length (next_cases hnext).2
          simp only [submitNext, JobQueue.queued, List.length_append, List.length_singleton]
            at hlength ⊢
          omega

theorem queueNextJob_not_stalled (hk : 1 ≤ s.queue.jobsAtOnce) :
    ¬ (s.queueNextJob hardwareConcurrency).Stalled :=
  queueNextJobs_not_stalled hk (Nat.le_refl _)

theorem addJob_not_stalled (hk : 1 ≤ s.queue.jobsAtOnce) (h : ¬ s.Stalled) :
    ¬ (s.addJob same hardwareConcurrency).Stalled := by
  unfold addJob
  split
  · exact h
  · apply queueNextJob_not_stalled
    unfold JobQueue.push
    split <;> exact hk

theorem onJobNotify_not_stalled (hk : 1 ≤ s.queue.jobsAtOnce) (job : Nat) :
    ¬ (s.onJobNotify same hardwareConcurrency job).Stalled :=
  queueNextJob_not_stalled hk

/-- A cancellation stalls the queue exactly when it takes the only job in progress. -/
theorem cancelJob_not_stalled_iff (h : ¬ s.Stalled) (job : Nat) :
    ¬ (s.cancelJob same job).Stalled ↔ LeavesOne same (.cancelJob job) s := by
  cases hfind : s.queue.findProcessing same job with
  | none =>
    rw [cancelJob, hfind]
    apply iff_of_true
    · rintro ⟨hidle, hwaiting⟩
      apply h
      refine ⟨hidle, fun hnone => hwaiting ?_⟩
      simp [JobQueue.eraseQueued, hnone]
    · rintro other p hother hone hsame
      obtain rfl := JobQueueAction.cancelJob.inj hother
      rw [JobQueue.findProcessing, hone, List.find?_eq_none] at hfind
      exact absurd hsame (hfind p List.mem_cons_self)
  | some p =>
    obtain ⟨before, after, hprocessing, hsame, herase⟩ := JobQueue.findProcessing_cases hfind
    rw [cancelJob, hfind]
    constructor
    · rintro hgoes other p' hother hone -
      obtain rfl := JobQueueAction.cancelJob.inj hother
      by_contra hwaiting
      apply hgoes
      refine ⟨?_, hwaiting⟩
      have hlength := congrArg List.length hprocessing
      simp only [hone, List.length_append, List.length_cons, List.length_nil] at hlength
      rw [herase]
      apply List.eq_nil_of_length_eq_zero
      rw [List.length_append]
      omega
    · rintro hleaves ⟨hidle, hwaiting⟩
      apply hwaiting
      obtain ⟨rfl, rfl⟩ := List.append_eq_nil_iff.1 (herase.symm.trans hidle)
      exact hleaves job p rfl hprocessing hsame

/-- A notification submits a job, whatever it is about. -/
theorem aborts_not_stalled (hk : 1 ≤ s.queue.jobsAtOnce) (h : ¬ s.Stalled) (jobs : List Nat) :
    ¬ (jobs.foldl (onJobAbort same hardwareConcurrency) s).Stalled := by
  induction jobs generalizing s with
  | nil => exact h
  | cons job jobs ih =>
    apply ih
    · apply onJobAbort_keeps (P := fun s => 1 ≤ s.queue.jobsAtOnce)
      · intro s s' hchange hs
        rwa [hchange.settings.2]
      · exact hk
    · exact onJobNotify_not_stalled (s := s.release _) hk job

theorem calledBack_not_stalled {a : JobAction} {system : JobSystem} (hk : 1 ≤ s.queue.jobsAtOnce)
    (h : ¬ s.Stalled) : ¬ (s.calledBack same hardwareConcurrency a system).Stalled := by
  unfold calledBack
  split
  · split
    · exact onJobNotify_not_stalled (s := (s.setSystem system).release _) hk _
    · exact h
  · exact aborts_not_stalled (s := s.setSystem system) hk h _
  · exact h

theorem step_not_stalled_iff {a : JobQueueAction} (hk : 1 ≤ s.queue.jobsAtOnce) (h : ¬ s.Stalled)
    (hstep : s.step same hardwareConcurrency a = some s') :
    ¬ s'.Stalled ↔ LeavesOne same a s := by
  cases a with
  | addJob =>
    obtain rfl := Option.some.inj hstep
    exact iff_of_true (addJob_not_stalled hk h) fun _ _ hother => by cases hother
  | cancelJob job =>
    obtain rfl := Option.some.inj hstep
    exact cancelJob_not_stalled_iff h job
  | cancelJobs =>
    obtain rfl := Option.some.inj hstep
    exact iff_of_true (fun hstalled => hstalled.2 rfl) fun _ _ hother => by cases hother
  | manager a =>
    obtain ⟨system, -, rfl⟩ := Option.map_eq_some_iff.1 hstep
    exact iff_of_true (calledBack_not_stalled hk h) fun _ _ hother => by cases hother

/-- In a run of a queue that may have a job in progress at all, jobs wait only while one is in
progress, if and only if no cancellation takes the only job in progress while others wait. -/
theorem never_stalled_iff {lifo : Bool} {jobsAtOnce : Nat} {priority : Priority}
    {actions : List JobQueueAction} (hk : 1 ≤ jobsAtOnce)
    (hrun : run (step same hardwareConcurrency) (initial lifo jobsAtOnce priority) actions = some s) :
    Always (step same hardwareConcurrency) (initial lifo jobsAtOnce priority)
        (fun _ s => ¬ s.Stalled) actions ↔
      EachStep (step same hardwareConcurrency) (initial lifo jobsAtOnce priority)
        (LeavesOne same) actions := by
  apply always_iff_eachStep _ _ hrun
  · rintro ⟨-, hwaiting⟩
    exact hwaiting rfl
  · intro before a after s s' _ hbefore halways _ hstep
    have hlimit : 1 ≤ s.queue.jobsAtOnce := (settings_of_run hbefore).2 ▸ hk
    exact step_not_stalled_iff hlimit (halways.last hbefore) hstep

/-- One job after the other, each taken by the worker and brought to its end. -/
theorem never_stalled_two : Always (step (fun a b => a = b) 4) (initial false 1 .low)
    (fun _ s => ¬ s.Stalled) [.addJob, .addJob, .manager (.worker 0), .manager (.worker 0),
      .manager (.worker 0)] := by
  apply (never_stalled_iff (Nat.le_refl 1) (s := _) rfl).2
  simp [eachStep_cons, eachStep_nil, LeavesOne]

/-- The job in progress is cancelled, and the one behind it waits. -/
theorem cancelled_last_stalls : ∃ s : JobQueueSystem,
    run (step (fun a b => a = b) 4) (initial false 1 .low) [.addJob, .addJob, .cancelJob 0] =
      some s ∧ s.system.manager.running = true ∧ s.queue.jobQueue = [{ job := 1 }] ∧
      s.system.manager.queued = [] ∧ s.system.manager.processing = [] ∧ s.Stalled := by
  refine ⟨_, rfl, rfl, rfl, rfl, rfl, rfl, ?_⟩
  exact List.cons_ne_nil _ _

end JobQueueSystem

end LuPlatform.Thread
