import LuPlatform.Thread.JobQueue

/-! The order of the mutexes: a queue's before the manager's. Only `cancelJobs` of the manager breaks
it, when it aborts a job of a queue: the queue's `onJobAbort` takes the queue's mutex inside the
manager's, and asks for the manager's again to hand on the next job. -/

namespace LuPlatform.Thread

open Transition TransitionSystem LockOrder

def JobLock.rank : JobLock → Nat
  | .jobQueue _ => 0
  | .manager => 1

/-- The mutexes that a thread may hold when it runs a command. -/
def JobCommand.Ok (held : List JobLock) : JobCommand → Prop
  | .cancelJobs | .cancelJobsLoop | .getNextJob _ | .onJobComplete _ => held = [.manager]
  | .callBack (some (.jobQueue _)) _ => held = []
  | .queueAddJob _ _ | .queueNextJob _ | .queueAnswer _ | .queueCancelJob _ _ | .queueCancelJobs _ =>
    ∀ l ∈ held, l.rank < JobLock.manager.rank
  | _ => True

/-- `cancelJobs` finds no job of a queue. -/
def AbortsNoQueue (c : JobCommand) (d : JobData) : Prop :=
  c = .cancelJobs → ∀ item ∈ d.manager.queued ++ d.manager.processing,
    ∀ queue, item.callback ≠ some (.jobQueue queue)

def IsOperation (code : JobCode) : Prop := ∃ operation : JobOperation, code = operation.code

abbrev JobState := LockState JobData JobLock JobCommand

/-- A manager with its queues, and any number of threads that use them. -/
def jobThreads (hardwareConcurrency : BitVec 32) (allowed : JobCommand → JobData → Prop)
    (queues : Nat → JobQueue) : TransitionSystem JobState :=
  LockState.system IsOperation (JobData.exec hardwareConcurrency) allowed { queues }

abbrev JobFits := Fits JobLock.rank JobCommand.Ok

theorem locked_fits {held : List JobLock} {l : JobLock} {c : JobCommand}
    (hrank : ∀ l' ∈ held, l'.rank < l.rank) (hok : c.Ok (l :: held)) :
    JobFits held (locked l c) held :=
  ⟨hrank, hok, by simp [Fits]⟩

theorem manager_fits {c : JobCommand} (hok : c.Ok [.manager]) :
    JobFits [] (locked .manager c) [] :=
  locked_fits (by simp) hok

theorem onJobNotify_fits (queue job : Nat) : JobFits [] (JobData.onJobNotify queue job) [] := by
  refine ⟨by simp, trivial, ?_, ?_⟩
  · simp [JobCommand.Ok, JobLock.rank]
  · simp [Fits]

theorem operation_fits {code : JobCode} (h : IsOperation code) : JobFits [] code [] := by
  obtain ⟨operation, rfl⟩ := h
  have hqueue : ∀ {queue : Nat} {c : JobCommand}, c.Ok [.jobQueue queue] →
      JobFits [] (locked (.jobQueue queue) c) [] := fun h => locked_fits (by simp) h
  cases operation with
  | addJob job callback priority => exact manager_fits trivial
  | cancelJob jobID => exact manager_fits trivial
  | cancelJobs => exact manager_fits rfl
  | restart => exact manager_fits trivial
  | pauseJobs => exact manager_fits trivial
  | unPauseJobs => exact manager_fits trivial
  | isProcessing => exact ⟨by simp, by simp [Fits]⟩
  | queueAddJob queue job => exact hqueue (by simp [JobCommand.Ok, JobLock.rank])
  | queueCancelJob queue job => exact hqueue (by simp [JobCommand.Ok, JobLock.rank])
  | queueCancelJobs queue => exact hqueue (by simp [JobCommand.Ok, JobLock.rank])
  | onJobNotify queue job => exact onJobNotify_fits queue job

/-- A worker goes back to the manager's mutex, whatever it does in between. -/
theorem getNextJob_fits (hardwareConcurrency : BitVec 32) (d : JobData) (worker : Nat) :
    JobFits [.manager] (d.getNextJob hardwareConcurrency worker).code [.manager] := by
  have hback : ∀ {c : JobCommand}, c.Ok [.manager] →
      JobFits [] [.lock .manager, .run c] [.manager] := fun h => ⟨by simp, h, rfl⟩
  unfold JobData.getNextJob
  split
  · split
    · rename_i item m _
      have hcomplete : JobFits [] (locked .manager (.onJobComplete item.job)) [] := manager_fits rfl
      exact hcomplete.append (hback rfl)
    · exact hback rfl
  · exact hback trivial

theorem onJobComplete_fits (d : JobData) (job : Nat) :
    JobFits [.manager] (d.onJobComplete job).code [.manager] := by
  unfold JobData.onJobComplete
  split
  · rename_i item _
    have hcallback : (JobCommand.callBack item.callback item.job).Ok [] := by
      unfold JobCommand.Ok
      split <;> trivial
    exact ⟨hcallback, by simp, trivial, rfl⟩
  · rfl

theorem callBack_fits {held : List JobLock} {callback : Option Callback} {job : Nat}
    (hok : (JobCommand.callBack callback job).Ok held) :
    JobFits held (JobData.callBack callback job) held := by
  cases callback with
  | none => rfl
  | some callback =>
    cases callback with
    | jobQueue queue =>
      obtain rfl : held = [] := hok
      exact onJobNotify_fits queue job
    | user callback => rfl

/-- Outside the queues `cancelJobs` calls nobody back that takes a mutex. -/
theorem abort_fits {items : List WorkItem}
    (hitems : ∀ item ∈ items, ∀ queue, item.callback ≠ some (.jobQueue queue))
    (held : List JobLock) :
    JobFits held (items.map fun item => .run (.callBack item.callback item.job)) held := by
  induction items with
  | nil => rfl
  | cons item items ih =>
    refine ⟨?_, ih fun other hother => hitems other (List.mem_cons_of_mem item hother)⟩
    have hitem := hitems item List.mem_cons_self
    unfold JobCommand.Ok
    split <;> simp_all

theorem cancelPointers_fits {held : List JobLock}
    (hheld : ∀ l ∈ held, l.rank < JobLock.manager.rank) (pointers : List JobPointer) :
    JobFits held (pointers.flatMap fun pointer => locked .manager (.cancelJob pointer.id)) held := by
  induction pointers with
  | nil => rfl
  | cons pointer pointers ih =>
    have hcancel : JobFits held (locked .manager (.cancelJob pointer.id)) held :=
      locked_fits hheld trivial
    exact hcancel.append ih

theorem exec_fits (hardwareConcurrency : BitVec 32) (thread : Nat) (c : JobCommand) (d : JobData)
    {held : List JobLock} (hok : c.Ok held) (hallowed : AbortsNoQueue c d) :
    JobFits held (JobData.exec hardwareConcurrency thread c d).code held := by
  cases c with
  | addJob job callback priority =>
    simp only [JobData.exec, JobData.addJob]
    split
    · split <;> rfl
    · rfl
  | cancelJobs =>
    obtain rfl : held = [.manager] := hok
    have hloop : JobFits [.manager] [.run .cancelJobsLoop] [.manager] := ⟨rfl, rfl⟩
    exact (abort_fits (hallowed rfl) [.manager]).append hloop
  | cancelJobsLoop =>
    obtain rfl : held = [.manager] := hok
    simp only [JobData.exec]
    split
    · rfl
    · exact ⟨by simp, rfl, rfl⟩
  | getNextJob worker =>
    obtain rfl : held = [.manager] := hok
    exact getNextJob_fits hardwareConcurrency d worker
  | onJobComplete job =>
    obtain rfl : held = [.manager] := hok
    exact onJobComplete_fits d job
  | callBack callback job => exact callBack_fits hok
  | queueAddJob queue job =>
    simp only [JobData.exec, JobData.queueAddJob]
    split
    · exact ⟨hok, rfl⟩
    · rfl
  | queueNextJob queue =>
    simp only [JobData.exec, JobData.queueNextJob]
    split
    · rename_i next _
      have hadd : JobFits held (locked .manager
          (.addJob next.job (some (.jobQueue queue)) (d.queues queue).priority)) held :=
        locked_fits hok trivial
      have hanswer : JobFits held [.run (.queueAnswer queue)] held := ⟨hok, rfl⟩
      exact hadd.append hanswer
    · rfl
  | queueAnswer queue =>
    simp only [JobData.exec, JobData.queueAnswer]
    split
    · rfl
    · exact ⟨hok, rfl⟩
  | queueCancelJob queue job =>
    simp only [JobData.exec, JobData.queueCancelJob]
    split
    · rename_i pointer _
      have hcancel : JobFits held (locked .manager (.cancelJob pointer.id)) held :=
        locked_fits hok trivial
      have hremove : JobFits held [.run (.queueRemove queue job)] held := ⟨trivial, rfl⟩
      exact hcancel.append hremove
    · rfl
  | queueCancelJobs queue =>
    have hclear : JobFits held [.run (.queueClear queue)] held := ⟨trivial, rfl⟩
    exact (cancelPointers_fits hok _).append hclear
  | _ => rfl

theorem exec_starts (hardwareConcurrency : BitVec 32) (thread : Nat) (c : JobCommand) (d : JobData) :
    ∀ code ∈ (JobData.exec hardwareConcurrency thread c d).started, JobFits [] code [] := by
  have hnone : ∀ {effect : Effect JobData JobLock JobCommand}, effect.started = [] →
      ∀ code ∈ effect.started, JobFits [] code [] := by
    intro effect hstarted code hcode
    rw [hstarted] at hcode
    exact absurd hcode List.not_mem_nil
  cases c with
  | addJob job callback priority =>
    simp only [JobData.exec, JobData.addJob]
    split
    · split
      · intro code hcode
        rw [List.mem_singleton.1 hcode]
        exact manager_fits rfl
      · exact hnone rfl
    · exact hnone rfl
  | getNextJob worker =>
    simp only [JobData.exec, JobData.getNextJob]
    split
    · split <;> exact hnone rfl
    · exact hnone rfl
  | onJobComplete job =>
    simp only [JobData.exec, JobData.onJobComplete]
    split <;> exact hnone rfl
  | queueAddJob queue job =>
    simp only [JobData.exec, JobData.queueAddJob]
    split <;> exact hnone rfl
  | queueNextJob queue =>
    simp only [JobData.exec, JobData.queueNextJob]
    split <;> exact hnone rfl
  | queueCancelJob queue job =>
    simp only [JobData.exec, JobData.queueCancelJob]
    split <;> exact hnone rfl
  | _ => exact hnone rfl

theorem disciplined (hardwareConcurrency : BitVec 32) :
    Disciplined JobLock.rank JobCommand.Ok IsOperation (JobData.exec hardwareConcurrency)
      AbortsNoQueue where
  entries _ := operation_fits
  unfolds thread c d _ := exec_fits hardwareConcurrency thread c d
  starts := exec_starts hardwareConcurrency

/-- A queue with one job at the manager and another behind it. The manager's `cancelJobs` aborts the
first, and the queue hands on the second. -/
def abortSchedule : List (JobCode ⊕ Nat) :=
  [.inl (JobOperation.queueAddJob 0 10).code, .inr 0, .inr 0, .inr 0, .inr 0, .inr 0, .inr 0, .inr 0,
    .inr 0, .inl (JobOperation.queueAddJob 0 11).code, .inr 2, .inr 2, .inr 2, .inr 2,
    .inl JobOperation.cancelJobs.code, .inr 3, .inr 3, .inr 3, .inr 3, .inr 3, .inr 3]

end LuPlatform.Thread
