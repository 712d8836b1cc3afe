import LuPlatform.Library.LockOrder
import LuPlatform.Thread.JobManager

/-! A job manager and the job queues that use it, with their mutexes. A queue calls the manager while
it holds its own mutex; the manager calls a queue back with `onJobComplete`, outside its mutex, and
with `onJobAbort`, inside it. -/

namespace LuPlatform.Thread

open LockOrder

structure JobPointer where
  job : Nat
  id : BitVec 32 := 0
  deriving DecidableEq, Repr

structure JobQueue where
  lifo : Bool := false
  jobsAtOnce : Nat := 1
  priority : Priority := .low
  jobQueue : List JobPointer := []
  processing : List JobPointer := []

namespace JobQueue

/-- `none` for a job that the queue has already. -/
def addJob (q : JobQueue) (job : Nat) : Option JobQueue :=
  if q.jobQueue.any (·.job = job) || q.processing.any (·.job = job) then
    none
  else if q.lifo then
    some { q with jobQueue := q.jobQueue ++ [{ job }] }
  else
    some { q with jobQueue := { job } :: q.jobQueue }

/-- The job that `queueNextJob` hands to the manager. -/
def next (q : JobQueue) : Option JobPointer :=
  if q.processing.length < q.jobsAtOnce then q.jobQueue.getLast? else none

/-- What becomes of this job: a manager that runs gives it an id. -/
def queued (q : JobQueue) (id : BitVec 32) : JobQueue :=
  { q with
    jobQueue := q.jobQueue.dropLast
    processing := q.processing ++
      if id > 0 then q.jobQueue.getLast?.toList.map ({ · with id }) else [] }

def removeProcessing (q : JobQueue) (job : Nat) : JobQueue :=
  { q with processing := q.processing.eraseP (·.job = job) }

def removeQueued (q : JobQueue) (job : Nat) : JobQueue :=
  { q with jobQueue := q.jobQueue.eraseP (·.job = job) }

end JobQueue

/-- The mutexes, `m_section` of the manager and of each queue. -/
inductive JobLock where
  | manager
  | jobQueue (queue : Nat)
  deriving DecidableEq, Repr

/-- What a thread does while it holds a mutex, and the callbacks. -/
inductive JobCommand where
  | addJob (job : Nat) (callback : Option Callback) (priority : Priority)
  | cancelJob (jobID : BitVec 32)
  | cancelJobs | cancelJobsLoop
  | restart | pauseJobs | unPauseJobs
  | getNextJob (worker : Nat)
  | onJobComplete (job : Nat)
  | completed (job : Nat)
  | removeWorker (worker : Nat)
  | callBack (callback : Option Callback) (job : Nat)
  | queueAddJob (queue job : Nat)
  | queueNextJob (queue : Nat)
  | queueAnswer (queue : Nat)
  | queueRemove (queue job : Nat)
  | queueCancelJob (queue job : Nat)
  | queueCancelJobs (queue : Nat)
  | queueClear (queue : Nat)
  deriving DecidableEq, Repr

abbrev JobCode := List (Instr JobLock JobCommand)

structure JobData where
  manager : JobManager := {}
  queues : Nat → JobQueue := fun _ => {}
  /-- How many workers were started. -/
  workers : Nat := 0
  /-- What `JobManager::addJob` last returned to each thread. -/
  answers : Nat → BitVec 32 := fun _ => 0

/-- A command with the mutex that it runs under. -/
def locked (l : JobLock) (c : JobCommand) : JobCode := [.lock l, .run c, .unlock l]

def workerCode (worker : Nat) : JobCode := locked .manager (.getNextJob worker)

namespace JobData

def setManager (d : JobData) (m : JobManager) : JobData := { d with manager := m }

def setQueue (d : JobData) (queue : Nat) (q : JobQueue) : JobData :=
  { d with queues := Function.update d.queues queue q }

def answer (d : JobData) (thread : Nat) (id : BitVec 32) : JobData :=
  { d with answers := Function.update d.answers thread id }

section Exec

variable (hardwareConcurrency : BitVec 32)

/-- The body of `JobManager::addJob`. -/
def addJob (d : JobData) (thread job : Nat) (callback : Option Callback) (priority : Priority) :
    Effect JobData JobLock JobCommand :=
  if d.manager.running then
    let m := d.manager.enqueue job callback priority
    let d := d.answer thread d.manager.nextId
    match m.startWorkers hardwareConcurrency priority with
    | .newWorker =>
      { data := { d with
          manager := { m with workers := m.workers ++ [d.workers] }
          workers := d.workers + 1 }
        started := [workerCode d.workers] }
    | _ => { data := d.setManager m }
  else
    { data := d.answer thread 0 }

def cancelJob (d : JobData) (jobID : BitVec 32) : JobData :=
  match d.manager.cancelQueued jobID with
  | some (_, m) => d.setManager m
  | none => d.setManager (d.manager.cancelProcessing jobID)

/-- A wait leaves the mutex and takes it again. It may end at any time, so nothing has to be said of
notifications. -/
def getNextJob (d : JobData) (worker : Nat) : Effect JobData JobLock JobCommand :=
  if d.manager.running then
    match d.manager.popJob hardwareConcurrency with
    | some (item, m) =>
      { data := d.setManager m
        code := .unlock .manager :: locked .manager (.onJobComplete item.job) ++
          [.lock .manager, .run (.getNextJob worker)] }
    | none =>
      { data := d
        code := [.unlock .manager, .lock .manager, .run (.getNextJob worker)] }
  else
    { data := d
      code := [.unlock .manager, .lock .manager, .run (.removeWorker worker)] }

def onJobComplete (d : JobData) (job : Nat) : Effect JobData JobLock JobCommand :=
  match d.manager.processing.find? (·.job = job) with
  | some item =>
    { data := d
      code := [.unlock .manager, .run (.callBack item.callback item.job), .lock .manager,
        .run (.completed job)] }
  | none => { data := d }

/-- `JobQueue::onJobComplete` and `JobQueue::onJobAbort` are both `onJobNotify`. -/
def onJobNotify (queue job : Nat) : JobCode :=
  [.lock (.jobQueue queue), .run (.queueRemove queue job), .run (.queueNextJob queue),
    .unlock (.jobQueue queue)]

def callBack (callback : Option Callback) (job : Nat) : JobCode :=
  match callback with
  | some (.jobQueue queue) => onJobNotify queue job
  | _ => []

def queueAddJob (d : JobData) (queue job : Nat) : Effect JobData JobLock JobCommand :=
  match (d.queues queue).addJob job with
  | some q => { data := d.setQueue queue q, code := [.run (.queueNextJob queue)] }
  | none => { data := d }

def queueNextJob (d : JobData) (queue : Nat) : Effect JobData JobLock JobCommand :=
  match (d.queues queue).next with
  | some next =>
    { data := d
      code := locked .manager
        (.addJob next.job (some (.jobQueue queue)) (d.queues queue).priority) ++
          [.run (.queueAnswer queue)] }
  | none => { data := d }

/-- The rest of a round of `queueNextJob`; one that was refused is followed by another. -/
def queueAnswer (d : JobData) (thread queue : Nat) : Effect JobData JobLock JobCommand :=
  { data := d.setQueue queue ((d.queues queue).queued (d.answers thread))
    code := if d.answers thread > 0 then [] else [.run (.queueNextJob queue)] }

def queueCancelJob (d : JobData) (queue job : Nat) : Effect JobData JobLock JobCommand :=
  match (d.queues queue).processing.find? (·.job = job) with
  | some pointer =>
    { data := d
      code := locked .manager (.cancelJob pointer.id) ++ [.run (.queueRemove queue job)] }
  | none => { data := d.setQueue queue ((d.queues queue).removeQueued job) }

def exec (thread : Nat) : JobCommand → JobData → Effect JobData JobLock JobCommand
  | .addJob job callback priority, d => d.addJob hardwareConcurrency thread job callback priority
  | .cancelJob jobID, d => { data := d.cancelJob jobID }
  | .cancelJobs, d =>
    { data := d.setManager d.manager.cancelAll
      code := (d.manager.queued ++ d.manager.processing).map
        (fun item => .run (.callBack item.callback item.job)) ++ [.run .cancelJobsLoop] }
  | .cancelJobsLoop, d =>
    { data := d
      code := if d.manager.workers.isEmpty then []
        else [.unlock .manager, .lock .manager, .run .cancelJobsLoop] }
  | .restart, d => { data := d.setManager { d.manager with running := true } }
  | .pauseJobs, d => { data := d.setManager { d.manager with pauseJobs := true } }
  | .unPauseJobs, d => { data := d.setManager { d.manager with pauseJobs := false } }
  | .getNextJob worker, d => d.getNextJob hardwareConcurrency worker
  | .onJobComplete job, d => d.onJobComplete job
  | .completed job, d => { data := d.setManager (d.manager.complete job) }
  | .removeWorker worker, d => { data := d.setManager (d.manager.removeWorker worker) }
  | .callBack callback job, d => { data := d, code := callBack callback job }
  | .queueAddJob queue job, d => d.queueAddJob queue job
  | .queueNextJob queue, d => d.queueNextJob queue
  | .queueAnswer queue, d => d.queueAnswer thread queue
  | .queueRemove queue job, d => { data := d.setQueue queue ((d.queues queue).removeProcessing job) }
  | .queueCancelJob queue job, d => d.queueCancelJob queue job
  | .queueCancelJobs queue, d =>
    { data := d
      code := (d.queues queue).processing.flatMap
        (fun pointer => locked .manager (.cancelJob pointer.id)) ++ [.run (.queueClear queue)] }
  | .queueClear queue, d =>
    { data := d.setQueue queue { d.queues queue with jobQueue := [], processing := [] } }

end Exec

end JobData

/-- The public operations. Those that only read a member under the mutex are `isProcessing`; the
destructor of a queue is its `cancelJobs`. -/
inductive JobOperation where
  | addJob (job : Nat) (callback : Option Callback) (priority : Priority)
  | cancelJob (jobID : BitVec 32)
  | cancelJobs | restart | pauseJobs | unPauseJobs | isProcessing
  | queueAddJob (queue job : Nat)
  | queueCancelJob (queue job : Nat)
  | queueCancelJobs (queue : Nat)
  | onJobNotify (queue job : Nat)
  deriving DecidableEq, Repr

def JobOperation.code : JobOperation → JobCode
  | .addJob job callback priority => locked .manager (.addJob job callback priority)
  | .cancelJob jobID => locked .manager (.cancelJob jobID)
  | .cancelJobs => locked .manager .cancelJobs
  | .restart => locked .manager .restart
  | .pauseJobs => locked .manager .pauseJobs
  | .unPauseJobs => locked .manager .unPauseJobs
  | .isProcessing => [.lock .manager, .unlock .manager]
  | .queueAddJob queue job => locked (.jobQueue queue) (.queueAddJob queue job)
  | .queueCancelJob queue job => locked (.jobQueue queue) (.queueCancelJob queue job)
  | .queueCancelJobs queue => locked (.jobQueue queue) (.queueCancelJobs queue)
  | .onJobNotify queue job => JobData.onJobNotify queue job

end LuPlatform.Thread
