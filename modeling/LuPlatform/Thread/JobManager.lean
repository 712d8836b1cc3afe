import Mathlib.Data.List.Basic
import Mathlib.Data.BitVec

/-! The job manager: what each of its critical sections does to its members. A job is named by the
order in which jobs are allocated, a worker by the order in which workers are started. -/

namespace LuPlatform.Thread

/-- Who is called back: a `JobQueue`, or code that is not of the library. -/
inductive Callback where
  | jobQueue (queue : Nat)
  | user (callback : Nat)
  deriving DecidableEq, Repr

inductive Priority where
  | lowPausable | low | normal | high | dedicated
  deriving DecidableEq, Repr

def Priority.value : Priority → Nat
  | .lowPausable => 0
  | .low => 1
  | .normal => 2
  | .high => 3
  | .dedicated => 4

/-- A null callback is `none`. -/
structure WorkItem where
  job : Nat
  id : BitVec 32
  priority : Priority
  callback : Option Callback
  deriving DecidableEq, Repr

def WorkItem.cancel (item : WorkItem) : WorkItem := { item with callback := none }

/-- Takes the callback from the first item with this id. -/
def cancelFirst (jobID : BitVec 32) : List WorkItem → List WorkItem
  | [] => []
  | item :: items => if item.id = jobID then item.cancel :: items else item :: cancelFirst jobID items

theorem cancelFirst_length (jobID : BitVec 32) (items : List WorkItem) :
    (cancelFirst jobID items).length = items.length := by
  induction items with
  | nil => rfl
  | cons item items ih =>
    rw [cancelFirst]
    split
    · rfl
    · rw [List.length_cons, ih, List.length_cons]

structure JobManager where
  jobCounter : BitVec 32 := 0
  pauseJobs : Bool := false
  running : Bool := true
  jobQueue : Priority → List WorkItem := fun _ => []
  processing : List WorkItem := []
  workers : List Nat := []

/-- The static limit of `getMaxWorkers`, from `std::thread::hardware_concurrency()`. -/
def maxWorkers (hardwareConcurrency : BitVec 32) : BitVec 32 :=
  if hardwareConcurrency ≤ 2 then 1 else hardwareConcurrency

/-- The subtraction is one of unsigned numbers. -/
def getMaxWorkers (hardwareConcurrency : BitVec 32) (priority : Priority) : BitVec 32 :=
  if priority = .dedicated then
    10000
  else
    maxWorkers hardwareConcurrency - BitVec.ofNat 32 (Priority.high.value - priority.value)

/-- What `startWorkers` does besides. -/
inductive Started where
  | nothing | notifyAll | newWorker
  deriving DecidableEq, Repr

namespace JobManager

/-- Zero is no id. -/
def nextId (m : JobManager) : BitVec 32 :=
  if m.jobCounter + 1 = 0 then m.jobCounter + 1 + 1 else m.jobCounter + 1

def setQueue (m : JobManager) (priority : Priority) (items : List WorkItem) : JobManager :=
  { m with jobQueue := Function.update m.jobQueue priority items }

/-- The queued items, in the order in which `cancelJob` and `cancelJobs` meet them. -/
def queued (m : JobManager) : List WorkItem :=
  m.jobQueue .lowPausable ++ (m.jobQueue .low ++ (m.jobQueue .normal ++ (m.jobQueue .high ++
    m.jobQueue .dedicated)))

section Workers

variable (hardwareConcurrency : BitVec 32)

def startWorkers (m : JobManager) (priority : Priority) : Started :=
  if m.processing.length ≥ (getMaxWorkers hardwareConcurrency priority).toNat then
    .nothing
  else if m.processing.length < m.workers.length then
    .notifyAll
  else
    .newWorker

/-- The part of `addJob` that finds the manager running, up to `startWorkers`. -/
def enqueue (m : JobManager) (job : Nat) (callback : Option Callback) (priority : Priority) :
    JobManager :=
  { m with jobCounter := m.nextId }.setQueue priority
    (m.jobQueue priority ++ [WorkItem.mk job m.nextId priority callback])

/-- A job of this priority can be popped. -/
def eligible (m : JobManager) (priority : Priority) : Bool :=
  !(priority == .lowPausable && m.pauseJobs) && !(m.jobQueue priority).isEmpty &&
    m.processing.length < (getMaxWorkers hardwareConcurrency priority).toNat

/-- One round of the loop of `popJob`. -/
def popAt (m : JobManager) (priority : Priority) : Option (WorkItem × JobManager) :=
  if m.eligible hardwareConcurrency priority then
    match m.jobQueue priority with
    | [] => none
    | item :: items =>
      some (item, { m.setQueue priority items with processing := m.processing ++ [item] })
  else
    none

def popJob (m : JobManager) : Option (WorkItem × JobManager) :=
  [Priority.dedicated, .high, .normal, .low, .lowPausable].findSome? (m.popAt hardwareConcurrency)

end Workers

/-- The job that `cancelJob` frees, if it is queued. -/
def cancelQueued (m : JobManager) (jobID : BitVec 32) : Option (WorkItem × JobManager) :=
  [Priority.lowPausable, .low, .normal, .high, .dedicated].findSome? fun priority =>
    ((m.jobQueue priority).find? (·.id = jobID)).map fun item =>
      (item, m.setQueue priority ((m.jobQueue priority).eraseP (·.id = jobID)))

def cancelProcessing (m : JobManager) (jobID : BitVec 32) : JobManager :=
  { m with processing := cancelFirst jobID m.processing }

/-- `cancelJobs` up to its wait for the workers. -/
def cancelAll (m : JobManager) : JobManager :=
  { m with running := false, jobQueue := fun _ => [], processing := m.processing.map (·.cancel) }

/-- `onJobComplete` takes the job from the items being processed. -/
def complete (m : JobManager) (job : Nat) : JobManager :=
  { m with processing := m.processing.eraseP (·.job = job) }

def removeWorker (m : JobManager) (worker : Nat) : JobManager :=
  { m with workers := m.workers.erase worker }

/-! ### What the critical sections can do -/

@[simp] theorem setQueue_same (m : JobManager) (priority : Priority) (items : List WorkItem) :
    (m.setQueue priority items).jobQueue priority = items :=
  Function.update_self ..

@[simp] theorem setQueue_of_ne (m : JobManager) {priority other : Priority} (items : List WorkItem)
    (h : other ≠ priority) : (m.setQueue priority items).jobQueue other = m.jobQueue other :=
  Function.update_of_ne h ..

theorem mem_queued {m : JobManager} {item : WorkItem} :
    item ∈ m.queued ↔ ∃ priority, item ∈ m.jobQueue priority := by
  simp only [queued, List.mem_append]
  constructor
  · rintro (h | h | h | h | h) <;> exact ⟨_, h⟩
  · rintro ⟨priority, h⟩
    cases priority <;> simp [h]

theorem mem_setQueue {m : JobManager} {priority : Priority} {items : List WorkItem}
    {item : WorkItem} (h : item ∈ (m.setQueue priority items).queued) :
    item ∈ items ∨ item ∈ m.queued := by
  obtain ⟨other, hmem⟩ := mem_queued.1 h
  by_cases hsame : other = priority
  · rw [hsame, setQueue_same] at hmem
    exact .inl hmem
  · rw [setQueue_of_ne _ _ hsame] at hmem
    exact .inr (mem_queued.2 ⟨other, hmem⟩)

theorem mem_cancelFirst {jobID : BitVec 32} {items : List WorkItem} {item : WorkItem}
    (h : item ∈ cancelFirst jobID items) :
    item ∈ items ∨ ∃ original ∈ items, item = original.cancel := by
  induction items with
  | nil => exact .inl h
  | cons first items ih =>
    rw [cancelFirst] at h
    split at h
    · rcases List.mem_cons.1 h with rfl | h
      · exact .inr ⟨first, List.mem_cons_self, rfl⟩
      · exact .inl (List.mem_cons_of_mem _ h)
    · rcases List.mem_cons.1 h with rfl | h
      · exact .inl List.mem_cons_self
      · rcases ih h with h | ⟨original, horiginal, heq⟩
        · exact .inl (List.mem_cons_of_mem _ h)
        · exact .inr ⟨original, List.mem_cons_of_mem _ horiginal, heq⟩

/-- Where ids differ, no item with the id keeps its callback. -/
theorem cancelFirst_silences {jobID : BitVec 32} {items : List WorkItem}
    (hids : items.Pairwise fun item item' => item.id ≠ item'.id) {item : WorkItem}
    (h : item ∈ cancelFirst jobID items) (hid : item.id = jobID) : item.callback = none := by
  induction items with
  | nil => exact absurd h List.not_mem_nil
  | cons first items ih =>
    obtain ⟨hfirst, hrest⟩ := List.pairwise_cons.1 hids
    rw [cancelFirst] at h
    split at h
    · rename_i hsame
      rcases List.mem_cons.1 h with rfl | h
      · rfl
      · exact absurd (hsame.trans hid.symm) (hfirst item h)
    · rename_i hother
      rcases List.mem_cons.1 h with rfl | h
      · exact absurd hid hother
      · exact ih hrest h

theorem popJob_cases {hardwareConcurrency : BitVec 32} {m m' : JobManager} {item : WorkItem}
    (h : m.popJob hardwareConcurrency = some (item, m')) :
    ∃ priority items, m.jobQueue priority = item :: items ∧
      m' = { m.setQueue priority items with processing := m.processing ++ [item] } := by
  obtain ⟨priority, -, hpop⟩ := List.exists_of_findSome?_eq_some h
  unfold popAt at hpop
  cases heligible : m.eligible hardwareConcurrency priority with
  | false => simp [heligible] at hpop
  | true =>
    cases hqueue : m.jobQueue priority with
    | nil => simp [heligible, hqueue] at hpop
    | cons first items =>
      simp only [heligible, if_true, hqueue, Option.some.injEq, Prod.mk.injEq] at hpop
      obtain ⟨rfl, rfl⟩ := hpop
      exact ⟨priority, items, hqueue, rfl⟩

theorem cancelQueued_cases {m m' : JobManager} {jobID : BitVec 32} {item : WorkItem}
    (h : m.cancelQueued jobID = some (item, m')) :
    ∃ priority before after, m.jobQueue priority = before ++ item :: after ∧ item.id = jobID ∧
      m' = m.setQueue priority (before ++ after) := by
  obtain ⟨priority, -, hcancel⟩ := List.exists_of_findSome?_eq_some h
  obtain ⟨found, hfind, heq⟩ := Option.map_eq_some_iff.1 hcancel
  obtain ⟨rfl, rfl⟩ := Prod.mk.inj heq
  obtain ⟨hid, before, after, hqueue, hothers⟩ := List.find?_eq_some_iff_append.1 hfind
  refine ⟨priority, before, after, hqueue, of_decide_eq_true hid, ?_⟩
  rw [hqueue, List.eraseP_append_right _ (by simpa using hothers), List.eraseP_cons_of_pos (by exact hid)]

theorem cancelQueued_none {m : JobManager} {jobID : BitVec 32} (h : m.cancelQueued jobID = none) :
    ∀ item ∈ m.queued, item.id ≠ jobID := by
  intro item hitem heq
  obtain ⟨priority, hmem⟩ := mem_queued.1 hitem
  rw [cancelQueued, List.findSome?_eq_none_iff] at h
  have hnone := h priority (by cases priority <;> decide)
  rw [Option.map_eq_none_iff, List.find?_eq_none] at hnone
  exact hnone item hmem (by simpa using heq)

end JobManager

end LuPlatform.Thread
