import LuPlatform.Library.ActionRuns
import LuPlatform.Thread.JobExecution

/-! What a job learns when it asks whether to go on. A cancelled job is one whose item has lost its
callback, so a job that never had one is told to stop as well. -/

namespace LuPlatform.Thread

open Transition TransitionSystem Census Actions

/-- What `onJobProgress` tells a callback. -/
structure ProgressReport where
  callback : Callback
  id : BitVec 32
  progress : BitVec 32
  total : BitVec 32
  deriving DecidableEq, Repr

/-- The result, and the call of the user's callback that comes before it. -/
def JobManager.onJobProgress (m : JobManager) (progress total : BitVec 32) (job : Nat) :
    Bool × Option ProgressReport :=
  match m.processing.find? (·.job = job) with
  | some item =>
    match item.callback with
    | some callback => (false, some ⟨callback, item.id, progress, total⟩)
    | none => (true, none)
  | none => (true, none)

namespace JobSystem

/-- A job knows its manager from `popJob` on. -/
def shouldCancel (s : JobSystem) (progress total : BitVec 32) (job : Nat) : Bool :=
  if s.events.any fun e => e.handedJob = some job then
    (s.manager.onJobProgress progress total job).1
  else
    false

section Runs

variable (hardwareConcurrency : BitVec 32)

/-- Actions that, since this item's job was popped, contain a cancellation of it. -/
def CancelledSince (actions : List JobAction) (item : WorkItem) : Prop :=
  ∃ before a after s, actions = before ++ a :: after ∧
    Actions.run (step hardwareConcurrency) {} before = some s ∧
    (∃ popped ∈ s.manager.processing, popped.job = item.job) ∧
    (a = .cancelJob item.id ∨ a = .cancelJobs)

/-- Exactly the cancelled jobs are told so. -/
def ReportsExactly (actions : List JobAction) (s : JobSystem) : Prop :=
  ∀ item ∈ s.manager.processing, ∀ progress total,
    s.shouldCancel progress total item.job = true ↔ CancelledSince hardwareConcurrency actions item

/-- The item that a worker's next step pops. -/
def takes (s : JobSystem) (worker : Nat) : Option WorkItem :=
  match s.threads[worker]? with
  | some .ready | some .notified =>
    if s.manager.running then (s.manager.popJob hardwareConcurrency).map Prod.fst else none
  | _ => none

/-- A popped item has a callback, and `cancelJob` that is about a job in progress with a callback
finds this job: no queued one and no other one in progress comes first under the same id. -/
def TellsApart : JobAction → JobSystem → Prop
  | .worker worker, s => ∀ item, s.takes hardwareConcurrency worker = some item →
      item.callback ≠ none
  | .cancelJob jobID, s => ∀ item ∈ s.manager.processing, item.id = jobID → item.callback ≠ none →
      (∀ queued ∈ s.manager.queued, queued.id ≠ jobID) ∧
        s.manager.processing.find? (·.id = jobID) = some item
  | _, _ => True

/-- What a step does to the items in progress. -/
inductive ProcessingStep (s : JobSystem) : JobAction → JobSystem → Prop
  | keep {a : JobAction} {s' : JobSystem} (hcancel : ∀ jobID, a ≠ .cancelJob jobID)
      (hcancels : a ≠ .cancelJobs)
      (htakes : ∀ worker, a = .worker worker → s.takes hardwareConcurrency worker = none)
      (hsame : s'.manager.processing.Sublist s.manager.processing) : ProcessingStep s a s'
  | pop {worker : Nat} {item : WorkItem} {s' : JobSystem}
      (htakes : s.takes hardwareConcurrency worker = some item) (hqueued : item ∈ s.manager.queued)
      (hprocessing : s'.manager.processing = s.manager.processing ++ [item])
      (hhanded : .handed item.job worker ∈ s'.events) : ProcessingStep s (.worker worker) s'
  | cancelQueued {jobID : BitVec 32} {queued : WorkItem} {s' : JobSystem}
      (hqueued : queued ∈ s.manager.queued) (hid : queued.id = jobID)
      (hsame : s'.manager.processing = s.manager.processing) : ProcessingStep s (.cancelJob jobID) s'
  | cancelProcessing {jobID : BitVec 32} {s' : JobSystem}
      (hqueued : ∀ queued ∈ s.manager.queued, queued.id ≠ jobID)
      (hprocessing : s'.manager.processing = cancelFirst jobID s.manager.processing) :
      ProcessingStep s (.cancelJob jobID) s'
  | cancelJobs {s' : JobSystem}
      (hprocessing : s'.manager.processing = s.manager.processing.map (·.cancel)) :
      ProcessingStep s .cancelJobs s'

end Runs

variable {hardwareConcurrency : BitVec 32}

theorem startWorkers_manager (s : JobSystem) (priority : Priority) :
    (s.startWorkers hardwareConcurrency priority).manager.processing = s.manager.processing := by
  unfold startWorkers
  split <;> rfl

/-- A worker that takes no job. -/
theorem ProcessingStep.works {s s' : JobSystem} {worker : Nat}
    (htakes : s.takes hardwareConcurrency worker = none)
    (hsame : s'.manager.processing.Sublist s.manager.processing) :
    ProcessingStep hardwareConcurrency s (.worker worker) s' := by
  refine .keep (by simp) (by simp) (fun other heq => ?_) hsame
  cases heq
  exact htakes

theorem processing_worker {s s' : JobSystem} {worker : Nat}
    (h : WorkerStep hardwareConcurrency s worker s') :
    ProcessingStep hardwareConcurrency s (.worker worker) s' := by
  cases h with
  | @pop t item m ht hidle hrunning hpop =>
    obtain ⟨priority, items, hqueue, rfl⟩ := JobManager.popJob_cases hpop
    have htakes : s.takes hardwareConcurrency worker = some item := by
      rcases hidle with rfl | rfl <;> simp [takes, ht, hrunning, hpop]
    apply ProcessingStep.pop htakes
    · exact JobManager.mem_queued.2 ⟨priority, by simp [hqueue]⟩
    · rfl
    · simp
  | wait ht hidle hrunning hpop =>
    refine .works ?_ (List.Sublist.refl _)
    rcases hidle with rfl | rfl <;> simp [takes, ht, hpop]
  | leave ht hidle hrunning =>
    refine .works ?_ (List.Sublist.refl _)
    rcases hidle with rfl | rfl <;> simp [takes, ht, hrunning]
  | copy ht hfind => exact .works (by simp [takes, ht]) (List.Sublist.refl _)
  | lost ht hfind => exact .works (by simp [takes, ht]) (List.Sublist.refl _)
  | call ht => exact .works (by simp [takes, ht]) (List.Sublist.refl _)
  | complete ht => exact .works (by simp [takes, ht]) List.eraseP_sublist
  | free ht => exact .works (by simp [takes, ht]) (List.Sublist.refl _)
  | remove ht => exact .works (by simp [takes, ht]) (List.Sublist.refl _)

theorem processing_step {s s' : JobSystem} {a : JobAction}
    (hstep : s.step hardwareConcurrency a = some s') :
    ProcessingStep hardwareConcurrency s a s' := by
  cases step_cases hardwareConcurrency hstep with
  | addJob callback priority =>
    apply ProcessingStep.keep (by simp) (by simp) (by simp)
    unfold addJob
    split
    · rw [startWorkers_manager]
      exact List.Sublist.refl _
    · exact List.Sublist.refl _
  | cancelJob jobID =>
    unfold cancelJob
    cases hcancel : s.manager.cancelQueued jobID with
    | none => exact .cancelProcessing (JobManager.cancelQueued_none hcancel) rfl
    | some cancelled =>
      obtain ⟨item, m⟩ := cancelled
      obtain ⟨priority, before, after, hqueue, hid, rfl⟩ := JobManager.cancelQueued_cases hcancel
      exact .cancelQueued (JobManager.mem_queued.2 ⟨priority, by simp [hqueue]⟩) hid rfl
  | cancelJobs => exact .cancelJobs rfl
  | worker hworker => exact processing_worker hworker
  | notifyAll hcancelling => exact .keep (by simp) (by simp) (by simp) (List.Sublist.refl _)
  | cancelJobsReturn hcancelling hworkers =>
    exact .keep (by simp) (by simp) (by simp) (List.Sublist.refl _)
  | restart hrunning => exact .keep (by simp) (by simp) (by simp) (List.Sublist.refl _)
  | pauseJobs => exact .keep (by simp) (by simp) (by simp) (List.Sublist.refl _)
  | unPauseJobs => exact .keep (by simp) (by simp) (by simp) (List.Sublist.refl _)
  | wake hwaiting => exact .keep (by simp) (by simp) (by simp) (List.Sublist.refl _)

/-! ### Cancellations so far -/

theorem cancelledSince_concat {actions : List JobAction} {s : JobSystem}
    (hrun : Actions.run (step hardwareConcurrency) {} actions = some s) (a : JobAction) (item : WorkItem) :
    CancelledSince hardwareConcurrency (actions ++ [a]) item ↔
      CancelledSince hardwareConcurrency actions item ∨
        (∃ popped ∈ s.manager.processing, popped.job = item.job) ∧
          (a = .cancelJob item.id ∨ a = .cancelJobs) := by
  constructor
  · rintro ⟨before, b, after, s₀, hactions, hbefore, hpopped, hcancels⟩
    obtain ⟨hnil, -⟩ | ⟨rest, hrest, rfl⟩ := eq_append_concat_iff.1 hactions
    · exact absurd hnil (List.cons_ne_nil b after)
    · cases rest with
      | nil =>
        obtain ⟨rfl, -⟩ := List.cons.inj hrest
        rw [List.append_nil, hbefore] at hrun
        cases hrun
        exact .inr ⟨hpopped, hcancels⟩
      | cons c rest =>
        obtain ⟨rfl, -⟩ := List.cons.inj hrest
        exact .inl ⟨before, b, rest, s₀, rfl, hbefore, hpopped, hcancels⟩
  · rintro (⟨before, b, after, s₀, rfl, hbefore, hpopped, hcancels⟩ | ⟨hpopped, hcancels⟩)
    · exact ⟨before, b, after ++ [a], s₀, by simp, hbefore, hpopped, hcancels⟩
    · exact ⟨actions, a, [], s, rfl, hrun, hpopped, hcancels⟩

/-- Every job in progress was handed out, and so was every job that a run ever cancelled there. -/
structure HandedOut (hardwareConcurrency : BitVec 32) (actions : List JobAction) (s : JobSystem) :
    Prop where
  processing : ∀ item ∈ s.manager.processing, ∃ worker, .handed item.job worker ∈ s.events
  cancelled : ∀ item, CancelledSince hardwareConcurrency actions item →
    ∃ worker, .handed item.job worker ∈ s.events

theorem HandedOut.step {actions : List JobAction} {s s' : JobSystem} {a : JobAction}
    (h : HandedOut hardwareConcurrency actions s)
    (hrun : Actions.run (step hardwareConcurrency) {} actions = some s)
    (hstep : s.step hardwareConcurrency a = some s') :
    HandedOut hardwareConcurrency (actions ++ [a]) s' := by
  obtain ⟨later, hevents, -, -⟩ := step_events hstep
  have hmono : ∀ {job : Nat}, (∃ worker, .handed job worker ∈ s.events) →
      ∃ worker, .handed job worker ∈ s'.events := by
    rintro job ⟨worker, hmem⟩
    exact ⟨worker, hevents ▸ List.mem_append_left _ hmem⟩
  constructor
  · intro item hitem
    cases processing_step hstep with
    | keep hcancel hcancels htakes hsame => exact hmono (h.processing item (hsame.subset hitem))
    | pop htakes hqueued hprocessing hhanded =>
      rw [hprocessing, List.mem_append, List.mem_singleton] at hitem
      rcases hitem with hitem | rfl
      · exact hmono (h.processing item hitem)
      · exact ⟨_, hhanded⟩
    | cancelQueued hqueued hid hsame => exact hmono (h.processing item (hsame ▸ hitem))
    | cancelProcessing hqueued hprocessing =>
      rw [hprocessing] at hitem
      rcases JobManager.mem_cancelFirst hitem with hitem | ⟨original, horiginal, rfl⟩
      · exact hmono (h.processing item hitem)
      · exact hmono (h.processing original horiginal)
    | cancelJobs hprocessing =>
      rw [hprocessing] at hitem
      obtain ⟨original, horiginal, rfl⟩ := List.mem_map.1 hitem
      exact hmono (h.processing original horiginal)
  · intro item hcancelled
    apply hmono
    rcases (cancelledSince_concat hrun a item).1 hcancelled with hbefore | ⟨⟨popped, hmem, hjob⟩, -⟩
    · exact h.cancelled item hbefore
    · exact hjob ▸ h.processing popped hmem

/-! ### One step -/

theorem Owned.eq_of_job {s : JobSystem} (h : s.Owned) {item other : WorkItem}
    (hitem : item ∈ s.manager.processing) (hother : other ∈ s.manager.processing)
    (hjob : item.job = other.job) : item = other := by
  have hnodup : (s.manager.processing.map WorkItem.job).Nodup :=
    List.pairwise_map.2 h.processing_pairwise
  exact List.inj_on_of_nodup_map hnodup hitem hother hjob

theorem Owned.processing_nodup {s : JobSystem} (h : s.Owned) : s.manager.processing.Nodup := by
  apply h.processing_pairwise.imp
  intro item other hjob heq
  exact hjob (congrArg WorkItem.job heq)

/-- For a job in progress the answer is whether its item has lost its callback. -/
theorem shouldCancel_iff {actions : List JobAction} {s : JobSystem} (howned : s.Owned)
    (hhanded : HandedOut hardwareConcurrency actions s) {item : WorkItem}
    (hitem : item ∈ s.manager.processing) (progress total : BitVec 32) :
    s.shouldCancel progress total item.job = true ↔ item.callback = none := by
  have hfind : s.manager.processing.find? (·.job = item.job) = some item := by
    cases hfound : s.manager.processing.find? (·.job = item.job) with
    | none => exact absurd (List.find?_eq_none.1 hfound item hitem) (by simp)
    | some found =>
      congr 1
      apply howned.eq_of_job (List.mem_of_find?_eq_some hfound) hitem
      simpa using List.find?_some hfound
  have hknown : (s.events.any fun e => e.handedJob = some item.job) = true := by
    obtain ⟨worker, hmem⟩ := hhanded.processing item hitem
    exact List.any_eq_true.2 ⟨_, hmem, by simp [JobEvent.handedJob]⟩
  rw [shouldCancel, if_pos hknown, JobManager.onJobProgress, hfind]
  cases hcallback : item.callback <;> simp [hcallback]

theorem cancelFirst_eq_map {jobID : BitVec 32} {items : List WorkItem} (h : items.Nodup) :
    cancelFirst jobID items = items.map fun item =>
      if items.find? (·.id = jobID) = some item then item.cancel else item := by
  induction items with
  | nil => rfl
  | cons first items ih =>
    obtain ⟨hfirst, hrest⟩ := List.nodup_cons.1 h
    rw [cancelFirst, List.map_cons]
    by_cases hid : first.id = jobID
    · have hsame : ∀ item ∈ items, (if some first = some item then item.cancel else item) = item := by
        intro item hitem
        apply if_neg
        rintro ⟨⟩
        exact hfirst hitem
      simp only [hid, if_true, List.find?_cons, decide_true]
      rw [List.map_congr_left hsame, List.map_id']
    · have hother : items.find? (·.id = jobID) ≠ some first := fun hfound =>
        hid (by simpa using List.find?_some hfound)
      simp only [hid, if_false, List.find?_cons, decide_false]
      rw [if_neg hother, ih hrest]

/-- Exactly the items of cancelled jobs are without a callback. -/
def Silent (hardwareConcurrency : BitVec 32) (actions : List JobAction) (s : JobSystem) : Prop :=
  ∀ item ∈ s.manager.processing,
    item.callback = none ↔ CancelledSince hardwareConcurrency actions item

section Step

variable {actions : List JobAction} {s s' : JobSystem} {a : JobAction}

theorem Silent.cancelled_iff (h : Silent hardwareConcurrency actions s)
    (hrun : Actions.run (step hardwareConcurrency) {} actions = some s) {item : WorkItem}
    (hitem : item ∈ s.manager.processing) :
    CancelledSince hardwareConcurrency (actions ++ [a]) item ↔
      item.callback = none ∨ a = .cancelJob item.id ∨ a = .cancelJobs := by
  rw [cancelledSince_concat hrun, ← h item hitem]
  exact or_congr_right (and_iff_right ⟨item, hitem, rfl⟩)

theorem Silent.keep (h : Silent hardwareConcurrency actions s)
    (hrun : Actions.run (step hardwareConcurrency) {} actions = some s) (hcancel : ∀ jobID, a ≠ .cancelJob jobID)
    (hcancels : a ≠ .cancelJobs)
    (hsame : s'.manager.processing.Sublist s.manager.processing) :
    Silent hardwareConcurrency (actions ++ [a]) s' := by
  intro item hitem
  rw [h.cancelled_iff hrun (hsame.subset hitem)]
  simp [hcancel, hcancels]

/-- A job that is popped was in no one's hands before, so nothing cancelled it. -/
theorem Silent.pop (h : Silent hardwareConcurrency actions s) (howned : s.Owned)
    (hhanded : HandedOut hardwareConcurrency actions s)
    (hrun : Actions.run (step hardwareConcurrency) {} actions = some s) {worker : Nat} {item : WorkItem}
    (hqueued : item ∈ s.manager.queued)
    (hprocessing : s'.manager.processing = s.manager.processing ++ [item]) :
    Silent hardwareConcurrency (actions ++ [.worker worker]) s' ↔ item.callback ≠ none := by
  have hnever : ¬ CancelledSince hardwareConcurrency (actions ++ [.worker worker]) item := by
    intro hcancelled
    rw [cancelledSince_concat hrun] at hcancelled
    obtain ⟨by_whom, hmem⟩ := hhanded.cancelled item (hcancelled.resolve_right (by simp))
    have hhanded := census_pos hmem (show JobEvent.handedJob (.handed item.job by_whom) = _ from rfl)
    have hqueued := census_pos hqueued (show item.itemJob = some item.job from rfl)
    have hle := howned.handed item.job
    have := allocated_le_one s.jobs item.job
    omega
  have hothers : ∀ other ∈ s.manager.processing, other.callback = none ↔
      CancelledSince hardwareConcurrency (actions ++ [.worker worker]) other := by
    intro other hother
    rw [h.cancelled_iff hrun hother]
    simp
  rw [Silent, hprocessing]
  simp only [List.forall_mem_append, List.forall_mem_singleton, hnever, iff_false]
  exact and_iff_right hothers

theorem Silent.cancelQueued (h : Silent hardwareConcurrency actions s)
    (hrun : Actions.run (step hardwareConcurrency) {} actions = some s) {jobID : BitVec 32} {queued : WorkItem}
    (hqueued : queued ∈ s.manager.queued) (hid : queued.id = jobID)
    (hsame : s'.manager.processing = s.manager.processing) :
    Silent hardwareConcurrency (actions ++ [.cancelJob jobID]) s' ↔
      TellsApart hardwareConcurrency (.cancelJob jobID) s := by
  rw [Silent, hsame]
  refine forall₂_congr fun item hitem => ?_
  rw [h.cancelled_iff hrun hitem]
  simp only [JobAction.cancelJob.injEq, reduceCtorEq, or_false]
  constructor
  · intro hiff hsameId hcallback
    exact absurd (hiff.2 (.inr hsameId.symm)) hcallback
  · intro happart
    refine ⟨.inl, fun hcancelled => hcancelled.elim id fun hsameId => ?_⟩
    by_contra hcallback
    exact (happart hsameId.symm hcallback).1 queued hqueued hid

theorem Silent.cancelProcessing (h : Silent hardwareConcurrency actions s) (howned : s.Owned)
    (hrun : Actions.run (step hardwareConcurrency) {} actions = some s) {jobID : BitVec 32}
    (hqueued : ∀ queued ∈ s.manager.queued, queued.id ≠ jobID)
    (hprocessing : s'.manager.processing = cancelFirst jobID s.manager.processing) :
    Silent hardwareConcurrency (actions ++ [.cancelJob jobID]) s' ↔
      TellsApart hardwareConcurrency (.cancelJob jobID) s := by
  rw [Silent, hprocessing, cancelFirst_eq_map howned.processing_nodup, List.forall_mem_map]
  refine forall₂_congr fun item hitem => ?_
  have hcancelled := h.cancelled_iff (a := .cancelJob jobID) hrun hitem
  simp only [JobAction.cancelJob.injEq, reduceCtorEq, or_false] at hcancelled
  by_cases hfound : s.manager.processing.find? (·.id = jobID) = some item
  · have hid : item.id = jobID := by simpa using List.find?_some hfound
    have hcancel : CancelledSince hardwareConcurrency (actions ++ [.cancelJob jobID]) item.cancel :=
      hcancelled.2 (.inr hid.symm)
    rw [if_pos hfound]
    exact iff_of_true (iff_of_true rfl hcancel) fun _ _ => ⟨hqueued, hfound⟩
  · rw [if_neg hfound, hcancelled]
    constructor
    · intro hiff hid hcallback
      exact absurd (hiff.2 (.inr hid.symm)) hcallback
    · intro happart
      refine ⟨.inl, fun hor => hor.elim id fun hid => ?_⟩
      by_contra hcallback
      exact hfound (happart hid.symm hcallback).2

theorem Silent.step (h : Silent hardwareConcurrency actions s) (howned : s.Owned)
    (hhanded : HandedOut hardwareConcurrency actions s)
    (hrun : Actions.run (step hardwareConcurrency) {} actions = some s)
    (hstep : s.step hardwareConcurrency a = some s') :
    Silent hardwareConcurrency (actions ++ [a]) s' ↔ TellsApart hardwareConcurrency a s := by
  cases processing_step hstep with
  | keep hcancel hcancels htakes hsame =>
    refine iff_of_true (h.keep hrun hcancel hcancels hsame) ?_
    cases a with
    | worker worker =>
      intro item htaken
      rw [htakes worker rfl] at htaken
      exact absurd htaken (by simp)
    | cancelJob jobID => exact absurd rfl (hcancel jobID)
    | _ => trivial
  | @pop worker item s' htakes hqueued hprocessing hgiven =>
    rw [h.pop howned hhanded hrun hqueued hprocessing, TellsApart, htakes]
    simp
  | cancelQueued hqueued hid hsame => exact h.cancelQueued hrun hqueued hid hsame
  | cancelProcessing hqueued hprocessing => exact h.cancelProcessing howned hrun hqueued hprocessing
  | cancelJobs hprocessing =>
    refine iff_of_true ?_ trivial
    rw [Silent, hprocessing, List.forall_mem_map]
    intro item hitem
    have hcancelled : CancelledSince hardwareConcurrency (actions ++ [.cancelJobs]) item.cancel :=
      (h.cancelled_iff hrun hitem).2 (.inr (.inr rfl))
    exact iff_of_true rfl hcancelled

end Step

/-! ### Whole runs -/

theorem handedOut_of_run {actions : List JobAction} {s : JobSystem}
    (hrun : Actions.run (step hardwareConcurrency) {} actions = some s) :
    s.Owned ∧ HandedOut hardwareConcurrency actions s := by
  apply run_invariant (P := fun actions s => s.Owned ∧ HandedOut hardwareConcurrency actions s)
    _ _ hrun
  · refine ⟨.initial, by simp, ?_⟩
    rintro item ⟨before, a, after, s, hactions, -⟩
    simp at hactions
  · rintro actions s a s' hbefore ⟨howned, hhanded⟩ hstep
    exact ⟨howned.step hstep, hhanded.step hbefore hstep⟩

theorem reportsExactly_iff_silent {actions : List JobAction} {s : JobSystem}
    (hrun : Actions.run (step hardwareConcurrency) {} actions = some s) :
    ReportsExactly hardwareConcurrency actions s ↔ Silent hardwareConcurrency actions s := by
  obtain ⟨howned, hhanded⟩ := handedOut_of_run hrun
  refine forall₂_congr fun item hitem => ?_
  simp only [shouldCancel_iff howned hhanded hitem]
  exact ⟨fun h => h 0 0, fun h _ _ => h⟩

/-- In every state of a run exactly the cancelled jobs are told so if and only if no step pops a job
without a callback, or cancels a job whose id another one has. -/
theorem reports_exactly_iff {actions : List JobAction} {s : JobSystem}
    (hrun : Actions.run (step hardwareConcurrency) {} actions = some s) :
    Always (step hardwareConcurrency) {} (ReportsExactly hardwareConcurrency) actions ↔
      EachStep (step hardwareConcurrency) {} (TellsApart hardwareConcurrency) actions := by
  apply always_iff_eachStep _ _ hrun
  · intro item hitem
    exact absurd hitem List.not_mem_nil
  · intro actions a _ s s' _ hbefore halways _ hstep
    obtain ⟨howned, hhanded⟩ := handedOut_of_run hbefore
    have hsilent := (reportsExactly_iff_silent hbefore).1 (halways.last hbefore)
    have hnext : Actions.run (step hardwareConcurrency) {} (actions ++ [a]) = some s' := by
      rw [run_concat hbefore, hstep]
    rw [reportsExactly_iff_silent hnext]
    exact hsilent.step howned hhanded hbefore hstep

/-- A job with a callback that is cancelled while it is in progress. -/
theorem reports_exactly_cancelled : Always (step 4) {} (ReportsExactly 4)
    [.addJob (some (.user 0)) .normal, .worker 0, .cancelJob 1] := by
  have hrun : ∃ s, Actions.run (step 4) {}
      [.addJob (some (.user 0)) .normal, .worker 0, .cancelJob 1] = some s :=
    Option.isSome_iff_exists.1 (by decide)
  obtain ⟨s, hrun⟩ := hrun
  apply (reports_exactly_iff hrun).2
  rw [← List.nil_append [JobAction.addJob _ _, _, _], List.append_cons, List.append_cons,
    eachStep_concat, eachStep_concat, eachStep_concat]
  refine ⟨⟨⟨eachStep_nil, fun _ _ => trivial⟩, fun s hs => ?_⟩, fun s hs => ?_⟩
  · have htakes : ∀ s' ∈ Actions.run (step 4) {} [.addJob (some (.user 0)) .normal],
        ∀ item ∈ takes 4 s' 0, item.callback ≠ none := by decide
    exact htakes s hs
  · have hapart : ∀ s' ∈ Actions.run (step 4) {} [.addJob (some (.user 0)) .normal, .worker 0],
        ∀ item ∈ s'.manager.processing, item.id = 1 → item.callback ≠ none →
          (∀ queued ∈ s'.manager.queued, queued.id ≠ 1) ∧
            s'.manager.processing.find? (·.id = 1) = some item := by decide
    exact hapart s hs

/-- A job added without a callback, by `Submit` for one, is told to stop from its first question
on. -/
theorem shouldCancel_without_callback :
    ∃ s item, Actions.run (step 4) {} [.addJob none .normal, .worker 0] = some s ∧
      item ∈ s.manager.processing ∧ s.shouldCancel 0 100 item.job = true ∧
        ¬ CancelledSince 4 [.addJob none .normal, .worker 0] item := by
  have hasked : ∃ s, Actions.run (step 4) {} [.addJob none .normal, .worker 0] = some s ∧
      s.manager.processing = [⟨0, 1, .normal, none⟩] ∧ s.shouldCancel 0 100 0 = true := by
    refine ⟨_, rfl, ?_⟩
    decide
  obtain ⟨s, hrun, hprocessing, hasked⟩ := hasked
  refine ⟨s, ⟨0, 1, .normal, none⟩, hrun, by simp [hprocessing], hasked, ?_⟩
  rintro ⟨before, a, after, s', hactions, -, -, hcancels⟩
  have hmem : a ∈ [JobAction.addJob none .normal, .worker 0] := hactions ▸ by simp
  rcases hcancels with rfl | rfl <;> simp at hmem

end JobSystem

end LuPlatform.Thread
