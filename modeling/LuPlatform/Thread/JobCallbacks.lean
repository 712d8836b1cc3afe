import LuPlatform.Thread.JobOwnership

/-! Who can still be called back, and for which id. Three invariants say that an item has the id of
its job, that it was not called back before and that it was not cancelled; most steps only narrow what
they speak of. -/

namespace LuPlatform.Thread

open Transition TransitionSystem Census

/-- The job that is called back. -/
def JobEvent.calledJob : JobEvent → Option Nat
  | .onJobComplete job _ => some job
  | .onJobAbort job _ => some job
  | _ => none

def JobEvent.calledId : JobEvent → Option (BitVec 32)
  | .onJobComplete _ id => some id
  | .onJobAbort _ id => some id
  | _ => none

/-- Events that are no callbacks, and neither give nor cancel an id. -/
def JobEvent.plain : JobEvent → Prop
  | .handed _ _ | .freed _ | .doWork _ => True
  | _ => False

namespace JobSystem

variable {hardwareConcurrency : BitVec 32}

/-- Every item has the id of its job, and no two jobs share one. -/
structure Named (s : JobSystem) : Prop where
  queued : ∀ item ∈ s.manager.queued, .accepted item.job item.id ∈ s.events
  processing : ∀ item ∈ s.manager.processing, .accepted item.job item.id ∈ s.events
  completing : ∀ item, .completing item ∈ s.threads → .accepted item.job item.id ∈ s.events
  unique : ∀ job job' id, .accepted job id ∈ s.events → .accepted job' id ∈ s.events → job = job'

/-- What can still be called back was not called back before. -/
structure CalledOnce (s : JobSystem) : Prop where
  once : ∀ job, census JobEvent.calledJob job s.events ≤ 1
  queued : ∀ item ∈ s.manager.queued, census JobEvent.calledJob item.job s.events = 0
  holding : ∀ item ∈ s.manager.processing, .holding item.job ∈ s.threads →
    census JobEvent.calledJob item.job s.events = 0 ∨ item.callback = none
  completing : ∀ item, .completing item ∈ s.threads →
    census JobEvent.calledJob item.job s.events = 0 ∨ item.callback = none
  later : ∀ job, s.jobs ≤ job → census JobEvent.calledJob job s.events = 0

/-- What can still be called back was not cancelled. -/
structure Silenced (s : JobSystem) : Prop where
  queued : ∀ item ∈ s.manager.queued, .cancelled item.id ∉ s.events
  processing : ∀ item ∈ s.manager.processing, .cancelled item.id ∈ s.events → item.callback = none
  completing : ∀ item, .completing item ∈ s.threads → .cancelled item.id ∈ s.events →
    item.callback = none
  silent : s.events.Pairwise fun e e' => ∀ id, e = .cancelled id → e'.calledId ≠ some id

/-- Nothing new can be called back. -/
structure Narrows (s s' : JobSystem) : Prop where
  queued : ∀ item ∈ s'.manager.queued, item ∈ s.manager.queued
  processing : ∀ item ∈ s'.manager.processing, item ∈ s.manager.processing ∨
    ∃ original ∈ s.manager.processing, item = original.cancel
  holding : ∀ job, .holding job ∈ s'.threads → .holding job ∈ s.threads
  completing : ∀ item, .completing item ∈ s'.threads → .completing item ∈ s.threads
  jobs : s.jobs ≤ s'.jobs
  events : ∃ later, s'.events = s.events ++ later ∧ ∀ e ∈ later, JobEvent.plain e

/-- Nothing new can be called back, but items may be nearer to it: a worker has taken one from its
queue, or has copied the one it works on. -/
structure PassesOn (s s' : JobSystem) : Prop where
  queued : ∀ item ∈ s'.manager.queued, item ∈ s.manager.queued
  processing : ∀ item ∈ s'.manager.processing, item ∈ s.manager.processing ∨
    (∃ original ∈ s.manager.processing, item = original.cancel) ∨ item ∈ s.manager.queued
  holding : ∀ job, .holding job ∈ s'.threads → .holding job ∈ s.threads ∨
    ∃ item ∈ s.manager.queued, item.job = job
  completing : ∀ item, .completing item ∈ s'.threads → .completing item ∈ s.threads ∨
    item ∈ s.manager.processing ∧ .holding item.job ∈ s.threads
  jobs : s.jobs ≤ s'.jobs
  events : ∃ later, s'.events = s.events ++ later ∧ ∀ e ∈ later, JobEvent.plain e

theorem Narrows.passesOn {s s' : JobSystem} (h : s.Narrows s') : s.PassesOn s' :=
  ⟨h.queued, fun item hitem => (h.processing item hitem).imp_right .inl,
    fun job hjob => .inl (h.holding job hjob), fun item hitem => .inl (h.completing item hitem),
    h.jobs, h.events⟩

theorem PassesOn.census_called {s s' : JobSystem} (h : s.PassesOn s') (job : Nat) :
    census JobEvent.calledJob job s'.events = census JobEvent.calledJob job s.events := by
  obtain ⟨later, hevents, hplain⟩ := h.events
  have hnone : census JobEvent.calledJob job later = 0 := by
    by_contra hne
    obtain ⟨e, he, hname⟩ := exists_of_census_pos (Nat.pos_of_ne_zero hne)
    have := hplain e he
    cases e <;> simp_all [JobEvent.plain, JobEvent.calledJob]
  rw [hevents, census_append, hnone, Nat.add_zero]

theorem PassesOn.mem_events {s s' : JobSystem} (h : s.PassesOn s') {e : JobEvent} (he : ¬ e.plain) :
    e ∈ s'.events ↔ e ∈ s.events := by
  obtain ⟨later, hevents, hplain⟩ := h.events
  rw [hevents, List.mem_append]
  exact ⟨fun hmem => hmem.elim id fun hlater => absurd (hplain e hlater) he, .inl⟩

theorem PassesOn.named {s s' : JobSystem} (h : s.PassesOn s') (hs : s.Named) : s'.Named := by
  have hmem : ∀ job id, .accepted job id ∈ s'.events ↔ .accepted job id ∈ s.events :=
    fun _ _ => h.mem_events id
  refine ⟨fun item hitem => ?_, fun item hitem => ?_, fun item hitem => ?_, ?_⟩
  · exact (hmem _ _).2 (hs.queued item (h.queued item hitem))
  · rw [hmem]
    obtain hitem | ⟨original, horiginal, rfl⟩ | hitem := h.processing item hitem
    · exact hs.processing item hitem
    · exact hs.processing original horiginal
    · exact hs.queued item hitem
  · rw [hmem]
    obtain hitem | ⟨hitem, _⟩ := h.completing item hitem
    · exact hs.completing item hitem
    · exact hs.processing item hitem
  · intro job job' id hjob hjob'
    exact hs.unique job job' id ((hmem _ _).1 hjob) ((hmem _ _).1 hjob')

theorem PassesOn.calledOnce {s s' : JobSystem} (h : s.PassesOn s') (hs : s.CalledOnce) :
    s'.CalledOnce := by
  refine ⟨fun job => ?_, fun item hitem => ?_, fun item hitem hholding => ?_, fun item hitem => ?_,
    fun job hjob => ?_⟩ <;> rw [h.census_called]
  · exact hs.once job
  · exact hs.queued item (h.queued item hitem)
  · obtain hitem | ⟨original, horiginal, rfl⟩ | hitem := h.processing item hitem
    · obtain hholding | ⟨popped, hpopped, hjob⟩ := h.holding _ hholding
      · exact hs.holding item hitem hholding
      · exact .inl (hjob ▸ hs.queued popped hpopped)
    · exact .inr rfl
    · exact .inl (hs.queued item hitem)
  · obtain hitem | ⟨hitem, hholding⟩ := h.completing item hitem
    · exact hs.completing item hitem
    · exact hs.holding item hitem hholding
  · exact hs.later job (h.jobs.trans hjob)

theorem PassesOn.silenced {s s' : JobSystem} (h : s.PassesOn s') (hs : s.Silenced) : s'.Silenced := by
  have hmem : ∀ id, .cancelled id ∈ s'.events ↔ .cancelled id ∈ s.events :=
    fun _ => h.mem_events id
  refine ⟨fun item hitem => ?_, fun item hitem hcancelled => ?_, fun item hitem hcancelled => ?_, ?_⟩
  · rw [hmem]
    exact hs.queued item (h.queued item hitem)
  · rw [hmem] at hcancelled
    obtain hitem | ⟨original, horiginal, rfl⟩ | hitem := h.processing item hitem
    · exact hs.processing item hitem hcancelled
    · rfl
    · exact absurd hcancelled (hs.queued item hitem)
  · rw [hmem] at hcancelled
    obtain hitem | ⟨hitem, _⟩ := h.completing item hitem
    · exact hs.completing item hitem hcancelled
    · exact hs.processing item hitem hcancelled
  · obtain ⟨later, hevents, hplain⟩ := h.events
    rw [hevents, List.pairwise_append]
    have hcalled : ∀ e ∈ later, ∀ id, e.calledId ≠ some id := by
      intro e he id
      have := hplain e he
      cases e <;> simp_all [JobEvent.plain, JobEvent.calledId]
    refine ⟨hs.silent, List.pairwise_of_forall_mem_list ?_, ?_⟩
    · exact fun _ _ e he id _ => hcalled e he id
    · exact fun _ _ e he id _ => hcalled e he id

/-- A worker that does not take a job to call back. -/
theorem Narrows.setThread {s s' : JobSystem} (h : s.Narrows s') (worker : Nat) {t : JobWorker}
    (hholding : ∀ job, t ≠ .holding job) (hcompleting : ∀ item, t ≠ .completing item) :
    s.Narrows (s'.setThread worker t) := by
  refine ⟨h.queued, h.processing, fun job hjob => ?_, fun item hitem => ?_, h.jobs, h.events⟩
  · exact h.holding job ((List.mem_or_eq_of_mem_set hjob).resolve_right fun heq =>
      hholding job heq.symm)
  · exact h.completing item ((List.mem_or_eq_of_mem_set hitem).resolve_right fun heq =>
      hcompleting item heq.symm)

theorem Narrows.refl (s : JobSystem) : s.Narrows s :=
  ⟨fun _ h => h, fun _ h => .inl h, fun _ h => h, fun _ h => h, le_rfl, [], by simp, by simp⟩

/-- A change of the controls of the manager. -/
theorem Narrows.controls (s : JobSystem) {s' : JobSystem}
    (hqueue : s'.manager.jobQueue = s.manager.jobQueue)
    (hprocessing : s'.manager.processing = s.manager.processing) (hthreads : s'.threads = s.threads)
    (hjobs : s'.jobs = s.jobs) (hevents : s'.events = s.events) : s.Narrows s' := by
  refine ⟨?_, ?_, ?_, ?_, hjobs.ge, [], by simp [hevents], by simp⟩
  · simp [JobManager.queued, hqueue]
  · exact fun item hitem => .inl (hprocessing ▸ hitem)
  · simp [hthreads]
  · simp [hthreads]

theorem Narrows.notifyAll (s : JobSystem) : s.Narrows s.notifyAll := by
  have hthreads : ∀ {t : JobWorker}, t ≠ .notified → t ∈ s.notifyAll.threads → t ∈ s.threads := by
    intro t hne ht
    obtain ⟨t', ht', heq⟩ := List.mem_map.1 ht
    cases t' <;> simp_all [JobWorker.notify]
  exact ⟨fun _ h => h, fun _ h => .inl h, fun _ => hthreads (by simp), fun _ => hthreads (by simp),
    le_rfl, [], (List.append_nil _).symm, by simp⟩

theorem Narrows.newWorker (s : JobSystem) : s.Narrows s.newWorker :=
  ⟨fun _ h => h, fun _ h => .inl h, fun _ h => by simpa [JobSystem.newWorker] using h,
    fun _ h => by simpa [JobSystem.newWorker] using h, le_rfl, [], (List.append_nil _).symm, by simp⟩

theorem Narrows.startWorkers (s : JobSystem) (priority : Priority) :
    s.Narrows (s.startWorkers hardwareConcurrency priority) := by
  unfold JobSystem.startWorkers
  cases s.manager.startWorkers hardwareConcurrency priority with
  | nothing => exact .refl s
  | notifyAll => exact .notifyAll s
  | newWorker => exact .newWorker s

/-- The three invariants together. -/
structure Cancellable (s : JobSystem) : Prop where
  named : s.Named
  calledOnce : s.CalledOnce
  silenced : s.Silenced

theorem Cancellable.passesOn {s s' : JobSystem} (hs : s.Cancellable) (h : s.PassesOn s') :
    s'.Cancellable :=
  ⟨h.named hs.named, h.calledOnce hs.calledOnce, h.silenced hs.silenced⟩

theorem Cancellable.narrows {s s' : JobSystem} (hs : s.Cancellable) (h : s.Narrows s') :
    s'.Cancellable :=
  hs.passesOn h.passesOn

theorem Cancellable.initial : Cancellable {} := by
  refine ⟨⟨?_, ?_, ?_, ?_⟩, ⟨?_, ?_, ?_, ?_, ?_⟩, ⟨?_, ?_, ?_, ?_⟩⟩ <;>
  simp [JobManager.queued]

/-! ### One more event -/

theorem census_called_append {e : JobEvent} (he : e.calledJob = none) (events : List JobEvent)
    (job : Nat) :
    census JobEvent.calledJob job (events ++ [e]) = census JobEvent.calledJob job events := by
  rw [census_append, census_singleton, he, hit_none, Nat.add_zero]

theorem silent_append {events : List JobEvent} {e : JobEvent}
    (h : events.Pairwise fun e e' => ∀ id, e = .cancelled id → e'.calledId ≠ some id)
    (he : ∀ id, e.calledId = some id → .cancelled id ∉ events) :
    (events ++ [e]).Pairwise fun e e' => ∀ id, e = .cancelled id → e'.calledId ≠ some id := by
  refine List.pairwise_append.2 ⟨h, List.pairwise_singleton _ _, ?_⟩
  rintro e' he' e'' he'' id rfl hid
  rw [List.mem_singleton.1 he''] at hid
  exact he id hid he'

end JobSystem

end LuPlatform.Thread
