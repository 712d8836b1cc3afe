import LuPlatform.Thread.JobCallbacks

/-! Callbacks and cancellation. A worker copies its item, leaves the lock and calls back what it
copied; a cancellation that falls between the copy and the call has no effect on that call. -/

namespace LuPlatform.Thread

open Transition TransitionSystem Census

namespace JobSystem

variable {hardwareConcurrency : BitVec 32}

/-- One callback for a job at most, and none for an id that was cancelled before. -/
structure RespectsCancellation (s : JobSystem) : Prop where
  once : ∀ job, census JobEvent.calledJob job s.events ≤ 1
  silent : s.events.Pairwise fun e e' => ∀ id, e = .cancelled id → e'.calledId ≠ some id

/-- An id is given to one job only, `cancelJob` finds no worker that is about to call back this
job, and `cancelJobs` none that has copied an item which still has its callback. -/
def OutsideTheGap : JobAction → JobSystem → Prop
  | .addJob _ _, s => s.manager.running = true → .cancelled s.manager.nextId ∉ s.events ∧
      ∀ job, .accepted job s.manager.nextId ∉ s.events
  | .cancelJob jobID, s => ∀ item, .completing item ∈ s.threads → item.id = jobID →
      item.callback = none
  | .cancelJobs, s => ∀ copy, .completing copy ∈ s.threads ∨ .called copy ∈ s.threads →
      ∀ item ∈ s.manager.processing, item.job = copy.job → item.callback = none
  | _, _ => True

/-! ### The public operations -/

theorem mem_enqueue {m : JobManager} {job : Nat} {callback : Option Callback} {priority : Priority}
    {item : WorkItem} (h : item ∈ (m.enqueue job callback priority).queued) :
    item ∈ m.queued ∨ item = ⟨job, m.nextId, priority, callback⟩ := by
  rcases JobManager.mem_setQueue h with h | h
  · rcases List.mem_append.1 h with h | h
    · exact .inl (JobManager.mem_queued.2 ⟨priority, h⟩)
    · exact .inr (List.mem_singleton.1 h)
  · exact .inl h

theorem Cancellable.addJob {s : JobSystem} (h : s.Cancellable) (callback : Option Callback)
    (priority : Priority) (hG : OutsideTheGap (.addJob callback priority) s) :
    (s.addJob hardwareConcurrency callback priority).Cancellable := by
  obtain ⟨hnamed, hcalled, hsilenced⟩ := h
  unfold JobSystem.addJob
  split
  · rename_i hrunning
    obtain ⟨hcancelled, haccepted⟩ := hG hrunning
    refine Cancellable.narrows ⟨?_, ?_, ?_⟩ (Narrows.startWorkers _ priority)
    · refine ⟨fun item hitem => ?_, fun item hitem => ?_, fun item hitem => ?_, ?_⟩
      · rcases mem_enqueue hitem with hitem | rfl
        · exact List.mem_append_left _ (hnamed.queued item hitem)
        · exact List.mem_append_right _ (List.mem_singleton_self _)
      · exact List.mem_append_left _ (hnamed.processing item hitem)
      · exact List.mem_append_left _ (hnamed.completing item hitem)
      · intro job job' id hjob hjob'
        simp only [List.mem_append, List.mem_singleton, JobEvent.accepted.injEq] at hjob hjob'
        rcases hjob with hjob | ⟨rfl, rfl⟩ <;> rcases hjob' with hjob' | ⟨rfl, hid⟩
        · exact hnamed.unique job job' id hjob hjob'
        · exact absurd (hid ▸ hjob) (haccepted job)
        · exact absurd hjob' (haccepted job')
        · rfl
    · have hcensus := census_called_append (e := .accepted s.jobs s.manager.nextId) rfl s.events
      refine ⟨fun job => ?_, fun item hitem => ?_, fun item hitem hholding => ?_,
        fun item hitem => ?_, fun job hjob => ?_⟩ <;> simp only [hcensus]
      · exact hcalled.once job
      · rcases mem_enqueue hitem with hitem | rfl
        · exact hcalled.queued item hitem
        · exact hcalled.later s.jobs le_rfl
      · exact hcalled.holding item hitem hholding
      · exact hcalled.completing item hitem
      · exact hcalled.later job (Nat.le_of_succ_le hjob)
    · have hmem : ∀ id, .cancelled id ∈ s.events ++ [.accepted s.jobs s.manager.nextId] ↔
          .cancelled id ∈ s.events := by simp
      refine ⟨fun item hitem => ?_, fun item hitem => ?_, fun item hitem => ?_, ?_⟩
      · rw [hmem]
        rcases mem_enqueue hitem with hitem | rfl
        · exact hsilenced.queued item hitem
        · exact hcancelled
      · rw [hmem]
        exact hsilenced.processing item hitem
      · rw [hmem]
        exact hsilenced.completing item hitem
      · exact silent_append hsilenced.silent (by simp [JobEvent.calledId])
  · refine Cancellable.narrows ⟨hnamed, hcalled, hsilenced⟩ ⟨fun _ h => h, fun _ h => .inl h,
      fun _ h => h, fun _ h => h, Nat.le_succ _, [.freed s.jobs], rfl, by simp [JobEvent.plain]⟩

/-- The end of `cancelJob`. -/
theorem Cancellable.cancelled {s : JobSystem} (h : s.Cancellable) {jobID : BitVec 32}
    (hqueued : ∀ item ∈ s.manager.queued, item.id ≠ jobID)
    (hprocessing : ∀ item ∈ s.manager.processing, item.id = jobID → item.callback = none)
    (hcompleting : ∀ item, .completing item ∈ s.threads → item.id = jobID → item.callback = none) :
    (s.raise [.cancelled jobID]).Cancellable := by
  obtain ⟨hnamed, hcalled, hsilenced⟩ := h
  have hmem : ∀ job id, .accepted job id ∈ s.events ++ [.cancelled jobID] ↔
      .accepted job id ∈ s.events := by simp
  have hcensus := census_called_append (e := .cancelled jobID) rfl s.events
  have hcancelled : ∀ id, .cancelled id ∈ s.events ++ [.cancelled jobID] ↔
      .cancelled id ∈ s.events ∨ id = jobID := by simp
  refine ⟨?_, ?_, ?_⟩
  · refine ⟨?_, ?_, ?_, ?_⟩ <;> simp only [raise, hmem]
    · exact hnamed.queued
    · exact hnamed.processing
    · exact hnamed.completing
    · exact hnamed.unique
  · refine ⟨?_, ?_, ?_, ?_, ?_⟩ <;> simp only [raise, hcensus]
    · exact hcalled.once
    · exact hcalled.queued
    · exact hcalled.holding
    · exact hcalled.completing
    · exact hcalled.later
  · refine ⟨fun item hitem hid => ?_, fun item hitem hid => ?_, fun item hitem hid => ?_, ?_⟩
    · exact ((hcancelled _).1 hid).elim (hsilenced.queued item hitem) (hqueued item hitem)
    · exact ((hcancelled _).1 hid).elim (hsilenced.processing item hitem) (hprocessing item hitem)
    · exact ((hcancelled _).1 hid).elim (hsilenced.completing item hitem) (hcompleting item hitem)
    · exact silent_append hsilenced.silent (by simp [JobEvent.calledId])

theorem Cancellable.cancelJob {s : JobSystem} (h : s.Cancellable) (howned : s.Owned)
    {jobID : BitVec 32} (hG : OutsideTheGap (.cancelJob jobID) s) :
    (s.cancelJob jobID).Cancellable := by
  have howned' := howned.cancelJob jobID
  unfold JobSystem.cancelJob at howned' ⊢
  cases hcancel : s.manager.cancelQueued jobID with
  | none =>
    have hnarrows : s.Narrows { s with manager := s.manager.cancelProcessing jobID } :=
      ⟨fun _ h => h, fun _ h => JobManager.mem_cancelFirst h, fun _ h => h, fun _ h => h, le_rfl, [],
        (List.append_nil _).symm, by simp⟩
    refine (h.narrows hnarrows).cancelled
      (fun item hitem => JobManager.cancelQueued_none hcancel item hitem) ?_ hG
    refine fun item hitem hid => JobManager.cancelFirst_silences ?_ hitem hid
    refine howned.processing_pairwise.imp_of_mem fun hitem hitem' hjob hids => hjob ?_
    exact h.named.unique _ _ _ (h.named.processing _ hitem) (hids ▸ h.named.processing _ hitem')
  | some cancelled =>
    obtain ⟨item, m⟩ := cancelled
    obtain ⟨priority, before, after, hqueue, hid, rfl⟩ := JobManager.cancelQueued_cases hcancel
    have hitem : item ∈ s.manager.queued :=
      JobManager.mem_queued.2 ⟨priority, by simp [hqueue]⟩
    have hnarrows : s.Narrows
        { s with
          manager := s.manager.setQueue priority (before ++ after)
          events := s.events ++ [.freed item.job] } := by
      refine ⟨fun other hother => ?_, fun _ h => .inl h, fun _ h => h, fun _ h => h, le_rfl,
        [.freed item.job], rfl, by simp [JobEvent.plain]⟩
      rcases JobManager.mem_setQueue hother with hother | hother
      · refine JobManager.mem_queued.2 ⟨priority, ?_⟩
        rw [hqueue]
        exact List.mem_append.2 ((List.mem_append.1 hother).imp_right (List.mem_cons_of_mem _))
      · exact hother
    have hsame : ({ s with
        manager := s.manager.setQueue priority (before ++ after)
        events := s.events ++ [.freed item.job, .cancelled jobID] } : JobSystem) =
          ({ s with
            manager := s.manager.setQueue priority (before ++ after)
            events := s.events ++ [.freed item.job] } : JobSystem).raise [.cancelled jobID] := by
      simp [raise]
    simp only [hcancel] at howned'
    obtain ⟨hqueued, hprocessing, hcompleting⟩ := howned'.freed_gone
      (show JobEvent.freed item.job ∈ s.events ++ [.freed item.job, .cancelled jobID] by simp)
    -- whoever has the id has the job, and that is freed
    have hjob : ∀ other : WorkItem, .accepted other.job other.id ∈ s.events → other.id = jobID →
        other.job = item.job := by
      intro other hother hsameId
      exact h.named.unique _ _ _ hother (by rw [hsameId, ← hid]; exact h.named.queued item hitem)
    simp only [hsame]
    refine (h.narrows hnarrows).cancelled (fun other hother hotherId => ?_)
      (fun other hother hotherId => ?_) (fun other hother hotherId => ?_)
    · exact hqueued other hother
        (hjob other (h.named.queued other (hnarrows.queued other hother)) hotherId)
    · exact absurd (hjob other (h.named.processing other hother) hotherId)
        (hprocessing other hother)
    · exact absurd (congrArg some (hjob other (h.named.completing other hother) hotherId))
        (hcompleting _ hother)

/-- The job whose callback is still there. -/
def callableJob (item : WorkItem) : Option Nat := if item.callback.isSome then some item.job else none

theorem census_callable_le (items : List WorkItem) (job : Nat) :
    census callableJob job items ≤ census WorkItem.itemJob job items := by
  refine census_le (fun item hname => ?_) items
  unfold callableJob at hname
  split at hname
  · exact hname
  · exact absurd hname (by simp)

theorem census_aborted (item : WorkItem) (job : Nat) :
    census JobEvent.calledJob job item.abortEvents = hit job (callableJob item) := by
  unfold WorkItem.abortEvents callableJob
  split <;> simp [census_singleton, JobEvent.calledJob]

theorem cancelJobs_census (s : JobSystem) (job : Nat) :
    census JobEvent.calledJob job s.cancelJobs.events = census JobEvent.calledJob job s.events +
      census callableJob job s.manager.queued + census callableJob job s.manager.processing := by
  have hqueue : census JobEvent.calledJob job
      (s.manager.queued.flatMap fun item => item.abortEvents ++ [.freed item.job]) =
        census callableJob job s.manager.queued := by
    refine census_flatMap (fun item => ?_) _
    rw [census_append, census_aborted, census_singleton]
    rfl
  have hprocessing : census JobEvent.calledJob job
      (s.manager.processing.flatMap (·.abortEvents)) =
        census callableJob job s.manager.processing :=
    census_flatMap (fun item => census_aborted item job) _
  rw [cancelJobs, census_append, census_append, hqueue, hprocessing, Nat.add_assoc]

/-- What `cancelJobs` says: aborts of items with a callback, and freed jobs. -/
theorem cancelJobs_events (s : JobSystem) : ∃ later, s.cancelJobs.events = s.events ++ later ∧
    ∀ e ∈ later, (∃ job, e = .freed job) ∨
      ∃ item : WorkItem, (item ∈ s.manager.queued ∨ item ∈ s.manager.processing) ∧
        item.callback ≠ none ∧ e = .onJobAbort item.job item.id := by
  refine ⟨_, rfl, fun e he => ?_⟩
  have habort : ∀ (item : WorkItem), e ∈ item.abortEvents →
      item.callback ≠ none ∧ e = .onJobAbort item.job item.id := by
    intro item he
    unfold WorkItem.abortEvents at he
    split at he
    · rename_i hcallback
      exact ⟨Option.isSome_iff_ne_none.1 hcallback, List.mem_singleton.1 he⟩
    · exact absurd he List.not_mem_nil
  simp only [List.mem_append, List.mem_flatMap, List.mem_singleton] at he
  rcases he with ⟨item, hitem, he | rfl⟩ | ⟨item, hitem, he⟩
  · exact .inr ⟨item, .inl hitem, habort item he⟩
  · exact .inl ⟨_, rfl⟩
  · exact .inr ⟨item, .inr hitem, habort item he⟩

/-- Outside the gap no item that `cancelJobs` aborts was called back before. -/
theorem CalledOnce.abortable {s : JobSystem} (h : s.CalledOnce) (howned : s.Owned)
    (hG : OutsideTheGap .cancelJobs s) {item : WorkItem}
    (hitem : item ∈ s.manager.queued ∨ item ∈ s.manager.processing)
    (hcallback : item.callback ≠ none) : census JobEvent.calledJob item.job s.events = 0 := by
  rcases hitem with hitem | hitem
  · exact h.queued item hitem
  · have hpos := census_pos hitem (show item.itemJob = some item.job from rfl)
    rw [howned.progress] at hpos
    obtain ⟨t, ht, hjob⟩ := exists_of_census_pos hpos
    cases t with
    | holding job =>
      obtain rfl : job = item.job := Option.some.inj hjob
      exact (h.holding item hitem ht).resolve_right hcallback
    | completing copy =>
      exact absurd (hG copy (.inl ht) item hitem (Option.some.inj hjob).symm) hcallback
    | called copy =>
      exact absurd (hG copy (.inr ht) item hitem (Option.some.inj hjob).symm) hcallback
    | _ => simp [JobWorker.inProgress] at hjob

theorem exists_callable {items : List WorkItem} {job : Nat}
    (h : 0 < census callableJob job items) :
    ∃ item ∈ items, item.callback ≠ none ∧ item.job = job := by
  obtain ⟨item, hitem, hname⟩ := exists_of_census_pos h
  unfold callableJob at hname
  split at hname
  · rename_i hcallback
    exact ⟨item, hitem, Option.isSome_iff_ne_none.1 hcallback, Option.some.inj hname⟩
  · exact absurd hname (by simp)

/-- `cancelJobs` gives no id and cancels none. -/
theorem mem_cancelJobs_events (s : JobSystem) {e : JobEvent} (hfreed : ∀ job, e ≠ .freed job)
    (habort : ∀ job id, e ≠ .onJobAbort job id) : e ∈ s.cancelJobs.events ↔ e ∈ s.events := by
  obtain ⟨later, hevents, hlater⟩ := cancelJobs_events s
  rw [hevents, List.mem_append]
  refine ⟨fun he => he.elim id fun he => ?_, .inl⟩
  rcases hlater e he with ⟨job, rfl⟩ | ⟨item, -, -, rfl⟩
  · exact absurd rfl (hfreed job)
  · exact absurd rfl (habort _ _)

theorem cancelJobs_queued (s : JobSystem) (item : WorkItem) : item ∉ s.cancelJobs.manager.queued :=
  List.not_mem_nil

theorem mem_cancelJobs_processing {s : JobSystem} {item : WorkItem}
    (h : item ∈ s.cancelJobs.manager.processing) :
    ∃ original ∈ s.manager.processing, original.cancel = item :=
  List.mem_map.1 h

theorem Named.cancelJobs {s : JobSystem} (h : s.Named) : s.cancelJobs.Named := by
  have haccepted : ∀ job id, .accepted job id ∈ s.cancelJobs.events ↔ .accepted job id ∈ s.events :=
    fun _ _ => mem_cancelJobs_events s (by simp) (by simp)
  refine ⟨fun item hitem => absurd hitem (cancelJobs_queued s item), fun item hitem => ?_,
    fun item hitem => (haccepted _ _).2 (h.completing item hitem), fun job job' id hjob hjob' => ?_⟩
  · obtain ⟨original, horiginal, rfl⟩ := mem_cancelJobs_processing hitem
    exact (haccepted _ _).2 (h.processing original horiginal)
  · exact h.unique job job' id ((haccepted _ _).1 hjob) ((haccepted _ _).1 hjob')

theorem CalledOnce.cancelJobs {s : JobSystem} (h : s.CalledOnce) (howned : s.Owned)
    (hG : OutsideTheGap .cancelJobs s) : s.cancelJobs.CalledOnce := by
  refine ⟨fun job => ?_, fun item hitem => absurd hitem (cancelJobs_queued s item),
    fun item hitem _ => ?_, fun copy hcopy => ?_, fun job (hjob : s.jobs ≤ job) => ?_⟩
  · have honce := howned.once job
    have hprogress := howned.progress job
    have hqueue := census_callable_le s.manager.queued job
    have hwork := census_callable_le s.manager.processing job
    have := allocated_le_one s.jobs job
    have hbefore := h.once job
    rw [cancelJobs_census]
    by_cases hnone : census callableJob job s.manager.queued +
        census callableJob job s.manager.processing = 0
    · omega
    · have hitem : ∃ item : WorkItem, (item ∈ s.manager.queued ∨ item ∈ s.manager.processing) ∧
          item.callback ≠ none ∧ item.job = job := by
        rcases Nat.eq_zero_or_pos (census callableJob job s.manager.queued) with hzero | hpos
        · have hworking : 0 < census callableJob job s.manager.processing := by omega
          obtain ⟨item, hitem, hitem'⟩ := exists_callable hworking
          exact ⟨item, .inr hitem, hitem'⟩
        · obtain ⟨item, hitem, hitem'⟩ := exists_callable hpos
          exact ⟨item, .inl hitem, hitem'⟩
      obtain ⟨item, hitem, hcallback, rfl⟩ := hitem
      have hfresh := h.abortable howned hG hitem hcallback
      omega
  · obtain ⟨original, -, rfl⟩ := mem_cancelJobs_processing hitem
    exact .inr rfl
  · have hqueue : census callableJob copy.job s.manager.queued = 0 := by
      by_contra hne
      obtain ⟨item, hitem, -, hjob⟩ := exists_callable (Nat.pos_of_ne_zero hne)
      exact howned.queued_idle hitem _ hcopy (congrArg some hjob.symm)
    have hwork : census callableJob copy.job s.manager.processing = 0 := by
      by_contra hne
      obtain ⟨item, hitem, hcallback, hjob⟩ := exists_callable (Nat.pos_of_ne_zero hne)
      exact hcallback (hG copy (.inl hcopy) item hitem hjob)
    rw [cancelJobs_census, hqueue, hwork]
    exact h.completing copy hcopy
  · have honce := howned.once job
    rw [allocated, if_neg (Nat.not_lt.2 hjob)] at honce
    have hprogress := howned.progress job
    have hqueue := census_callable_le s.manager.queued job
    have hwork := census_callable_le s.manager.processing job
    have hbefore := h.later job hjob
    rw [cancelJobs_census]
    omega

theorem Silenced.cancelJobs {s : JobSystem} (h : s.Silenced) : s.cancelJobs.Silenced := by
  have hcancelled : ∀ id, .cancelled id ∈ s.cancelJobs.events ↔ .cancelled id ∈ s.events :=
    fun _ => mem_cancelJobs_events s (by simp) (by simp)
  refine ⟨fun item hitem => absurd hitem (cancelJobs_queued s item), fun item hitem _ => ?_,
    fun item hitem hid => h.completing item hitem ((hcancelled _).1 hid), ?_⟩
  · obtain ⟨original, -, rfl⟩ := mem_cancelJobs_processing hitem
    rfl
  · obtain ⟨later, hevents, hlater⟩ := cancelJobs_events s
    rw [hevents, List.pairwise_append]
    refine ⟨h.silent, List.pairwise_of_forall_mem_list ?_, ?_⟩
    · intro e he e' _ id heq
      rcases hlater e he with ⟨job, rfl⟩ | ⟨item, -, -, rfl⟩ <;> simp at heq
    · rintro e he e' he' id rfl
      rcases hlater e' he' with ⟨job, rfl⟩ | ⟨item, hitem, hcallback, rfl⟩
      · simp [JobEvent.calledId]
      · intro hid
        obtain rfl : item.id = id := Option.some.inj hid
        rcases hitem with hitem | hitem
        · exact h.queued item hitem he
        · exact hcallback (h.processing item hitem he)

theorem Cancellable.cancelJobs {s : JobSystem} (h : s.Cancellable) (howned : s.Owned)
    (hG : OutsideTheGap .cancelJobs s) : s.cancelJobs.Cancellable :=
  ⟨h.named.cancelJobs, h.calledOnce.cancelJobs howned hG, h.silenced.cancelJobs⟩

/-- A worker takes an item from its queue. -/
theorem PassesOn.pop (s : JobSystem) (worker : Nat) {item : WorkItem} {m : JobManager}
    (hpop : s.manager.popJob hardwareConcurrency = some (item, m)) :
    s.PassesOn { s with
      manager := m
      threads := s.threads.set worker (.holding item.job)
      events := s.events ++ [.handed item.job worker] } := by
  obtain ⟨priority, items, hqueue, rfl⟩ := JobManager.popJob_cases hpop
  have hitem : item ∈ s.manager.queued := JobManager.mem_queued.2 ⟨priority, by simp [hqueue]⟩
  refine ⟨fun other hother => ?_, fun other hother => ?_, fun job hjob => ?_, fun copy hcopy => ?_,
    le_rfl, [.handed item.job worker], rfl, by simp [JobEvent.plain]⟩
  · refine (JobManager.mem_setQueue hother).elim (fun h => ?_) id
    exact JobManager.mem_queued.2 ⟨priority, by simp [hqueue, h]⟩
  · rcases List.mem_append.1 hother with hother | hother
    · exact .inl hother
    · exact .inr (.inr (List.mem_singleton.1 hother ▸ hitem))
  · rcases List.mem_or_eq_of_mem_set hjob with hjob | heq
    · exact .inl hjob
    · exact .inr ⟨item, hitem, (JobWorker.holding.inj heq).symm⟩
  · exact .inl ((List.mem_or_eq_of_mem_set hcopy).resolve_right (by simp))

/-- A worker copies the item it works on. -/
theorem PassesOn.copy {s : JobSystem} {worker job : Nat} {item : WorkItem}
    (ht : s.threads[worker]? = some (.holding job))
    (hfind : s.manager.processing.find? (·.job = job) = some item) :
    s.PassesOn (s.setThread worker (.completing item)) := by
  have hitem := List.mem_of_find?_eq_some hfind
  obtain rfl : item.job = job := by simpa using List.find?_some hfind
  refine ⟨fun _ h => h, fun _ h => .inl h, fun other hother => ?_, fun copy hcopy => ?_, le_rfl, [],
    (List.append_nil _).symm, by simp⟩
  · exact .inl ((List.mem_or_eq_of_mem_set hother).resolve_right (by simp))
  · rcases List.mem_or_eq_of_mem_set hcopy with hcopy | heq
    · exact .inl hcopy
    · obtain rfl := JobWorker.completing.inj heq
      exact .inr ⟨hitem, List.mem_of_getElem? ht⟩

/-! ### A worker calls back what it copied -/

section Call

variable {s : JobSystem} {worker : Nat} {item : WorkItem}

/-- The other threads hold and complete what they did. -/
theorem mem_threads_call {t : JobWorker} (h : t ∈ (s.setThread worker (.called item)).threads)
    (hne : t ≠ .called item) : t ∈ s.threads :=
  (List.mem_or_eq_of_mem_set h).resolve_right hne

theorem Named.call (h : s.Named) :
    ((s.setThread worker (.called item)).raise [.onJobComplete item.job item.id]).Named := by
  have haccepted : ∀ job id, .accepted job id ∈ s.events ++ [.onJobComplete item.job item.id] ↔
      .accepted job id ∈ s.events := by simp
  refine ⟨fun other hother => ?_, fun other hother => ?_, fun copy hcopy => ?_,
    fun job job' id hjob hjob' => ?_⟩
  · exact (haccepted _ _).2 (h.queued other hother)
  · exact (haccepted _ _).2 (h.processing other hother)
  · exact (haccepted _ _).2 (h.completing copy (mem_threads_call hcopy (by simp)))
  · exact h.unique job job' id ((haccepted _ _).1 hjob) ((haccepted _ _).1 hjob')

/-- Nobody else has the job that is called back. -/
theorem CalledOnce.call (h : s.CalledOnce) (howned : s.Owned)
    (ht : s.threads[worker]? = some (.completing item))
    (howned' : ((s.setThread worker (.called item)).raise
      [.onJobComplete item.job item.id]).Owned) (hlive : item.callback ≠ none) :
    ((s.setThread worker (.called item)).raise [.onJobComplete item.job item.id]).CalledOnce := by
  have hitem : .completing item ∈ s.threads := List.mem_of_getElem? ht
  have hfresh := (h.completing item hitem).resolve_right hlive
  have hcalling : .called item ∈ s.threads.set worker (.called item) :=
    List.mem_set (List.getElem?_eq_some_iff.1 ht).1 _
  have hcensus : ∀ job, census JobEvent.calledJob job
      (s.events ++ [.onJobComplete item.job item.id]) =
        census JobEvent.calledJob job s.events + hit job (some item.job) := by
    intro job
    rw [census_append, census_singleton]
    rfl
  have hothers : ∀ job, item.job ≠ job → census JobEvent.calledJob job
      (s.events ++ [.onJobComplete item.job item.id]) =
        census JobEvent.calledJob job s.events := by
    intro job hjob
    rw [hcensus, hit_of_ne hjob, Nat.add_zero]
  refine ⟨fun job => ?_, fun other hother => ?_, fun other hother hholding => ?_,
    fun copy hcopy => ?_, fun job (hjob : s.jobs ≤ job) => ?_⟩
  · by_cases hjob : item.job = job
    · subst hjob
      exact (hcensus _).trans_le (by rw [hfresh, hit_self])
    · exact (hothers job hjob).trans_le (h.once job)
  · have hjob : item.job ≠ other.job := fun heq =>
      howned.queued_idle hother _ hitem (congrArg some heq)
    exact (hothers _ hjob).trans (h.queued other hother)
  · have hold := mem_threads_call hholding (by simp)
    have hjob : item.job ≠ other.job := fun heq => by
      have hsame := howned.worker_unique hold hitem rfl (congrArg some heq)
      simp at hsame
    exact (h.holding other hother hold).imp_left (hothers _ hjob).trans
  · have hjob : item.job ≠ copy.job := fun heq => by
      have hsame := howned'.worker_unique hcopy hcalling rfl (congrArg some heq)
      simp at hsame
    exact (h.completing copy (mem_threads_call hcopy (by simp))).imp_left (hothers _ hjob).trans
  · have hlt : item.job < s.jobs := howned.job_lt hitem rfl
    exact (hothers job (by omega)).trans (h.later job hjob)

theorem Silenced.call (h : s.Silenced) (ht : s.threads[worker]? = some (.completing item))
    (hlive : item.callback ≠ none) :
    ((s.setThread worker (.called item)).raise [.onJobComplete item.job item.id]).Silenced := by
  have hactive : .cancelled item.id ∉ s.events := fun hid =>
    hlive (h.completing item (List.mem_of_getElem? ht) hid)
  have hcancelled : ∀ id, .cancelled id ∈ s.events ++ [.onJobComplete item.job item.id] ↔
      .cancelled id ∈ s.events := by simp
  refine ⟨fun other hother hid => ?_, fun other hother hid => ?_, fun copy hcopy hid => ?_, ?_⟩
  · exact h.queued other hother ((hcancelled _).1 hid)
  · exact h.processing other hother ((hcancelled _).1 hid)
  · exact h.completing copy (mem_threads_call hcopy (by simp)) ((hcancelled _).1 hid)
  · exact silent_append h.silent fun id hid => Option.some.inj hid ▸ hactive

end Call

theorem Cancellable.worker {s s' : JobSystem} (h : s.Cancellable) (howned : s.Owned) {worker : Nat}
    (hstep : WorkerStep hardwareConcurrency s worker s') : s'.Cancellable := by
  have howned' := howned.worker hstep
  cases hstep with
  | pop ht hidle hrunning hpop => exact h.passesOn (.pop s worker hpop)
  | copy ht hfind => exact h.passesOn (.copy ht hfind)
  | call ht =>
    rename_i item
    cases hcallback : item.callback with
    | none =>
      simp only [WorkItem.completeEvents, hcallback, Option.isSome_none, Bool.false_eq_true, if_false,
        raise, List.append_nil]
      exact h.narrows ((Narrows.refl s).setThread worker (by simp) (by simp))
    | some callback =>
      simp only [WorkItem.completeEvents, hcallback, Option.isSome_some, if_true] at howned' ⊢
      have hlive : item.callback ≠ none := by simp [hcallback]
      exact ⟨h.named.call, h.calledOnce.call howned ht howned' hlive, h.silenced.call ht hlive⟩
  | wait ht hidle hrunning hpop => exact h.narrows ((Narrows.refl s).setThread _ (by simp) (by simp))
  | leave ht hidle hrunning => exact h.narrows ((Narrows.refl s).setThread _ (by simp) (by simp))
  | lost ht hfind => exact h.narrows ((Narrows.refl s).setThread _ (by simp) (by simp))
  | complete ht =>
    rename_i item
    have hprocessing : ∀ other ∈ (s.manager.complete item.job).processing,
        other ∈ s.manager.processing := fun _ => List.mem_of_mem_eraseP
    have hnarrows : s.Narrows { s with manager := s.manager.complete item.job } :=
      ⟨fun _ h => h, fun other h => .inl (hprocessing other h), fun _ h => h, fun _ h => h, le_rfl, [],
        (List.append_nil _).symm, by simp⟩
    exact h.narrows (hnarrows.setThread worker (by simp) (by simp))
  | free ht =>
    rename_i item
    have hnarrows : s.Narrows (s.raise [.freed item.job]) :=
      ⟨fun _ h => h, fun _ h => .inl h, fun _ h => h, fun _ h => h, le_rfl, [.freed item.job], rfl,
        by simp [JobEvent.plain]⟩
    exact h.narrows (hnarrows.setThread worker (by simp) (by simp))
  | remove ht =>
    have hnarrows : s.Narrows { s with manager := s.manager.removeWorker worker } :=
      ⟨fun _ h => h, fun _ h => .inl h, fun _ h => h, fun _ h => h, le_rfl, [],
        (List.append_nil _).symm, by simp⟩
    exact h.narrows (hnarrows.setThread worker (by simp) (by simp))

theorem Cancellable.step {s s' : JobSystem} (h : s.Cancellable) (howned : s.Owned) {a : JobAction}
    (hG : OutsideTheGap a s) (hstep : s.step hardwareConcurrency a = some s') :
    s'.Cancellable := by
  cases step_cases hardwareConcurrency hstep with
  | addJob callback priority => exact h.addJob callback priority hG
  | cancelJob jobID => exact h.cancelJob howned hG
  | cancelJobs => exact h.cancelJobs howned hG
  | notifyAll hcancelling => exact h.narrows (.notifyAll s)
  | cancelJobsReturn hcancelling hworkers => exact h.narrows (.controls s rfl rfl rfl rfl rfl)
  | restart hrunning => exact h.narrows (.controls s rfl rfl rfl rfl rfl)
  | pauseJobs => exact h.narrows (.controls s rfl rfl rfl rfl rfl)
  | unPauseJobs => exact h.narrows (.controls s rfl rfl rfl rfl rfl)
  | wake hwaiting => exact h.narrows ((Narrows.refl s).setThread _ (by simp) (by simp))
  | worker hworker => exact h.worker howned hworker

theorem cancellable_of_reachable {s : JobSystem}
    (h : (system hardwareConcurrency OutsideTheGap).Reachable s) : s.Cancellable := by
  refine Reachable.invariant ?_ ?_ h
  · rintro s rfl
    exact .initial
  · rintro s s' hreachable hcancellable ⟨a, hG, hstep⟩
    exact hcancellable.step (owned_of_reachable hreachable) hG hstep

end JobSystem

end LuPlatform.Thread
