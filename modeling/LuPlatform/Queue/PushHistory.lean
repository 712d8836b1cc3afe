import LuPlatform.Queue.MPSCQueue

/-! What has become of the pushes of one producer of `MPSCQueue`: it stores their elements in the order
of the calls, and the calls return in that order too. -/

namespace LuPlatform.Queue

open Loop SlotTable Transition Function

variable {config : QueueConfig} {T P C : Type}

/-- The element that a push was called with and has not stored yet. -/
def MPSCPush.pending : MPSCPush T → List T
  | .tryPush pc => [pc.element]
  | .pause element => [element]
  | _ => []

/-- The element that a push has stored without having returned. -/
def MPSCPush.returning : MPSCPush T → List T
  | .loadWait element | .lock element | .clearWait element | .unlock element | .notify element =>
    [element]
  | _ => []

/-- What one step of a push does to the elements: only the last one stores its element. -/
theorem push_element (shared : Shared config T P C) (p : P) (pc : TryPush T) :
    ((shared.push p pc).1.stored = shared.stored ∧
        (MPSCPush.next pc.element (shared.push p pc).2).pending = [pc.element] ∧
        (MPSCPush.next pc.element (shared.push p pc).2).returning = []) ∨
      ((shared.push p pc).1.stored = shared.stored ++ [(p, pc.element)] ∧
        (MPSCPush.next pc.element (shared.push p pc).2).pending = [] ∧
        (MPSCPush.next pc.element (shared.push p pc).2).returning = [pc.element]) := by
  cases pc with
  | publish element head => exact .inr ⟨rfl, rfl, rfl⟩
  | loadHead element | write element head => exact .inl ⟨rfl, rfl, rfl⟩
  | loadTail element head | casHead element head | casState element head | spin element head =>
    left
    simp only [Shared.push, AtomicQueue2.tryPush]
    split <;> exact ⟨trivial, rfl, rfl⟩

namespace MPSCQueue

open TransitionSystem

variable [DecidableEq P]

/-- The entries of one thread in a history. -/
def entriesOf (history : List (P × T)) (p : P) : List T := (history.filter (·.1 = p)).map Prod.snd

theorem entriesOf_append (history : List (P × T)) (p : P) (element : T) :
    entriesOf (history ++ [(p, element)]) p = entriesOf history p ++ [element] := by
  simp [entriesOf]

theorem entriesOf_other (history : List (P × T)) {p q : P} (h : q ≠ p) (element : T) :
    entriesOf (history ++ [(p, element)]) q = entriesOf history q := by
  have hpq : ¬ p = q := fun heq => h heq.symm
  simp [entriesOf, hpq]

theorem count_eq [DecidableEq T] (history : List (P × T)) (x : P × T) :
    Multiset.count x history = Multiset.count x.2 (entriesOf history x.1) := by
  induction history with
  | nil => rfl
  | cons y history ih =>
    obtain ⟨q, e⟩ := y
    obtain ⟨p, d⟩ := x
    simp only [entriesOf] at ih ⊢
    by_cases hqp : q = p
    · subst hqp
      simp [← Multiset.cons_coe, Multiset.count_cons, ih]
    · have hpq : ¬ p = q := fun heq => hqp heq.symm
      simp [← Multiset.cons_coe, ih, hqp, hpq]

/-- A history whose entries, thread by thread, begin those of another one. -/
theorem le_of_entriesOf {history later : List (P × T)}
    (h : ∀ p, entriesOf history p <+: entriesOf later p) : (history : Multiset (P × T)) ≤ later := by
  classical
  refine Multiset.le_iff_count.mpr fun x => ?_
  rw [count_eq, count_eq]
  exact Multiset.count_le_of_le x.2 (Multiset.coe_le.mpr (h x.1).sublist.subperm)

/-- Of every producer's calls the first ones have returned, the next one may have stored its element,
and the next one may be about to. -/
structure Pushes (s : MPSCQueue config T P C) : Prop where
  begun : ∀ p, entriesOf s.begun p = entriesOf s.shared.stored p ++ (s.producers p).pending
  stored : ∀ p, entriesOf s.shared.stored p = entriesOf s.completed p ++ (s.producers p).returning

theorem Initial.pushes {s : MPSCQueue config T P C} (h : s.Initial) : Pushes s where
  begun p := by simp [entriesOf, h.begun, h.shared.stored, h.producers p, MPSCPush.pending]
  stored p := by simp [entriesOf, h.completed, h.shared.stored, h.producers p, MPSCPush.returning]

section Steps

variable {s s' : MPSCQueue config T P C} {p : P} {pc : MPSCPush T}

theorem Pushes.begunAt (h : Pushes s) {l : List T} (hp : s.producers p = pc) (hl : pc.pending = l) :
    entriesOf s.begun p = entriesOf s.shared.stored p ++ l := by
  rw [← hl, ← hp, h.begun]

theorem Pushes.storedAt (h : Pushes s) {l : List T} (hp : s.producers p = pc)
    (hl : pc.returning = l) :
    entriesOf s.shared.stored p = entriesOf s.completed p ++ l := by
  rw [← hl, ← hp, h.stored]

/-- A step of one producer adds no entries of others. -/
theorem Pushes.advance (h : Pushes s) (hproducers : s'.producers = update s.producers p pc)
    (hbegun : entriesOf s'.begun p = entriesOf s'.shared.stored p ++ pc.pending)
    (hstored : entriesOf s'.shared.stored p = entriesOf s'.completed p ++ pc.returning)
    (hother : ∀ q, q ≠ p → entriesOf s'.begun q = entriesOf s.begun q ∧
      entriesOf s'.shared.stored q = entriesOf s.shared.stored q ∧
      entriesOf s'.completed q = entriesOf s.completed q) : Pushes s' := by
  refine ⟨fun q => ?_, fun q => ?_⟩
  · by_cases hqp : q = p
    · subst hqp
      rw [hproducers, update_self, hbegun]
    · obtain ⟨hbegun', hstored', _⟩ := hother q hqp
      rw [hproducers, update_of_ne hqp, hbegun', hstored', h.begun]
  · by_cases hqp : q = p
    · subst hqp
      rw [hproducers, update_self, hstored]
    · obtain ⟨_, hstored', hcompleted'⟩ := hother q hqp
      rw [hproducers, update_of_ne hqp, hstored', hcompleted', h.stored]

variable [DecidableEq C]

theorem Step.pushes (hstep : Step s s') (h : Pushes s) : Pushes s' := by
  cases hstep with
  | callPush p element hp =>
    refine h.advance rfl ?_ (h.storedAt hp rfl) fun q hq => ⟨entriesOf_other _ hq element, rfl, rfl⟩
    rw [entriesOf_append, h.begunAt (l := []) hp rfl, List.append_nil]
    rfl
  | push p pc hp =>
    have hbegun := h.begunAt hp rfl
    have hstored := h.storedAt (l := []) hp rfl
    obtain ⟨hsame, hpending, hreturning⟩ | ⟨hmore, hpending, hreturning⟩ := push_element s.shared p pc
    · refine h.advance rfl ?_ ?_ fun q hq => ⟨rfl, by rw [hsame], rfl⟩
      · rw [hsame, hpending]
        exact hbegun
      · rw [hsame, hreturning]
        exact hstored
    · refine h.advance rfl ?_ ?_ fun q hq => ⟨rfl, by rw [hmore, entriesOf_other _ hq], rfl⟩
      · rw [hmore, entriesOf_append, hpending, List.append_nil]
        exact hbegun
      · rw [hmore, entriesOf_append, hreturning, hstored, List.append_nil]
  | pausePush p element hp =>
    exact h.advance rfl (h.begunAt hp rfl) (h.storedAt hp rfl) fun _ _ => ⟨rfl, rfl, rfl⟩
  | skipWait p element hp hwait =>
    refine h.advance rfl (h.begunAt hp rfl) ?_ fun q hq => ⟨rfl, rfl, entriesOf_other _ hq element⟩
    rw [entriesOf_append]
    exact (h.storedAt hp rfl).trans (List.append_nil _).symm
  | loadWait p element hp hwait =>
    exact h.advance rfl (h.begunAt hp rfl) (h.storedAt hp rfl) fun _ _ => ⟨rfl, rfl, rfl⟩
  | lockPush p element hp hmutex =>
    exact h.advance rfl (h.begunAt hp rfl) (h.storedAt hp rfl) fun _ _ => ⟨rfl, rfl, rfl⟩
  | clearWait p element hp =>
    exact h.advance rfl (h.begunAt hp rfl) (h.storedAt hp rfl) fun _ _ => ⟨rfl, rfl, rfl⟩
  | unlockPush p element hp =>
    exact h.advance rfl (h.begunAt hp rfl) (h.storedAt hp rfl) fun _ _ => ⟨rfl, rfl, rfl⟩
  | notifyOne p element c count hp hc =>
    refine h.advance rfl (h.begunAt hp rfl) ?_ fun q hq => ⟨rfl, rfl, entriesOf_other _ hq element⟩
    rw [entriesOf_append]
    exact (h.storedAt hp rfl).trans (List.append_nil _).symm
  | notifyNone p element hp hnone =>
    refine h.advance rfl (h.begunAt hp rfl) ?_ fun q hq => ⟨rfl, rfl, entriesOf_other _ hq element⟩
    rw [entriesOf_append]
    exact (h.storedAt hp rfl).trans (List.append_nil _).symm
  | pop c count pc hc => exact ⟨h.begun, h.stored⟩
  | callPop c hc | pausePop c count hc | raiseWait c count hc | lockPop c count hc hmutex
  | testWait c count hc | wait c count hc | wakeUp c count hc | unlockPop c count hc =>
    exact ⟨h.begun, h.stored⟩

/-- What is stored stays in the history. -/
theorem Step.stored_initial (hstep : Step s s') : s.shared.stored <+: s'.shared.stored := by
  cases hstep with
  | push p pc hp =>
    obtain ⟨hsame, _⟩ | ⟨hmore, _⟩ := push_element s.shared p pc
    · exact hsame ▸ List.prefix_rfl
    · exact hmore ▸ List.prefix_append _ _
  | _ => exact List.prefix_rfl

end Steps

section Runs

variable [DecidableEq C] {s : MPSCQueue config T P C}

theorem pushes_of_reachable (h : (system config T P C).Reachable s) : Pushes s :=
  h.invariant (I := Pushes) (fun _ => Initial.pushes) fun _ _ _ hpushes hstep =>
    Step.pushes hstep hpushes

theorem completed_le_stored (h : (system config T P C).Reachable s) :
    (s.completed : Multiset (P × T)) ≤ s.shared.stored :=
  le_of_entriesOf fun p => by
    rw [(pushes_of_reachable h).stored]
    exact List.prefix_append _ _

theorem stored_le_begun (h : (system config T P C).Reachable s) :
    (s.shared.stored : Multiset (P × T)) ≤ s.begun :=
  le_of_entriesOf fun p => by
    rw [(pushes_of_reachable h).begun]
    exact List.prefix_append _ _

end Runs

end MPSCQueue

end LuPlatform.Queue
