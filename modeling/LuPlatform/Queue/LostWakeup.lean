import LuPlatform.Queue.MPSCRuns

/-! A consumer of `MPSCQueue` that sleeps although the queue holds an element. It raises its flag
after the last poll and does not look at the queue again: when the flag goes up while an element is
stored and every producer has already seen it down, nobody is left to wake the consumer. -/

namespace LuPlatform.Queue

open Loop SlotTable Transition Function

/-- A push that is going to wake a consumer whose flag is up. -/
def MPSCPush.WillWake {T : Type} : MPSCPush T → Prop
  | .tryPush _ | .pause _ | .loadWait _ | .lock _ | .clearWait _ => True
  | .outside | .unlock _ | .notify _ => False

namespace MPSCQueue

open TransitionSystem

variable {config : QueueConfig} {T P C : Type} {s s' : MPSCQueue config T P C}

/-- A consumer sleeps with its flag up, an element is stored, and nobody is in a push. -/
structure Stranded (s : MPSCQueue config T P C) : Prop where
  blocked : ∃ c count, s.consumers c = .blocked count
  waiting : s.consumerWait = true
  stored : ∃ i, s.shared.queue.states i = .stored
  returned : ∀ p, s.producers p = .outside

/-- No element is stored, or somebody is going to wake the consumer. -/
def Attended (s : MPSCQueue config T P C) : Prop :=
  (∀ i, s.shared.queue.states i ≠ .stored) ∨ ∃ p, (s.producers p).WillWake

/-- Where the flag goes up, the queue is attended. -/
def RaisedInTime (s s' : MPSCQueue config T P C) : Prop :=
  s.consumerWait = false → s'.consumerWait = true → s.Attended

/-- A pop stores nothing. -/
theorem pop_states (shared : Shared config T P C) (c : C) (pc : TryPop T)
    (h : ∀ i, shared.queue.states i ≠ .stored) (i : config.Slot) :
    (shared.pop c pc).1.queue.states i ≠ .stored := by
  cases pc with
  | casState tail =>
    simp only [Shared.pop, AtomicQueue2.tryPop, h, ↓reduceIte]
    exact h i
  | clear tail element =>
    simp only [Shared.pop, AtomicQueue2.tryPop, update_apply]
    split
    · decide
    · exact h i
  | loadTail | move tail => exact h i
  | loadHead tail | casTail tail | spin tail =>
    simp only [Shared.pop, AtomicQueue2.tryPop]
    split <;> exact h i

variable [DecidableEq P] [DecidableEq C]

theorem Step.attended (hstep : Step s s') (h : s.consumerWait = true → s.Attended)
    (hraise : RaisedInTime s s') (hwait : s'.consumerWait = true) : s'.Attended := by
  -- a producer that is not one to wake the consumer does not matter
  have hother : ∀ {p : P} {x : MPSCPush T}, ¬ (s.producers p).WillWake → s.Attended →
      (∀ i, s.shared.queue.states i ≠ .stored) ∨ ∃ q, (update s.producers p x q).WillWake := by
    rintro p x hp (hempty | ⟨q, hq⟩)
    · exact .inl hempty
    · refine .inr ⟨q, ?_⟩
      have hqp : q ≠ p := by
        rintro rfl
        exact hp hq
      rwa [update_of_ne hqp]
  cases hstep with
  | callPush p element hp => exact .inr ⟨p, by simp [MPSCPush.WillWake]⟩
  | pausePush p element hp => exact .inr ⟨p, by simp [MPSCPush.WillWake]⟩
  | push p pc hp =>
    refine .inr ⟨p, ?_⟩
    simp only [update_self]
    cases (s.shared.push p pc).2 with
    | again pc => trivial
    | leave pushed => cases pushed <;> trivial
  | skipWait p element hp hflag =>
    rw [hflag] at hwait
    cases hwait
  | loadWait p element hp hflag => exact .inr ⟨p, by simp [MPSCPush.WillWake]⟩
  | lockPush p element hp hmutex => exact .inr ⟨p, by simp [MPSCPush.WillWake]⟩
  | clearWait p element hp => cases hwait
  | unlockPush p element hp => exact hother (by simp [hp, MPSCPush.WillWake]) (h hwait)
  | notifyOne p element c count hp hc => exact hother (by simp [hp, MPSCPush.WillWake]) (h hwait)
  | notifyNone p element hp hnone => exact hother (by simp [hp, MPSCPush.WillWake]) (h hwait)
  | pop c count pc hc =>
    obtain hempty | hproducer := h hwait
    · exact .inl (pop_states s.shared c pc hempty)
    · exact .inr hproducer
  | raiseWait c count hc =>
    cases hflag : s.consumerWait with
    | false => exact hraise hflag rfl
    | true => exact h hflag
  | callPop c hc | pausePop c count hc | lockPop c count hc hmutex | testWait c count hc
  | wait c count hc | wakeUp c count hc | unlockPop c count hc => exact h hwait

end MPSCQueue

end LuPlatform.Queue
