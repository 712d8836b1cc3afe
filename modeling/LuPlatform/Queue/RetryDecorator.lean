import LuPlatform.Queue.QueueThreads

/-! `RetryDecorator`: a push or a pop that tries again, after a pause, until it succeeds. To the queue
its threads are threads that call `try_push` and `try_pop`. -/

namespace LuPlatform.Queue

open Loop Transition Function

/-- Where a thread stands in `RetryDecorator::push`, or outside it. -/
inductive RetryPush (T : Type) where
  | outside
  | tryPush (pc : TryPush T)
  | pause (element : T)

inductive RetryPop (T : Type) where
  | outside
  | tryPop (pc : TryPop T)
  | pause

namespace RetryPush

variable {T : Type}

/-- What follows a step of `try_push`. -/
def next (element : T) : Round (TryPush T) Bool → RetryPush T
  | .again pc => .tryPush pc
  | .leave true => .outside
  | .leave false => .pause element

/-- The call of `try_push` that is going on. -/
def call : RetryPush T → Option (TryPush T)
  | .tryPush pc => some pc
  | .outside | .pause _ => none

theorem call_next (element : T) (r : Round (TryPush T) Bool) : (next element r).call = goingOn r := by
  cases r with
  | again pc => rfl
  | leave pushed => cases pushed <;> rfl

end RetryPush

namespace RetryPop

variable {T : Type}

def next : Round (TryPop T) (Option T) → RetryPop T
  | .again pc => .tryPop pc
  | .leave (some _) => .outside
  | .leave none => .pause

def call : RetryPop T → Option (TryPop T)
  | .tryPop pc => some pc
  | .outside | .pause => none

theorem call_next (r : Round (TryPop T) (Option T)) : (next r).call = goingOn r := by
  cases r with
  | again pc => rfl
  | leave element => cases element <;> rfl

end RetryPop

structure RetryDecorator (config : QueueConfig) (T P C : Type) where
  shared : Shared config T P C
  producers : P → RetryPush T
  consumers : C → RetryPop T

namespace RetryDecorator

variable {config : QueueConfig} {T P C : Type}

structure Initial (s : RetryDecorator config T P C) : Prop where
  shared : s.shared.Initial
  producers : ∀ p, s.producers p = .outside
  consumers : ∀ c, s.consumers c = .outside

section Steps

variable [DecidableEq P] [DecidableEq C]

inductive Step : RetryDecorator config T P C → RetryDecorator config T P C → Prop
  | callPush (s) (p : P) (element : T) : s.producers p = .outside →
      Step s { s with producers := update s.producers p (.tryPush (.loadHead element)) }
  | push (s) (p : P) (pc : TryPush T) : s.producers p = .tryPush pc →
      Step s { s with
        shared := (s.shared.push p pc).1
        producers := update s.producers p (.next pc.element (s.shared.push p pc).2) }
  | pausePush (s) (p : P) (element : T) : s.producers p = .pause element →
      Step s { s with producers := update s.producers p (.tryPush (.loadHead element)) }
  | callPop (s) (c : C) : s.consumers c = .outside →
      Step s { s with consumers := update s.consumers c (.tryPop .loadTail) }
  | pop (s) (c : C) (pc : TryPop T) : s.consumers c = .tryPop pc →
      Step s { s with
        shared := (s.shared.pop c pc).1
        consumers := update s.consumers c (.next (s.shared.pop c pc).2) }
  | pausePop (s) (c : C) : s.consumers c = .pause →
      Step s { s with consumers := update s.consumers c (.tryPop .loadTail) }

variable (config T P C) in
def system : TransitionSystem (RetryDecorator config T P C) := ⟨Initial, Step⟩

end Steps

def threads (s : RetryDecorator config T P C) : Threads config T P C where
  shared := s.shared
  producers := RetryPush.call ∘ s.producers
  consumers := RetryPop.call ∘ s.consumers

theorem Initial.threads {s : RetryDecorator config T P C} (h : s.Initial) : s.threads.Initial where
  shared := h.shared
  producers p := by simp [RetryDecorator.threads, h.producers p, RetryPush.call]
  consumers c := by simp [RetryDecorator.threads, h.consumers c, RetryPop.call]

variable [DecidableEq P] [DecidableEq C] {s s' : RetryDecorator config T P C}

theorem Step.threads (hstep : Step s s') : Threads.Step s.threads s'.threads := by
  cases hstep with
  | callPush p element hp =>
    have hcall : (RetryPush.call ∘ s.producers) p = none := by rw [comp_apply, hp, RetryPush.call]
    simpa [RetryDecorator.threads, comp_update, RetryPush.call] using
      Threads.Step.callPush s.threads p element hcall
  | push p pc hp =>
    have hcall : (RetryPush.call ∘ s.producers) p = some pc := by rw [comp_apply, hp, RetryPush.call]
    simpa [RetryDecorator.threads, comp_update, RetryPush.call_next] using
      Threads.Step.push s.threads p pc hcall
  | pausePush p element hp =>
    have hcall : (RetryPush.call ∘ s.producers) p = none := by rw [comp_apply, hp, RetryPush.call]
    simpa [RetryDecorator.threads, comp_update, RetryPush.call] using
      Threads.Step.callPush s.threads p element hcall
  | callPop c hc =>
    have hcall : (RetryPop.call ∘ s.consumers) c = none := by rw [comp_apply, hc, RetryPop.call]
    simpa [RetryDecorator.threads, comp_update, RetryPop.call] using
      Threads.Step.callPop s.threads c hcall
  | pop c pc hc =>
    have hcall : (RetryPop.call ∘ s.consumers) c = some pc := by rw [comp_apply, hc, RetryPop.call]
    simpa [RetryDecorator.threads, comp_update, RetryPop.call_next] using
      Threads.Step.pop s.threads c pc hcall
  | pausePop c hc =>
    have hcall : (RetryPop.call ∘ s.consumers) c = none := by rw [comp_apply, hc, RetryPop.call]
    simpa [RetryDecorator.threads, comp_update, RetryPop.call] using
      Threads.Step.callPop s.threads c hcall

theorem threads_of_reachable (h : (system config T P C).Reachable s) :
    (Threads.system config T P C).Reachable s.threads :=
  h.map threads (fun _ => Initial.threads) fun _ _ _ hstep => .inl (Step.threads hstep)

end RetryDecorator

end LuPlatform.Queue
