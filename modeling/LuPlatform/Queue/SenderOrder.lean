import LuPlatform.Library.SlotOrder
import LuPlatform.Queue.Overtaking
import LuPlatform.Queue.PushHistory

/-! The order in which `MPSCQueue` hands out the elements of one producer. It is the order of the
pushes as long as every element becomes stored in turn. A producer that stalls between its ticket and
its slot gives a later ticket the chance to take the slot, and then it is not. -/

namespace LuPlatform.Queue

open Loop SlotTable Transition Function

variable {config : QueueConfig} {T P : Type}

namespace MPSCQueue

open TransitionSystem

/-- What pop has returned of the elements of one sender. -/
def returnedFrom {C : Type} [DecidableEq P] (sender : T → P) (s : MPSCQueue config T P C) (p : P) :
    List T :=
  (s.shared.returned.map Prod.snd).filter (sender · = p)

/-- What push was called with, by one producer. -/
def begunBy {C : Type} [DecidableEq P] (s : MPSCQueue config T P C) (p : P) : List T :=
  (s.begun.filter (·.1 = p)).map Prod.snd

/-- The elements tell who pushes them. -/
def Tagged {C : Type} (sender : T → P) (s s' : MPSCQueue config T P C) : Prop :=
  ∀ p element, s'.begun = s.begun ++ [(p, element)] → sender element = p

/-- No slot becomes stored that the consumer reaches before one that still holds an element of the same
sender. -/
def PublishedInTurn {C : Type} (sender : T → P) (s s' : MPSCQueue config T P C) : Prop :=
  InTurn (Shared.visit config) sender s.threads.table s'.threads.table

variable [DecidableEq P] {C : Type} [DecidableEq C] {sender : T → P} {s s' : MPSCQueue config T P C}

theorem Step.tagged (hstep : Step s s') (h : ∀ x ∈ s.begun, sender x.2 = x.1)
    (htagged : Tagged sender s s') : ∀ x ∈ s'.begun, sender x.2 = x.1 := by
  cases hstep with
  | callPush p element hp =>
    intro x hx
    obtain hx | hx := List.mem_append.mp hx
    · exact h x hx
    · obtain rfl := List.mem_singleton.mp hx
      exact htagged p element rfl
  | _ => exact h

theorem tagged_of_reachable (h : ((system config T P C).restrict (Tagged sender)).Reachable s) :
    ∀ x ∈ s.begun, sender x.2 = x.1 := by
  refine h.invariant (I := fun s => ∀ x ∈ s.begun, sender x.2 = x.1)
    (fun s (hs : s.Initial) x hx => ?_) ?_
  · rw [hs.begun] at hx
    cases hx
  · rintro s s' _ hs ⟨hstep, htagged⟩
    exact Step.tagged hstep hs htagged

/-- What is stored of a sender's elements is what its pushes have stored. -/
theorem stored_initial (h : ((system config T P C).restrict (Tagged sender)).Reachable s) (p : P) :
    (s.shared.stored.map Prod.snd).filter (sender · = p) <+: s.begunBy p := by
  have hpushes := pushes_of_reachable h.of_restrict
  have htagged := tagged_of_reachable h
  have hmem : ∀ x ∈ s.shared.stored, sender x.2 = x.1 := fun x hx =>
    htagged x (Multiset.mem_of_le (stored_le_begun h.of_restrict) (Multiset.mem_coe.mpr hx))
  have hsame : s.shared.stored.filter ((fun e => decide (sender e = p)) ∘ Prod.snd) =
      s.shared.stored.filter (·.1 = p) :=
    List.filter_congr fun x hx => by simp [hmem x hx]
  rw [List.filter_map, hsame]
  change entriesOf s.shared.stored p <+: entriesOf s.begun p
  rw [hpushes.begun]
  exact List.prefix_append _ _

omit [DecidableEq P] [DecidableEq C] in
theorem tagged_of_begun (h : s'.begun = s.begun) : Tagged sender s s' := by
  intro p element hbegun
  have hlength := congrArg List.length (h.symm.trans hbegun)
  rw [List.length_append, List.length_singleton] at hlength
  omega

/-- A call goes on in tagged runs too. -/
theorem reaches_tagged (h : (running config T P C).Reaches s s') :
    ((system config T P C).restrict (Tagged sender)).Reaches s s' :=
  h.weaken fun _ _ hcontinues => tagged_of_begun hcontinues.begun

theorem step_called (p : P) (element : T) (hp : s.producers p = .outside) (hsender : sender element = p) :
    ((system config T P C).restrict (Tagged sender)).Step s (s.called p element) := by
  refine ⟨Step.callPush s p element hp, fun q e hbegun => ?_⟩
  obtain ⟨rfl, rfl⟩ := Prod.mk.inj (List.singleton_inj.mp (List.append_cancel_left hbegun))
  exact hsender

/-- The second element of the sender is popped before the first one of those that are left. -/
theorem Overtaken.popped {config : QueueConfig} {s : MPSCQueue config (Bool × Nat) Bool Unit}
    (h : Overtaken false true (false, 0) (fun n => (true, n)) s)
    (hreachable : ((system config (Bool × Nat) Bool Unit).restrict (Tagged Prod.fst)).Reachable s)
    (hsize : config.queueSize.toNat < 2 ^ 31) :
    ∃ t, ((system config (Bool × Nat) Bool Unit).restrict (Tagged Prod.fst)).Reachable t ∧
      t.begun = s.begun ∧
      t.shared.returned = [((), (true, config.queueSize.toNat)), ((), (true, 1))] := by
  have hfirst := hreachable.reaches (reaches_tagged (reaches_returning h.consumer h.last.1))
  have hpolling : ((system config (Bool × Nat) Bool Unit).restrict (Tagged Prod.fst)).Reachable
      (s.returning () (BitVec.ofNat 32 0)).polling :=
    hfirst.reaches (.step (.refl _) ⟨Step.callPop _ () (by simp [returning]), tagged_of_begun rfl⟩)
  have hsome : 0 < (s.shared.queue.head - s.shared.queue.tail).toInt := by
    have hpos := config.queueSize_pos
    rw [h.head, h.tail, Counters.ofNat_sub (by omega), Counters.toInt_ofNat (by decide) (by omega)]
    omega
  have hticket := reaches_awaiting (s := (s.returning () (BitVec.ofNat 32 0)).polling) (c := ())
    (show _ = MPSCPop.tryPop 0 .loadTail by simp [polling]) hsome
  have hstored : update s.shared.queue.states (Shared.visit config 0) .empty
      (config.slot s.shared.queue.tail) = .stored := by
    rw [h.tail]
    exact (update_of_ne h.different _ _).trans h.second.1
  have hsecond := reaches_returning (s := (s.returning () (BitVec.ofNat 32 0)).polling.awaiting () 0)
    (c := ()) (show _ = MPSCPop.tryPop 0 (.casState s.shared.queue.tail) by
      simp [awaiting, polling, returning])
    hstored
  refine ⟨_, (hpolling.reaches (reaches_tagged hticket)).reaches (reaches_tagged hsecond), rfl, ?_⟩
  change s.shared.returned ++ [((), s.shared.queue.elements (Shared.visit config 0))] ++
    [((), s.shared.queue.elements (config.slot s.shared.queue.tail))] = _
  rw [h.returned, h.last.2, h.tail]
  exact congrArg (fun e => [((), _), ((), e)]) h.second.2

end MPSCQueue

end LuPlatform.Queue
