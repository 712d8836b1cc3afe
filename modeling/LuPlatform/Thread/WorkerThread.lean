import LuPlatform.Library.SlotDrain
import LuPlatform.Queue.Overtaking
import LuPlatform.Queue.PushHistory

/-! `WorkerThread`: threads transfer messages into the queue of a worker, which passes them to a
callback until it finds the null message that `stop` pushed. As long as no null message becomes stored
in a slot that comes up before one with a message that was complete when `stop` was called, all of
these are passed on before the worker exits. -/

namespace LuPlatform.Thread

open Queue SlotTable Transition Function

structure ChannelData (M : Type) where
  channelID : BitVec 32
  data : Option M
  deriving DecidableEq, Repr

/-- Where `run` stands: before a pop, in one, or behind its loop. -/
inductive Run where
  | loop | popping | exited
  deriving DecidableEq, Repr

/-- `onMsg` is what the callback was called with, and `due` what was pushed and had returned when `stop`
was first called. -/
structure WorkerThread (config : QueueConfig) (M P : Type) where
  inputChannel : MPSCQueue config (ChannelData M) P Unit
  run : Run
  onMsg : List (ChannelData M)
  due : Option (List (ChannelData M))

/-! ### The end of a pop -/

section Pop

variable {config : QueueConfig} {T P C : Type}

/-- A step of a pop returns an element just when it ends the call. -/
theorem pop_returned (shared : Shared config T P C) (c : C) (count : Nat) (pc : TryPop T) :
    ((shared.pop c pc).1.returned = shared.returned ∧
        MPSCPop.next count (shared.pop c pc).2 ≠ .outside) ∨
      ∃ element, (shared.pop c pc).1.returned = shared.returned ++ [(c, element)] ∧
        MPSCPop.next count (shared.pop c pc).2 = .outside := by
  simp only [Shared.pop]
  cases (shared.queue.tryPop pc).2 with
  | again pc => exact .inl ⟨rfl, fun h => by cases h⟩
  | leave element =>
    cases element with
    | none => exact .inl ⟨rfl, fun h => by cases h⟩
    | some element => exact .inr ⟨element, rfl, rfl⟩

theorem step_returned [DecidableEq P] {q q' : MPSCQueue config T P Unit} (hstep : MPSCQueue.Step q q')
    (hcontinues : MPSCQueue.Continues q q') :
    (q'.shared.returned = q.shared.returned ∧
        (q'.consumers () = .outside ↔ q.consumers () = .outside)) ∨
      q.consumers () ≠ .outside ∧ q'.consumers () = .outside ∧
        ∃ element, q'.shared.returned = q.shared.returned ++ [((), element)] := by
  cases hstep with
  | callPush p element hp | pausePush p element hp | skipWait p element hp hwait
  | loadWait p element hp hwait | lockPush p element hp hmutex | clearWait p element hp
  | unlockPush p element hp | notifyNone p element hp hnone => exact .inl ⟨rfl, Iff.rfl⟩
  | push p pc hp => exact .inl ⟨rfl, Iff.rfl⟩
  | notifyOne p element c count hp hc => exact .inl ⟨rfl, by simp [hc]⟩
  | callPop c hc =>
    have hstays := hcontinues.consumers () hc
    simp at hstays
  | pop c count pc hc =>
    obtain ⟨hsame, hnext⟩ | ⟨element, hmore, hnext⟩ := pop_returned q.shared c count pc
    · exact .inl ⟨hsame, by simp [hnext, hc]⟩
    · exact .inr ⟨by simp [hc], by simp [hnext], element, hmore⟩
  | pausePop c count hc =>
    left
    refine ⟨rfl, ?_⟩
    simp only [update_self]
    split <;> simp [hc]
  | testWait c count hc =>
    left
    refine ⟨rfl, ?_⟩
    simp only [update_self]
    split <;> simp [hc]
  | raiseWait c count hc | lockPop c count hc hmutex | wait c count hc | wakeUp c count hc
  | unlockPop c count hc => exact .inl ⟨rfl, by simp [hc]⟩

end Pop

namespace WorkerThread

variable {config : QueueConfig} {M P : Type}

structure Initial (s : WorkerThread config M P) : Prop where
  inputChannel : s.inputChannel.Initial
  run : s.run = .loop
  onMsg : s.onMsg = []
  due : s.due = none

section Steps

variable [DecidableEq P]

inductive Step : WorkerThread config M P → WorkerThread config M P → Prop
  | transferMsg (s) (p : P) (channelID : BitVec 32) (msg : M) : s.inputChannel.producers p = .outside →
      Step s { s with inputChannel := s.inputChannel.called p ⟨channelID, some msg⟩ }
  | stop (s) (p : P) (channelID : BitVec 32) : s.inputChannel.producers p = .outside →
      Step s { s with
        inputChannel := s.inputChannel.called p ⟨channelID, none⟩
        due := some (s.due.getD (s.inputChannel.completed.map Prod.snd)) }
  | callPop (s) : s.run = .loop → s.inputChannel.consumers () = .outside →
      Step s { s with
        inputChannel := s.inputChannel.polling
        run := .popping }
  | proceed (s) (inputChannel : MPSCQueue config (ChannelData M) P Unit) :
      MPSCQueue.Step s.inputChannel inputChannel → MPSCQueue.Continues s.inputChannel inputChannel →
      Step s { s with inputChannel }
  | onMsg (s) (before : List (Unit × ChannelData M)) (channelData : ChannelData M) (msg : M) :
      s.run = .popping → s.inputChannel.consumers () = .outside →
      s.inputChannel.shared.returned = before ++ [((), channelData)] → channelData.data = some msg →
      Step s { s with
        run := .loop
        onMsg := s.onMsg ++ [channelData] }
  | exit (s) (before : List (Unit × ChannelData M)) (channelData : ChannelData M) :
      s.run = .popping → s.inputChannel.consumers () = .outside →
      s.inputChannel.shared.returned = before ++ [((), channelData)] → channelData.data = none →
      Step s { s with run := .exited }

variable (config M P) in
def system : TransitionSystem (WorkerThread config M P) := ⟨Initial, Step⟩

end Steps

def Null (channelData : ChannelData M) : Prop := channelData.data = none

/-- The messages that are due, before `stop` was called none. -/
def dueMessages (s : WorkerThread config M P) : List (ChannelData M) := s.due.getD []

/-- No null message becomes stored in a slot that comes up before one with a message that is due. -/
def NullInTurn (s s' : WorkerThread config M P) : Prop :=
  LastInTurn (Shared.visit config) Null s.dueMessages s.inputChannel.threads.table
    s'.inputChannel.threads.table

section Runs

variable [DecidableEq P] {s s' : WorkerThread config M P}

/-! ### The queue of the worker -/

theorem Step.inputChannel (hstep : Step s s') :
    MPSCQueue.Step s.inputChannel s'.inputChannel ∨ s'.inputChannel = s.inputChannel := by
  cases hstep with
  | transferMsg p channelID msg hp => exact .inl (.callPush _ p _ hp)
  | stop p channelID hp => exact .inl (.callPush _ p _ hp)
  | callPop hrun hc => exact .inl (.callPop _ () hc)
  | proceed inputChannel hstep hcontinues => exact .inl hstep
  | onMsg before channelData msg hrun hc hreturned hdata => exact .inr rfl
  | exit before channelData hrun hc hreturned hdata => exact .inr rfl

open TransitionSystem

theorem inputChannel_of_reachable (h : (system config M P).Reachable s) :
    (MPSCQueue.system config (ChannelData M) P Unit).Reachable s.inputChannel :=
  h.map WorkerThread.inputChannel (fun s (hs : s.Initial) => hs.inputChannel)
    fun _ _ _ hstep => Step.inputChannel hstep

/-! ### What the worker has popped -/

/-- The callback got what pop has returned, up to the element in hand. -/
inductive Passed (s : WorkerThread config M P) : Prop
  | loop : s.run = .loop → s.inputChannel.consumers () = .outside →
      s.inputChannel.shared.returned.map Prod.snd = s.onMsg → Passed s
  | popping : s.run = .popping → s.inputChannel.consumers () ≠ .outside →
      s.inputChannel.shared.returned.map Prod.snd = s.onMsg → Passed s
  | popped (channelData : ChannelData M) : s.run = .popping → s.inputChannel.consumers () = .outside →
      s.inputChannel.shared.returned.map Prod.snd = s.onMsg ++ [channelData] → Passed s
  | exited (channelData : ChannelData M) : s.run = .exited → s.inputChannel.consumers () = .outside →
      Null channelData → s.inputChannel.shared.returned.map Prod.snd = s.onMsg ++ [channelData] → Passed s

theorem Step.passed (hstep : Step s s') (h : s.Passed) : s'.Passed := by
  cases hstep with
  | transferMsg p channelID msg hp =>
    cases h with
    | loop hrun hc hpassed => exact .loop hrun hc hpassed
    | popping hrun hc hpassed => exact .popping hrun hc hpassed
    | popped channelData hrun hc hpassed => exact .popped channelData hrun hc hpassed
    | exited channelData hrun hc hnull hpassed => exact .exited channelData hrun hc hnull hpassed
  | stop p channelID hp =>
    cases h with
    | loop hrun hc hpassed => exact .loop hrun hc hpassed
    | popping hrun hc hpassed => exact .popping hrun hc hpassed
    | popped channelData hrun hc hpassed => exact .popped channelData hrun hc hpassed
    | exited channelData hrun hc hnull hpassed => exact .exited channelData hrun hc hnull hpassed
  | callPop hrun hc =>
    cases h with
    | loop _ _ hpassed => exact .popping rfl (by simp [MPSCQueue.polling]) hpassed
    | popping hrun' | popped _ hrun' | exited _ hrun' => cases hrun.symm.trans hrun'
  | proceed inputChannel hstep hcontinues =>
    have hstays := hcontinues.consumers ()
    obtain ⟨hsame, hiff⟩ | ⟨hc', hout, element, hmore⟩ := step_returned hstep hcontinues
    · cases h with
      | loop hrun hc hpassed => exact .loop hrun (hstays hc) (hsame ▸ hpassed)
      | popping hrun hc hpassed => exact .popping hrun (fun h => hc (hiff.mp h)) (hsame ▸ hpassed)
      | popped channelData hrun hc hpassed => exact .popped channelData hrun (hstays hc) (hsame ▸ hpassed)
      | exited channelData hrun hc hnull hpassed =>
        exact .exited channelData hrun (hstays hc) hnull (hsame ▸ hpassed)
    · cases h with
      | loop _ hc | popped _ _ hc | exited _ _ hc => exact absurd hc hc'
      | popping hrun _ hpassed =>
        refine .popped element hrun hout ?_
        simp only [hmore, List.map_append, hpassed]
        rfl
  | onMsg before channelData msg hrun hc hreturned hdata =>
    cases h with
    | loop hrun' | exited _ hrun' => cases hrun.symm.trans hrun'
    | popping _ hc' => exact absurd hc hc'
    | popped element _ _ hpassed =>
      rw [hreturned, List.map_append] at hpassed
      obtain ⟨hbefore, helement⟩ := List.append_inj' hpassed rfl
      refine .loop rfl hc ?_
      simp only [hreturned, List.map_append, hbefore]
      rfl
  | exit before channelData hrun hc hreturned hdata =>
    cases h with
    | loop hrun' | exited _ hrun' => cases hrun.symm.trans hrun'
    | popping _ hc' => exact absurd hc hc'
    | popped element _ _ hpassed =>
      rw [hreturned, List.map_append] at hpassed
      obtain ⟨hbefore, helement⟩ := List.append_inj' hpassed rfl
      refine .exited channelData rfl hc hdata ?_
      simp only [hreturned, List.map_append, hbefore]
      rfl

theorem passed_of_reachable (h : (system config M P).Reachable s) : s.Passed :=
  h.invariant (I := Passed) (fun s (hs : s.Initial) =>
      .loop hs.run (hs.inputChannel.consumers ()) (by rw [hs.inputChannel.shared.returned, hs.onMsg]; rfl))
    fun _ _ _ hs hstep => Step.passed hstep hs

/-! ### Runs in which the null message is stored in turn -/

/-- What is due is messages that are stored, and they will be claimed before a null message. -/
structure Stopping (s : WorkerThread config M P) : Prop where
  messages : ∀ x ∈ s.dueMessages, ¬ Null x
  stored : (s.dueMessages : Multiset (ChannelData M)) ≤ s.inputChannel.shared.stored.map Prod.snd
  unstopped : s.due = none → ∀ x ∈ s.inputChannel.begun, ¬ Null x.2
  draining : Draining (Shared.visit config) Null s.dueMessages s.inputChannel.threads.table

theorem Initial.stopping (h : s.Initial) : s.Stopping := by
  have hdue : s.dueMessages = [] := by rw [dueMessages, h.due]; rfl
  refine ⟨?_, ?_, fun _ => ?_, ?_⟩
  · simp [hdue]
  · rw [hdue]
    exact Multiset.zero_le _
  · simp [h.inputChannel.begun]
  · refine draining_of_none (exactlyOnce_of_reachable (MPSCQueue.table_of_reachable
      (.initial h.inputChannel))) ?_
    rw [show s.inputChannel.threads.table.stored = s.inputChannel.shared.stored from rfl,
      h.inputChannel.shared.stored]
    simp

/-- As long as the same messages are due, the queue alone decides. -/
theorem Stopping.proceed (hreachable : (system config M P).Reachable s) (h : s.Stopping)
    (hstep : Step s s') (hturn : s.NullInTurn s') :
    (s.dueMessages : Multiset (ChannelData M)) ≤ s'.inputChannel.shared.stored.map Prod.snd ∧
      Draining (Shared.visit config) Null s.dueMessages s'.inputChannel.threads.table := by
  obtain hqueue | heq := Step.inputChannel hstep
  · have hinput := inputChannel_of_reachable hreachable
    have htable := MPSCQueue.table_of_reachable hinput
    refine ⟨h.stored.trans ?_, ?_⟩
    · exact Multiset.coe_le.mpr ((MPSCQueue.Step.stored_initial hqueue).sublist.map Prod.snd).subperm
    · obtain hstep | hsame := MPSCQueue.Step.table hqueue hinput
      · exact hstep.draining (owned_of_reachable htable) (nextInLine_of_reachable htable)
          (exactlyOnce_of_reachable htable) h.stored h.draining hturn
      · rw [hsame]
        exact h.draining
  · rw [heq]
    exact ⟨h.stored, h.draining⟩

theorem Step.stopping (hreachable : (system config M P).Reachable s) (h : s.Stopping)
    (hstep : Step s s') (hturn : s.NullInTurn s') : s'.Stopping := by
  obtain ⟨hstored, hdraining⟩ := h.proceed hreachable hstep hturn
  cases hstep with
  | transferMsg p channelID msg hp =>
    refine ⟨h.messages, hstored, fun hdue x hx => ?_, hdraining⟩
    obtain hx | hx := List.mem_append.mp hx
    · exact h.unstopped hdue x hx
    · obtain rfl := List.mem_singleton.mp hx
      exact fun hnull => by cases hnull
  | stop p channelID hp =>
    cases hdue : s.due with
    | some due =>
      have hsame : dueMessages { s with
          inputChannel := s.inputChannel.called p ⟨channelID, none⟩
          due := some (s.due.getD (s.inputChannel.completed.map Prod.snd)) } = s.dueMessages := by
        simp [dueMessages, hdue]
      rw [hdue] at hsame
      exact ⟨hsame ▸ h.messages, hsame ▸ hstored, (fun hnone => by cases hnone), hsame ▸ hdraining⟩
    | none =>
      have hinput := inputChannel_of_reachable hreachable
      have hbegun := h.unstopped hdue
      have hstoredBegun : ∀ x ∈ s.inputChannel.shared.stored, ¬ Null x.2 := fun x hx =>
        hbegun x (Multiset.mem_of_le (MPSCQueue.stored_le_begun hinput) (Multiset.mem_coe.mpr hx))
      have hcompleted := MPSCQueue.completed_le_stored hinput
      have hcalled : (MPSCQueue.system config (ChannelData M) P Unit).Step s.inputChannel
          (s.inputChannel.called p ⟨channelID, none⟩) := MPSCQueue.Step.callPush _ p _ hp
      refine ⟨fun x hx => ?_, ?_, (fun hnone => by cases hnone), ?_⟩
      · obtain ⟨y, hy, rfl⟩ := List.mem_map.mp hx
        exact hstoredBegun y (Multiset.mem_of_le hcompleted (Multiset.mem_coe.mpr hy))
      · exact Multiset.map_le_map hcompleted
      · exact draining_of_none (exactlyOnce_of_reachable (MPSCQueue.table_of_reachable
          (hinput.reaches (.step (.refl _) hcalled)))) hstoredBegun
  | callPop hrun hc => exact ⟨h.messages, hstored, h.unstopped, hdraining⟩
  | proceed inputChannel hstep hcontinues =>
    refine ⟨h.messages, hstored, fun hdue => ?_, hdraining⟩
    simp only [hcontinues.begun]
    exact h.unstopped hdue
  | onMsg before channelData msg hrun hc hreturned hdata =>
    exact ⟨h.messages, hstored, h.unstopped, hdraining⟩
  | exit before channelData hrun hc hreturned hdata =>
    exact ⟨h.messages, hstored, h.unstopped, hdraining⟩

theorem stopping_of_reachable (h : ((system config M P).restrict NullInTurn).Reachable s) :
    s.Stopping := by
  refine h.invariant (I := Stopping) (fun _ => Initial.stopping) ?_
  rintro s s' hreachable hs ⟨hstep, hturn⟩
  exact Step.stopping hreachable.of_restrict hs hstep hturn

/-- While the worker is in no pop, everything it claimed is returned. -/
theorem returned_of_outside (h : (system config M P).Reachable s)
    (hc : s.inputChannel.consumers () = .outside) :
    s.inputChannel.shared.returned.map Prod.snd = s.inputChannel.shared.claimed.map Prod.snd := by
  have honce := (exactlyOnce_of_reachable (MPSCQueue.table_of_reachable
    (inputChannel_of_reachable h))).returned ()
  have hall : ∀ l : List (Unit × ChannelData M), l.filter (·.1 = ()) = l := fun l =>
    List.filter_eq_self.mpr fun x _ => decide_eq_true (Subsingleton.elim x.1 ())
  have hhand : s.inputChannel.threads.table.inHand () = [] := by
    simp [Table.inHand, Threads.table, Shared.table, MPSCQueue.threads, hc, MPSCPop.call, popPhase]
  rw [hhand, List.append_nil, Table.claimedBy, Table.returnedBy, hall, hall] at honce
  exact honce.symm

/-- What the callback gets was pushed, each message once. -/
theorem onMsg_le_begun (h : (system config M P).Reachable s) :
    (s.onMsg : Multiset (ChannelData M)) ≤ s.inputChannel.begun.map Prod.snd := by
  have hinput := inputChannel_of_reachable h
  have htable := MPSCQueue.table_of_reachable hinput
  have hreturned : (s.onMsg : Multiset (ChannelData M)) ≤
      s.inputChannel.shared.returned.map Prod.snd := by
    cases passed_of_reachable h with
    | loop _ _ hpassed | popping _ _ hpassed => rw [hpassed]
    | popped channelData _ _ hpassed | exited channelData _ _ _ hpassed =>
      rw [hpassed]
      exact Multiset.coe_le.mpr (List.prefix_append _ _).sublist.subperm
  have hclaimed : (s.inputChannel.shared.returned.map Prod.snd : Multiset (ChannelData M)) ≤
      s.inputChannel.shared.claimed.map Prod.snd :=
    Multiset.coe_le.mpr (returned_initial htable ()).sublist.subperm
  have hstored : (s.inputChannel.shared.claimed.map Prod.snd : Multiset (ChannelData M)) ≤
      s.inputChannel.shared.stored.map Prod.snd := by
    have honce := (exactlyOnce_of_reachable htable).stored
    exact (Multiset.le_add_right _ _).trans_eq honce.symm
  exact ((hreturned.trans hclaimed).trans hstored).trans
    (Multiset.map_le_map (MPSCQueue.stored_le_begun hinput))

/-- Calls of the queue go on while the worker waits for them. -/
theorem reaches_proceed {G : WorkerThread config M P → WorkerThread config M P → Prop}
    {q : MPSCQueue config (ChannelData M) P Unit}
    (hG : ∀ q q', G { s with inputChannel := q } { s with inputChannel := q' })
    (h : (MPSCQueue.running config (ChannelData M) P Unit).Reaches s.inputChannel q) :
    ((system config M P).restrict G).Reaches s { s with inputChannel := q } := by
  induction h with
  | refl => exact .refl s
  | tail _ hstep ih => exact ih.step ⟨Step.proceed _ _ hstep.1 hstep.2, hG _ _⟩

end Runs

/-- A worker that has not begun to run. -/
def start (config : QueueConfig) (channelData : ChannelData M) (P : Type) : WorkerThread config M P where
  inputChannel := MPSCQueue.start config channelData P Unit
  run := .loop
  onMsg := []
  due := none

theorem start_initial (channelData : ChannelData M) : (start config channelData P).Initial where
  inputChannel := MPSCQueue.start_initial config channelData P Unit
  run := rfl
  onMsg := rfl
  due := rfl

open TransitionSystem MPSCQueue

end WorkerThread

end LuPlatform.Thread
