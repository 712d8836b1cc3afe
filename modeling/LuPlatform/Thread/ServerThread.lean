import Mathlib.Data.Int.CardIntervalMod
import Mathlib.Data.List.Zip
import Mathlib.Logic.Function.Basic
import LuPlatform.Thread.EventChannel

/-! `ServerThread` and its client threads. The server socket takes connections from the queue of the listening
socket until there are none, the server thread passes each to the next of its client threads, as the address of
an object in an event, and the client thread makes a data socket of it and deletes the object. -/

namespace LuPlatform.Thread

open Transition Function

variable {C : Type} {n : Nat}

/-- The connections at the places `i`, `i + n`, `i + 2 * n` and so on. -/
def share (n i : Nat) (connections : List C) : List C :=
  (connections.zipIdx.filter fun connection => connection.2 % n = i).map Prod.fst

theorem share_append (i : Nat) (connections : List C) (c : C) :
    share n i (connections ++ [c]) =
      share n i connections ++ if connections.length % n = i then [c] else [] := by
  rw [share, share, List.zipIdx_append, List.filter_append, List.map_append, Nat.zero_add]
  congr 1
  by_cases h : connections.length % n = i
  · simp [h]
  · simp [h]

/-- The lengths of two shares differ by at most one. -/
theorem length_share [NeZero n] (i : Fin n) (connections : List C) : (share n i connections).length =
    connections.length / n + if (i : Nat) < connections.length % n then 1 else 0 := by
  have hcount : (share n i connections).length = connections.length.count (· ≡ i [MOD n]) := by
    induction connections using List.reverseRecOn with
    | nil => rfl
    | append_singleton connections c ih =>
      rw [share_append, List.length_append, ih, List.length_append, List.length_singleton, Nat.count_succ]
      simp only [Nat.ModEq, Nat.mod_eq_of_lt i.isLt]
      split <;> rfl
  rw [hcount, Nat.count_modEq_card _ (NeZero.pos n), Nat.mod_eq_of_lt i.isLt]

/-- A server with `n` client threads. `taken` are the connections that were accepted, with whether they were
passed on; `called` is how many callbacks of its channel a client thread has been through; `failed` tells of an
`accept` that failed with connections in the queue, and `dangling` of an address without an object. -/
structure Server (n : Nat) (C : Type) where
  backlog : List C
  edge : Bool
  accepting : Bool
  currentClientHandler : BitVec 32
  pipes : Fin n → EventPipe Unit
  called : Fin n → Nat
  sockets : BitVec 64 → Option C
  connections : Fin n → List C
  taken : List (C × Bool)
  failed : Bool
  dangling : Bool

def newConnection (address : BitVec 64) : EventData := ⟨EventData.NewConnection, 0#32, address⟩

/-- What `notify` does. -/
def EventPipe.notified (s : EventPipe Unit) (event : EventData) : EventPipe Unit :=
  { s with
    pipe := s.pipe ++ event.toBytes
    written := s.written ++ [((), event)] }

theorem EventPipe.events_notified (s : EventPipe Unit) (event : EventData) :
    (s.notified event).events = s.events ++ [event] := by
  rw [EventPipe.events, notified, List.map_append]
  rfl

theorem EventPipe.Delivering.length_own_le {s s' : EventPipe Unit} (h : s.Delivering) (h' : s'.Delivering)
    (hevents : s'.events = s.events) (hread : s'.pipe.length ≤ s.pipe.length) :
    s.channel.own.length ≤ s'.channel.own.length := by
  obtain ⟨hready, m, hhandled⟩ := h
  obtain ⟨hready', m', hhandled'⟩ := h'
  have hm : m ≤ m' := by
    rw [hhandled.eq hready, hhandled'.eq hready', EventPipe.bytesRead, EventPipe.bytesRead, hevents]
    exact Nat.div_le_div_right (Nat.sub_le_sub_left hread _)
  rw [hhandled.callbacks, hhandled'.callbacks, hevents]
  exact ((List.take_prefix_take_left hm).filterMap _).length_le

namespace Server

/-- `m_currentClientHandler % m_serverClientThreads.size()`. -/
def handler [NeZero n] (s : Server n C) : Fin n :=
  ⟨s.currentClientHandler.toNat % n, Nat.mod_lt _ (NeZero.pos n)⟩

def allocate (s : Server n C) (address : BitVec 64) (c : C) : Server n C :=
  { s with sockets := update s.sockets address (some c) }

def delete (s : Server n C) (address : BitVec 64) : Server n C :=
  { s with sockets := update s.sockets address none }

/-- The end of `ServerThread::onNewConnection`. -/
def passOn [NeZero n] (s : Server n C) (address : BitVec 64) : Server n C :=
  { s with
    currentClientHandler := BitVec.ofNat 32 s.handler + 1#32
    pipes := update s.pipes s.handler ((s.pipes s.handler).notified (newConnection address)) }

/-- `acceptDataSocket` takes the first connection of the queue. -/
def accept (s : Server n C) (address : BitVec 64) (c : C) (backlog : List C) (passedOn : Bool) : Server n C :=
  { s.allocate address c with
    backlog
    taken := s.taken ++ [(c, passedOn)] }

/-- `ClientThread::onNewConnection` and `onAppMsg`. -/
def callback (s : Server n C) (i : Fin n) : EventCallback → Server n C
  | .onNewConnection address =>
    match s.sockets address with
    | some c => { s.delete address with connections := update s.connections i (s.connections i ++ [c]) }
    | none => { s with dangling := true }
  | .onAppMsg .. => s

structure Initial (s : Server n C) : Prop where
  currentClientHandler : s.currentClientHandler = 0#32
  pipes : ∀ i, (s.pipes i).Initial
  called : ∀ i, s.called i = 0
  sockets : ∀ address, s.sockets address = none
  connections : ∀ i, s.connections i = []
  taken : s.taken = []
  backlog : s.backlog ≠ [] → s.edge = true
  accepting : s.accepting = false
  failed : s.failed = false
  dangling : s.dangling = false

/-- Connections arrive and raise an edge; the event loop takes it and the server socket accepts until nothing is
there. With `tls` a connection can fail in the handshake, and is an object of another class afterwards. The client
threads read their channels and go through the callbacks of what they have read. -/
inductive Step [NeZero n] (tls : Bool) : Server n C → Server n C → Prop
  | arrive (s) (c : C) : Step tls s { s with backlog := s.backlog ++ [c], edge := true }
  | onEvent (s) : s.edge = true → s.accepting = false → Step tls s { s with edge := false, accepting := true }
  | accept (s) (address : BitVec 64) (c : C) (backlog : List C) : tls = false → s.accepting = true →
      s.backlog = c :: backlog → s.sockets address = none →
      Step tls s ((s.accept address c backlog true).passOn address)
  | acceptTls (s) (address sslAddress : BitVec 64) (c : C) (backlog : List C) : tls = true → s.accepting = true →
      s.backlog = c :: backlog → s.sockets address = none →
      (s.accept address c backlog true).sockets sslAddress = none →
      Step tls s ((((s.accept address c backlog true).allocate sslAddress c).passOn sslAddress).delete address)
  | refuseTls (s) (address : BitVec 64) (c : C) (backlog : List C) : tls = true → s.accepting = true →
      s.backlog = c :: backlog → s.sockets address = none →
      Step tls s ((s.accept address c backlog false).delete address)
  | drained (s) : s.accepting = true → s.backlog = [] → Step tls s { s with accepting := false }
  | failed (s) : s.accepting = true → s.backlog ≠ [] → Step tls s { s with accepting := false, failed := true }
  | receive (s) (i : Fin n) (pipe : EventPipe Unit) (count : Nat) (channel : EventChannel) :
      s.called i = (s.pipes i).channel.own.length → 1 ≤ count → count ≤ (s.pipes i).pipe.length →
      count ≤ (s.pipes i).channel.numberOfBytesLeftToRecv →
      (s.pipes i).channel.receiveRound ((s.pipes i).pipe.take count) = some channel →
      pipe = { s.pipes i with channel, pipe := (s.pipes i).pipe.drop count } →
      Step tls s { s with pipes := update s.pipes i pipe }
  | callback (s) (i : Fin n) (callback : EventCallback) :
      (s.pipes i).channel.own[s.called i]? = some callback →
      Step tls s { s.callback i callback with called := update s.called i (s.called i + 1) }

def system [NeZero n] (C : Type) (tls : Bool) : TransitionSystem (Server n C) := ⟨Initial, Step tls⟩

def accepted (s : Server n C) : List C := (s.taken.filter fun connection => connection.2).map Prod.fst

/-- The event at place `k` of those for a client thread names an object, and was not called for. -/
def Names (s : Server n C) (i : Fin n) (k : Nat) (address : BitVec 64) : Prop :=
  s.called i ≤ k ∧ (s.pipes i).events[k]? = some (newConnection address)

/-- Connections are in the queue, and nothing will make the server thread look there. -/
structure Unattended (s : Server n C) : Prop where
  backlog : s.backlog ≠ []
  edge : s.edge = false
  accepting : s.accepting = false

/-- No event is left for a client thread. -/
def Idle (s : Server n C) (i : Fin n) : Prop :=
  (s.pipes i).pipe = [] ∧ s.called i = (s.pipes i).channel.own.length

end Server

/-! ### Who has the object -/

/-- The connection at place `k` of those handed to a client thread, with the address of its object, is still
waiting for the callback. -/
def Waits (called : Fin n → Nat) (handed : Fin n → List (BitVec 64 × C)) (i : Fin n) (k : Nat)
    (connection : BitVec 64 × C) : Prop :=
  called i ≤ k ∧ (handed i)[k]? = some connection

section Waits

variable {called : Fin n → Nat} {handed : Fin n → List (BitVec 64 × C)} {i j : Fin n} {k : Nat}
  {connection connection' : BitVec 64 × C}

theorem waits_handOver (hcalled : called j ≤ (handed j).length) :
    Waits called (update handed j (handed j ++ [connection'])) i k connection ↔
      Waits called handed i k connection ∨
        (i = j ∧ k = (handed j).length ∧ connection = connection') := by
  by_cases hij : i = j
  · subst hij
    simp only [Waits, update_self, true_and]
    rcases lt_trichotomy k (handed i).length with hk | hk | hk
    · rw [List.getElem?_append_left hk]
      simp [hk.ne]
    · subst hk
      simp [hcalled, eq_comm]
    · rw [List.getElem?_append_right hk.le]
      have hover : (handed i).length ≤ k := hk.le
      have hpast : k - (handed i).length ≠ 0 := by omega
      simp [hover, hk.ne', hpast]
  · simp [Waits, hij]

theorem waits_callback : Waits (update called j (called j + 1)) handed i k connection ↔
    Waits called handed i k connection ∧ ¬ (i = j ∧ k = called j) := by
  by_cases hij : i = j
  · subst hij
    simp only [Waits, update_self, true_and]
    constructor
    · rintro ⟨hk, hat⟩
      exact ⟨⟨by omega, hat⟩, by omega⟩
    · rintro ⟨⟨hk, hat⟩, hne⟩
      exact ⟨by omega, hat⟩
  · simp [Waits, hij]

end Waits

namespace Server

variable {s s' : Server n C} {handed : Fin n → List (BitVec 64 × C)} {tls : Bool}

/-- `handed i` are the connections that were handed to a client thread, with the addresses of their objects. Each
object is waiting at one place for its callback. -/
structure Carries [NeZero n] (s : Server n C) (handed : Fin n → List (BitVec 64 × C)) : Prop where
  delivering : ∀ i, (s.pipes i).Delivering
  events : ∀ i, (s.pipes i).events = (handed i).map fun connection => newConnection connection.1
  called : ∀ i, s.called i ≤ (s.pipes i).channel.own.length
  accepted : ∀ i : Fin n, (handed i).map Prod.snd = share n i s.accepted
  connections : ∀ i, s.connections i = ((handed i).take (s.called i)).map Prod.snd
  handler : s.currentClientHandler.toNat % n = s.accepted.length % n
  sockets : ∀ address c, s.sockets address = some c ↔ ∃ i k, Waits s.called handed i k (address, c)
  alone : ∀ i k j l address c d, Waits s.called handed i k (address, c) →
    Waits s.called handed j l (address, d) → i = j ∧ k = l
  dangling : s.dangling = false

/-- A server nobody has connected to. -/
def start (n : Nat) (C : Type) : Server n C where
  backlog := []
  edge := false
  accepting := false
  currentClientHandler := 0#32
  pipes _ := ⟨EventChannel.new (List.replicate EventChannel.BUFFER_SIZE 0), [], []⟩
  called _ := 0
  sockets _ := none
  connections _ := []
  taken := []
  failed := false
  dangling := false

theorem start_initial (n : Nat) (C : Type) : (start n C).Initial where
  currentClientHandler := rfl
  pipes _ := ⟨⟨_, List.length_replicate, rfl⟩, rfl, rfl⟩
  called _ := rfl
  sockets _ := rfl
  connections _ := rfl
  taken := rfl
  backlog hsome := absurd rfl hsome
  accepting := rfl
  failed := rfl
  dangling := rfl

theorem Initial.carries [NeZero n] (h : s.Initial) : s.Carries fun _ => [] where
  delivering i := (h.pipes i).delivering
  events i := by rw [EventPipe.events, (h.pipes i).written]; rfl
  called i := by rw [h.called i]; exact Nat.zero_le _
  accepted i := by rw [Server.accepted, h.taken]; rfl
  connections i := by rw [h.connections i]; simp
  handler := by rw [h.currentClientHandler, Server.accepted, h.taken]; rfl
  sockets address c := by simp [h.sockets address, Waits]
  alone i k j l address c d hwaits := by simp [Waits] at hwaits
  dangling := h.dangling

section Carries

variable [NeZero n]

/-- The callbacks of a channel are for the first of the connections that were handed over. -/
theorem Carries.own (h : s.Carries handed) (i : Fin n) : ∃ m, (s.pipes i).Handled m ∧
    (s.pipes i).channel.own = ((handed i).take m).map fun connection => .onNewConnection connection.1 := by
  obtain ⟨-, m, hhandled⟩ := h.delivering i
  refine ⟨m, hhandled, ?_⟩
  rw [hhandled.callbacks, h.events i, ← List.map_take, List.filterMap_map, ← List.filterMap_eq_map]
  rfl

theorem Carries.called_le (h : s.Carries handed) (i : Fin n) : s.called i ≤ (handed i).length := by
  obtain ⟨m, -, hown⟩ := h.own i
  have hcalled := h.called i
  rw [hown, List.length_map, List.length_take] at hcalled
  omega

/-- Nothing that the invariant speaks of has changed. -/
theorem Carries.congr (h : s.Carries handed) (hpipes : s'.pipes = s.pipes) (hcalled : s'.called = s.called)
    (hsockets : s'.sockets = s.sockets) (hconnections : s'.connections = s.connections)
    (hhandler : s'.currentClientHandler = s.currentClientHandler) (haccepted : s'.accepted = s.accepted)
    (hdangling : s'.dangling = s.dangling) : s'.Carries handed where
  delivering := hpipes ▸ h.delivering
  events := hpipes ▸ h.events
  called := hpipes ▸ hcalled ▸ h.called
  accepted := haccepted ▸ h.accepted
  connections := hconnections ▸ hcalled ▸ h.connections
  handler := hhandler ▸ haccepted ▸ h.handler
  sockets := hsockets ▸ hcalled ▸ h.sockets
  alone := hcalled ▸ h.alone
  dangling := hdangling ▸ h.dangling

section Callback

omit [NeZero n]

variable (s : Server n C) (i : Fin n) (callback : EventCallback)

theorem pipes_callback : (s.callback i callback).pipes = s.pipes := by
  cases callback with
  | onNewConnection address =>
    rw [Server.callback]
    split <;> rfl
  | onAppMsg data channelID => rfl

theorem taken_callback : (s.callback i callback).taken = s.taken := by
  cases callback with
  | onNewConnection address =>
    rw [Server.callback]
    split <;> rfl
  | onAppMsg data channelID => rfl

end Callback

omit [NeZero n] in
theorem accepted_accept (s : Server n C) (address : BitVec 64) (c : C) (backlog : List C) (passedOn : Bool) :
    (s.accept address c backlog passedOn).accepted = s.accepted ++ if passedOn then [c] else [] := by
  cases passedOn <;> simp [Server.accepted, accept]

/-- The handler after the one at hand. -/
theorem handler_passOn (hn : n ≤ 2 ^ 32) (s : Server n C) :
    (BitVec.ofNat 32 s.handler + 1#32).toNat % n = (s.handler + 1) % n := by
  have hlt := s.handler.isLt
  rw [BitVec.toNat_add, BitVec.toNat_ofNat, BitVec.toNat_ofNat, Nat.mod_eq_of_lt (hlt.trans_le hn)]
  rcases Nat.lt_or_ge (s.handler + 1) (2 ^ 32) with hsmall | hlast
  · rw [show 1 % 2 ^ 32 = 1 from rfl, Nat.mod_eq_of_lt hsmall]
  · have hwrap : s.handler.val + 1 = 2 ^ 32 := by omega
    have hall : n = 2 ^ 32 := by omega
    rw [show 1 % 2 ^ 32 = 1 from rfl, hwrap, hall, Nat.mod_mod]

theorem Carries.passOn (hn : n ≤ 2 ^ 32) (h : s.Carries handed) {address : BitVec 64}
    (hfree : s.sockets address = none) (c : C) (backlog : List C) :
    ((s.accept address c backlog true).passOn address).Carries
      (update handed s.handler (handed s.handler ++ [(address, c)])) := by
  have hhanded := h.called_le s.handler
  have hfresh : ∀ i k d, ¬ Waits s.called handed i k (address, d) := by
    intro i k d hwaits
    have hsome := (h.sockets address d).2 ⟨i, k, hwaits⟩
    rw [hfree] at hsome
    cases hsome
  have haccepted : ((s.accept address c backlog true).passOn address).accepted = s.accepted ++ [c] :=
    accepted_accept s address c backlog true
  constructor
  case delivering =>
    intro i
    change (update s.pipes s.handler _ i).Delivering
    rw [update_apply]
    split
    · exact EventPipe.Step.delivering (.notify _ () (newConnection address)) (h.delivering s.handler)
    · exact h.delivering i
  case events =>
    intro i
    change (update s.pipes s.handler ((s.pipes s.handler).notified (newConnection address)) i).events = _
    rw [update_apply, update_apply]
    split
    · rw [EventPipe.events_notified, h.events, List.map_append]
      rfl
    · exact h.events i
  case called =>
    intro i
    change s.called i ≤ (update s.pipes s.handler _ i).channel.own.length
    rw [update_apply]
    split
    case isTrue hi => exact hi ▸ h.called i
    · exact h.called i
  case accepted =>
    intro i
    have hat : s.currentClientHandler.toNat % n = s.handler := rfl
    rw [haccepted, share_append, ← h.handler, update_apply, ← h.accepted i, hat]
    by_cases hi : i = s.handler
    · rw [if_pos hi, if_pos (hi ▸ rfl), List.map_append, hi]
      rfl
    · rw [if_neg hi, if_neg fun hsame => hi (Fin.ext hsame.symm), List.append_nil]
  case connections =>
    intro i
    change s.connections i = ((update handed s.handler _ i).take (s.called i)).map Prod.snd
    rw [update_apply, h.connections i]
    split
    case isTrue hi => rw [hi, List.take_append_of_le_length hhanded]
    · rfl
  case handler =>
    rw [haccepted, List.length_append, List.length_singleton, Nat.add_mod, ← h.handler]
    exact (handler_passOn hn s).trans (Nat.add_mod_mod ..).symm
  case sockets =>
    intro q d
    change update s.sockets address (some c) q = some d ↔ ∃ i k, Waits s.called _ i k (q, d)
    simp only [waits_handOver hhanded]
    rw [update_apply]
    split
    case isTrue hq =>
      subst hq
      simp only [hfresh, false_or, Prod.mk.injEq, true_and, Option.some.injEq]
      exact ⟨fun hd => ⟨_, _, rfl, rfl, hd.symm⟩, fun ⟨_, _, _, _, hd⟩ => hd.symm⟩
    case isFalse hq => simp [hq, h.sockets q d]
  case alone =>
    intro i k j l q d e hd he
    have hd' := (waits_handOver hhanded).1 hd
    have he' := (waits_handOver hhanded).1 he
    rcases hd' with hd' | ⟨rfl, rfl, hd'⟩
    · rcases he' with he' | ⟨rfl, rfl, he'⟩
      · exact h.alone i k j l q d e hd' he'
      · obtain ⟨rfl, rfl⟩ := Prod.mk.inj he'
        exact absurd hd' (hfresh i k d)
    · obtain ⟨rfl, rfl⟩ := Prod.mk.inj hd'
      rcases he' with he' | ⟨rfl, rfl, he'⟩
      · exact absurd he' (hfresh j l e)
      · exact ⟨rfl, rfl⟩
  case dangling => exact h.dangling

theorem Carries.receive (h : s.Carries handed) {i : Fin n} {pipe : EventPipe Unit}
    (hstep : EventPipe.Step (s.pipes i) pipe) (hwritten : pipe.written = (s.pipes i).written)
    (hread : pipe.pipe.length ≤ (s.pipes i).pipe.length) :
    { s with pipes := update s.pipes i pipe }.Carries handed := by
  have hdelivering := hstep.delivering (h.delivering i)
  have hevents : pipe.events = (s.pipes i).events := congrArg (List.map Prod.snd) hwritten
  refine ⟨?_, ?_, ?_, h.accepted, h.connections, h.handler, h.sockets, h.alone, h.dangling⟩
  · intro j
    change (update s.pipes i pipe j).Delivering
    rw [update_apply]
    split
    · exact hdelivering
    · exact h.delivering j
  · intro j
    change (update s.pipes i pipe j).events = _
    rw [update_apply]
    split
    case isTrue hji => rw [hevents, h.events, hji]
    · exact h.events j
  · intro j
    change s.called j ≤ (update s.pipes i pipe j).channel.own.length
    rw [update_apply]
    split
    case isTrue hji =>
      subst hji
      exact (h.called j).trans ((h.delivering j).length_own_le hdelivering hevents hread)
    · exact h.called j

theorem Carries.callback (h : s.Carries handed) {i : Fin n} {callback : EventCallback}
    (hcallback : (s.pipes i).channel.own[s.called i]? = some callback) :
    { s.callback i callback with called := update s.called i (s.called i + 1) }.Carries handed := by
  obtain ⟨m, -, hown⟩ := h.own i
  have hlt := (List.getElem?_eq_some_iff.1 hcallback).1
  rw [hown, List.getElem?_map, Option.map_eq_some_iff] at hcallback
  obtain ⟨⟨address, c⟩, hat, rfl⟩ := hcallback
  have hfirst : (handed i)[s.called i]? = some (address, c) := by
    rw [List.getElem?_take, Option.ite_none_right_eq_some] at hat
    exact hat.2
  have hwaits : Waits s.called handed i (s.called i) (address, c) := ⟨le_rfl, hfirst⟩
  have hsome := (h.sockets address c).2 ⟨i, _, hwaits⟩
  have hresult : s.callback i (.onNewConnection address) =
      { s.delete address with connections := update s.connections i (s.connections i ++ [c]) } := by
    simp [Server.callback, hsome]
  rw [hresult]
  refine ⟨h.delivering, h.events, ?_, h.accepted, ?_, h.handler, ?_, ?_, h.dangling⟩
  · intro j
    change update s.called i (s.called i + 1) j ≤ _
    rw [update_apply]
    split
    case isTrue hji => exact hji ▸ hlt
    · exact h.called j
  · intro j
    change update s.connections i (s.connections i ++ [c]) j =
      ((handed j).take (update s.called i (s.called i + 1) j)).map Prod.snd
    rw [update_apply, update_apply]
    split
    case isTrue hji =>
      rw [hji, List.take_add_one, hfirst, List.map_append, ← h.connections i]
      rfl
    · exact h.connections j
  · intro q d
    change update s.sockets address none q = some d ↔
      ∃ j k, Waits (update s.called i (s.called i + 1)) handed j k (q, d)
    simp only [waits_callback]
    rw [update_apply]
    split
    case isTrue hq =>
      subst hq
      refine iff_of_false (by simp) ?_
      rintro ⟨j, k, hother, hne⟩
      obtain ⟨rfl, rfl⟩ := h.alone _ _ _ _ _ _ _ hwaits hother
      exact hne ⟨rfl, rfl⟩
    case isFalse hq =>
      rw [h.sockets q d]
      refine exists_congr fun j => exists_congr fun k => (and_iff_left_of_imp ?_).symm
      rintro ⟨-, hd⟩ ⟨rfl, rfl⟩
      rw [hfirst] at hd
      exact hq (congrArg Prod.fst (Option.some.inj hd)).symm
  · intro j k l m q d e hd he
    exact h.alone _ _ _ _ _ _ _ (waits_callback.1 hd).1 (waits_callback.1 he).1

/-- With the object for the plain connection deleted, an object for TLS is one like any other. -/
theorem acceptTls_eq {address sslAddress : BitVec 64} {c : C} {backlog : List C}
    (hfree : s.sockets address = none)
    (hother : (s.accept address c backlog true).sockets sslAddress = none) :
    (((s.accept address c backlog true).allocate sslAddress c).passOn sslAddress).delete address =
      (s.accept sslAddress c backlog true).passOn sslAddress := by
  have hne : address ≠ sslAddress := by
    rintro rfl
    simp [accept, allocate] at hother
  have hsockets : update (update (update s.sockets address (some c)) sslAddress (some c)) address none =
      update s.sockets sslAddress (some c) := by
    rw [update_comm hne, update_idem, ← hfree, update_comm hne.symm, update_eq_self]
  simp only [accept, allocate, passOn, delete, handler, hsockets]

theorem Step.carries (hn : n ≤ 2 ^ 32) (hstep : Step tls s s') (h : s.Carries handed) :
    ∃ handed', s'.Carries handed' := by
  cases hstep with
  | arrive c => exact ⟨handed, h.congr rfl rfl rfl rfl rfl rfl rfl⟩
  | onEvent hedge hidle => exact ⟨handed, h.congr rfl rfl rfl rfl rfl rfl rfl⟩
  | accept address c backlog htls haccepting hbacklog hfree => exact ⟨_, h.passOn hn hfree c backlog⟩
  | acceptTls address sslAddress c backlog htls haccepting hbacklog hfree hother =>
    have hfree' : s.sockets sslAddress = none := by
      by_cases hsame : sslAddress = address
      · exact hsame ▸ hfree
      · have hother' : update s.sockets address (some c) sslAddress = none := hother
        rwa [update_of_ne hsame] at hother'
    exact ⟨_, acceptTls_eq hfree hother ▸ h.passOn hn hfree' c backlog⟩
  | refuseTls address c backlog htls haccepting hbacklog hfree =>
    have hsockets : update (update s.sockets address (some c)) address none = s.sockets := by
      rw [update_idem, ← hfree, update_eq_self]
    exact ⟨handed, h.congr rfl rfl hsockets rfl rfl
      ((accepted_accept s address c backlog false).trans (List.append_nil _)) rfl⟩
  | drained haccepting hbacklog => exact ⟨handed, h.congr rfl rfl rfl rfl rfl rfl rfl⟩
  | failed haccepting hbacklog => exact ⟨handed, h.congr rfl rfl rfl rfl rfl rfl rfl⟩
  | receive i pipe count channel hdone hpos hpipe hasked hround hresult =>
    subst hresult
    refine ⟨handed, h.receive (.receive _ count channel hpos hpipe hasked hround) rfl ?_⟩
    rw [List.length_drop]
    exact Nat.sub_le ..
  | callback i callback hcallback => exact ⟨handed, h.callback hcallback⟩

open TransitionSystem

theorem carries_of_reachable (hn : n ≤ 2 ^ 32) (h : (system (n := n) C tls).Reachable s) :
    ∃ handed, s.Carries handed := by
  refine h.invariant (I := fun s => ∃ handed, s.Carries handed)
    (fun _ hs => ⟨_, Initial.carries hs⟩) ?_
  rintro s s' - ⟨handed, hs⟩ hstep
  exact Step.carries hn hstep hs

/-- With an empty pipe, the channel has called for all. -/
theorem Carries.own_of_empty (h : s.Carries handed) {i : Fin n} (hempty : (s.pipes i).pipe = []) :
    (s.pipes i).channel.own = (handed i).map fun connection => .onNewConnection connection.1 := by
  obtain ⟨m, hhandled, hown⟩ := h.own i
  have hall : m = (handed i).length := by
    rw [hhandled.eq (h.delivering i).1, EventPipe.bytesRead, hempty, List.length_nil, Nat.sub_zero,
      Nat.mul_div_cancel _ (by decide), h.events i, List.length_map]
  rw [hown, hall, List.take_length]

theorem Carries.called_of_idle (h : s.Carries handed) {i : Fin n} (hidle : s.Idle i) :
    s.called i = (handed i).length := by
  rw [hidle.2, h.own_of_empty hidle.1, List.length_map]

theorem Carries.connections_of_idle (h : s.Carries handed) {i : Fin n} (hidle : s.Idle i) :
    s.connections i = share n i s.accepted := by
  rw [h.connections i, h.called_of_idle hidle, List.take_length, h.accepted i]

/-- Without TLS, all that is accepted is passed on. -/
theorem accepted_eq_taken (h : (system (n := n) C false).Reachable s) : s.accepted = s.taken.map Prod.fst := by
  have hall : ∀ connection ∈ s.taken, connection.2 = true := by
    refine h.invariant (I := fun s => ∀ connection ∈ s.taken, connection.2 = true) ?_ ?_
    · intro s hs
      rw [show s.taken = [] from Initial.taken hs]
      simp
    · rintro s s' - hs hstep
      cases hstep with
      | accept address c backlog htls haccepting hbacklog hfree =>
        intro connection hconnection
        rcases List.mem_append.1 hconnection with hbefore | hnew
        · exact hs connection hbefore
        · rw [List.mem_singleton.1 hnew]
      | acceptTls address sslAddress c backlog htls => cases htls
      | refuseTls address c backlog htls => cases htls
      | callback i callback hcallback => exact (taken_callback s i callback).symm ▸ hs
      | _ => exact hs
  rw [Server.accepted, List.filter_eq_self.2 hall]

variable (tls) in
/-- A client thread goes through the callbacks of what it has read. The induction is on how many there are. -/
theorem reaches_called (h : s.Carries handed) (i : Fin n) :
    ∃ s', (system C tls).Reaches s s' ∧ s'.pipes = s.pipes ∧ s'.taken = s.taken ∧
      s'.called = update s.called i (s.pipes i).channel.own.length := by
  obtain ⟨left, hleft⟩ := Nat.exists_eq_add_of_le (h.called i)
  induction left generalizing s handed with
  | zero => exact ⟨s, .refl s, rfl, rfl, by rw [hleft, Nat.add_zero, update_eq_self]⟩
  | succ left ih =>
    have hlt : s.called i < (s.pipes i).channel.own.length := by omega
    set callback := (s.pipes i).channel.own[s.called i]
    have hcallback : (s.pipes i).channel.own[s.called i]? = some callback := List.getElem?_eq_getElem hlt
    have hpipes := pipes_callback s i callback
    obtain ⟨t, hreaches, hpipes', htaken', hcalled'⟩ := ih (h.callback hcallback) (by
      simp only [hpipes, update_self]
      omega)
    refine ⟨t, .trans (.step (.refl s) (.callback s i callback hcallback)) hreaches, hpipes'.trans hpipes,
      htaken'.trans (taken_callback s i callback), ?_⟩
    rw [hcalled']
    simp only [hpipes, update_idem]

/-- A client thread reads what is in its pipe. Each read takes something, as the buffer always has room. -/
theorem reaches_idle_one (hn : n ≤ 2 ^ 32) (h : (system (n := n) C tls).Reachable s) (i : Fin n) :
    ∃ s', (system C tls).Reaches s s' ∧ s'.taken = s.taken ∧ s'.Idle i ∧
      ∀ j, s.Idle j → s'.Idle j := by
  induction hlength : (s.pipes i).pipe.length using Nat.strong_induction_on generalizing s with
  | _ length ih =>
    obtain ⟨handed, hcarries⟩ := carries_of_reachable hn h
    obtain ⟨t, hreaches, hpipes, htaken, hcalled⟩ := reaches_called tls hcarries i
    have hdone : t.called i = (t.pipes i).channel.own.length := by rw [hcalled, update_self, hpipes]
    have hkept : ∀ j, s.Idle j → t.Idle j := by
      rintro j ⟨hempty, hall⟩
      refine ⟨hpipes ▸ hempty, ?_⟩
      rw [hcalled, update_apply, hpipes]
      split
      case isTrue hji => rw [hji]
      · exact hall
    by_cases hempty : (t.pipes i).pipe = []
    · exact ⟨t, hreaches, htaken, ⟨hempty, hdone⟩, hkept⟩
    · obtain ⟨handed', hcarries'⟩ := carries_of_reachable hn (h.reaches hreaches)
      have hdelivering := hcarries'.delivering i
      have hroom : 0 < (t.pipes i).channel.numberOfBytesLeftToRecv := by
        have hsize : EventData.size ≤ EventChannel.BUFFER_SIZE := by decide
        have hleft := hdelivering.1.left
        rw [hdelivering.1.leftToRecv]
        omega
      have hpipe : 0 < (t.pipes i).pipe.length := List.length_pos_of_ne_nil hempty
      set count := min (t.pipes i).pipe.length (t.pipes i).channel.numberOfBytesLeftToRecv with hcount
      have hasked : count ≤ (t.pipes i).channel.numberOfBytesLeftToRecv := by omega
      obtain ⟨channel, hround, -⟩ := hdelivering.receive hasked
      have hstep : Step tls t _ := .receive t i _ count channel hdone (by omega) (by omega) hasked hround rfl
      obtain ⟨u, hreaches', htaken', hidle, hkept'⟩ := ih ((t.pipes i).pipe.length - count)
        (by rw [← hlength, ← hpipes]; omega) (h.reaches (hreaches.step hstep))
        (by simp only [update_self, List.length_drop])
      refine ⟨u, (hreaches.step hstep).trans hreaches', htaken'.trans htaken, hidle, fun j hj => hkept' j ?_⟩
      have hj' := hkept j hj
      by_cases hji : j = i
      · subst hji
        exact absurd hj'.1 hempty
      · simpa only [Idle, update_of_ne hji] using hj'

theorem reaches_idle (hn : n ≤ 2 ^ 32) (h : (system (n := n) C tls).Reachable s) :
    ∃ s', (system C tls).Reaches s s' ∧ s'.taken = s.taken ∧ ∀ i, s'.Idle i := by
  have hsome : ∀ threads : Finset (Fin n), ∃ s', (system C tls).Reaches s s' ∧ s'.taken = s.taken ∧
      ∀ i ∈ threads, s'.Idle i := by
    intro threads
    induction threads using Finset.induction_on with
    | empty => exact ⟨s, .refl s, rfl, by simp⟩
    | insert i threads hi ih =>
      obtain ⟨t, hreaches, htaken, hidle⟩ := ih
      obtain ⟨u, hreaches', htaken', hi', hkept⟩ := reaches_idle_one hn (h.reaches hreaches) i
      refine ⟨u, hreaches.trans hreaches', htaken'.trans htaken, fun j hj => ?_⟩
      rcases Finset.mem_insert.1 hj with rfl | hj
      · exact hi'
      · exact hkept j (hidle j hj)
  obtain ⟨s', hreaches, htaken, hidle⟩ := hsome Finset.univ
  exact ⟨s', hreaches, htaken, fun i => hidle i (Finset.mem_univ i)⟩

/-- A server with two client threads, one of which has taken a connection over. -/
theorem exists_adopted : ∃ s : Server 2 Bool,
    (system Bool false).Reachable s ∧ s.accepted = [true] ∧ ∀ i, s.Idle i := by
  have hstart : (system Bool false).Reachable (start 2 Bool) := .initial (start_initial 2 Bool)
  have hnew := ((hstart.step (.arrive _ true)).step (.onEvent _ rfl rfl)).step
    (.accept _ 16#64 true [] rfl rfl rfl rfl)
  obtain ⟨t, hreaches, htaken, hidle⟩ := reaches_idle (by decide) hnew
  exact ⟨t, hnew.reaches hreaches, congrArg (fun taken => (taken.filter Prod.snd).map Prod.fst) htaken, hidle⟩

/-- However the client threads read their channels, each has made data sockets of the first of its share of the
connections that were passed on, in turn and in the order in which they were accepted. A client thread with nothing
left to read has them all; when all are there, the numbers differ by at most one. -/
theorem connections_of_reachable (hn : n ≤ 2 ^ 32) (h : (system (n := n) C tls).Reachable s) :
    (∀ i : Fin n, s.connections i <+: share n i s.accepted) ∧
      (∀ i : Fin n, s.Idle i → s.connections i = share n i s.accepted) ∧
      ((∀ i, s.Idle i) → ∀ i j, (s.connections i).length ≤ (s.connections j).length + 1) ∧
      (tls = false → s.accepted = s.taken.map Prod.fst) := by
  obtain ⟨handed, hcarries⟩ := carries_of_reachable hn h
  refine ⟨fun i => ?_, fun i => hcarries.connections_of_idle, fun hidle i j => ?_, ?_⟩
  · rw [hcarries.connections i, ← hcarries.accepted i]
    exact (List.take_prefix ..).map _
  · rw [hcarries.connections_of_idle (hidle i), hcarries.connections_of_idle (hidle j), length_share,
      length_share]
    split <;> split <;> omega
  · rintro rfl
    exact accepted_eq_taken h

theorem connections_of_reachable_two : ∃ s : Server 2 Bool, s.connections 0 = [true] ∧ s.connections 1 = [] := by
  obtain ⟨s, hreachable, haccepted, hidle⟩ := exists_adopted
  have hconnections := (connections_of_reachable (by decide) hreachable).2.1
  refine ⟨s, ?_, ?_⟩
  · rw [hconnections 0 (hidle 0), haccepted]
    rfl
  · rw [hconnections 1 (hidle 1), haccepted]
    rfl

theorem Carries.names_iff (h : s.Carries handed) {i : Fin n} {k : Nat} {address : BitVec 64} :
    s.Names i k address ↔ ∃ c, Waits s.called handed i k (address, c) := by
  rw [Names, h.events i, List.getElem?_map]
  constructor
  · rintro ⟨hk, hat⟩
    obtain ⟨⟨address', c⟩, hat', hevent⟩ := Option.map_eq_some_iff.1 hat
    obtain rfl : address' = address := congrArg EventData.data hevent
    exact ⟨c, hk, hat'⟩
  · rintro ⟨c, hk, hat⟩
    exact ⟨hk, by rw [hat]; rfl⟩

/-- No client thread gets an address whose object is gone. An object is there exactly as long as an event names it
that was not called for, one event names it, and the client threads can always go on, without another connection,
until each has its share and no object is left. -/
theorem sockets_of_reachable (hn : n ≤ 2 ^ 32) (h : (system (n := n) C tls).Reachable s) :
    s.dangling = false ∧
      (∀ address, s.sockets address ≠ none ↔ ∃ i k, s.Names i k address) ∧
      (∀ address i k j l, s.Names i k address → s.Names j l address → i = j ∧ k = l) ∧
      ∃ s', (system C tls).Reaches s s' ∧ s'.taken = s.taken ∧
        (∀ i : Fin n, s'.connections i = share n i s.accepted) ∧ ∀ address, s'.sockets address = none := by
  obtain ⟨handed, hcarries⟩ := carries_of_reachable hn h
  obtain ⟨s', hreaches, htaken, hidle⟩ := reaches_idle hn h
  obtain ⟨handed', hcarries'⟩ := carries_of_reachable hn (h.reaches hreaches)
  refine ⟨hcarries.dangling, fun address => ?_, ?_, s', hreaches, htaken, fun i => ?_, fun address => ?_⟩
  · simp only [hcarries.names_iff, Option.ne_none_iff_exists', hcarries.sockets]
    exact ⟨fun ⟨c, i, k, hwaits⟩ => ⟨i, k, c, hwaits⟩, fun ⟨i, k, c, hwaits⟩ => ⟨c, i, k, hwaits⟩⟩
  · intro address i k j l hi hj
    obtain ⟨c, hc⟩ := hcarries.names_iff.1 hi
    obtain ⟨d, hd⟩ := hcarries.names_iff.1 hj
    exact hcarries.alone i k j l address c d hc hd
  · rw [hcarries'.connections_of_idle (hidle i), Server.accepted, htaken]
    rfl
  · by_contra hsome
    obtain ⟨c, hc⟩ := Option.ne_none_iff_exists'.1 hsome
    obtain ⟨i, k, hk, hat⟩ := (hcarries'.sockets address c).1 hc
    rw [hcarries'.called_of_idle (hidle i)] at hk
    rw [List.getElem?_eq_none hk] at hat
    cases hat

theorem sockets_of_reachable_two : ∃ s : Server 2 Bool, s.connections 0 = [true] ∧
    ∀ address, s.sockets address = none := by
  obtain ⟨s, hreachable, haccepted, -⟩ := exists_adopted
  obtain ⟨-, -, -, s', -, -, hconnections, hsockets⟩ := sockets_of_reachable (by decide) hreachable
  refine ⟨s', ?_, hsockets⟩
  rw [hconnections 0, haccepted]
  rfl

end Carries

/-! ### The queue of the listening socket -/

section Queue

open TransitionSystem

variable [NeZero n]

def Attended (s : Server n C) : Prop :=
  s.backlog ≠ [] → s.edge = true ∨ s.accepting = true ∨ s.failed = true

theorem Step.attended (hstep : Step tls s s') (h : s.Attended) : s'.Attended := by
  cases hstep with
  | arrive c => exact fun _ => .inl rfl
  | onEvent hedge hidle => exact fun _ => .inr (.inl rfl)
  | accept address c backlog htls haccepting => exact fun _ => .inr (.inl haccepting)
  | acceptTls address sslAddress c backlog htls haccepting => exact fun _ => .inr (.inl haccepting)
  | refuseTls address c backlog htls haccepting => exact fun _ => .inr (.inl haccepting)
  | drained haccepting hbacklog => exact fun hsome => absurd hbacklog hsome
  | failed haccepting hbacklog => exact fun _ => .inr (.inr rfl)
  | receive => exact h
  | callback i callback hcallback =>
    cases callback with
    | onNewConnection address =>
      rw [Attended, Server.callback]
      split <;> exact h
    | onAppMsg data channelID => exact h

theorem Step.unattended (hstep : Step tls s s') (hless : s'.backlog.length ≤ s.backlog.length)
    (h : s.Unattended) : s'.Unattended ∧ s'.backlog = s.backlog := by
  have hquiet : s.accepting ≠ true := by simp [h.accepting]
  cases hstep with
  | arrive c =>
    rw [List.length_append, List.length_singleton] at hless
    omega
  | onEvent hedge hidle => rw [h.edge] at hedge; cases hedge
  | accept address c backlog htls haccepting => exact absurd haccepting hquiet
  | acceptTls address sslAddress c backlog htls haccepting => exact absurd haccepting hquiet
  | refuseTls address c backlog htls haccepting => exact absurd haccepting hquiet
  | drained haccepting hbacklog => exact absurd haccepting hquiet
  | failed haccepting hbacklog => exact absurd haccepting hquiet
  | receive => exact ⟨⟨h.backlog, h.edge, h.accepting⟩, rfl⟩
  | callback i callback hcallback =>
    cases callback with
    | onNewConnection address =>
      rw [Server.callback]
      split <;> exact ⟨⟨h.backlog, h.edge, h.accepting⟩, rfl⟩
    | onAppMsg data channelID => exact ⟨⟨h.backlog, h.edge, h.accepting⟩, rfl⟩

/-- The server thread leaves connections in the queue only after an `accept` that failed, and then they wait for
the next one that arrives, whatever the threads do. -/
theorem unattended_of_reachable (h : (system (n := n) C tls).Reachable s) (hunattended : s.Unattended) :
    s.failed = true ∧
      ∀ s', ((system C tls).restrict fun t t' => t'.backlog.length ≤ t.backlog.length).Reaches s s' →
        s'.Unattended ∧ s'.backlog = s.backlog := by
  refine ⟨?_, fun s' hreaches => ?_⟩
  · have hattended : s.Attended := by
      refine h.invariant (I := Attended) (fun s hs hsome => .inl (Initial.backlog hs hsome)) ?_
      exact fun s s' _ hs hstep => Step.attended hstep hs
    rcases hattended hunattended.backlog with hedge | haccepting | hfailed
    · rw [hunattended.edge] at hedge
      cases hedge
    · rw [hunattended.accepting] at haccepting
      cases haccepting
    · exact hfailed
  · induction hreaches with
    | refl => exact ⟨hunattended, rfl⟩
    | tail _ hlast ih =>
      obtain ⟨hstill, hsame⟩ := hlast.1.unattended hlast.2 ih.1
      exact ⟨hstill, hsame.trans ih.2⟩

theorem unattended_of_reachable_once : ∃ s : Server 2 Bool, s.backlog = [true] ∧ s.failed = true := by
  have hstart : (system Bool false).Reachable (start 2 Bool) := .initial (start_initial 2 Bool)
  have hfailed := ((hstart.step (.arrive _ true)).step (.onEvent _ rfl rfl)).step
    (.failed _ rfl (List.cons_ne_nil true []))
  exact ⟨_, rfl, (unattended_of_reachable hfailed ⟨List.cons_ne_nil true [], rfl, rfl⟩).1⟩

end Queue

end Server

end LuPlatform.Thread
