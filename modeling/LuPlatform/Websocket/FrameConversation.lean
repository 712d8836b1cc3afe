import LuPlatform.Websocket.FrameChunking
import Mathlib.Logic.Relation

/-! The end of a conversation. A frame that was refused by `setError` stays invalid, and nothing is
delivered after it. The other ends leave the frame alive: `reset` revives it after a close frame, and
a frame that is out of place, or a fragment that was collected, is left valid and done, with the
opcode of a close frame, for the next call to find. -/

namespace LuPlatform.Websocket

open Bytes Loop Feed

namespace Frame

/-- A call after which nothing may be delivered: it reported a close frame or a violation. -/
def Ends (call : List FrameEvent × Exit) : Prop :=
  (∃ closeCode, .onClose closeCode ∈ call.1) ∨ call.2.violation

/-- No call makes a callback once an earlier one has ended the conversation. -/
def NothingAfterTheEnd (calls : List (List FrameEvent × Exit)) : Prop :=
  calls.Pairwise fun earlier later => Ends earlier → later.1 = []

/-- The round the loop is about to make takes one of the branches that end the conversation without
making the frame invalid: it reports a close frame, or the data branch returns. -/
def LeavesAlive (p : Processing) : Prop :=
  p.socketData.getDataLeftToRead ≠ 0 ∧
    ∃ f d, p.frame.readFrame p.socketData = some (f, d) ∧ f.processingState = .done ∧
      f.isValid = true ∧
      (f.isControlFrame = true ∧ f.opCode = .close ∨
        f.isControlFrame = false ∧ ∃ r, f.processDataFrame d = .inr r)

/-- The rounds of a call, up to some point of it. -/
def Rounds : Processing → Processing → Prop :=
  Relation.ReflTransGen fun p q => processMessageRound p = .again q

/-- No round of a call of `processMessage` leaves an ended conversation alive. -/
def Settles (f : Frame) (d : SocketData) : Prop := ∀ p, Rounds ⟨f, d, []⟩ p → ¬ LeavesAlive p

/-- Every call but the last one settles. -/
def Settled (f : Frame) (left : List UInt8) : List (List UInt8) → Prop
  | [] | [_] => True
  | chunk :: next :: chunks =>
    f.Settles (.new (left ++ chunk)) ∧
      ∀ p exit, f.processMessage (.new (left ++ chunk)) = some (p, exit) →
        p.frame.Settled p.socketData.unread (next :: chunks)

/-- A return through the first two exits, and what the second one leaves behind. -/
def Quiet (p : Processing) (exit : Exit) : Prop :=
  (∀ closeCode, .onClose closeCode ∉ p.events) ∧
    (exit = .needData ∨ p.frame.processingState = .done ∧ p.frame.isValid = false)

theorem processControlFrame_onClose {f : Frame} {d : SocketData} (h : f.opCode ≠ .close)
    (closeCode : CloseCode) : .onClose closeCode ∉ f.processControlFrame d := by
  unfold processControlFrame
  split <;> simp_all

theorem deliver_onClose {f g : Frame} {d : SocketData} {events : List FrameEvent}
    (h : f.deliver d = .inl (g, events)) (closeCode : CloseCode) : .onClose closeCode ∉ events := by
  rw [deliver_cases] at h
  grind

theorem processDataFrame_onClose {f g : Frame} {d : SocketData} {events : List FrameEvent}
    (h : f.processDataFrame d = .inl (g, events)) (closeCode : CloseCode) :
    .onClose closeCode ∉ events := by
  unfold processDataFrame at h
  split at h
  · cases h
  · split at h
    · cases h
    · exact deliver_onClose h closeCode

theorem round_again_quiet {p q : Processing} (hp : ¬ LeavesAlive p)
    (hclose : ∀ closeCode, .onClose closeCode ∉ p.events) (h : processMessageRound p = .again q)
    (closeCode : CloseCode) : .onClose closeCode ∉ q.events := by
  have hfirst : ∀ events, .onClose closeCode ∉ events → .onClose closeCode ∉ p.events ++ events := by
    intro events hevents
    simp [hclose closeCode, hevents]
  cases goesTo_of_again h with
  | @control f d found valid control =>
    refine hfirst _ (processControlFrame_onClose (fun hopCode => hp ?_) closeCode)
    exact ⟨found.left, f, d, found.read, found.done, valid, .inl ⟨control, hopCode⟩⟩
  | data _ _ _ processed => exact hfirst _ (processDataFrame_onClose processed closeCode)

theorem round_leave_quiet {p q : Processing} {exit : Exit} (hp : ¬ LeavesAlive p)
    (hclose : ∀ closeCode, .onClose closeCode ∉ p.events)
    (h : processMessageRound p = .leave (some (q, exit))) : Quiet q exit := by
  cases leavesWith_of_leave h with
  | drained _ => exact ⟨hclose, .inl rfl⟩
  | waits _ _ _ => exact ⟨hclose, .inl rfl⟩
  | @abandons f _ d _ found valid control processed =>
    refine absurd ?_ hp
    exact ⟨found.left, f, d, found.read, found.done, valid, .inr ⟨control, _, processed⟩⟩
  | refuses found invalid => exact ⟨hclose, .inr ⟨found.done, invalid⟩⟩

theorem processMessage_quiet {f : Frame} {d : SocketData} {p : Processing} {exit : Exit}
    (hsettles : f.Settles d) (h : f.processMessage d = some (p, exit)) : Quiet p exit := by
  have hloop : loop processMessageRound (d.getDataLeftToRead + 2) ⟨f, d, []⟩ =
      some (some (p, exit)) := Option.join_eq_some_iff.mp h
  refine loop_invariant (fun q => Rounds ⟨f, d, []⟩ q ∧ ∀ closeCode, .onClose closeCode ∉ q.events)
    (fun r => ∀ q exit, r = some (q, exit) → Quiet q exit) ?_ ?_ ⟨.refl, by simp⟩ hloop p exit rfl
  · rintro q q' ⟨hrounds, hclose⟩ hround
    exact ⟨hrounds.tail hround, round_again_quiet (hsettles q hrounds) hclose hround⟩
  · rintro q r ⟨hrounds, hclose⟩ hround q' exit' rfl
    exact round_leave_quiet (hsettles q hrounds) hclose hround

/-- Behind an invalid frame no call delivers anything. -/
theorem processChunks_invalid {f : Frame} (hstate : f.processingState = .done)
    (hvalid : f.isValid = false) (left : List UInt8) (chunks : List (List UInt8)) :
    ∃ g rest calls, f.processChunks left chunks = some (g, rest, calls) ∧
      ∀ call ∈ calls, call.1 = [] := by
  induction chunks generalizing f left with
  | nil => exact ⟨f, left, [], rfl, by simp⟩
  | cons chunk chunks ih =>
    obtain ⟨g, exit, hg, hstate', hvalid'⟩ :=
      processMessage_invalid hstate hvalid (.new (left ++ chunk))
    obtain ⟨g', rest, calls, hcalls, hempty⟩ :=
      ih hstate' hvalid' (SocketData.new (left ++ chunk)).unread
    refine ⟨g', rest, ([], exit) :: calls, processChunks_cons hg hcalls, ?_⟩
    rintro call (_ | ⟨_, hmem⟩)
    · rfl
    · exact hempty call hmem

theorem processChunks_settled {f : Frame} {left : List UInt8} {chunks : List (List UInt8)}
    (hf : f.Safe left.length) (h : f.Settled left chunks) :
    ∃ g rest calls, f.processChunks left chunks = some (g, rest, calls) ∧
      NothingAfterTheEnd calls := by
  induction chunks generalizing f left with
  | nil => exact ⟨f, left, [], rfl, .nil⟩
  | cons chunk chunks ih =>
    have hd : (SocketData.new (left ++ chunk)).readOffset ≤
        (SocketData.new (left ++ chunk)).data.length := Nat.zero_le _
    have hleft : f.Safe (SocketData.new (left ++ chunk)).getDataLeftToRead := by
      rw [SocketData.getDataLeftToRead_new, List.length_append]
      exact hf.mono (by omega)
    obtain ⟨p, exit, hp, hinside, hsafe⟩ := processMessage_safe hleft hd
    rw [← SocketData.length_unread] at hsafe
    cases chunks with
    | nil =>
      refine ⟨p.frame, p.socketData.unread, [(p.events, exit)], by simp [processChunks, hp], ?_⟩
      exact List.pairwise_singleton _ _
    | cons next chunks =>
      obtain ⟨hsettles, hnext⟩ := h
      obtain ⟨hclose, hexit⟩ := processMessage_quiet hsettles hp
      have hlater := hnext p exit hp
      rcases hexit with rfl | ⟨hstate, hvalid⟩
      · obtain ⟨g, rest, calls, hcalls, hnothing⟩ := ih hsafe hlater
        refine ⟨g, rest, (p.events, .needData) :: calls, processChunks_cons hp hcalls,
          List.pairwise_cons.mpr ⟨fun call _ hends => ?_, hnothing⟩⟩
        rcases hends with ⟨closeCode, hmem⟩ | hviolation
        · exact absurd hmem (hclose closeCode)
        · simp [Exit.violation] at hviolation
      · obtain ⟨g, rest, calls, hcalls, hempty⟩ :=
          processChunks_invalid hstate hvalid p.socketData.unread (next :: chunks)
        refine ⟨g, rest, (p.events, exit) :: calls, processChunks_cons hp hcalls,
          List.pairwise_cons.mpr ⟨fun call hmem _ => hempty call hmem, ?_⟩⟩
        exact List.pairwise_of_forall_mem_list fun _ _ call hmem _ => hempty call hmem

/-- Where every call but the last one settles, the calls all return and none makes a callback after
the end. -/
theorem nothingAfterTheEnd_of_settled (maxAllowedMessageSize : Nat) (chunks : List (List UInt8))
    (h : (new maxAllowedMessageSize).Settled [] chunks) :
    ∃ g rest calls, (new maxAllowedMessageSize).processChunks [] chunks = some (g, rest, calls) ∧
      NothingAfterTheEnd calls :=
  processChunks_settled (.inl (new_resting maxAllowedMessageSize)) h

/-- A call that settles because its first round returns. -/
theorem settles_of_leave {f : Frame} {d : SocketData} {r : Option (Processing × Exit)}
    (hround : processMessageRound ⟨f, d, []⟩ = .leave r) (halive : ¬ LeavesAlive ⟨f, d, []⟩) :
    f.Settles d := by
  intro p hrounds
  rcases Relation.ReflTransGen.cases_head hrounds with rfl | ⟨q, hstep, _⟩
  · exact halive
  · rw [hround] at hstep
    cases hstep

/-- A frame with a reserved bit is refused; the text frame behind it is not delivered. -/
theorem nothingAfterTheEnd_of_settled_reserved :
    ∃ g rest calls, (new 125).processChunks [] [[0xC1, 0x00], [0x81, 0x00]] =
      some (g, rest, calls) ∧ NothingAfterTheEnd calls := by
  refine nothingAfterTheEnd_of_settled 125 _ ⟨settles_of_leave rfl ?_, fun _ _ _ => trivial⟩
  rintro ⟨_, f, d, hread, _, hvalid, _⟩
  obtain ⟨rfl, rfl⟩ := Prod.mk.inj (Option.some.inj hread)
  exact absurd hvalid (by decide)

/-- A close frame is followed by a message, and a misplaced continuation by a close frame that was
never sent. -/
theorem deliveries_after_the_end :
    (∃ g rest calls, (new 125).processChunks [] [[0x88, 0x00], [0x81, 0x00]] =
      some (g, rest, calls) ∧ ¬ NothingAfterTheEnd calls) ∧
    (∃ g rest calls, (new 125).processChunks [] [[0x80, 0x00], [0x81, 0x00]] =
      some (g, rest, calls) ∧ ¬ NothingAfterTheEnd calls) := by
  refine ⟨⟨_, _, [([.onClose 1000], .needData), ([.onData []], .needData)], rfl, fun h => ?_⟩,
    ⟨_, _, [([], .nothingToContinue), ([.onClose 1000, .onData []], .needData)], rfl, fun h => ?_⟩⟩
  · have hends := List.rel_of_pairwise_cons h (List.mem_singleton_self _)
    cases hends (.inl ⟨1000, by simp⟩)
  · have hends := List.rel_of_pairwise_cons h (List.mem_singleton_self _)
    cases hends (.inr rfl)

end Frame

end LuPlatform.Websocket
