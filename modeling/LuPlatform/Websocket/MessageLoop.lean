import LuPlatform.Websocket.FrameStream

/-! The message loop. On a resting frame a call of `processMessage` is a run of the decoder over the
unread bytes (`processMessage_feeds`). A call that refuses a frame leaves another kind of frame
behind, a stale one; on either kind a call returns, with its offset among the bytes it was given
(`processMessage_safe`). -/

namespace LuPlatform.Websocket

open Bytes Loop Feed

namespace Frame

/-- A frame left behind by a violation. Unless it is invalid it is a close frame, as far as its
opcode says, whose payload is still among the unread bytes. -/
def Stale (f : Frame) (left : Nat) : Prop :=
  f.processingState = .done ∧ (f.isValid = true → f.opCode = .close ∧ f.length ≤ left)

/-- The frames `processMessage` can find at its entry. -/
def Safe (f : Frame) (left : Nat) : Prop := f.Resting ∨ f.Stale left

theorem Safe.mono {f : Frame} {left more : Nat} (h : f.Safe left) (hle : left ≤ more) :
    f.Safe more := by
  refine h.imp_right fun hs => ⟨hs.1, fun hv => ⟨(hs.2 hv).1, ?_⟩⟩
  have := (hs.2 hv).2
  omega

/-- A return of `processMessage`, seen from a resting frame. -/
structure Returns (f : Frame) (unread : List UInt8) (events : List FrameEvent) (q : Processing)
    (exit : Exit) : Prop where
  feeds : ∃ rest, Feeds decoder f unread events q.frame rest ∧
    (exit = .needData → rest = q.socketData.unread)
  resting : exit = .needData → q.frame.Resting
  stale : exit ≠ .needData → q.frame.Stale q.socketData.getDataLeftToRead
  invalid : exit = .invalidFrame → q.frame.isValid = false

theorem Returns.safe {f : Frame} {unread : List UInt8} {events : List FrameEvent} {q : Processing}
    {exit : Exit} (h : Returns f unread events q exit) :
    q.frame.Safe q.socketData.getDataLeftToRead := by
  by_cases hexit : exit = .needData
  · exact .inl (h.resting hexit)
  · exact .inr (h.stale hexit)

/-- What a round that goes on contributes. -/
structure GoesOn (p q : Processing) : Prop where
  again : processMessageRound p = .again q
  resting : q.frame.Resting
  decreases : q.socketData.getDataLeftToRead < p.socketData.getDataLeftToRead
  feeds : ∃ first, q.events = p.events ++ first ∧ ∀ events s rest,
    Feeds decoder q.frame q.socketData.unread events s rest →
      Feeds decoder p.frame p.socketData.unread (first ++ events) s rest

/-- The bytes of a call stay where they are, and the offset among them. -/
structure Inside (d d' : SocketData) : Prop where
  length_eq : d'.data.length = d.data.length
  offset_le : d'.readOffset ≤ d'.data.length

theorem round_done {p : Processing} {f : Frame} {d : SocketData}
    (hleft : p.socketData.getDataLeftToRead ≠ 0)
    (hread : p.frame.readFrame p.socketData = some (f, d)) (hstate : f.processingState = .done) :
    processMessageRound p =
      if f.isValid then
        if f.isControlFrame then
          .again ⟨f.reset, d.skip f.length, p.events ++ f.processControlFrame d⟩
        else
          match f.processDataFrame d with
          | .inl (f, events) => .again ⟨f.reset.reset, d.skip f.length, p.events ++ events⟩
          | .inr (f, exit) => .leave (some (⟨f, d, p.events⟩, exit))
      else
        .leave (some (⟨{ f with opCode := .close }, d, p.events⟩, .invalidFrame)) := by
  have hdone : ¬ (f.processingState != .done) = true := by simp [hstate]
  rw [processMessageRound, if_neg hleft, hread]
  exact if_neg hdone

/-- What a round finds done: a frame that it has read to its end, or one it began with. -/
structure Finds (p : Processing) (f : Frame) (d : SocketData) : Prop where
  left : p.socketData.getDataLeftToRead ≠ 0
  read : p.frame.readFrame p.socketData = some (f, d)
  done : f.processingState = .done

/-- The rounds that go on. -/
inductive GoesTo (p : Processing) : Processing → Prop where
  | control {f : Frame} {d : SocketData} (found : Finds p f d) (valid : f.isValid = true)
      (control : f.isControlFrame = true) :
      GoesTo p ⟨f.reset, d.skip f.length, p.events ++ f.processControlFrame d⟩
  | data {f g : Frame} {d : SocketData} {events : List FrameEvent} (found : Finds p f d)
      (valid : f.isValid = true) (control : f.isControlFrame = false)
      (processed : f.processDataFrame d = .inl (g, events)) :
      GoesTo p ⟨g.reset.reset, d.skip f.length, p.events ++ events⟩

/-- The rounds that return. -/
inductive LeavesWith (p : Processing) : Processing → Exit → Prop where
  | drained (left : p.socketData.getDataLeftToRead = 0) : LeavesWith p p .needData
  | waits {f : Frame} {d : SocketData} (left : p.socketData.getDataLeftToRead ≠ 0)
      (read : p.frame.readFrame p.socketData = some (f, d)) (waiting : f.processingState ≠ .done) :
      LeavesWith p ⟨f, d, p.events⟩ .needData
  | abandons {f g : Frame} {d : SocketData} {exit : Exit} (found : Finds p f d)
      (valid : f.isValid = true) (control : f.isControlFrame = false)
      (processed : f.processDataFrame d = .inr (g, exit)) : LeavesWith p ⟨g, d, p.events⟩ exit
  | refuses {f : Frame} {d : SocketData} (found : Finds p f d) (invalid : f.isValid = false) :
      LeavesWith p ⟨{ f with opCode := .close }, d, p.events⟩ .invalidFrame

theorem goesTo_of_again {p q : Processing} (h : processMessageRound p = .again q) : GoesTo p q := by
  unfold processMessageRound at h
  split at h
  · cases h
  · rename_i hleft
    split at h
    · cases h
    · rename_i f d hread
      split at h
      · cases h
      · rename_i hstate
        have found : Finds p f d := ⟨hleft, hread, by simpa using hstate⟩
        split at h
        · rename_i hvalid
          split at h
          · rename_i hcontrol
            obtain rfl := Round.again.inj h
            exact .control found hvalid hcontrol
          · rename_i hcontrol
            split at h
            · rename_i g events hdata
              obtain rfl := Round.again.inj h
              rw [processDataFrame_length hdata]
              exact .data found hvalid (by simpa using hcontrol) hdata
            · cases h
        · cases h

theorem leavesWith_of_leave {p q : Processing} {exit : Exit}
    (h : processMessageRound p = .leave (some (q, exit))) : LeavesWith p q exit := by
  unfold processMessageRound at h
  split at h
  · rename_i hleft
    obtain ⟨rfl, rfl⟩ := Prod.mk.inj (Option.some.inj (Round.leave.inj h))
    exact .drained hleft
  · rename_i hleft
    split at h
    · cases h
    · rename_i f d hread
      split at h
      · rename_i hstate
        obtain ⟨rfl, rfl⟩ := Prod.mk.inj (Option.some.inj (Round.leave.inj h))
        exact .waits hleft hread (by simpa using hstate)
      · rename_i hstate
        have found : Finds p f d := ⟨hleft, hread, by simpa using hstate⟩
        split at h
        · rename_i hvalid
          split at h
          · cases h
          · rename_i hcontrol
            split at h
            · cases h
            · rename_i g exit' hdata
              obtain ⟨rfl, rfl⟩ := Prod.mk.inj (Option.some.inj (Round.leave.inj h))
              exact .abandons found hvalid (by simpa using hcontrol) hdata
        · rename_i hvalid
          obtain ⟨rfl, rfl⟩ := Prod.mk.inj (Option.some.inj (Round.leave.inj h))
          exact .refuses found (by simpa using hvalid)

/-- A round that reads a valid frame to its end. A control frame and a processed data frame let the
call go on; a data frame that is abandoned ends it. -/
theorem round_complete {p : Processing} {f : Frame} {d : SocketData} (hf : p.frame.Resting)
    (hd : p.socketData.readOffset ≤ p.socketData.data.length) (found : Finds p f d)
    (hlength : d.data.length = p.socketData.data.length) (hvalid : f.isValid = true)
    (hfits : d.readOffset + f.length ≤ d.data.length)
    (hcons : ∀ n, p.frame.need = some n → p.socketData.readOffset + n ≤ d.readOffset + f.length)
    (hfeeds : ∀ events s rest, Feeds decoder (f.settle d).1 (d.unread.drop f.length) events s rest →
      Feeds decoder p.frame p.socketData.unread ((f.settle d).2 ++ events) s rest) :
    ∃ q, Inside p.socketData q.socketData ∧
      (GoesOn p q ∨ ∃ exit, processMessageRound p = .leave (some (q, exit)) ∧
        q.events = p.events ∧ Returns p.frame p.socketData.unread [] q exit) := by
  have hround := round_done found.left found.read found.done
  simp only [hvalid, if_true] at hround
  have hleft₀ := getDataLeftToRead_add hd
  have hleft₁ := getDataLeftToRead_add (d := d) (by omega)
  obtain ⟨n, hn⟩ := hf.1.need
  have hpos := hf.2 n hn
  have hcons := hcons n hn
  have hskip : (d.skip f.length).getDataLeftToRead < p.socketData.getDataLeftToRead := by
    have := getDataLeftToRead_add (d := d.skip f.length) hfits
    simp only [SocketData.skip] at this ⊢
    omega
  by_cases hcontrol : f.isControlFrame = true
  · rw [if_pos hcontrol] at hround
    rw [settle_control hvalid hcontrol] at hfeeds
    refine ⟨_, ⟨hlength, hfits⟩, .inl ⟨hround, reset_resting f, hskip, _, rfl, ?_⟩⟩
    intro events s rest h
    rw [SocketData.unread_skip] at h
    exact hfeeds events s rest h
  · rw [if_neg hcontrol] at hround
    cases hdata : f.processDataFrame d with
    | inl r =>
      obtain ⟨g, first⟩ := r
      rw [hdata] at hround
      have hround : processMessageRound p =
          .again ⟨g.reset.reset, d.skip f.length, p.events ++ first⟩ := by
        rw [hround, ← processDataFrame_length hdata]
      rw [settle_data hvalid hcontrol hdata] at hfeeds
      refine ⟨_, ⟨hlength, hfits⟩, .inl ⟨hround, reset_resting _, hskip, _, rfl, ?_⟩⟩
      intro events s rest h
      rw [SocketData.unread_skip] at h
      exact hfeeds events s rest h
    | inr r =>
      obtain ⟨g, exit⟩ := r
      rw [hdata] at hround
      rw [settle_abandoned hvalid hcontrol hdata] at hfeeds
      have hleftover := processDataFrame_abandoned hdata
      have hgdone : g.processingState = .done := hleftover.state.trans found.done
      refine ⟨_, ⟨hlength, by show d.readOffset ≤ d.data.length; omega⟩, .inr ⟨exit, hround, rfl, ?_⟩⟩
      refine ⟨⟨d.unread.drop f.length, ?_, fun h => absurd h hleftover.exit.1⟩,
        fun h => absurd h hleftover.exit.1, fun _ => ⟨hgdone, fun _ => ⟨hleftover.opCode, ?_⟩⟩,
        fun h => absurd h hleftover.exit.2⟩
      · exact hfeeds [] g _ (.starve (starved_done hgdone _))
      · rw [hleftover.length]
        show f.length ≤ d.getDataLeftToRead
        omega

/-- One round, begun by a resting frame: the call ends there or goes on with a resting frame. -/
theorem round_resting {p : Processing} (hf : p.frame.Resting)
    (hd : p.socketData.readOffset ≤ p.socketData.data.length) :
    ∃ q, Inside p.socketData q.socketData ∧
      (GoesOn p q ∨ ∃ exit, processMessageRound p = .leave (some (q, exit)) ∧
        q.events = p.events ∧ Returns p.frame p.socketData.unread [] q exit) := by
  by_cases hleft : p.socketData.getDataLeftToRead = 0
  · refine ⟨p, ⟨rfl, hd⟩, .inr ⟨.needData, ?_, rfl, ?_⟩⟩
    · rw [processMessageRound, if_pos hleft]
    · refine ⟨⟨_, .starve fun n hn => ?_, fun _ => rfl⟩, fun _ => hf, by simp, by simp⟩
      have := hf.2 n hn
      rw [SocketData.length_unread]
      omega
  · obtain ⟨f, d, hread, hlength, hout⟩ := readFrame_spec hf.1 hd
    cases hout with
    | waiting hresting hoffset hfeeds =>
      refine ⟨⟨f, d, p.events⟩, ⟨hlength, hoffset⟩, .inr ⟨.needData, ?_, rfl, ?_⟩⟩
      · have hne : (f.processingState != .done) = true := by
          rw [bne_iff_ne]
          exact hresting.1.not_done
        rw [processMessageRound, if_neg hleft, hread]
        simp only [hne, if_true]
      · exact ⟨⟨_, hfeeds, fun _ => rfl⟩, fun _ => hresting, by simp, by simp⟩
    | refused hstate hvalid hoffset hfeeds =>
      obtain ⟨rest, hfeeds⟩ := hfeeds
      refine ⟨⟨{ f with opCode := .close }, d, p.events⟩, ⟨hlength, hoffset⟩,
        .inr ⟨.invalidFrame, ?_, rfl, ?_⟩⟩
      · rw [round_done hleft hread hstate, hvalid]
        rfl
      · rw [settle_refused hvalid] at hfeeds
        refine ⟨⟨rest, hfeeds, by simp⟩, by simp, fun _ => ⟨hstate, fun hv => ?_⟩, fun _ => hvalid⟩
        rw [show _ = f.isValid from rfl, hvalid] at hv
        cases hv
    | complete hstate hvalid hfits hcons hfeeds =>
      exact round_complete hf hd ⟨hleft, hread, hstate⟩ hlength hvalid hfits hcons hfeeds

/-- Rounds begun by a resting frame, until the call ends. -/
theorem loop_resting {fuel : Nat} {p : Processing} (hf : p.frame.Resting)
    (hd : p.socketData.readOffset ≤ p.socketData.data.length)
    (hfuel : p.socketData.getDataLeftToRead < fuel) :
    ∃ q exit events, loop processMessageRound fuel p = some (some (q, exit)) ∧
      Inside p.socketData q.socketData ∧ q.events = p.events ++ events ∧
      Returns p.frame p.socketData.unread events q exit := by
  induction fuel generalizing p with
  | zero => omega
  | succ fuel ih =>
    obtain ⟨q, hinside, h | ⟨exit, hround, hevents, hreturns⟩⟩ := round_resting hf hd
    · obtain ⟨first, hfirst, hfeeds⟩ := h.feeds
      have hq := h.decreases
      obtain ⟨r, exit, events, hloop, hin, hev, hret⟩ := ih h.resting hinside.offset_le (by omega)
      refine ⟨r, exit, first ++ events, (loop_again h.again fuel).trans hloop,
        ⟨hin.length_eq.trans hinside.length_eq, hin.offset_le⟩, ?_, ?_⟩
      · rw [hev, hfirst, List.append_assoc]
      · obtain ⟨rest, hrest, heq⟩ := hret.feeds
        exact ⟨⟨rest, hfeeds events _ rest hrest, heq⟩, hret.resting, hret.stale, hret.invalid⟩
    · exact ⟨q, exit, [], loop_leave hround fuel, hinside, by simpa using hevents, hreturns⟩

/-- A call of `processMessage` on a resting frame is a run of the decoder over the unread bytes. -/
theorem processMessage_feeds {f : Frame} {d : SocketData} (hf : f.Resting)
    (hd : d.readOffset ≤ d.data.length) :
    ∃ q exit, f.processMessage d = some (q, exit) ∧ Inside d q.socketData ∧
      Returns f d.unread q.events q exit := by
  obtain ⟨q, exit, events, hloop, hinside, hevents, hreturns⟩ :=
    loop_resting (p := ⟨f, d, []⟩) hf hd (show _ < d.getDataLeftToRead + 2 by simp)
  refine ⟨q, exit, ?_, hinside, ?_⟩
  · rw [processMessage, hloop]
    rfl
  · rw [hevents]
    exact hreturns

/-! ### Stale frames -/

theorem readFrame_done {f : Frame} (h : f.processingState = .done) (d : SocketData) :
    f.readFrame d = some (f, d) := by
  refine loop_leave ?_ 4
  simp only [readFrameRound, h]

/-- An invalid frame stays where it is: nothing is delivered and nothing is consumed. -/
theorem processMessage_invalid {f : Frame} (hstate : f.processingState = .done)
    (hvalid : f.isValid = false) (d : SocketData) :
    ∃ g exit, f.processMessage d = some (⟨g, d, []⟩, exit) ∧ g.processingState = .done ∧
      g.isValid = false := by
  by_cases hleft : d.getDataLeftToRead = 0
  · have hround : processMessageRound ⟨f, d, []⟩ = .leave (some (⟨f, d, []⟩, .needData)) := by
      rw [processMessageRound, if_pos hleft]
    refine ⟨f, .needData, ?_, hstate, hvalid⟩
    rw [processMessage, loop_leave hround]
    rfl
  · have hround : processMessageRound ⟨f, d, []⟩ =
        .leave (some (⟨{ f with opCode := .close }, d, []⟩, .invalidFrame)) := by
      rw [round_done (p := ⟨f, d, []⟩) hleft (readFrame_done hstate d) hstate, hvalid]
      rfl
    refine ⟨{ f with opCode := .close }, .invalidFrame, ?_, hstate, hvalid⟩
    rw [processMessage, loop_leave hround]
    rfl

theorem round_stale {f : Frame} {d : SocketData} (h : f.Stale d.getDataLeftToRead)
    (hvalid : f.isValid = true) (hleft : d.getDataLeftToRead ≠ 0) :
    processMessageRound ⟨f, d, []⟩ =
      .again ⟨f.reset, d.skip f.length, [.onClose (receivedCloseCode f.length d.unread)]⟩ := by
  have hclose := (h.2 hvalid).1
  have hcontrol : f.isControlFrame = true := by simp [isControlFrame, hclose, OpCode.value]
  rw [round_done (p := ⟨f, d, []⟩) hleft (readFrame_done h.1 d) h.1, if_pos hvalid, if_pos hcontrol]
  simp [processControlFrame, hclose]

theorem stale_skip {f : Frame} {d : SocketData} (h : f.Stale d.getDataLeftToRead)
    (hvalid : f.isValid = true) (hd : d.readOffset ≤ d.data.length) :
    (d.skip f.length).readOffset ≤ (d.skip f.length).data.length := by
  have hfits := (h.2 hvalid).2
  have hleft := getDataLeftToRead_add hd
  simp only [SocketData.skip]
  omega

/-- A stale frame that is valid is taken for a close frame, and then the call begins afresh. -/
theorem processMessage_stale {f : Frame} {d : SocketData} (h : f.Stale d.getDataLeftToRead)
    (hvalid : f.isValid = true) (hd : d.readOffset ≤ d.data.length)
    (hleft : d.getDataLeftToRead ≠ 0) :
    ∃ q exit events, f.processMessage d = some (q, exit) ∧ Inside d q.socketData ∧
      q.events = .onClose (receivedCloseCode f.length d.unread) :: events ∧
      Returns f.reset (d.skip f.length).unread events q exit := by
  have hleft₀ := getDataLeftToRead_add hd
  have hround := round_stale h hvalid hleft
  have hd' := stale_skip h hvalid hd
  have hless : (d.skip f.length).getDataLeftToRead < d.getDataLeftToRead + 1 := by
    have := getDataLeftToRead_add hd'
    simp only [SocketData.skip] at this ⊢
    omega
  obtain ⟨q, exit, events, hloop, hinside, hevents, hreturns⟩ :=
    loop_resting (p := ⟨f.reset, d.skip f.length,
      [.onClose (receivedCloseCode f.length d.unread)]⟩) (reset_resting f) hd' hless
  refine ⟨q, exit, events, ?_, ⟨hinside.length_eq, hinside.offset_le⟩, hevents, hreturns⟩
  rw [processMessage, loop_again hround, hloop]
  rfl

/-- Every call returns, keeps its offset among the bytes it was given, and leaves a frame behind on
which the next call returns as well. -/
theorem processMessage_safe {f : Frame} {d : SocketData} (hf : f.Safe d.getDataLeftToRead)
    (hd : d.readOffset ≤ d.data.length) :
    ∃ q exit, f.processMessage d = some (q, exit) ∧ Inside d q.socketData ∧
      q.frame.Safe q.socketData.getDataLeftToRead := by
  rcases hf with hf | hf
  · obtain ⟨q, exit, hq, hinside, hreturns⟩ := processMessage_feeds hf hd
    exact ⟨q, exit, hq, hinside, hreturns.safe⟩
  · cases hvalid : f.isValid with
    | false =>
      obtain ⟨g, exit, hg, hstate, hinvalid⟩ := processMessage_invalid hf.1 hvalid d
      exact ⟨_, exit, hg, ⟨rfl, hd⟩, .inr ⟨hstate, by simp [hinvalid]⟩⟩
    | true =>
      by_cases hleft : d.getDataLeftToRead = 0
      · have hround : processMessageRound ⟨f, d, []⟩ = .leave (some (⟨f, d, []⟩, .needData)) := by
          rw [processMessageRound, if_pos hleft]
        refine ⟨⟨f, d, []⟩, .needData, ?_, ⟨rfl, hd⟩, .inr hf⟩
        rw [processMessage, loop_leave hround]
        rfl
      · obtain ⟨q, exit, _, hq, hinside, _, hreturns⟩ := processMessage_stale hf hvalid hd hleft
        exact ⟨q, exit, hq, hinside, hreturns.safe⟩

end Frame

end LuPlatform.Websocket
