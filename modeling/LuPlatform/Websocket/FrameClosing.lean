import LuPlatform.Websocket.MessageLoop

/-! The opcode a call returns with. The socket closes the connection when it is that of a close frame,
and `reset` takes it back behind every frame that was handled. So it stays in three cases only: the
call refused a frame, it collected a fragment, which it takes for a message that is too big, or it ran
out of bytes within a close frame. A close frame that was handled is none of them. -/

namespace LuPlatform.Websocket

open Bytes Loop

namespace Frame

/-- In a round of the call that begins with `p` bytes of the peer make `g` of the frame. -/
structure Reads (f : Frame) (d : SocketData) (p : Processing) (g : Frame) (e : SocketData) : Prop where
  reached : Reached processMessageRound ⟨f, d, []⟩ p
  data : p.socketData.getDataLeftToRead ≠ 0
  unread : p.frame.processingState ≠ .done
  read : p.frame.readFrame p.socketData = some (g, e)

/-- The call reads `g` to its end. -/
def Meets (f : Frame) (d : SocketData) (g : Frame) : Prop :=
  g.processingState = .done ∧ ∃ p e, Reads f d p g e

/-- The call runs out of bytes within `g`. -/
def Leaves (f : Frame) (d : SocketData) (g : Frame) : Prop :=
  g.processingState ≠ .done ∧ ∃ p e, Reads f d p g e

/-- A data frame that continues nothing, or one where a continuation is due. -/
def isOutOfPlace (f : Frame) : Bool :=
  if f.isFragmented then f.isDataFrame && !f.isContinuationFrame else f.isContinuationFrame

/-- A fragment of a message, in its place, for which there is room. -/
structure IsFragment (f : Frame) : Prop where
  valid : f.isValid = true
  data : f.isDataFrame = true
  inPlace : f.isOutOfPlace = false
  part : f.isContinuationFrame = true ∨ f.isFinalFrame = false
  fits : f.length + f.message.getDataLength ≤ f.message.getCapacity

/-- The call handles a valid close frame. -/
def HandlesClose (f : Frame) (d : SocketData) : Prop :=
  ∃ g, f.Meets d g ∧ g.isValid = true ∧ g.opCode = .close

/-- The call finds a frame that is not valid or out of place, or one that was found invalid before. -/
def HitsViolation (f : Frame) (d : SocketData) : Prop :=
  f.processingState = .done ∧ f.isValid = false ∨
    ∃ g, f.Meets d g ∧ (g.isValid = false ∨ g.isOutOfPlace = true)

def CollectsFragment (f : Frame) (d : SocketData) : Prop := ∃ g, f.Meets d g ∧ g.IsFragment

def LeavesClose (f : Frame) (d : SocketData) : Prop := ∃ g, f.Leaves d g ∧ g.opCode = .close

/-- There is nothing in the call but valid data, ping and pong frames, the last of which may be
incomplete. -/
structure OnlyMessages (f : Frame) (d : SocketData) : Prop where
  alive : f.processingState = .done → f.isValid = true
  met : ∀ g, f.Meets d g → g.isValid = true ∧ g.isOutOfPlace = false ∧ g.opCode ≠ .close
  left : ∀ g, f.Leaves d g → g.opCode ≠ .close

theorem onlyMessages_iff (f : Frame) (d : SocketData) :
    f.OnlyMessages d ↔ ¬ f.HandlesClose d ∧ ¬ f.HitsViolation d ∧ ¬ f.LeavesClose d := by
  constructor
  · intro h
    refine ⟨?_, ?_, ?_⟩
    · rintro ⟨g, hmeets, _, hclose⟩
      exact (h.met g hmeets).2.2 hclose
    · rintro (⟨hdone, hvalid⟩ | ⟨g, hmeets, hvalid | hplace⟩)
      · simp [h.alive hdone] at hvalid
      · simp [(h.met g hmeets).1] at hvalid
      · simp [(h.met g hmeets).2.1] at hplace
    · rintro ⟨g, hleaves, hclose⟩
      exact h.left g hleaves hclose
  · rintro ⟨hclose, hviolation, hleft⟩
    refine ⟨fun hdone => ?_, fun g hmeets => ?_, fun g hleaves hopCode => hleft ⟨g, hleaves, hopCode⟩⟩
    · by_contra hvalid
      exact hviolation (.inl ⟨hdone, by simpa using hvalid⟩)
    · have hvalid : g.isValid = true := by
        by_contra hvalid
        exact hviolation (.inr ⟨g, hmeets, .inl (by simpa using hvalid)⟩)
      refine ⟨hvalid, ?_, fun hopCode => hclose ⟨g, hmeets, hvalid, hopCode⟩⟩
      by_contra hplace
      exact hviolation (.inr ⟨g, hmeets, .inr (by simpa using hplace)⟩)

/-! ### The rounds that return -/

variable {f g : Frame} {d e : SocketData} {p q : Processing} {exit : Exit}

theorem beginMessage_isFragmented (h : g.isOutOfPlace = false) :
    g.beginMessage.isFragmented = (g.isContinuationFrame || !g.isFinalFrame) := by
  unfold isOutOfPlace at h
  unfold beginMessage
  grind [isContinuationFrame]

theorem processDataFrame_outOfPlace (h : g.isOutOfPlace = true) : ∃ r, g.processDataFrame e = .inr r := by
  unfold isOutOfPlace at h
  unfold processDataFrame
  split
  · exact ⟨_, rfl⟩
  · rename_i hnothing
    have hdue : (g.isFragmented && g.isDataFrame && g.isContinuationFrame == false) = true := by
      grind
    rw [if_pos hdue]
    exact ⟨_, rfl⟩

/-- The data branch returns for a frame out of place and for a fragment. -/
theorem processDataFrame_inr_iff (hvalid : g.isValid = true) (hdata : g.isDataFrame = true) :
    (∃ r, g.processDataFrame e = .inr r) ↔ g.isOutOfPlace = true ∨ g.IsFragment := by
  cases hplace : g.isOutOfPlace with
  | true => exact iff_of_true (processDataFrame_outOfPlace hplace) (.inl rfl)
  | false =>
    have hprocess : g.processDataFrame e = g.beginMessage.deliver e := by
      unfold isOutOfPlace at hplace
      unfold processDataFrame
      grind
    have hbegun := beginMessage_isFragmented hplace
    have hkept : g.beginMessage.length = g.length ∧ g.beginMessage.message = g.message := by
      unfold beginMessage
      split <;> exact ⟨rfl, rfl⟩
    rw [hprocess, deliver_cases, hbegun, hkept.1, hkept.2]
    constructor
    · rintro ⟨r, hr⟩
      refine .inr ⟨hvalid, hdata, hplace, ?_, ?_⟩ <;> grind
    · rintro (hplace' | ⟨_, _, _, hpart, hfits⟩)
      · cases hplace'
      · have hfragmented : (g.isContinuationFrame || !g.isFinalFrame) = true := by
          simpa using hpart
        rw [if_pos hfragmented, if_neg (by omega)]
        exact ⟨_, rfl⟩

/-- What a call returns is what the round returns that it is found to leave in. -/
theorem processMessage_leave {r : Processing × Exit} (hcall : f.processMessage d = some (p, exit))
    (hreached : Reached processMessageRound ⟨f, d, []⟩ q)
    (hleave : processMessageRound q = .leave (some r)) : r = (p, exit) := by
  have hloop := hreached.loop_eq (Option.join_eq_some_iff.mp hcall)
  exact Option.some.inj (loop_unique (loop_leave hleave 0) hloop)

/-- A round that goes on leaves the frame as `reset` does. -/
theorem processMessageRound_again (h : processMessageRound p = .again q) :
    q.frame.processingState = .readHeader ∧ q.frame.opCode = .reservedC := by
  cases goesTo_of_again h with
  | control _ _ _ => exact ⟨rfl, rfl⟩
  | data _ _ _ _ => exact ⟨rfl, rfl⟩

/-- Only the first round of a call can find a frame that is done. -/
theorem reached_done (hreached : Reached processMessageRound ⟨f, d, []⟩ p)
    (hdone : p.frame.processingState = .done) : p = ⟨f, d, []⟩ := by
  cases hreached with
  | start => rfl
  | round _ hround =>
    rw [(processMessageRound_again hround).1] at hdone
    cases hdone

/-- What a round finds it has read, or found done. -/
theorem reached_read (hreached : Reached processMessageRound ⟨f, d, []⟩ p)
    (hleft : p.socketData.getDataLeftToRead ≠ 0) (hread : p.frame.readFrame p.socketData = some (g, e)) :
    Reads f d p g e ∨ f.processingState = .done ∧ g = f := by
  by_cases hdone : p.frame.processingState = .done
  · obtain rfl := reached_done hreached hdone
    rw [readFrame_done hdone] at hread
    exact .inr ⟨hdone, (Prod.mk.inj (Option.some.inj hread)).1.symm⟩
  · exact .inl ⟨hreached, hleft, hdone, hread⟩

/-- The round that returns with the opcode of a close frame. -/
theorem leave_close (hf : f.Safe d.getDataLeftToRead) (hd : d.getDataLeftToRead ≠ 0)
    (hreached : Reached processMessageRound ⟨f, d, []⟩ q)
    (hleave : processMessageRound q = .leave (some (p, exit))) (hclose : p.frame.opCode = .close) :
    f.HitsViolation d ∨ f.CollectsFragment d ∨ f.LeavesClose d := by
  cases leavesWith_of_leave hleave with
  | drained left =>
    cases hreached with
    | start => exact absurd left hd
    | round _ hround =>
      rw [(processMessageRound_again hround).2] at hclose
      cases hclose
  | @waits g e left read waiting =>
    obtain hreads | ⟨hdone, rfl⟩ := reached_read hreached left read
    · exact .inr (.inr ⟨g, ⟨waiting, q, e, hreads⟩, hclose⟩)
    · exact absurd hdone waiting
  | @abandons g _ e _ found valid control processed =>
    have hdata : g.isDataFrame = true := by simp [isDataFrame, control]
    obtain hreads | ⟨_, rfl⟩ := reached_read hreached found.left found.read
    · have hmeets : f.Meets d g := ⟨found.done, q, e, hreads⟩
      obtain hplace | hfragment := (processDataFrame_inr_iff valid hdata).mp ⟨_, processed⟩
      · exact .inl (.inr ⟨g, hmeets, .inr hplace⟩)
      · exact .inr (.inl ⟨g, hmeets, hfragment⟩)
    · -- A frame found done and valid has the opcode of a close frame.
      obtain ⟨hreading, _⟩ | hstale := hf
      · simp [Reading, found.done] at hreading
      · simp [isControlFrame, (hstale.2 valid).1, OpCode.value] at control
  | @refuses g e found invalid =>
    obtain hreads | ⟨_, rfl⟩ := reached_read hreached found.left found.read
    · exact .inl (.inr ⟨g, ⟨found.done, q, e, hreads⟩, .inl invalid⟩)
    · exact .inl (.inl ⟨found.done, invalid⟩)

/-- A frame that ends the call ends it with the opcode of a close frame. -/
theorem Meets.leaves (hmeets : f.Meets d g)
    (hends : g.isValid = false ∨ g.isOutOfPlace = true ∨ g.IsFragment) :
    ∃ q r, Reached processMessageRound ⟨f, d, []⟩ q ∧ processMessageRound q = .leave (some r) ∧
      r.1.frame.opCode = .close ∧ ∃ e, Reads f d q g e := by
  obtain ⟨hdone, q, e, hreads⟩ := hmeets
  have hround := round_done hreads.data hreads.read hdone
  cases hvalid : g.isValid with
  | false =>
    rw [hvalid] at hround
    exact ⟨q, _, hreads.reached, hround, rfl, e, hreads⟩
  | true =>
    have hdata : g.isDataFrame = true := by
      obtain hinvalid | hplace | hfragment := hends
      · simp [hvalid] at hinvalid
      · unfold isOutOfPlace isContinuationFrame at hplace
        grind
      · exact hfragment.data
    have hplaced : g.isOutOfPlace = true ∨ g.IsFragment := by
      simpa [hvalid] using hends
    obtain ⟨⟨g', exit⟩, hprocess⟩ := (processDataFrame_inr_iff (e := e) hvalid hdata).mpr hplaced
    have hcontrol : ¬ g.isControlFrame = true := by simpa [isDataFrame] using hdata
    rw [if_pos hvalid, if_neg hcontrol, hprocess] at hround
    exact ⟨q, _, hreads.reached, hround, (processDataFrame_abandoned hprocess).opCode, e, hreads⟩

theorem HitsViolation.close (h : f.HitsViolation d) (hd : d.getDataLeftToRead ≠ 0)
    (hcall : f.processMessage d = some (p, exit)) : p.frame.opCode = .close := by
  obtain ⟨hdone, hvalid⟩ | ⟨g, hmeets, hends⟩ := h
  · have hround : processMessageRound ⟨f, d, []⟩ =
        .leave (some (⟨{ f with opCode := .close }, d, []⟩, .invalidFrame)) := by
      rw [round_done (p := ⟨f, d, []⟩) hd (readFrame_done hdone d) hdone, hvalid]
      rfl
    rw [← (Prod.mk.inj (processMessage_leave hcall .start hround)).1]
  · obtain ⟨q, r, hreached, hleave, hclose, _⟩ := hmeets.leaves (hends.imp_right .inl)
    rwa [processMessage_leave hcall hreached hleave] at hclose

theorem CollectsFragment.close (h : f.CollectsFragment d)
    (hcall : f.processMessage d = some (p, exit)) : p.frame.opCode = .close := by
  obtain ⟨g, hmeets, hfragment⟩ := h
  obtain ⟨q, r, hreached, hleave, hclose, _⟩ := hmeets.leaves (.inr (.inr hfragment))
  rwa [processMessage_leave hcall hreached hleave] at hclose

/-- A call that runs out of bytes leaves the frame it was reading. -/
theorem Reads.waits (h : Reads f d q g e) (hwaits : g.processingState ≠ .done) :
    processMessageRound q = .leave (some (⟨g, e, q.events⟩, .needData)) := by
  have hstate : (g.processingState != .done) = true := by simpa using hwaits
  rw [processMessageRound, if_neg h.data, h.read]
  exact if_pos hstate

theorem LeavesClose.close (h : f.LeavesClose d) (hcall : f.processMessage d = some (p, exit)) :
    p.frame.opCode = .close := by
  obtain ⟨g, ⟨hwaits, q, e, hreads⟩, hclose⟩ := h
  have hleave := processMessage_leave hcall hreads.reached (hreads.waits hwaits)
  rw [← (Prod.mk.inj hleave).1]
  exact hclose

/-- A call returns with the opcode of a close frame in these three cases. -/
theorem processMessage_close_iff (hf : f.Safe d.getDataLeftToRead) (hd : d.getDataLeftToRead ≠ 0)
    (hcall : f.processMessage d = some (p, exit)) :
    p.frame.opCode = .close ↔ f.HitsViolation d ∨ f.CollectsFragment d ∨ f.LeavesClose d := by
  constructor
  · intro hclose
    obtain ⟨q, hreached, hleave⟩ := Reached.of_loop (Option.join_eq_some_iff.mp hcall)
    exact leave_close hf hd hreached hleave hclose
  · rintro (h | h | h)
    · exact h.close hd hcall
    · exact h.close hcall
    · exact h.close hcall

/-- A fragment ends the call, so nothing else does. -/
theorem CollectsFragment.only (h : f.CollectsFragment d) : ¬ f.HitsViolation d ∧ ¬ f.LeavesClose d := by
  obtain ⟨g, hmeets, hfragment⟩ := h
  obtain ⟨q, r, hreached, hleave, _, e, hreads⟩ := hmeets.leaves (.inr (.inr hfragment))
  have hsame : ∀ {p g' e'}, Reads f d p g' e' → (∃ r, processMessageRound p = .leave r) → g' = g := by
    rintro p g' e' hreads' ⟨r', hleave'⟩
    obtain rfl := hreached.leaving_unique hreads'.reached hleave hleave'
    exact (Prod.mk.inj (Option.some.inj (hreads'.read.symm.trans hreads.read))).1
  constructor
  · rintro (⟨hdone, hvalid⟩ | ⟨g', hmeets', hends⟩)
    · have hround : ∃ r, processMessageRound ⟨f, d, []⟩ = .leave r := by
        by_cases hleft : d.getDataLeftToRead = 0
        · exact ⟨_, if_pos hleft⟩
        · rw [round_done (p := ⟨f, d, []⟩) hleft (readFrame_done hdone d) hdone, hvalid]
          exact ⟨_, rfl⟩
      obtain ⟨r', hleave'⟩ := hround
      obtain rfl := hreached.leaving_unique .start hleave hleave'
      exact hreads.unread hdone
    · obtain ⟨q', r', hreached', hleave', _, e', hreads'⟩ := hmeets'.leaves (hends.imp_right .inl)
      obtain rfl := hsame hreads' ⟨_, hleave'⟩
      obtain hinvalid | hplace := hends
      · simp [hfragment.valid] at hinvalid
      · simp [hfragment.inPlace] at hplace
  · rintro ⟨g', ⟨hwaits, q', e', hreads'⟩, _⟩
    obtain rfl := hsame hreads' ⟨_, hreads'.waits hwaits⟩
    exact hwaits hmeets.1

end Frame

end LuPlatform.Websocket
