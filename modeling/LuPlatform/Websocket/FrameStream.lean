import LuPlatform.Library.Feed
import LuPlatform.Websocket.FrameMessages
import LuPlatform.Websocket.FrameReaders

/-! The message loop as a decoder that asks for its input: the readers move on when they have the
bytes they need, and the callbacks happen when the payload is there. `readFrame_spec` says what one
call of `readFrame` is of a run of this decoder over the unread bytes. -/

namespace LuPlatform.Websocket

open Bytes Loop Feed

namespace Frame

/-- What the message loop does with a frame that is done: its callbacks, and the frame it goes on or
stops with. -/
def settle (f : Frame) (d : SocketData) : Frame × List FrameEvent :=
  if f.isValid then
    if f.isControlFrame then
      (f.reset, f.processControlFrame d)
    else
      match f.processDataFrame d with
      | .inl (f, events) => (f.reset.reset, events)
      | .inr (f, _) => (f, [])
  else
    ({ f with opCode := .close }, [])

theorem settle_refused {f : Frame} (hinvalid : f.isValid = false) (d : SocketData) :
    f.settle d = ({ f with opCode := .close }, []) := by
  simp [settle, hinvalid]

theorem settle_control {f : Frame} (hvalid : f.isValid = true) (hcontrol : f.isControlFrame = true)
    (d : SocketData) : f.settle d = (f.reset, f.processControlFrame d) := by
  simp [settle, hvalid, hcontrol]

theorem settle_data {f f' : Frame} {d : SocketData} {events : List FrameEvent}
    (hvalid : f.isValid = true) (hcontrol : ¬ f.isControlFrame = true)
    (hdata : f.processDataFrame d = .inl (f', events)) :
    f.settle d = (f'.reset.reset, events) := by
  simp [settle, hvalid, hcontrol, hdata]

theorem settle_abandoned {f f' : Frame} {d : SocketData} {exit : Exit} (hvalid : f.isValid = true)
    (hcontrol : ¬ f.isControlFrame = true) (hdata : f.processDataFrame d = .inr (f', exit)) :
    f.settle d = (f', []) := by
  simp [settle, hvalid, hcontrol, hdata]

def consume (f : Frame) (bytes : List UInt8) : Frame × List FrameEvent :=
  match f.reader (.new bytes) with
  | (f', d, .done) => settle (f'.enter .done) d
  | (f', _, next) => (f'.enter next, [])

def decoder : Decoder Frame UInt8 FrameEvent := ⟨need, consume⟩

theorem starved_done {f : Frame} (h : f.processingState = .done) (n : Nat) :
    decoder.Starved f n := by
  intro m hm
  have hm' : f.need = some m := hm
  simp [need, h] at hm'

theorem Resting.starved {f : Frame} (h : f.Resting) : decoder.Starved f 0 := h.2

/-! ### Settling a frame looks at its payload only -/

theorem receivedCloseCode_take (length : Nat) (unread : List UInt8) :
    receivedCloseCode length (unread.take length) = receivedCloseCode length unread := by
  unfold receivedCloseCode
  split
  · rfl
  · split
    · rw [List.take_take, Nat.min_eq_left (by omega)]
    · rfl

theorem beginMessage_length (f : Frame) : f.beginMessage.length = f.length := by
  unfold beginMessage
  split <;> rfl

theorem beginMessage_state (f : Frame) : f.beginMessage.processingState = f.processingState := by
  unfold beginMessage
  split <;> rfl

/-- The two outcomes of `deliver`, and what they say about the frame. -/
theorem deliver_cases (f : Frame) (d : SocketData) :
    f.deliver d =
      if f.isFragmented then
        if f.length + f.message.getDataLength > f.message.getCapacity then
          .inl (if f.isFinalFrame then
            ({ f with message := f.message.clear },
              [.onData (f.message.getData.take f.length)])
          else (f, []))
        else
          .inr ({ f with
            message := (f.message.append (d.unread.take f.length)).1
            opCode := .close }, .tooBig)
      else
        .inl (f, if f.isFinalFrame then [.onData (d.unread.take f.length)] else []) := by
  unfold deliver append
  grind

theorem deliver_congr {f : Frame} {d e : SocketData} (h : e.unread = d.unread.take f.length) :
    f.deliver e = f.deliver d := by
  have hpayload : e.unread.take f.length = d.unread.take f.length := by
    rw [h, List.take_take, Nat.min_self]
  rw [deliver_cases, deliver_cases, hpayload]

theorem settle_congr {f : Frame} {d e : SocketData} (h : e.unread = d.unread.take f.length) :
    f.settle e = f.settle d := by
  have hdeliver : f.beginMessage.deliver e = f.beginMessage.deliver d :=
    deliver_congr (by rw [beginMessage_length, h])
  simp only [settle, processControlFrame, processDataFrame, hdeliver, h, List.take_take,
    Nat.min_self, receivedCloseCode_take]

/-- How the data branch leaves a frame where the source returns from it: done as before, with only
the opcode overwritten, and perhaps one more fragment collected. -/
structure Abandoned (f g : Frame) (exit : Exit) : Prop where
  state : g.processingState = f.processingState
  valid : g.isValid = f.isValid
  length : g.length = f.length
  opCode : g.opCode = .close
  exit : exit ≠ .needData ∧ exit ≠ .invalidFrame

theorem deliver_abandoned {f g : Frame} {d : SocketData} {exit : Exit}
    (h : f.deliver d = .inr (g, exit)) : Abandoned f g exit := by
  rw [deliver_cases] at h
  have hg : g = { f with
      message := (f.message.append (d.unread.take f.length)).1
      opCode := .close } ∧ exit = .tooBig := by grind
  obtain ⟨rfl, rfl⟩ := hg
  exact ⟨rfl, rfl, rfl, rfl, by simp⟩

theorem processDataFrame_abandoned {f g : Frame} {d : SocketData} {exit : Exit}
    (h : f.processDataFrame d = .inr (g, exit)) : Abandoned f g exit := by
  unfold processDataFrame at h
  split at h
  · obtain ⟨rfl, rfl⟩ := Prod.mk.inj (Sum.inr.inj h)
    exact ⟨rfl, rfl, rfl, rfl, by simp⟩
  · split at h
    · obtain ⟨rfl, rfl⟩ := Prod.mk.inj (Sum.inr.inj h)
      exact ⟨rfl, rfl, rfl, rfl, by simp⟩
    · have hbegin : f.beginMessage.isValid = f.isValid := by
        unfold beginMessage
        split <;> rfl
      have := deliver_abandoned h
      exact ⟨this.state.trans (beginMessage_state f), this.valid.trans hbegin,
        this.length.trans (beginMessage_length f), this.opCode, this.exit⟩

/-- Where the data branch goes on, the length it skips is the one that was read. -/
theorem processDataFrame_length {f g : Frame} {d : SocketData} {events : List FrameEvent}
    (h : f.processDataFrame d = .inl (g, events)) : g.length = f.length := by
  have hdeliver : f.beginMessage.deliver d = .inl (g, events) := by
    unfold processDataFrame at h
    grind
  rw [deliver_cases] at hdeliver
  rw [← beginMessage_length f]
  grind

theorem consume_done {f f' : Frame} {d d' e : SocketData} {n : Nat}
    (h : Agrees f d n f' d' e .done) :
    f.consume (d.unread.take n) = settle (f'.enter .done) e := by
  rw [consume, h.alone]

theorem consume_going {f f' : Frame} {d d' e : SocketData} {n : Nat} {next : ProcessingState}
    (h : Agrees f d n f' d' e next) (hne : next ≠ .done) :
    f.consume (d.unread.take n) = (f'.enter next, []) := by
  rw [consume, h.alone]
  cases next <;> first | rfl | exact absurd rfl hne

/-! ### One frame -/

theorem Reading.rank_pos {f : Frame} (hf : f.Reading) : 0 < rank f.processingState := by
  unfold Reading at hf
  split at hf <;> rename_i hstate <;> first | exact hf.elim | (rw [hstate]; decide)

theorem readFrameRound_reader {f : Frame} (hf : f.Reading) (d : SocketData) :
    readFrameRound (f, d) = resumeAt f.processingState (f.reader d) := by
  unfold Reading at hf
  unfold readFrameRound reader
  split at hf <;> simp_all

theorem resumeAt_again {f : Frame} {d : SocketData} {state next : ProcessingState}
    (h : next ≠ .waitForData) : resumeAt state (f, d, next) = .again (f.enter next, d) := by
  cases next <;> first | rfl | exact absurd rfl h

theorem getDataLeftToRead_add {d : SocketData} (h : d.readOffset ≤ d.data.length) :
    d.readOffset + d.getDataLeftToRead = d.data.length := by
  unfold SocketData.getDataLeftToRead
  omega

/-- How `readFrame` leaves a frame it was resumed in. -/
inductive FrameRead (f : Frame) (d : SocketData) (f' : Frame) (d' : SocketData) : Prop where
  /-- More bytes are needed. -/
  | waiting : f'.Resting → d'.readOffset ≤ d'.data.length →
      Feeds decoder f d.unread [] f' d'.unread → FrameRead f d f' d'
  /-- The payload is there, unmasked, at the read offset. -/
  | complete : f'.processingState = .done → f'.isValid = true →
      d'.readOffset + f'.length ≤ d'.data.length →
      (∀ n, f.need = some n → d.readOffset + n ≤ d'.readOffset + f'.length) →
      (∀ events s rest, Feeds decoder (f'.settle d').1 (d'.unread.drop f'.length) events s rest →
        Feeds decoder f d.unread ((f'.settle d').2 ++ events) s rest) → FrameRead f d f' d'
  /-- The frame violates the protocol. -/
  | refused : f'.processingState = .done → f'.isValid = false →
      d'.readOffset ≤ d'.data.length →
      (∃ rest, Feeds decoder f d.unread [] (f'.settle d').1 rest) → FrameRead f d f' d'

/-- Too few bytes: nothing moves. -/
theorem frameRead_short {f : Frame} {d : SocketData} {n : Nat} (hf : f.Reading)
    (hd : d.readOffset ≤ d.data.length) (hn : f.need = some n) (hlt : d.getDataLeftToRead < n) :
    FrameRead f d f d := by
  have honly : ∀ m, f.need = some m → m = n := by
    intro m hm
    rw [hn] at hm
    exact (Option.some.inj hm).symm
  refine .waiting ⟨hf, fun m hm => ?_⟩ hd (.starve fun m hm => ?_)
  · rw [honly m hm]
    omega
  · rw [honly m hm, SocketData.length_unread]
    exact hlt

/-- The reader that finishes the frame. -/
theorem Agrees.frameRead {f f' : Frame} {d d' e : SocketData} {n : Nat}
    (h : Agrees f d n f' d' e .done) (hd : d.readOffset ≤ d.data.length) (hn : f.need = some n)
    (hle : n ≤ d.getDataLeftToRead) : FrameRead f d (f'.enter .done) d' := by
  have hleft := getDataLeftToRead_add hd
  have hle' : n ≤ d.unread.length := by rwa [SocketData.length_unread]
  cases hvalid : f'.isValid with
  | true =>
    obtain ⟨hf', hlength, hoffset, hunread, he⟩ := h.valid rfl hvalid
    have hlength' : (f'.enter .done).length = n := by rw [hf', hlength]; rfl
    have hsettle : settle (f'.enter .done) e = settle (f'.enter .done) d' := by
      refine settle_congr ?_
      rw [hunread, hlength', List.take_left' he]
    have hdrop : d'.unread.drop (f'.enter .done).length = d.unread.drop n := by
      rw [hunread, hlength', List.drop_left' he]
    refine .complete rfl hvalid ?_ (fun m hm => ?_) (fun events s rest hfeeds => ?_)
    · rw [hoffset, h.length_eq, hlength']
      omega
    · rw [hn] at hm
      obtain rfl := Option.some.inj hm
      rw [hoffset, hlength']
    · rw [hdrop] at hfeeds
      exact Feeds.step hn hle' ((consume_done h).trans hsettle) hfeeds
  | false =>
    have hsettle : ∀ x, settle (f'.enter .done) x =
        ({ f'.enter .done with opCode := .close }, []) :=
      settle_refused (f := f'.enter .done) hvalid
    refine .refused rfl hvalid ?_ ⟨d.unread.drop n, ?_⟩
    · rw [h.refused rfl hvalid, h.length_eq]
      omega
    · rw [hsettle]
      exact Feeds.step hn hle' ((consume_done h).trans (hsettle e))
        (.starve (starved_done rfl _))

/-- A reader after which another one runs. -/
theorem Agrees.frameRead_going {f f' f'' : Frame} {d d' d'' e : SocketData} {n : Nat}
    {next : ProcessingState} (h : Agrees f d n f' d' e next) (hne : next ≠ .done)
    (hn : f.need = some n) (hle : n ≤ d.getDataLeftToRead)
    (hrest : FrameRead (f'.enter next) d' f'' d'') : FrameRead f d f'' d'' := by
  obtain ⟨hskip, _, hread⟩ := h.going hne
  have hle' : n ≤ d.unread.length := by rwa [SocketData.length_unread]
  have hfeeds : ∀ {events : List FrameEvent} {s : Frame} {rest : List UInt8},
      Feeds decoder (f'.enter next) d'.unread events s rest →
        Feeds decoder f d.unread events s rest := by
    intro events s rest hnext
    rw [hskip, SocketData.unread_skip] at hnext
    exact Feeds.step hn hle' (consume_going h hne) hnext
  cases hrest with
  | waiting hresting hoffset hnext => exact .waiting hresting hoffset (hfeeds hnext)
  | complete hstate hvalid hfits hcons hnext =>
    refine .complete hstate hvalid hfits (fun m hm => ?_)
      fun events s rest h' => hfeeds (hnext events s rest h')
    rw [hn] at hm
    obtain rfl := Option.some.inj hm
    obtain ⟨k, hk⟩ := hread.need
    have hk' := hcons k hk
    rw [hskip] at hk'
    simp only [SocketData.skip] at hk'
    omega
  | refused hstate hvalid hoffset hnext =>
    obtain ⟨rest, hnext⟩ := hnext
    exact .refused hstate hvalid hoffset ⟨rest, hfeeds hnext⟩

/-- The induction is on the fuel: every reader that goes on is followed by a later one. -/
theorem readFrame_run {fuel : Nat} {f : Frame} {d : SocketData} (hf : f.Reading)
    (hd : d.readOffset ≤ d.data.length) (hfuel : rank f.processingState < fuel) :
    ∃ f' d', loop readFrameRound fuel (f, d) = some (f', d') ∧
      d'.data.length = d.data.length ∧ FrameRead f d f' d' := by
  induction fuel generalizing f d with
  | zero => omega
  | succ fuel ih =>
    obtain ⟨n, hn⟩ := hf.need
    have hleft := getDataLeftToRead_add hd
    by_cases hlt : d.getDataLeftToRead < n
    · have hround : readFrameRound (f, d) = .leave (f, d) := by
        rw [readFrameRound_reader hf, reader_short hf hn hlt]
        rfl
      exact ⟨f, d, loop_leave hround fuel, rfl, frameRead_short hf hd hn hlt⟩
    · have hle : n ≤ d.getDataLeftToRead := by omega
      obtain ⟨f', d', e, next, h⟩ := reader_agrees hf hn hle
      by_cases hdone : next = .done
      · subst hdone
        have hround : readFrameRound (f, d) = .again (f'.enter .done, d') := by
          rw [readFrameRound_reader hf, h.whole]
          rfl
        have hnext : readFrameRound (f'.enter .done, d') = .leave (f'.enter .done, d') := rfl
        obtain ⟨fuel, rfl⟩ : ∃ k, fuel = k + 1 := ⟨fuel - 1, by have := hf.rank_pos; omega⟩
        exact ⟨_, d', (loop_again hround _).trans (loop_leave hnext fuel), h.length_eq,
          h.frameRead hd hn hle⟩
      · obtain ⟨hskip, hrank, hread⟩ := h.going hdone
        have hround : readFrameRound (f, d) = .again (f'.enter next, d') := by
          rw [readFrameRound_reader hf, h.whole, resumeAt_again]
          rintro rfl
          exact hread.elim
        have hd' : d'.readOffset ≤ d'.data.length := by
          rw [hskip]
          simp only [SocketData.skip]
          omega
        obtain ⟨f'', d'', hloop, hlength, hout⟩ :=
          ih hread hd' (show rank next < fuel by omega)
        exact ⟨f'', d'', (loop_again hround fuel).trans hloop, hlength.trans h.length_eq,
          h.frameRead_going hdone hn hle hout⟩

theorem readFrame_spec {f : Frame} {d : SocketData} (hf : f.Reading)
    (hd : d.readOffset ≤ d.data.length) : ∃ f' d', f.readFrame d = some (f', d') ∧
      d'.data.length = d.data.length ∧ FrameRead f d f' d' := by
  refine readFrame_run hf hd ?_
  cases f.processingState <;> decide

end Frame

end LuPlatform.Websocket
