import LuPlatform.Websocket.MessageLoop

/-! How many bytes a call of `processMessage` consumes: those that the decoder was fed and has not left
over. The payload of a frame that is refused after it was read stays where it is. -/

namespace LuPlatform.Websocket

open Bytes Loop Feed

namespace Frame

/-- What a frame that was read to its end and then refused leaves among the unread bytes. -/
def kept (f : Frame) : Nat :=
  if f.processingState = .done ∧ f.isValid = true then f.length else 0

/-- The decoder, begun with a frame, consumes `n` of the unread bytes. -/
def DecoderTakes (f : Frame) (unread : List UInt8) (n : Nat) : Prop :=
  ∃ events s rest, Feeds decoder f unread events s rest ∧ n + rest.length + s.kept = unread.length

/-- `n` of the unread bytes are consumed. A frame that was refused consumes nothing, unless it is
taken for a close frame. -/
def Takes (f : Frame) (unread : List UInt8) (n : Nat) : Prop :=
  if f.processingState = .done then
    if f.isValid = true ∧ unread ≠ [] then
      ∃ m, f.reset.DecoderTakes (unread.drop f.length) m ∧ n = f.length + m
    else n = 0
  else f.DecoderTakes unread n

theorem kept_resting {f : Frame} (h : f.Resting) : f.kept = 0 :=
  if_neg fun hdone => h.1.not_done hdone.1

/-- A frame that is refused while it is read has consumed what the decoder has. -/
theorem readFrame_refused {fuel : Nat} {f f' : Frame} {d d' : SocketData} (hf : f.Reading)
    (hd : d.readOffset ≤ d.data.length) (h : loop readFrameRound fuel (f, d) = some (f', d'))
    (hdone : f'.processingState = .done) (hinvalid : f'.isValid = false) :
    ∃ rest, Feeds decoder f d.unread [] (f'.settle d').1 rest ∧
      rest.length = d'.getDataLeftToRead := by
  induction fuel generalizing f d with
  | zero => cases h
  | succ fuel ih =>
    obtain ⟨n, hn⟩ := hf.need
    by_cases hlt : d.getDataLeftToRead < n
    · have hround : readFrameRound (f, d) = .leave (f, d) := by
        rw [readFrameRound_reader hf, reader_short hf hn hlt]
        rfl
      rw [loop_leave hround] at h
      obtain ⟨rfl, rfl⟩ := Prod.mk.inj (Option.some.inj h)
      exact absurd hdone hf.not_done
    · have hle : n ≤ d.getDataLeftToRead := by omega
      have hle' : n ≤ d.unread.length := by rwa [SocketData.length_unread]
      obtain ⟨g, e, e', next, hagrees⟩ := reader_agrees hf hn hle
      by_cases hnext : next = .done
      · subst hnext
        have hround : readFrameRound (f, d) = .again (g.enter .done, e) := by
          rw [readFrameRound_reader hf, hagrees.whole]
          rfl
        have hleave : readFrameRound (g.enter .done, e) = .leave (g.enter .done, e) := rfl
        rw [loop_again hround] at h
        cases fuel with
        | zero => cases h
        | succ fuel =>
          rw [loop_leave hleave] at h
          obtain ⟨rfl, rfl⟩ := Prod.mk.inj (Option.some.inj h)
          have hsettle : ∀ x, settle (g.enter .done) x =
              ({ g.enter .done with opCode := .close }, []) :=
            settle_refused hinvalid
          refine ⟨d.unread.drop n, ?_, ?_⟩
          · rw [hsettle]
            exact Feeds.step hn hle' ((consume_done hagrees).trans (hsettle e'))
              (.starve (starved_done rfl _))
          · rw [List.length_drop, SocketData.length_unread, SocketData.getDataLeftToRead,
              SocketData.getDataLeftToRead, hagrees.refused rfl hinvalid, hagrees.length_eq, Nat.sub_sub]
      · obtain ⟨hskip, -, hread⟩ := hagrees.going hnext
        have hround : readFrameRound (f, d) = .again (g.enter next, e) := by
          rw [readFrameRound_reader hf, hagrees.whole, resumeAt_again]
          rintro rfl
          exact hread.elim
        have he : e.readOffset ≤ e.data.length := by
          have hleft := getDataLeftToRead_add hd
          rw [hskip]
          simp only [SocketData.skip]
          omega
        rw [loop_again hround] at h
        obtain ⟨rest, hfeeds, hrest⟩ := ih hread he h
        rw [hskip, SocketData.unread_skip] at hfeeds
        exact ⟨rest, Feeds.step hn hle' (consume_going hagrees hnext) hfeeds, hrest⟩

/-- The round that returns, begun by a resting frame. -/
theorem leave_rest {p q : Processing} {exit : Exit} (hf : p.frame.Resting)
    (hd : p.socketData.readOffset ≤ p.socketData.data.length)
    (h : processMessageRound p = .leave (some (q, exit))) :
    ∃ rest, Feeds decoder p.frame p.socketData.unread [] q.frame rest ∧
      rest.length + q.frame.kept = q.socketData.getDataLeftToRead := by
  cases leavesWith_of_leave h with
  | drained left =>
    refine ⟨p.socketData.unread, .starve fun n hn => ?_, ?_⟩
    · rw [SocketData.length_unread, left]
      exact hf.2 n hn
    · rw [kept_resting hf, SocketData.length_unread, Nat.add_zero]
  | @waits f d left read waiting =>
    obtain ⟨f', d', hread, -, hframe⟩ := readFrame_spec hf.1 hd
    obtain ⟨rfl, rfl⟩ := Prod.mk.inj (Option.some.inj (hread.symm.trans read))
    cases hframe with
    | waiting hresting _ hfeeds =>
      refine ⟨_, hfeeds, ?_⟩
      rw [kept_resting hresting, SocketData.length_unread, Nat.add_zero]
    | complete hdone => exact absurd hdone waiting
    | refused hdone => exact absurd hdone waiting
  | @abandons f g d exit found valid control processed =>
    obtain ⟨f', d', hread, -, hframe⟩ := readFrame_spec hf.1 hd
    obtain ⟨rfl, rfl⟩ := Prod.mk.inj (Option.some.inj (hread.symm.trans found.read))
    have habandoned := processDataFrame_abandoned processed
    have hstopped : g.processingState = .done := habandoned.state.trans found.done
    cases hframe with
    | waiting hresting _ _ => exact absurd found.done hresting.1.not_done
    | complete _ _ hfits _ hfeeds =>
      rw [settle_abandoned valid (by simp [control]) processed] at hfeeds
      refine ⟨d'.unread.drop f'.length, hfeeds [] g _ (.starve (starved_done hstopped _)), ?_⟩
      have hkept : g.kept = f'.length := by
        rw [kept, if_pos ⟨hstopped, habandoned.valid.trans valid⟩, habandoned.length]
      rw [hkept, List.length_drop, SocketData.length_unread, SocketData.getDataLeftToRead]
      omega
    | refused _ hinvalid =>
      rw [valid] at hinvalid
      cases hinvalid
  | @refuses f d found invalid =>
    obtain ⟨rest, hfeeds, hrest⟩ := readFrame_refused hf.1 hd found.read found.done invalid
    rw [settle_refused invalid] at hfeeds
    refine ⟨rest, hfeeds, ?_⟩
    rw [kept, if_neg fun hkept => ?_, hrest, Nat.add_zero]
    rw [show _ = f.isValid from rfl, invalid] at hkept
    cases hkept.2

theorem loop_rest {fuel : Nat} {p q : Processing} {exit : Exit} (hf : p.frame.Resting)
    (hd : p.socketData.readOffset ≤ p.socketData.data.length)
    (h : loop processMessageRound fuel p = some (some (q, exit))) :
    ∃ events rest, Feeds decoder p.frame p.socketData.unread events q.frame rest ∧
      rest.length + q.frame.kept = q.socketData.getDataLeftToRead := by
  induction fuel generalizing p with
  | zero => cases h
  | succ fuel ih =>
    obtain ⟨r, hinside, hgoes | ⟨exit', hround, -, -⟩⟩ := round_resting hf hd
    · rw [loop_again hgoes.again] at h
      obtain ⟨events, rest, hfeeds, hrest⟩ := ih hgoes.resting hinside.offset_le h
      obtain ⟨first, -, hfirst⟩ := hgoes.feeds
      exact ⟨first ++ events, rest, hfirst events _ rest hfeeds, hrest⟩
    · rw [loop_leave hround] at h
      obtain ⟨rfl, rfl⟩ := Prod.mk.inj (Option.some.inj (Option.some.inj h))
      obtain ⟨rest, hfeeds, hrest⟩ := leave_rest hf hd hround
      exact ⟨[], rest, hfeeds, hrest⟩

/-! ### The offset goes forward -/

theorem reader_offset (f : Frame) (d : SocketData) : d.readOffset ≤ (f.reader d).2.1.readOffset := by
  have hskip : ∀ n, d.readOffset ≤ (d.skip n).readOffset := fun n => Nat.le_add_right _ n
  unfold reader
  split
  · unfold readFrameHeader
    split
    · dsimp only
      split_ifs <;> apply hskip
    · exact le_rfl
  · unfold readFramePayloadLength
    dsimp only
    split_ifs <;> first | apply hskip | exact le_rfl
  · unfold readFrameMask
    split_ifs <;> first | apply hskip | exact le_rfl
  · unfold readFramePayload
    split_ifs <;> exact le_rfl
  · exact le_rfl

theorem resumeAt_data {state : ProcessingState} {r : Frame × SocketData × ProcessingState}
    {y : Frame × SocketData} (h : resumeAt state r = .again y ∨ resumeAt state r = .leave y) :
    y.2 = r.2.1 := by
  unfold resumeAt at h
  split at h
  · cases h with
    | inl h => cases h
    | inr h => rw [← Round.leave.inj h]
  · cases h with
    | inl h => rw [← Round.again.inj h]
    | inr h => cases h

theorem readFrameRound_offset (x y : Frame × SocketData)
    (h : readFrameRound x = .again y ∨ readFrameRound x = .leave y) :
    x.2.readOffset ≤ y.2.readOffset := by
  obtain ⟨f, d⟩ := x
  have hreader := reader_offset f d
  cases hstate : f.processingState <;> simp only [readFrameRound, hstate] at h <;>
    simp only [reader, hstate] at hreader
  case readHeader | readPayloadLength | readMask | readPayload => rwa [resumeAt_data h]
  case waitForData | error | done =>
    cases h with
    | inl h => cases h <;> exact le_rfl
    | inr h => cases h <;> exact le_rfl

theorem readFrame_offset {f f' : Frame} {d d' : SocketData} (h : f.readFrame d = some (f', d')) :
    d.readOffset ≤ d'.readOffset :=
  loop_invariant (fun x => d.readOffset ≤ x.2.readOffset) (fun x => d.readOffset ≤ x.2.readOffset)
    (fun x y hx hy => hx.trans (readFrameRound_offset x y (.inl hy)))
    (fun x y hx hy => hx.trans (readFrameRound_offset x y (.inr hy))) le_rfl h

/-- A call begins where it is told to, and never goes back. -/
theorem loop_offset {fuel : Nat} {p q : Processing} {exit : Exit}
    (h : loop processMessageRound fuel p = some (some (q, exit))) :
    p.socketData.readOffset ≤ q.socketData.readOffset := by
  refine loop_invariant (fun r => p.socketData.readOffset ≤ r.socketData.readOffset)
    (fun r => ∀ q exit, r = some (q, exit) → p.socketData.readOffset ≤ q.socketData.readOffset)
    ?_ ?_ le_rfl h q exit rfl
  · intro r r' hr hround
    apply hr.trans
    cases goesTo_of_again hround with
    | control found => exact (readFrame_offset found.read).trans (Nat.le_add_right _ _)
    | data found => exact (readFrame_offset found.read).trans (Nat.le_add_right _ _)
  · intro r x hr hround q exit hx
    rw [hx] at hround
    apply hr.trans
    cases leavesWith_of_leave hround with
    | drained => exact le_rfl
    | waits left read => exact readFrame_offset read
    | abandons found => exact readFrame_offset found.read
    | refuses found => exact readFrame_offset found.read

/-- What the decoder has left over, and what it keeps, is what is not consumed. -/
theorem decoderTakes_iff {f : Frame} {unread rest : List UInt8} {events : List FrameEvent} {s : Frame}
    (hfeeds : Feeds decoder f unread events s rest) {left n : Nat}
    (hleft : rest.length + s.kept = left) : f.DecoderTakes unread n ↔ n + left = unread.length := by
  constructor
  · intro ⟨events', s', rest', hfeeds', hn⟩
    obtain ⟨-, rfl, rfl⟩ := hfeeds.unique hfeeds'
    omega
  · intro hn
    exact ⟨events, s, rest, hfeeds, by omega⟩

/-! ### Calls -/

section Calls

variable {f : Frame} {unread : List UInt8} {q : Processing} {exit : Exit} {n : Nat}

theorem takes_resting (hf : f.Resting) (h : f.processMessage (.new unread) = some (q, exit))
    (hinside : Inside (.new unread) q.socketData) :
    f.Takes unread n ↔ n = q.socketData.readOffset := by
  have hlength : q.socketData.data.length = unread.length := hinside.length_eq
  have hall := getDataLeftToRead_add hinside.offset_le
  obtain ⟨events, rest, hfeeds, hrest⟩ := loop_rest (p := ⟨f, .new unread, []⟩) hf (Nat.zero_le _)
    (Option.join_eq_some_iff.mp h)
  rw [SocketData.unread_new] at hfeeds
  rw [Takes, if_neg hf.1.not_done, decoderTakes_iff hfeeds hrest]
  omega

/-- A frame that was refused is met again, unless it is taken for a close frame. -/
theorem takes_stays (hdone : f.processingState = .done) (hclose : ¬ (f.isValid = true ∧ unread ≠ []))
    (h : f.processMessage (.new unread) = some (q, exit)) :
    f.Takes unread n ↔ n = q.socketData.readOffset := by
  have hstays : q.socketData = .new unread := by
    cases hvalid : f.isValid with
    | false =>
      obtain ⟨g, exit', hg, -⟩ := processMessage_invalid hdone hvalid (.new unread)
      obtain ⟨rfl, -⟩ := Prod.mk.inj (Option.some.inj (hg.symm.trans h))
      rfl
    | true =>
      have hempty : (SocketData.new unread).getDataLeftToRead = 0 := by
        rw [SocketData.getDataLeftToRead_new, List.length_eq_zero_iff]
        by_contra hne
        exact hclose ⟨hvalid, hne⟩
      have hround : processMessageRound ⟨f, .new unread, []⟩ =
          .leave (some (⟨f, .new unread, []⟩, .needData)) := by
        rw [processMessageRound, if_pos hempty]
      have hloop := Option.join_eq_some_iff.mp h
      rw [loop_leave hround] at hloop
      obtain ⟨rfl, -⟩ := Prod.mk.inj (Option.some.inj (Option.some.inj hloop))
      rfl
  rw [Takes, if_pos hdone, if_neg hclose, hstays]
  rfl

/-- The payload of the frame that is taken for a close frame is skipped first. -/
theorem takes_close (hstale : f.Stale unread.length) (hclose : f.isValid = true ∧ unread ≠ [])
    (h : f.processMessage (.new unread) = some (q, exit))
    (hinside : Inside (.new unread) q.socketData) :
    f.Takes unread n ↔ n = q.socketData.readOffset := by
  have hlength : q.socketData.data.length = unread.length := hinside.length_eq
  have hall := getDataLeftToRead_add hinside.offset_le
  have hfits := (hstale.2 hclose.1).2
  have hdone := hstale.1
  have hleft : (SocketData.new unread).getDataLeftToRead ≠ 0 := by
    rw [SocketData.getDataLeftToRead_new]
    exact fun hzero => hclose.2 (List.length_eq_zero_iff.mp hzero)
  rw [← SocketData.getDataLeftToRead_new unread] at hstale
  have hskip := stale_skip hstale hclose.1 (Nat.zero_le _)
  have hloop := Option.join_eq_some_iff.mp h
  rw [loop_again (round_stale hstale hclose.1 hleft)] at hloop
  obtain ⟨events, rest, hfeeds, hrest⟩ := loop_rest (p := ⟨f.reset, _, _⟩) (reset_resting f) hskip
    hloop
  change Feeds decoder f.reset ((SocketData.new unread).skip f.length).unread events q.frame rest
    at hfeeds
  rw [SocketData.unread_skip, SocketData.unread_new] at hfeeds
  rw [Takes, if_pos hdone, if_pos hclose]
  simp only [decoderTakes_iff hfeeds hrest, List.length_drop]
  constructor
  · intro htakes
    obtain ⟨m, hm, hn⟩ := htakes
    omega
  · intro hn
    -- the call has stopped behind the payload of the close frame
    have hbound : 0 + f.length ≤ q.socketData.readOffset := loop_offset hloop
    exact ⟨n - f.length, by omega, by omega⟩

/-- The bytes behind which a call stops are those that the decoder consumes. -/
theorem processMessage_takes (hf : f.Safe unread.length)
    (h : f.processMessage (.new unread) = some (q, exit)) :
    f.Takes unread n ↔ n = q.socketData.readOffset := by
  have hinside : Inside (.new unread) q.socketData := by
    obtain ⟨q', exit', hq, hinside, -⟩ := processMessage_safe (f := f) (d := .new unread)
      (by rwa [SocketData.getDataLeftToRead_new]) (Nat.zero_le _)
    obtain ⟨rfl, -⟩ := Prod.mk.inj (Option.some.inj (hq.symm.trans h))
    exact hinside
  cases hf with
  | inl hresting => exact takes_resting hresting h hinside
  | inr hstale =>
    by_cases hclose : f.isValid = true ∧ unread ≠ []
    · exact takes_close hstale hclose h hinside
    · exact takes_stays hstale.1 hclose h

end Calls

end Frame

end LuPlatform.Websocket
