import LuPlatform.Socket.DataSocketV
import LuPlatform.Socket.WebSockets

/-! The sizes that the message loops read out of what a peer sends. Each round goes on where the size
before it says, so what the loops do is decided by the sizes that lie complete in the unread bytes. A
size of zero keeps them in place, and one below that of a header is consumed all the same. -/

namespace LuPlatform.Socket

open Bytes Loop

/-- The sizes of the messages that lie complete in `left` bytes from `offset` on, each of them read
where the one before it ends. -/
def messageSizes (getHeaderSize : Nat) (readHeader : Nat → Nat) :
    (messages offset left : Nat) → List Nat
  | 0, _, _ => []
  | messages + 1, offset, left =>
    let size := readHeader offset
    if getHeaderSize ≤ left ∧ size ≤ left then
      size :: messageSizes getHeaderSize readHeader messages (offset + size) (left - size)
    else
      []

namespace Receiver

variable {σ ε : Type} {handler : DataHandler} {s t u : Receiver σ ε}

section Sizes

variable (handler) (s)

/-- The sizes in the unread bytes. Behind a size of zero only zeros would follow, so one more than the
unread bytes are enough. -/
def completeSizes : List Nat :=
  messageSizes handler.getHeaderSize (fun offset => handler.readHeader s.buffer offset % 2 ^ 32)
    (s.numberOfBytesLeftToRead + 1) s.readOffset s.numberOfBytesLeftToRead

/-- The loop ends, and every message it hands out takes at least a header from the unread bytes. -/
structure MakesProgress : Prop where
  terminates : ∃ n r, loop (readMessagesRound handler) n s = some r
  consumes : ∀ t u, Reached (readMessagesRound handler) s t → readMessagesRound handler t = .again u →
    u.numberOfBytesLeftToRead + handler.getHeaderSize ≤ t.numberOfBytesLeftToRead

end Sizes

/-- What a round that hands out a message does to the buffer and its counters. -/
structure Advances (handler : DataHandler) (s t : Receiver σ ε) : Prop where
  header : handler.getHeaderSize ≤ s.numberOfBytesLeftToRead
  complete : s.expectedMsgSize handler ≤ s.numberOfBytesLeftToRead
  buffer : t.buffer = s.buffer
  offset : t.readOffset = s.readOffset + s.expectedMsgSize handler
  left : t.numberOfBytesLeftToRead = s.numberOfBytesLeftToRead - s.expectedMsgSize handler

theorem readMessagesRound_again (hheader : handler.getHeaderSize ≤ s.numberOfBytesLeftToRead)
    (hcomplete : s.expectedMsgSize handler ≤ s.numberOfBytesLeftToRead) :
    ∃ t, readMessagesRound handler s = .again t ∧ Advances handler s t := by
  by_cases hzero : s.expectedMsgSize handler = 0
  · have hround : readMessagesRound handler s = .again (((s.raise .stop).raise (.onData
        (handler.readMessage s.buffer s.readOffset (s.expectedMsgSize handler)))).updateForDataRead
          (s.expectedMsgSize handler)) := by
      simp only [readMessagesRound, ge_iff_le, if_pos hheader, if_pos hzero]
      exact if_pos hcomplete
    exact ⟨_, hround, hheader, hcomplete, rfl, rfl, rfl⟩
  · have hround : readMessagesRound handler s = .again ((s.raise (.onData
        (handler.readMessage s.buffer s.readOffset (s.expectedMsgSize handler)))).updateForDataRead
          (s.expectedMsgSize handler)) := by
      simp only [readMessagesRound, ge_iff_le, if_pos hheader, if_neg hzero, if_pos hcomplete]
    exact ⟨_, hround, hheader, hcomplete, rfl, rfl, rfl⟩

theorem advances_of_again (h : readMessagesRound handler s = .again t) : Advances handler s t := by
  by_cases hheader : handler.getHeaderSize ≤ s.numberOfBytesLeftToRead
  · by_cases hcomplete : s.expectedMsgSize handler ≤ s.numberOfBytesLeftToRead
    · obtain ⟨u, hu, hadvances⟩ := readMessagesRound_again hheader hcomplete
      rw [h] at hu
      rwa [Round.again.inj hu]
    · simp only [readMessagesRound, ge_iff_le, if_pos hheader] at h
      have hkeeps : (if s.expectedMsgSize handler = 0 then s.raise .stop else s).numberOfBytesLeftToRead
          = s.numberOfBytesLeftToRead := by
        split <;> rfl
      rw [hkeeps, if_neg hcomplete] at h
      cases h
  · rw [readMessagesRound, if_neg hheader] at h
    cases h

/-- A size of zero leaves the loop where it is. -/
theorem reached_of_zero (hzero : s.expectedMsgSize handler = 0)
    (h : Reached (readMessagesRound handler) s t) :
    t.expectedMsgSize handler = 0 := by
  have hstays : t.buffer = s.buffer ∧ t.readOffset = s.readOffset := by
    refine h.invariant (P := fun t => t.buffer = s.buffer ∧ t.readOffset = s.readOffset) ?_
      ⟨rfl, rfl⟩
    intro u v ⟨hbuffer, hoffset⟩ hround
    have hadvances := advances_of_again hround
    have hsize : u.expectedMsgSize handler = 0 := by
      rwa [expectedMsgSize, hbuffer, hoffset]
    exact ⟨hadvances.buffer.trans hbuffer, by rw [hadvances.offset, hsize, hoffset]; rfl⟩
  rwa [expectedMsgSize, hstays.1, hstays.2]

/-- The sizes are those of the messages that the loop hands out. -/
theorem mem_completeSizes {size : Nat} : size ∈ s.completeSizes handler ↔
    ∃ t u, Reached (readMessagesRound handler) s t ∧ readMessagesRound handler t = .again u ∧
      t.expectedMsgSize handler = size := by
  unfold completeSizes
  constructor
  · generalize s.numberOfBytesLeftToRead + 1 = n
    intro hmem
    induction n generalizing s with
    | zero => simp [messageSizes] at hmem
    | succ n ih =>
      simp only [messageSizes] at hmem
      split at hmem
      · rename_i hfits
        obtain ⟨t, hround, hadvances⟩ := readMessagesRound_again (s := s) hfits.1 hfits.2
        obtain rfl | hrest := List.mem_cons.mp hmem
        · exact ⟨s, t, .start, hround, rfl⟩
        · obtain ⟨u, v, hu, hv, hsize⟩ := ih (s := t) (by
            rw [hadvances.buffer, hadvances.offset, hadvances.left]
            exact hrest)
          exact ⟨u, v, .of_again hround hu, hv, hsize⟩
      · simp at hmem
  · intro ⟨t, u, ht, hu, hsize⟩
    have hle : s.numberOfBytesLeftToRead < s.numberOfBytesLeftToRead + 1 := Nat.lt_succ_self _
    revert hle
    generalize s.numberOfBytesLeftToRead + 1 = n
    intro hle
    induction n generalizing s with
    | zero => omega
    | succ n ih =>
      obtain rfl | ⟨v, hv, hreached⟩ := ht.cases_again
      · have hadvances := advances_of_again hu
        simp only [messageSizes]
        rw [if_pos ⟨hadvances.header, hadvances.complete⟩, ← hsize]
        exact List.mem_cons_self
      · have hadvances := advances_of_again hv
        simp only [messageSizes]
        rw [if_pos ⟨hadvances.header, hadvances.complete⟩]
        by_cases hzero : s.expectedMsgSize handler = 0
        · rw [← hsize, reached_of_zero hzero ht, ← hzero]
          exact List.mem_cons_self
        · have hcomplete := hadvances.complete
          have hrest := ih hreached (by rw [hadvances.left]; omega)
          rw [hadvances.buffer, hadvances.offset, hadvances.left] at hrest
          exact List.mem_cons_of_mem _ hrest

theorem makesProgress_iff : s.MakesProgress handler ↔
    ∀ size ∈ s.completeSizes handler, 0 < size ∧ handler.getHeaderSize ≤ size := by
  constructor
  · intro hprogress size hmem
    obtain ⟨t, u, ht, hu, rfl⟩ := mem_completeSizes.mp hmem
    have hadvances := advances_of_again hu
    have hcomplete := hadvances.complete
    have hconsumes := hprogress.consumes t u ht hu
    rw [hadvances.left] at hconsumes
    refine ⟨Nat.pos_of_ne_zero fun hzero => ?_, by omega⟩
    obtain ⟨n, r, hloop⟩ := hprogress.terminates
    have hleft := ht.loop_eq hloop
    rw [loop_zero hzero hadvances.header] at hleft
    cases hleft
  · intro hsizes
    have hfits : ∀ t u, Reached (readMessagesRound handler) s t →
        readMessagesRound handler t = .again u →
          Advances handler t u ∧ 0 < t.expectedMsgSize handler ∧
            handler.getHeaderSize ≤ t.expectedMsgSize handler := fun t u ht hu =>
      ⟨advances_of_again hu, hsizes _ (mem_completeSizes.mpr ⟨t, u, ht, hu, rfl⟩)⟩
    constructor
    · refine ⟨_, loop_terminates (Reached (readMessagesRound handler) s)
        (fun t => t.numberOfBytesLeftToRead) ?_ .start (Nat.lt_succ_self _)⟩
      intro t u ht hu
      obtain ⟨hadvances, hpos, _⟩ := hfits t u ht hu
      have hcomplete := hadvances.complete
      exact ⟨.round ht hu, by rw [hadvances.left]; omega⟩
    · intro t u ht hu
      obtain ⟨hadvances, _, hheader⟩ := hfits t u ht hu
      have hcomplete := hadvances.complete
      rw [hadvances.left]
      omega

/-- The size in front is among them once its message is complete. -/
theorem front_mem_completeSizes (hheader : handler.getHeaderSize ≤ s.numberOfBytesLeftToRead)
    (hcomplete : s.expectedMsgSize handler ≤ s.numberOfBytesLeftToRead) :
    s.expectedMsgSize handler ∈ s.completeSizes handler := by
  obtain ⟨t, hround, _⟩ := readMessagesRound_again hheader hcomplete
  exact mem_completeSizes.mpr ⟨s, t, .start, hround, rfl⟩

/-- A new socket that receives the header of a message, and all of it if it is short. -/
theorem new_fill_size {buffer : List UInt8} {own : σ} {bytes : List UInt8} (hheader : 4 ≤ bytes.length)
    (hroom : bytes.length ≤ buffer.length) :
    ∃ s, (Receiver.new buffer own : Receiver σ ε).fill bytes = some s ∧
      s.numberOfBytesLeftToRead = bytes.length ∧
      s.expectedMsgSize String.handler = ofLittleEndian (bytes.take 4) % 2 ^ 32 := by
  obtain ⟨s, hfill⟩ : ∃ s, (Receiver.new buffer own : Receiver σ ε).fill bytes = some s :=
    fill_isSome (by simpa [Receiver.new] using hroom)
  have hunread : s.unread = bytes := unread_fill hfill
  have hleft : s.numberOfBytesLeftToRead = bytes.length := by
    rw [(fill_eq_some hfill).2]
    exact Nat.zero_add _
  exact ⟨s, hfill, hleft, by rw [string_expectedMsgSize (by omega), hunread]⟩

end Receiver

namespace DataSocketV

variable {s t u : DataSocketV}

/-- The sizes in the unread bytes of the two buffers. -/
def completeSizes (s : DataSocketV) : List Nat := s.joined.completeSizes String.handler

structure MakesProgress (s : DataSocketV) : Prop where
  terminates : ∃ n r, loop readMessagesRound n s = some (some r)
  consumes : ∀ t u, Reached readMessagesRound s t → readMessagesRound t = .again u →
    u.numberOfBytesLeftToRead + StringV.getHeaderSize ≤ t.numberOfBytesLeftToRead

theorem again_joined (hs : s.Inside) (h : s.readMessagesRound = .again t) :
    Receiver.readMessagesRound String.handler s.joined = .again t.joined ∧ t.Inside := by
  obtain ⟨u, hu, heq, hinside⟩ | ⟨u, hu, _⟩ := readMessagesRound_joined hs _ rfl
  · obtain rfl := Round.again.inj (h.symm.trans hu)
    exact ⟨heq, hinside⟩
  · rw [h] at hu
    cases hu

theorem joined_again (hs : s.Inside) {t : Receiver Unit Empty}
    (h : Receiver.readMessagesRound String.handler s.joined = .again t) :
    ∃ u, s.readMessagesRound = .again u ∧ u.joined = t ∧ u.Inside := by
  obtain ⟨u, hu, heq, hinside⟩ | ⟨u, _, heq, _⟩ := readMessagesRound_joined hs _ h
  · exact ⟨u, hu, (Round.again.inj heq).symm, hinside⟩
  · cases heq

theorem reached_joined (hs : s.Inside) (h : Reached readMessagesRound s t) :
    Reached (Receiver.readMessagesRound String.handler) s.joined t.joined ∧ t.Inside := by
  induction h with
  | start => exact ⟨.start, hs⟩
  | round _ hround ih =>
    obtain ⟨hreached, hinside⟩ := ih
    obtain ⟨hround', hinside'⟩ := again_joined hinside hround
    exact ⟨.round hreached hround', hinside'⟩

theorem joined_reached (hs : s.Inside) {t : Receiver Unit Empty}
    (h : Reached (Receiver.readMessagesRound String.handler) s.joined t) :
    ∃ u, Reached readMessagesRound s u ∧ u.joined = t ∧ u.Inside := by
  induction h with
  | start => exact ⟨s, .start, rfl, hs⟩
  | round _ hround ih =>
    obtain ⟨v, hv, rfl, hinside⟩ := ih
    obtain ⟨w, hw, hjoined, hinside'⟩ := joined_again hinside hround
    exact ⟨w, .round hv hw, hjoined, hinside'⟩

theorem mem_completeSizes (hs : s.Inside) {size : Nat} : size ∈ s.completeSizes ↔
    ∃ t u, Reached readMessagesRound s t ∧ readMessagesRound t = .again u ∧
      t.joined.expectedMsgSize String.handler = size := by
  unfold completeSizes
  rw [Receiver.mem_completeSizes]
  constructor
  · intro ⟨t, u, ht, hu, hsize⟩
    obtain ⟨t, hreached, rfl, hinside⟩ := joined_reached hs ht
    obtain ⟨u, hround, rfl, _⟩ := joined_again hinside hu
    exact ⟨t, u, hreached, hround, hsize⟩
  · intro ⟨t, u, ht, hu, hsize⟩
    obtain ⟨hreached, hinside⟩ := reached_joined hs ht
    exact ⟨t.joined, u.joined, hreached, (again_joined hinside hu).1, hsize⟩

/-- The loop ends on the two buffers where it does on one. -/
theorem loop_joined (hs : s.Inside) (n : Nat) :
    (∃ r, loop readMessagesRound n s = some (some r)) ↔
      ∃ r, loop (Receiver.readMessagesRound String.handler) n s.joined = some r := by
  constructor
  · intro ⟨r, hloop⟩
    have hagain : ∀ (t : Receiver Unit Empty) (s s' : DataSocketV), t = s.joined ∧ s.Inside →
        readMessagesRound s = .again s' → ∃ t', Receiver.readMessagesRound String.handler t = .again t' ∧
          t' = s'.joined ∧ s'.Inside := by
      intro t s s' ⟨ht, hs⟩ hround
      obtain ⟨hround', hinside⟩ := again_joined hs hround
      exact ⟨s'.joined, ht ▸ hround', rfl, hinside⟩
    have hleave : ∀ (t : Receiver Unit Empty) (s : DataSocketV) (r : Option DataSocketV),
        t = s.joined ∧ s.Inside → readMessagesRound s = .leave r →
          ∃ t', Receiver.readMessagesRound String.handler t = .leave t' ∧ True := by
      intro t s r ⟨ht, hs⟩ hround
      obtain ⟨u, hu, _⟩ | ⟨u, _, heq, _⟩ := readMessagesRound_joined hs _ rfl
      · rw [hround] at hu
        cases hu
      · exact ⟨u.joined, ht ▸ heq, trivial⟩
    obtain ⟨r', hloop', _⟩ := loop_simulation _ (fun _ _ => True) hagain hleave ⟨rfl, hs⟩ hloop
    exact ⟨r', hloop'⟩
  · intro ⟨r, hloop⟩
    have hagain : ∀ (s : DataSocketV) (t t' : Receiver Unit Empty), t = s.joined ∧ s.Inside →
        Receiver.readMessagesRound String.handler t = .again t' →
          ∃ s', readMessagesRound s = .again s' ∧ t' = s'.joined ∧ s'.Inside := by
      intro s t t' ⟨ht, hs⟩ hround
      obtain ⟨u, hu, hjoined, hinside⟩ := joined_again hs (ht ▸ hround)
      exact ⟨u, hu, hjoined.symm, hinside⟩
    have hleave : ∀ (s : DataSocketV) (t r : Receiver Unit Empty), t = s.joined ∧ s.Inside →
        Receiver.readMessagesRound String.handler t = .leave r →
          ∃ r', readMessagesRound s = .leave r' ∧ ∃ u, r' = some u := by
      intro s t r ⟨ht, hs⟩ hround
      obtain ⟨u, _, heq, _⟩ | ⟨u, hu, _⟩ := readMessagesRound_joined hs _ (ht ▸ hround)
      · cases heq
      · exact ⟨some u, hu, u, rfl⟩
    obtain ⟨r', hloop', u, rfl⟩ :=
      loop_simulation _ (fun r _ => ∃ u, r = some u) hagain hleave ⟨rfl, hs⟩ hloop
    exact ⟨u, hloop'⟩

theorem makesProgress_joined (hs : s.Inside) :
    s.MakesProgress ↔ s.joined.MakesProgress String.handler := by
  have hterminates : (∃ n r, loop readMessagesRound n s = some (some r)) ↔
      ∃ n r, loop (Receiver.readMessagesRound String.handler) n s.joined = some r :=
    exists_congr fun n => loop_joined hs n
  constructor
  · intro h
    refine ⟨hterminates.mp h.terminates, fun t u ht hu => ?_⟩
    obtain ⟨t, hreached, rfl, hinside⟩ := joined_reached hs ht
    obtain ⟨u, hround, rfl, _⟩ := joined_again hinside hu
    exact h.consumes t u hreached hround
  · intro h
    refine ⟨hterminates.mpr h.terminates, fun t u ht hu => ?_⟩
    obtain ⟨hreached, hinside⟩ := reached_joined hs ht
    exact h.consumes t.joined u.joined hreached (again_joined hinside hu).1

end DataSocketV

end LuPlatform.Socket
