import LuPlatform.Socket.MessageSizes

/-! What the handlers copy into a new message. The destination holds a header and 64 bytes of data,
while the size that is copied is the one the peer wrote: the loop only compares it with what has
arrived. So the copy stays among the received bytes, and inside its destination as long as the sizes
do. -/

namespace LuPlatform.Socket

open Bytes Loop

/-- `sizeof(Message)`: an `unsigned int` and `m_data[64]`, packed. -/
def String.sizeofMessage : Nat := 4 + 64

def StringV.sizeofMessage : Nat := 4 + 64

namespace Receiver

variable {σ ε : Type} {handler : DataHandler}

section Runs

variable (readMessages : Receiver σ ε → Option (Receiver σ ε))
variable (P : List UInt8 → Receiver σ ε → Prop)

/-- `P` holds of all that was received and of the socket, whenever `readMessages` is called. -/
def BeforeReads (s : Receiver σ ε) (received : List UInt8) : List (List UInt8) → Prop
  | [] => True
  | bytes :: chunks =>
    (∀ t, s.fill bytes = some t → P (received ++ bytes) t) ∧
      ∀ s', s.receiveRound readMessages bytes = some s' → s'.BeforeReads (received ++ bytes) chunks

end Runs

/-- A call of `readMessage` for the message in front copies no more than the new `Message` holds, out
of bytes that were received and not consumed before. -/
structure CopyInside (received : List UInt8) (s : Receiver σ ε) : Prop where
  fits : s.expectedMsgSize String.handler ≤ String.sizeofMessage
  complete : s.expectedMsgSize String.handler ≤ s.numberOfBytesLeftToRead
  copied : String.handler.readMessage s.buffer s.readOffset (s.expectedMsgSize String.handler) =
    s.unread.take (s.expectedMsgSize String.handler)
  received : s.unread <:+ received

/-- Every call that `readMessages` makes is one. -/
def CopiesInside (received : List UInt8) (s : Receiver σ ε) : Prop :=
  ∀ t u, Reached (readMessagesRound String.handler) s t →
    readMessagesRound String.handler t = .again u → t.CopyInside received

/-- What the loop leaves of the unread bytes. -/
structure Trims (s t : Receiver σ ε) : Prop where
  inside : t.readOffset + t.numberOfBytesLeftToRead ≤ t.buffer.length
  unread : t.unread <:+ s.unread

variable {s t u : Receiver σ ε} {received bytes : List UInt8}

theorem Trims.again (h : Trims s t) (hround : readMessagesRound handler t = .again u) :
    Trims s u := by
  have hadvances := advances_of_again hround
  have hcomplete := hadvances.complete
  have hinside := h.inside
  refine ⟨by rw [hadvances.offset, hadvances.left, hadvances.buffer]; omega, ?_⟩
  have hunread : u.unread = t.unread.drop (t.expectedMsgSize handler) := by
    rw [← unread_updateForDataRead, Receiver.unread, hadvances.buffer, hadvances.offset, hadvances.left]
    rfl
  rw [hunread]
  exact (List.drop_suffix _ _).trans h.unread

theorem Trims.leave (h : Trims s t) (hround : readMessagesRound handler t = .leave u) :
    Trims s u := by
  have hkeeps : u = t ∨ u = t.raise .stop := by
    have hstop : (if t.expectedMsgSize handler = 0 then t.raise .stop else t) = t ∨
        (if t.expectedMsgSize handler = 0 then t.raise .stop else t) = t.raise .stop := by
      split
      · exact .inr rfl
      · exact .inl rfl
    simp only [readMessagesRound] at hround
    split at hround
    · generalize (if t.expectedMsgSize handler = 0 then t.raise .stop else t) = v at hround hstop
      split at hround
      · cases hround
      · obtain rfl := Round.leave.inj hround
        exact hstop
    · exact .inl (Round.leave.inj hround).symm
  obtain rfl | rfl := hkeeps
  · exact h
  · exact ⟨h.inside, h.unread⟩

theorem trims_of_reached (hinside : s.readOffset + s.numberOfBytesLeftToRead ≤ s.buffer.length)
    (h : Reached (readMessagesRound handler) s t) : Trims s t :=
  h.invariant (fun _ _ ht hround => ht.again hround) ⟨hinside, List.suffix_rfl⟩

theorem readMessages_trims (hinside : s.readOffset + s.numberOfBytesLeftToRead ≤ s.buffer.length)
    (h : s.readMessages handler = some t) : Trims s t :=
  loop_invariant (Trims s) (Trims s) (fun _ _ ht hround => ht.again hround)
    (fun _ _ ht hround => ht.leave hround) ⟨hinside, List.suffix_rfl⟩ h

/-- Only the size of the destination is not seen to by the loop. -/
theorem copiesInside_iff (hinside : s.readOffset + s.numberOfBytesLeftToRead ≤ s.buffer.length)
    (hreceived : s.unread <:+ received) : s.CopiesInside received ↔
      ∀ size ∈ s.completeSizes String.handler, size ≤ String.sizeofMessage := by
  constructor
  · intro h size hmem
    obtain ⟨t, u, ht, hu, rfl⟩ := mem_completeSizes.mp hmem
    exact (h t u ht hu).fits
  · intro h t u ht hu
    have htrims := trims_of_reached hinside ht
    have hcomplete := (advances_of_again hu).complete
    refine ⟨h _ (mem_completeSizes.mpr ⟨t, u, ht, hu, rfl⟩), hcomplete, ?_,
      htrims.unread.trans hreceived⟩
    rw [unread, List.take_take, Nat.min_eq_left hcomplete]
    rfl

theorem unread_fill_suffix (hreceived : s.unread <:+ received) (h : s.fill bytes = some t) :
    t.unread <:+ received ++ bytes := by
  obtain ⟨consumed, hconsumed⟩ := hreceived
  exact ⟨consumed, by rw [unread_fill h, ← List.append_assoc, hconsumed]⟩

theorem inside_fill (h : s.fill bytes = some t) :
    t.readOffset + t.numberOfBytesLeftToRead ≤ t.buffer.length := by
  have hlength := length_buffer_fill h
  obtain ⟨hle, rfl⟩ := fill_eq_some h
  rw [hlength]
  simp only
  omega

/-- Through a round the unread bytes stay the last ones that were received. -/
theorem receiveRound_suffix (hreceived : s.unread <:+ received)
    (h : s.receiveRound (readMessages handler) bytes = some t) :
    t.unread <:+ received ++ bytes := by
  cases hfill : s.fill bytes with
  | none => simp [receiveRound, hfill] at h
  | some u =>
    cases hread : u.readMessages handler with
    | none => simp [receiveRound, hfill, hread] at h
    | some v =>
      have htrims := readMessages_trims (inside_fill hfill) hread
      have hunread := htrims.unread.trans (unread_fill_suffix hreceived hfill)
      obtain rfl : v.rewind = t := by simpa [receiveRound, hfill, hread] using h
      by_cases hfull : v.receiveBufferShiftSize < v.numberOfBytesLeftToRead
      · rwa [rewind_overfull hfull]
      · obtain ⟨_, _, _, _, hrewind, _⟩ := rewind_front htrims.inside (by omega)
        rwa [hrewind]

theorem beforeReads_copiesInside_iff {chunks : List (List UInt8)} (hreceived : s.unread <:+ received) :
    s.BeforeReads (readMessages String.handler) CopiesInside received chunks ↔
      s.BeforeReads (readMessages String.handler)
        (fun _ t => ∀ size ∈ t.completeSizes String.handler, size ≤ String.sizeofMessage)
        received chunks := by
  induction chunks generalizing s received with
  | nil => exact Iff.rfl
  | cons bytes chunks ih =>
    have hhere : ∀ t, s.fill bytes = some t → (t.CopiesInside (received ++ bytes) ↔
        ∀ size ∈ t.completeSizes String.handler, size ≤ String.sizeofMessage) := fun t ht =>
      copiesInside_iff (inside_fill ht) (unread_fill_suffix hreceived ht)
    have hrest : ∀ s', s.receiveRound (readMessages String.handler) bytes = some s' →
        s'.unread <:+ received ++ bytes := fun s' hs' => receiveRound_suffix hreceived hs'
    simp only [BeforeReads]
    constructor
    · intro ⟨hcopies, hlater⟩
      exact ⟨fun t ht => (hhere t ht).mp (hcopies t ht),
        fun s' hs' => (ih (hrest s' hs')).mp (hlater s' hs')⟩
    · intro ⟨hsizes, hlater⟩
      exact ⟨fun t ht => (hhere t ht).mpr (hsizes t ht),
        fun s' hs' => (ih (hrest s' hs')).mpr (hlater s' hs')⟩

end Receiver

namespace DataSocketV

/-- The same over two buffers, with the size that `readHeader` gives. -/
structure CopyInside (received : List UInt8) (size : Nat) (s : DataSocketV) : Prop where
  fits : size ≤ StringV.sizeofMessage
  complete : size ≤ s.numberOfBytesLeftToRead
  copied : s.dataHandler.readMessage s.readOffset size = some (s.unread.take size)
  received : s.unread <:+ received

def CopiesInside (received : List UInt8) (s : DataSocketV) : Prop :=
  ∀ t u size, Reached readMessagesRound s t → t.readMessagesRound = .again u →
    t.dataHandler.readHeader t.readOffset = some size → t.CopyInside received size

def BeforeReads (P : List UInt8 → DataSocketV → Prop) (s : DataSocketV) (received : List UInt8) :
    List (List UInt8) → Prop
  | [] => True
  | bytes :: chunks =>
    (∀ t, s.fill bytes = some t → P (received ++ bytes) t) ∧
      ∀ s', s.receiveRound bytes = some s' → s'.BeforeReads P (received ++ bytes) chunks

variable {s t u : DataSocketV} {received bytes : List UInt8}

theorem copiesInside_iff (hs : s.Inside) (hreceived : s.unread <:+ received) :
    s.CopiesInside received ↔ ∀ size ∈ s.completeSizes, size ≤ StringV.sizeofMessage := by
  have hheader : ∀ t u, Reached readMessagesRound s t → t.readMessagesRound = .again u →
      t.dataHandler.readHeader t.readOffset = some (t.joined.expectedMsgSize String.handler) := by
    intro t u ht hu
    obtain ⟨_, hinside⟩ := reached_joined hs ht
    exact hinside.readHeader (Receiver.advances_of_again (again_joined hinside hu).1).header
  constructor
  · intro h size hmem
    obtain ⟨t, u, ht, hu, rfl⟩ := (mem_completeSizes hs).mp hmem
    exact (h t u _ ht hu (hheader t u ht hu)).fits
  · intro h t u size ht hu hsize
    obtain rfl := Option.some.inj ((hheader t u ht hu).symm.trans hsize)
    obtain ⟨hreached, hinside⟩ := reached_joined hs ht
    have hcomplete := (Receiver.advances_of_again (again_joined hinside hu).1).complete
    refine ⟨h _ ((mem_completeSizes hs).mpr ⟨t, u, ht, hu, rfl⟩), hcomplete, ?_,
      (Receiver.trims_of_reached hs.joined hreached).unread.trans hreceived⟩
    rw [hinside.readMessage hcomplete, unread, Receiver.unread, List.take_take,
      Nat.min_eq_left hcomplete]
    rfl

/-- The loop over the two buffers returns what the one over the joined buffer does. -/
theorem joined_readMessages (hs : s.Inside) (h : s.readMessages = some t) :
    s.joined.readMessages String.handler = some t.joined ∧ t.Inside := by
  have hloop : loop readMessagesRound (s.numberOfBytesLeftToRead + 1) s = some (some t) :=
    Option.join_eq_some_iff.mp h
  obtain ⟨r, hjoined⟩ := (loop_joined hs _).mp ⟨t, hloop⟩
  obtain ⟨u, hu, rfl, hinside⟩ := readMessages_joined hs hjoined
  obtain rfl := Option.some.inj (h.symm.trans hu)
  exact ⟨hjoined, hinside⟩

theorem fill_suffix (hs : s.Inside) (hreceived : s.unread <:+ received)
    (hroom : bytes.length ≤ StringV.room s.window) (h : s.fill bytes = some t) :
    t.Inside ∧ t.unread <:+ received ++ bytes := by
  obtain ⟨u, hu, hjoined, hinside⟩ := fill_joined hs hroom
  obtain rfl := Option.some.inj (h.symm.trans hu)
  exact ⟨hinside, Receiver.unread_fill_suffix hreceived hjoined⟩

theorem receiveRound_suffix (hs : s.Inside) (hreceived : s.unread <:+ received)
    (hroom : bytes.length ≤ StringV.room s.window) (h : s.receiveRound bytes = some t) :
    t.Inside ∧ t.unread <:+ received ++ bytes := by
  cases hfill : s.fill bytes with
  | none => simp [receiveRound, hfill] at h
  | some u =>
    cases hread : u.readMessages with
    | none => simp [receiveRound, hfill, hread] at h
    | some v =>
      obtain ⟨hu, hunread⟩ := fill_suffix hs hreceived hroom hfill
      obtain ⟨hjoined, hv⟩ := joined_readMessages hu hread
      have htrims := Receiver.readMessages_trims hu.joined hjoined
      obtain rfl : v.settle = t := by simpa [receiveRound, hfill, hread] using h
      obtain ⟨hinside, _, _, hsettle, _⟩ := settle_spec hv
      exact ⟨hinside, hsettle ▸ htrims.unread.trans hunread⟩

theorem beforeReads_copiesInside_iff {chunks : List (List UInt8)} (hs : s.Inside)
    (hreceived : s.unread <:+ received) (hdelivered : s.Delivered chunks) :
    s.BeforeReads CopiesInside received chunks ↔
      s.BeforeReads (fun _ t => ∀ size ∈ t.completeSizes, size ≤ StringV.sizeofMessage)
        received chunks := by
  induction chunks generalizing s received with
  | nil => exact Iff.rfl
  | cons bytes chunks ih =>
    obtain ⟨_, hroom, hnext⟩ := hdelivered
    have hhere : ∀ t, s.fill bytes = some t → (t.CopiesInside (received ++ bytes) ↔
        ∀ size ∈ t.completeSizes, size ≤ StringV.sizeofMessage) := by
      intro t ht
      obtain ⟨hinside, hunread⟩ := fill_suffix hs hreceived hroom ht
      exact copiesInside_iff hinside hunread
    have hrest : ∀ s', s.receiveRound bytes = some s' →
        s'.Inside ∧ s'.unread <:+ received ++ bytes := fun s' hs' =>
      receiveRound_suffix hs hreceived hroom hs'
    simp only [BeforeReads]
    constructor
    · intro ⟨hcopies, hlater⟩
      exact ⟨fun t ht => (hhere t ht).mp (hcopies t ht), fun s' hs' =>
        (ih (hrest s' hs').1 (hrest s' hs').2 (hnext s' hs')).mp (hlater s' hs')⟩
    · intro ⟨hsizes, hlater⟩
      exact ⟨fun t ht => (hhere t ht).mpr (hsizes t ht), fun s' hs' =>
        (ih (hrest s' hs').1 (hrest s' hs').2 (hnext s' hs')).mpr (hlater s' hs')⟩

end DataSocketV

/-- In every run of either socket, over any stream in any chunks, all copies are inside exactly when
no complete message in the unread bytes is larger than a `Message`. -/
theorem copiesInside_iff_completeSizes (memory memory1 memory2 : Nat → UInt8)
    {chunks : List (List UInt8)}
    (hdelivered : (DataSocketV.new memory1 memory2).Delivered chunks) :
    ((DataSocket.new memory String.BUFFER_SIZE).BeforeReads (Receiver.readMessages String.handler)
        Receiver.CopiesInside [] chunks ↔
      (DataSocket.new memory String.BUFFER_SIZE).BeforeReads (Receiver.readMessages String.handler)
        (fun _ t => ∀ size ∈ t.completeSizes String.handler, size ≤ String.sizeofMessage) [] chunks) ∧
    ((DataSocketV.new memory1 memory2).BeforeReads DataSocketV.CopiesInside [] chunks ↔
      (DataSocketV.new memory1 memory2).BeforeReads
        (fun _ t => ∀ size ∈ t.completeSizes, size ≤ StringV.sizeofMessage) [] chunks) := by
  constructor
  · exact Receiver.beforeReads_copiesInside_iff List.nil_suffix
  · exact DataSocketV.beforeReads_copiesInside_iff (DataSocketV.new_inside _ _) List.nil_suffix hdelivered

theorem copiesInside_iff_completeSizes_first :
    ((DataSocket.new (fun _ => 0) String.BUFFER_SIZE).BeforeReads
        (Receiver.readMessages String.handler) Receiver.CopiesInside [] [[5, 0, 0, 0, 7]] ↔
      (DataSocket.new (fun _ => 0) String.BUFFER_SIZE).BeforeReads
        (Receiver.readMessages String.handler)
        (fun _ t => ∀ size ∈ t.completeSizes String.handler, size ≤ String.sizeofMessage)
        [] [[5, 0, 0, 0, 7]]) ∧
    ((DataSocketV.new (fun _ => 0) (fun _ => 0)).BeforeReads DataSocketV.CopiesInside
        [] [[5, 0, 0, 0, 7]] ↔
      (DataSocketV.new (fun _ => 0) (fun _ => 0)).BeforeReads
        (fun _ t => ∀ size ∈ t.completeSizes, size ≤ StringV.sizeofMessage) [] [[5, 0, 0, 0, 7]]) := by
  have hroom : StringV.room (DataSocketV.new (fun _ => 0) (fun _ => 0)).window =
      StringV.getReceiveBufferSize := StringV.room_getNumberOfBuffers (Nat.zero_le _)
  exact copiesInside_iff_completeSizes (fun _ => 0) (fun _ => 0) (fun _ => 0)
    ⟨by decide, by rw [hroom]; decide, fun _ _ => trivial⟩

/-- A message of 69 bytes, which is one more than its destination holds. -/
def oversized : List UInt8 := [69, 0, 0, 0] ++ List.replicate 65 0

/-- Either socket copies all of it as soon as it is there. -/
theorem oversized_overruns :
    ¬ (DataSocket.new (fun _ => 0) String.BUFFER_SIZE).BeforeReads
        (Receiver.readMessages String.handler) Receiver.CopiesInside [] [oversized] ∧
      ¬ (DataSocketV.new (fun _ => 0) (fun _ => 0)).BeforeReads DataSocketV.CopiesInside
        [] [oversized] := by
  have hlength : oversized.length = 69 := by decide
  have hsize : ofLittleEndian (oversized.take 4) % 2 ^ 32 = 69 := by decide
  constructor
  · intro h
    obtain ⟨s, hfill, hleft, hread⟩ : ∃ s, (DataSocket.new (fun _ => 0) String.BUFFER_SIZE).fill
        oversized = some s ∧ s.numberOfBytesLeftToRead = oversized.length ∧
          s.expectedMsgSize String.handler = ofLittleEndian (oversized.take 4) % 2 ^ 32 := by
      refine Receiver.new_fill_size (by rw [hlength]; decide) ?_
      rw [hlength, length_uninitialized]
      decide
    rw [hlength] at hleft
    rw [hsize] at hread
    obtain ⟨u, hround, _⟩ := Receiver.readMessagesRound_again
      (show String.handler.getHeaderSize ≤ s.numberOfBytesLeftToRead by rw [hleft]; decide)
      (by rw [hread, hleft])
    have hfits := (h.1 s hfill s u .start hround).fits
    rw [hread] at hfits
    exact absurd hfits (by decide)
  · intro h
    have hnew := DataSocketV.new_inside (fun _ => 0) (fun _ => 0)
    have hroom : StringV.room (DataSocketV.new (fun _ => 0) (fun _ => 0)).window =
        StringV.getReceiveBufferSize := StringV.room_getNumberOfBuffers (Nat.zero_le _)
    obtain ⟨s, hfill, hjoined, hs⟩ := DataSocketV.fill_joined hnew
      (show oversized.length ≤ StringV.room (DataSocketV.new (fun _ => 0) (fun _ => 0)).window by
        rw [hroom, hlength]
        decide)
    have hunread : s.joined.unread = oversized := Receiver.unread_fill hjoined
    have hleft : s.joined.numberOfBytesLeftToRead = 69 := by
      rw [← Receiver.length_unread hs.joined, hunread, hlength]
    have hread : s.joined.expectedMsgSize String.handler = 69 := by
      rw [Receiver.string_expectedMsgSize (by omega), hunread, hsize]
    obtain ⟨t, hround, _⟩ := Receiver.readMessagesRound_again
      (show String.handler.getHeaderSize ≤ s.joined.numberOfBytesLeftToRead by rw [hleft]; decide)
      (by rw [hread, hleft])
    obtain ⟨u, hu, _⟩ := DataSocketV.joined_again hs hround
    have hheader := hs.readHeader (show StringV.getHeaderSize ≤ s.joined.numberOfBytesLeftToRead by
      rw [hleft]
      decide)
    have hfits := (h.1 s hfill s u _ .start hu hheader).fits
    rw [hread] at hfits
    exact absurd hfits (by decide)

end LuPlatform.Socket
