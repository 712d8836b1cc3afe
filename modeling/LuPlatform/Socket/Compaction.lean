import LuPlatform.Socket.MessageSizes
import LuPlatform.Socket.ReceiveWindow
import LuPlatform.Websocket.FrameConsumption

/-! The move of the leftover to the front of the buffer. What is consumed in a round lies in front of
what is left, and the two ranges of the move overlap where it is shorter. How much is consumed is read
off the bytes: whole messages, frames as far as they have come, and a header that is answered. -/

namespace LuPlatform.Socket

open Bytes Loop Websocket

namespace Receiver

section Rounds

variable {σ ε : Type} (readMessages : Receiver σ ε → Option (Receiver σ ε))

/-- Where `memcpy` moves bytes that do not lie in front already, the bytes it reads and those it writes
are different ones. -/
def CopiesApart (s : Receiver σ ε) : Prop :=
  s.numberOfBytesLeftToRead ≠ 0 → s.numberOfBytesLeftToRead ≤ s.receiveBufferShiftSize →
    s.readOffset ≠ 0 →
    ∀ i < s.numberOfBytesLeftToRead, ∀ j < s.numberOfBytesLeftToRead, s.readOffset + i ≠ j

/-- Every round ends with such a move, or with none. -/
def CompactionsApart (s : Receiver σ ε) : List (List UInt8) → Prop
  | [] => True
  | bytes :: chunks =>
    (∀ t, (s.fill bytes).bind readMessages = some t → t.CopiesApart) ∧
      ∀ s', s.receiveRound readMessages bytes = some s' → s'.CompactionsApart chunks

/-- Of the buffered bytes the first `n` are going to be consumed. Those are all, or none and nothing
lies in front of them, or the others are too many to be moved, or no more than lie in front of them. -/
def Outweighs (n : Nat) (s : Receiver σ ε) : Prop :=
  n = s.numberOfBytesLeftToRead ∨ s.readOffset + n = 0 ∨
    s.receiveBufferShiftSize < s.numberOfBytesLeftToRead - n ∨
    s.numberOfBytesLeftToRead - n ≤ s.readOffset + n

/-- In every round so many bytes are consumed. -/
def Balanced (takes : Receiver σ ε → Nat → Prop) (s : Receiver σ ε) : List (List UInt8) → Prop
  | [] => True
  | bytes :: chunks =>
    (∀ t n, s.fill bytes = some t → takes t n → t.Outweighs n) ∧
      ∀ s', s.receiveRound readMessages bytes = some s' → s'.Balanced takes chunks

variable {readMessages} {s t u : Receiver σ ε}

theorem copiesApart_iff : s.CopiesApart ↔ s.numberOfBytesLeftToRead = 0 ∨ s.readOffset = 0 ∨
    s.receiveBufferShiftSize < s.numberOfBytesLeftToRead ∨
    s.numberOfBytesLeftToRead ≤ s.readOffset := by
  constructor
  · intro h
    by_contra hnone
    simp only [not_or, Nat.not_le, Nat.not_lt] at hnone
    obtain ⟨hleft, hoffset, hfits, hshort⟩ := hnone
    exact h hleft hfits hoffset 0 (Nat.pos_of_ne_zero hleft) s.readOffset hshort rfl
  · intro h hleft hfits hoffset i hi j hj
    omega

theorem Consumes.copiesApart_iff (h : Consumes t u) {n : Nat}
    (hn : u.numberOfBytesLeftToRead + n = t.numberOfBytesLeftToRead) :
    u.CopiesApart ↔ t.Outweighs n := by
  have hend := h.end_eq
  have hshift : u.receiveBufferShiftSize = t.receiveBufferShiftSize := by
    rw [receiveBufferShiftSize, h.length_buffer, receiveBufferShiftSize]
  rw [Receiver.copiesApart_iff, Outweighs, hshift]
  omega

/-- A call that returns consumes as much as `takes` says, and of any other `takes` says nothing. -/
inductive Counted (left : Nat) (takes : Nat → Prop) : Option (Receiver σ ε) → Prop where
  | returns {u : Receiver σ ε} {n : Nat} (left_eq : u.numberOfBytesLeftToRead + n = left)
      (takes_iff : ∀ m, takes m ↔ m = n) : Counted left takes (some u)
  | fails (takes_not : ∀ n, ¬ takes n) : Counted left takes none

/-- What is consumed first adds to what the call consumes. -/
theorem Counted.behind {left size all : Nat} {takes : Nat → Prop} {result : Option (Receiver σ ε)}
    (h : Counted left takes result) (hall : left + size = all) :
    Counted all (fun n => ∃ m, takes m ∧ n = size + m) result := by
  cases h with
  | fails hnot => exact .fails fun n ⟨m, hm, _⟩ => hnot m hm
  | @returns u n hleft hiff =>
    have hsum : u.numberOfBytesLeftToRead + (size + n) = all := by omega
    refine .returns hsum fun k => ?_
    constructor
    · intro ⟨m, hm, hk⟩
      rw [hk, (hiff m).mp hm]
    · intro hk
      exact ⟨n, (hiff n).mpr rfl, hk⟩

/-- Of a call that is counted the count tells whether the move behind it is one. -/
theorem Counted.copiesApart_iff {takes : Nat → Prop} {result : Option (Receiver σ ε)}
    (h : Counted t.numberOfBytesLeftToRead takes result)
    (hconsumes : ∀ u, result = some u → Consumes t u) :
    (∀ u, result = some u → u.CopiesApart) ↔ ∀ n, takes n → t.Outweighs n := by
  cases h with
  | fails hnot => exact iff_of_true (fun u hu => by cases hu) fun n hn => absurd hn (hnot n)
  | @returns u n hleft hiff =>
    have hmove := (hconsumes u rfl).copiesApart_iff hleft
    constructor
    · intro h m hm
      rw [(hiff m).mp hm]
      exact hmove.mp (h u rfl)
    · intro h v hv
      cases hv
      exact hmove.mpr (h n ((hiff n).mpr rfl))

variable (readMessages) in
def Accounts (I : Receiver σ ε → Prop) (takes : Receiver σ ε → Nat → Prop) : Prop :=
  ∀ t, I t → Counted t.numberOfBytesLeftToRead (takes t) (readMessages t)

theorem compactionsApart_iff {I : Receiver σ ε → Prop} (hI : Preserves readMessages I)
    {takes : Receiver σ ε → Nat → Prop} (htakes : Accounts readMessages I takes) (hs : I s)
    {chunks : List (List UInt8)} :
    s.CompactionsApart readMessages chunks ↔ s.Balanced readMessages takes chunks := by
  induction chunks generalizing s with
  | nil => exact Iff.rfl
  | cons bytes chunks ih =>
    have hhere : (∀ t, (s.fill bytes).bind readMessages = some t → t.CopiesApart) ↔
        ∀ t n, s.fill bytes = some t → takes t n → t.Outweighs n := by
      cases hfill : s.fill bytes with
      | none => exact iff_of_true (fun u hu => by cases hu) fun t n ht => by cases ht
      | some t =>
        have ht := hI.fill s t bytes hs hfill
        rw [Option.bind_some, (htakes t ht).copiesApart_iff fun u hu => (hI.read t u ht hu).1]
        constructor
        · intro h v n hv hn
          cases hv
          exact h n hn
        · intro h n hn
          exact h t n rfl hn
    have hnext : ∀ s', s.receiveRound readMessages bytes = some s' →
        (s'.CompactionsApart readMessages chunks ↔ s'.Balanced readMessages takes chunks) := by
      intro s' hround
      apply ih
      have hreceive : s.receive readMessages [bytes] = some s' := by
        rw [receive_cons hround, receive_nil]
      exact hI.receive hs hreceive
    rw [CompactionsApart, Balanced, hhere]
    exact and_congr_right fun _ => forall_congr' fun s' => imp_congr_right (hnext s')

end Rounds

/-! ### Messages -/

section Messages

variable {σ ε : Type} {handler : DataHandler} {s t u : Receiver σ ε}

/-- The messages that lie complete in the unread bytes. Behind a size of zero the loop does not end. -/
def TakesMessages (handler : DataHandler) (s : Receiver σ ε) (n : Nat) : Prop :=
  (∀ size ∈ s.completeSizes handler, 0 < size) ∧ n = (s.completeSizes handler).sum

/-- The sizes of the first messages. -/
def sizesWithin (handler : DataHandler) (s : Receiver σ ε) (messages : Nat) : List Nat :=
  messageSizes handler.getHeaderSize (fun offset => handler.readHeader s.buffer offset % 2 ^ 32)
    messages s.readOffset s.numberOfBytesLeftToRead

theorem sizesWithin_again (h : Advances handler s t) (messages : Nat) :
    s.sizesWithin handler (messages + 1) =
      s.expectedMsgSize handler :: t.sizesWithin handler messages := by
  rw [sizesWithin, sizesWithin, h.buffer, h.offset, h.left]
  exact if_pos ⟨h.header, h.complete⟩

theorem sizesWithin_leave (h : ¬ (handler.getHeaderSize ≤ s.numberOfBytesLeftToRead ∧
    s.expectedMsgSize handler ≤ s.numberOfBytesLeftToRead)) (messages : Nat) :
    s.sizesWithin handler (messages + 1) = [] :=
  if_neg h

/-- A round without a complete message consumes nothing. -/
theorem readMessagesRound_leave (h : ¬ (handler.getHeaderSize ≤ s.numberOfBytesLeftToRead ∧
    s.expectedMsgSize handler ≤ s.numberOfBytesLeftToRead)) :
    ∃ u, readMessagesRound handler s = .leave u ∧
      u.numberOfBytesLeftToRead = s.numberOfBytesLeftToRead := by
  by_cases hheader : handler.getHeaderSize ≤ s.numberOfBytesLeftToRead
  · have hincomplete : ¬ s.expectedMsgSize handler ≤ s.numberOfBytesLeftToRead := fun hle =>
      h ⟨hheader, hle⟩
    have hnonzero : ¬ s.expectedMsgSize handler = 0 := by omega
    refine ⟨s, ?_, rfl⟩
    simp only [readMessagesRound, ge_iff_le, if_pos hheader, if_neg hnonzero, if_neg hincomplete]
  · exact ⟨s, by rw [readMessagesRound, if_neg hheader], rfl⟩

/-- As many rounds as there are messages, and one that leaves. -/
theorem loop_messages {fuel : Nat} (hfuel : s.numberOfBytesLeftToRead < fuel)
    (hsizes : ∀ size ∈ s.sizesWithin handler fuel, 0 < size) :
    ∃ u, loop (readMessagesRound handler) fuel s = some u ∧
      u.numberOfBytesLeftToRead + (s.sizesWithin handler fuel).sum = s.numberOfBytesLeftToRead := by
  induction fuel generalizing s with
  | zero => omega
  | succ fuel ih =>
    by_cases hfits : handler.getHeaderSize ≤ s.numberOfBytesLeftToRead ∧
        s.expectedMsgSize handler ≤ s.numberOfBytesLeftToRead
    · obtain ⟨t, hround, hadvances⟩ := readMessagesRound_again hfits.1 hfits.2
      rw [sizesWithin_again hadvances] at hsizes ⊢
      have hpos : 0 < s.expectedMsgSize handler := hsizes _ List.mem_cons_self
      have hleft := hadvances.left
      obtain ⟨u, hloop, hu⟩ := ih (by omega) fun size hmem =>
        hsizes size (List.mem_cons_of_mem _ hmem)
      refine ⟨u, (loop_again hround fuel).trans hloop, ?_⟩
      rw [List.sum_cons]
      omega
    · obtain ⟨u, hround, hu⟩ := readMessagesRound_leave hfits
      refine ⟨u, loop_leave hround fuel, ?_⟩
      rw [sizesWithin_leave hfits, List.sum_nil, hu, Nat.add_zero]

/-- The loop over messages that returns has met no size of zero. -/
theorem sizes_pos_of_readMessages (h : s.readMessages handler = some u) :
    ∀ size ∈ s.completeSizes handler, 0 < size := by
  intro size hmem
  obtain ⟨t, v, ht, hv, rfl⟩ := mem_completeSizes.mp hmem
  refine Nat.pos_of_ne_zero fun hzero => ?_
  have hleft := ht.loop_eq h
  rw [loop_zero hzero (advances_of_again hv).header] at hleft
  cases hleft

theorem accounts_messages (I : Receiver σ ε → Prop) :
    Accounts (readMessages handler) I (TakesMessages handler) := by
  intro t _
  by_cases hsizes : ∀ size ∈ t.completeSizes handler, 0 < size
  · obtain ⟨u, hu, hleft⟩ := loop_messages (Nat.lt_succ_self _) hsizes
    rw [readMessages, hu]
    exact .returns hleft fun m => and_iff_right hsizes
  · cases hread : t.readMessages handler with
    | none => exact .fails fun n hn => hsizes hn.1
    | some u => exact absurd (sizes_pos_of_readMessages hread) hsizes

end Messages

/-! ### Frames -/

section Frames

variable {status : Type} {connecting : status} {framed : status → Prop} {s t u : SessionSocket status}

def TakesFrames (s : SessionSocket status) (n : Nat) : Prop := s.own.frame.Takes s.unread n

theorem accounts_frames :
    Accounts (processFrames : SessionSocket status → Option (SessionSocket status))
      (Ready connecting framed) TakesFrames := by
  intro s hs
  have hlength := length_unread hs.inside
  have hleft : (SocketData.new s.unread).getDataLeftToRead = s.numberOfBytesLeftToRead := by
    rw [SocketData.getDataLeftToRead_new, hlength]
  obtain ⟨p, exit, hp, hinside, -⟩ := Frame.processMessage_safe (f := s.own.frame)
    (d := .new s.unread) (by rw [hleft]; exact hs.frame) (Nat.zero_le _)
  have hdata : p.socketData.data.length = s.numberOfBytesLeftToRead :=
    hinside.length_eq.trans hlength
  have hoffset : p.socketData.readOffset ≤ s.numberOfBytesLeftToRead := hdata ▸ hinside.offset_le
  have hframe : s.own.frame.Safe s.unread.length := by
    rw [hlength]
    exact hs.frame
  rw [processFrames, hp]
  refine .returns ?_ fun m => Frame.processMessage_takes hframe hp
  split <;> exact Nat.sub_add_cancel hoffset

end Frames

/-! ### What is read behind a header -/

section Upgraded

variable {handler : DataHandler} {s : SessionSocket SocketStatus}

def TakesUpgraded (handler : DataHandler) (s : SessionSocket SocketStatus) : Nat → Prop :=
  match s.own.socketStatus with
  | .connectedAsTCP => s.TakesMessages handler
  | .connectedAsWebSocket => s.TakesFrames
  | _ => (· = 0)

theorem accounts_upgraded : Accounts (readUpgraded handler) HBReady (TakesUpgraded handler) := by
  intro s hs
  unfold readUpgraded TakesUpgraded
  cases hstatus : s.own.socketStatus with
  | connectedAsTCP => exact accounts_messages HBReady s hs
  | connectedAsWebSocket => exact accounts_frames s hs
  | connecting | closing => exact .returns rfl fun m => Iff.rfl

end Upgraded

/-! ### The header -/

section Header

variable {status : Type} {connecting : status} {framed : status → Prop}

theorem processHeader_unfinished {s : SessionSocket status} {offset : Nat}
    (finish : SessionSocket status → Option (SessionSocket status))
    (hscan : scanHeader s.headerView s.own.readWebsocketHeaderOffset = some (false, offset)) :
    ∃ events, s.processHeader finish = some { s.withOffset offset with events } := by
  simp only [processHeader, hscan]
  split
  · exact ⟨_, rfl⟩
  · exact ⟨_, rfl⟩

variable [DecidableEq status]

/-- The second half of `readMessages` while the socket was connecting. -/
def goOn (connecting : status) (readNext : SessionSocket status → Option (SessionSocket status))
    (s : SessionSocket status) : Option (SessionSocket status) :=
  if s.own.socketStatus = connecting then some s else readNext s

/-- `readMessages` of the sockets with a handshake: while it is not complete nothing else is read. -/
def readBehind (connecting : status)
    (processHandshake readNext : SessionSocket status → Option (SessionSocket status))
    (s : SessionSocket status) : Option (SessionSocket status) :=
  if s.own.socketStatus = connecting then
    (processHandshake s).bind (goOn connecting readNext)
  else
    readNext s

/-- What is consumed with a header that is `answered` with a status. A header that is refused stays
where it is. -/
def TakesAnswered (answered : List UInt8 → Option (Option status))
    (takes : SessionSocket status → Nat → Prop) (s : SessionSocket status) : Nat → Prop :=
  match answered s.header with
  | some (some socketStatus) => fun n => ∃ m,
    takes (s.updateForHeader.withStatus socketStatus) m ∧ n = s.own.readWebsocketHeaderOffset + m
  | some none => (· = 0)
  | none => fun _ => False

/-- Before its end is found a header is only searched. -/
def TakesBehind (connecting : status) (answered : List UInt8 → Option (Option status))
    (takes : SessionSocket status → Nat → Prop) (s : SessionSocket status) : Nat → Prop :=
  if s.own.socketStatus = connecting then
    match scanHeader s.headerView s.own.readWebsocketHeaderOffset with
    | some (true, offset) => TakesAnswered answered takes (s.withOffset offset)
    | some (false, _) => (· = 0)
    | none => fun _ => False
  else
    takes s

/-- What `finish` does at the end of a header, callbacks apart. -/
structure Finishes (connecting : status) (answered : List UInt8 → Option (Option status))
    (finish : SessionSocket status → Option (SessionSocket status)) : Prop where
  connected : ∀ text socketStatus, answered text = some (some socketStatus) →
    socketStatus ≠ connecting
  finish_eq : ∀ s, ∃ events, finish s = (answered s.header).map fun
    | some socketStatus => { s.updateForHeader.withStatus socketStatus with events }
    | none => { s with events }

theorem counted_answered {answered : List UInt8 → Option (Option status)}
    {finish readNext : SessionSocket status → Option (SessionSocket status)}
    {takes : SessionSocket status → Nat → Prop} (hfinish : Finishes connecting answered finish)
    (hevents : ∀ (s : SessionSocket status) events, takes { s with events } = takes s)
    (hnext : Accounts readNext (Ready connecting framed) takes) (hnot : ¬ framed connecting)
    {s : SessionSocket status} (hs : s.Ready connecting framed)
    (hstatus : s.own.socketStatus = connecting) :
    Counted s.numberOfBytesLeftToRead (TakesAnswered answered takes s)
      ((finish s).bind (goOn connecting readNext)) := by
  unfold TakesAnswered
  obtain ⟨events, hfinish_eq⟩ := hfinish.finish_eq s
  rw [hfinish_eq]
  cases hanswered : answered s.header with
  | none => exact .fails fun _ => id
  | some answer =>
    cases answer with
    | none =>
      have hwaits : goOn connecting readNext { s with events } = some { s with events } :=
        if_pos hstatus
      rw [Option.map_some, Option.bind_some, hwaits]
      exact .returns rfl fun m => Iff.rfl
    | some socketStatus =>
      have hgoes : goOn connecting readNext
          { s.updateForHeader.withStatus socketStatus with events } =
            readNext { s.updateForHeader.withStatus socketStatus with events } :=
        if_neg (hfinish.connected _ _ hanswered)
      obtain ⟨-, hready⟩ := updateForHeader_ready hs (by rwa [hstatus]) socketStatus
      have hcounted := hnext { s.updateForHeader.withStatus socketStatus with events }
        ⟨hready.inside, hready.offset_le, hready.offset_zero, hready.frame, hready.resting⟩
      rw [hevents] at hcounted
      rw [Option.map_some, Option.bind_some, hgoes]
      exact hcounted.behind (Nat.sub_add_cancel hs.offset_le)

theorem accounts_behind {answered : List UInt8 → Option (Option status)}
    {finish readNext : SessionSocket status → Option (SessionSocket status)}
    {takes : SessionSocket status → Nat → Prop} (hfinish : Finishes connecting answered finish)
    (hevents : ∀ (s : SessionSocket status) events, takes { s with events } = takes s)
    (hnext : Accounts readNext (Ready connecting framed) takes) (hnot : ¬ framed connecting) :
    Accounts (readBehind connecting (processHeader finish) readNext) (Ready connecting framed)
      (TakesBehind connecting answered takes) := by
  intro s hs
  unfold readBehind TakesBehind
  split
  case isFalse => exact hnext s hs
  case isTrue hstatus =>
    obtain ⟨found, offset, hscan, hoffset⟩ :=
      scanHeader_spec s.headerView s.own.readWebsocketHeaderOffset
    have hview : s.headerView.length ≤ s.numberOfBytesLeftToRead := by
      rw [headerView, List.length_take]
      omega
    have hstart := hs.offset_le
    have hready : (s.withOffset offset).Ready connecting framed :=
      ⟨hs.inside, by simp only [withOffset]; omega, fun hne => absurd hstatus hne, hs.frame,
        hs.resting⟩
    rw [hscan]
    cases found with
    | false =>
      obtain ⟨events, hprocessed⟩ := processHeader_unfinished finish hscan
      have hwaits : goOn connecting readNext { s.withOffset offset with events } =
        some { s.withOffset offset with events } := if_pos hstatus
      rw [hprocessed, Option.bind_some, hwaits]
      exact .returns rfl fun m => Iff.rfl
    | true =>
      have hprocessed : s.processHeader finish = finish (s.withOffset offset) := by
        simp only [processHeader, hscan]
      rw [hprocessed]
      exact counted_answered hfinish hevents hnext hnot hready hstatus

end Header

/-! ### The four sockets -/

section Answers

variable {status : Type} (getBase64Hash : List UInt8 → List UInt8)

/-- The status of a server socket behind a request; one that is not met leaves it as it is. -/
def requestStatus (connectedAs : HandshakeRequest → status) (text : List UInt8) :
    Option (Option status) :=
  match answerRequest getBase64Hash text with
  | .ok (request, response) =>
    if response.isEmpty then some none else some (some (connectedAs request))
  | _ => none

/-- The status of the client socket behind a reply. -/
def replyStatus (key text : List UInt8) : Option (Option SocketStatus) :=
  match readServerResponse getBase64Hash text key with
  | .ok (response, accepted) =>
    if accepted then some (some (connectedAs response.getUpgrade)) else some none
  | _ => none

theorem finishRequest_finishes {connecting : status} {connectedAs : HandshakeRequest → status}
    (hconnected : ∀ request, connectedAs request ≠ connecting) :
    Finishes connecting (requestStatus getBase64Hash connectedAs)
      (finishRequest getBase64Hash connectedAs) where
  connected text socketStatus h := by
    unfold requestStatus at h
    split at h
    · split at h
      · cases h
      · rw [← Option.some.inj (Option.some.inj h)]
        apply hconnected
    · cases h
  finish_eq s := by
    unfold requestStatus finishRequest
    cases answerRequest getBase64Hash s.header with
    | ok answer =>
      dsimp only
      split
      · exact ⟨_, rfl⟩
      · exact ⟨_, rfl⟩
    | thrown | outsideText => exact ⟨[], rfl⟩

theorem finishReply_finishes (key : List UInt8) :
    Finishes .connecting (replyStatus getBase64Hash key)
      (HBSocketClient.finishReply getBase64Hash key) where
  connected text socketStatus h := by
    unfold replyStatus at h
    split at h
    · split at h
      · rw [← Option.some.inj (Option.some.inj h)]
        apply connectedAs_ne_connecting
      · cases h
    · cases h
  finish_eq s := by
    unfold replyStatus HBSocketClient.finishReply
    cases readServerResponse getBase64Hash s.header key with
    | ok answer =>
      dsimp only
      split
      · exact ⟨_, rfl⟩
      · exact ⟨_, rfl⟩
    | thrown | outsideText => exact ⟨[], rfl⟩

end Answers

end Receiver

section Compactions

variable (getBase64Hash : List UInt8 → List UInt8) (handler : DataHandler) (key : List UInt8)
variable (MaxMessageSize bufferSize : Nat) (memory : Nat → UInt8)

open Receiver

def WebSocket.Takes : WebSocket → Nat → Prop :=
  TakesBehind .connecting (requestStatus getBase64Hash fun _ => .connected) TakesFrames

def HBDataSocket.Takes : HBDataSocket → Nat → Prop :=
  TakesBehind .connecting
    (requestStatus getBase64Hash fun request => connectedAs request.upgrade) (TakesUpgraded handler)

def HBSocketClient.Takes : HBSocketClient → Nat → Prop :=
  TakesBehind .connecting (replyStatus getBase64Hash key) (TakesUpgraded handler)

theorem webSocket_readMessages :
    WebSocket.readMessages getBase64Hash =
      readBehind .connecting (WebSocket.processHandshake getBase64Hash) processFrames := by
  funext s
  unfold WebSocket.readMessages readBehind
  split
  · cases WebSocket.processHandshake getBase64Hash s <;> rfl
  · rfl

theorem webSocket_accounts :
    Accounts (WebSocket.readMessages getBase64Hash)
      (Ready .connecting (· ≠ WebSocket.SocketStatus.connecting))
      (WebSocket.Takes getBase64Hash) := by
  rw [webSocket_readMessages]
  apply accounts_behind
  · exact finishRequest_finishes getBase64Hash fun _ => by decide
  · exact fun s events => rfl
  · exact accounts_frames
  · exact fun hframed => hframed rfl

theorem readMessagesWith_accounts
    {finish : SessionSocket SocketStatus → Option (SessionSocket SocketStatus)}
    {answered : List UInt8 → Option (Option SocketStatus)}
    (hfinish : Finishes .connecting answered finish) :
    Accounts (readMessagesWith (processHeader finish) handler) HBReady
      (TakesBehind .connecting answered (TakesUpgraded handler)) := by
  have hread : readMessagesWith (processHeader finish) handler =
      readBehind .connecting (processHeader finish) (readUpgraded handler) := by
    funext s
    unfold readMessagesWith readBehind
    split
    · cases processHeader finish s <;> rfl
    · rfl
  rw [hread]
  apply accounts_behind hfinish
  · exact fun s events => rfl
  · exact accounts_upgraded
  · decide

end Compactions

/-! ### An overlap -/

open Receiver

/-- A message of five bytes and the first six of one of 64. -/
def unevenChunk : List UInt8 := [5, 0, 0, 0, 7, 64, 0, 0, 0, 1, 2]

end LuPlatform.Socket
