import LuPlatform.Library.Bytes

/-! `BaseSocket::send` against a kernel that answers each `::send` as it likes. `errno` is read after
every answer, and one that accepts bytes leaves the old value there. A call whose answer is still to
come waits, and whatever the thread does next waits with it. -/

namespace LuPlatform.Socket

inductive Errno where
  | EAGAIN | EWOULDBLOCK | EINTR | ENOBUFS
  | other (code : Nat)
  deriving DecidableEq, Repr

/-- What one `::send` returns, and the value of `errno` behind it. -/
inductive SendResult where
  | accepted (count : Nat) (errno : Errno)
  | failed (errno : Errno)
  deriving DecidableEq, Repr

/-- A kernel that accepts bytes takes one at least and no more than it was offered. -/
def bytesTaken (size count : Nat) : Nat := max 1 (min count size)

theorem bytesTaken_le {size : Nat} (hsize : 0 < size) (count : Nat) : bytesTaken size count ≤ size := by
  unfold bytesTaken
  omega

theorem bytesTaken_pos (size count : Nat) : 0 < bytesTaken size count := by
  unfold bytesTaken
  omega

/-- An answer that the kernel can give is what it takes. -/
theorem bytesTaken_eq {size count : Nat} (hpos : 0 < count) (hle : count ≤ size) :
    bytesTaken size count = count := by
  unfold bytesTaken
  omega

/-- What the kernel accepts when it is offered the first `size` of these bytes. -/
def SendResult.taken (result : SendResult) (size : Nat) (bytes : List UInt8) : List UInt8 :=
  match result with
  | .accepted count _ => bytes.take (bytesTaken size count)
  | .failed _ => []

/-- One call of `::send`: how much of the buffer went before it, and how much it offers. -/
structure SendCall where
  totalSent : Nat
  size : Nat
  result : SendResult
  deriving DecidableEq, Repr

/-- The loop of `send` goes on after this answer, or is done because it is the last one due. -/
def SendCall.harmless (c : SendCall) : Bool :=
  match c.result with
  | .failed errno => errno == .EAGAIN || errno == .EWOULDBLOCK
  | .accepted count errno =>
    bytesTaken c.size count == c.size ||
      ((errno == .EAGAIN || errno == .EWOULDBLOCK || errno == .EINTR || errno == .ENOBUFS) &&
        c.totalSent + bytesTaken c.size count < c.size - bytesTaken c.size count)

/-- A socket from outside: the answers the kernel has yet to give, all it accepted, and the calls. -/
structure Wire where
  fd : Option Nat
  answers : List SendResult
  accepted : List UInt8 := []
  calls : List SendCall := []
  waiting : Bool := false
  deriving DecidableEq, Repr

namespace Wire

/-- One `::send` of `size` bytes of the buffer from `totalSent` on. -/
def answered (w : Wire) (buffer : List UInt8) (totalSent size : Nat) (result : SendResult)
    (answers : List SendResult) : Wire :=
  { w with
    answers := answers
    calls := w.calls ++ [⟨totalSent, size, result⟩]
    accepted := w.accepted ++ result.taken size (buffer.drop totalSent) }

def sendLoop (buffer : List UInt8) :
    (answers : List SendResult) → (w : Wire) → (totalSent size : Nat) → Wire × Nat
  | [], w, totalSent, size =>
    if totalSent < size then ({ w with waiting := true }, totalSent) else (w, totalSent)
  | result :: answers, w, totalSent, size =>
    if totalSent < size then
      let w := w.answered buffer totalSent size result answers
      match result with
      | .failed errno =>
        if errno == .EAGAIN || errno == .EWOULDBLOCK then
          sendLoop buffer answers w totalSent size
        else
          (w, totalSent)
      | .accepted count errno =>
        let numBytesSend := bytesTaken size count
        if numBytesSend != size then
          if errno == .EAGAIN || errno == .EWOULDBLOCK || errno == .EINTR || errno == .ENOBUFS then
            sendLoop buffer answers w (totalSent + numBytesSend) (size - numBytesSend)
          else
            (w, totalSent)
        else
          sendLoop buffer answers w (totalSent + numBytesSend) size
    else
      (w, totalSent)

/-- `BaseSocket::send`. -/
def send (w : Wire) (buffer : List UInt8) : Wire × Nat :=
  if w.waiting || w.fd.isNone then (w, 0) else sendLoop buffer w.answers w 0 buffer.length

/-- What sending `bytes` makes of a socket. The kernel has accepted some more; with harmless answers
only it is a part from the front, all of it unless a call is waiting, and it is never all of it with
any other answer. -/
def Transfers (w w' : Wire) (bytes : List UInt8) : Prop :=
  ∃ part calls, w'.accepted = w.accepted ++ part ∧ w'.calls = w.calls ++ calls ∧ w'.fd = w.fd ∧
    part.length ≤ bytes.length ∧ (w.waiting = true → w' = w) ∧
    ((∀ c ∈ calls, c.harmless = true) → part <+: bytes ∧ (w'.waiting = false → part = bytes)) ∧
    (part = bytes → ∀ c ∈ calls, c.harmless = true)

theorem Transfers.refl (w : Wire) : w.Transfers w [] :=
  ⟨[], [], by simp, by simp, rfl, le_rfl, fun _ => rfl, fun _ => by simp, by simp⟩

/-- Nothing is sent while a call is waiting. -/
theorem Transfers.idle {w : Wire} (h : w.waiting = true) (bytes : List UInt8) :
    w.Transfers w bytes :=
  ⟨[], [], by simp, by simp, rfl, by simp, fun _ => rfl, by simp [h], by simp⟩

theorem Transfers.fd_isSome {w w' : Wire} {bytes : List UInt8} (h : w.Transfers w' bytes)
    (hfd : w.fd.isSome = true) : w'.fd.isSome = true := by
  obtain ⟨_, _, _, _, hsame, _⟩ := h
  rwa [hsame]

theorem Transfers.mem_calls {w w' : Wire} {bytes : List UInt8} (h : w.Transfers w' bytes)
    {c : SendCall} (hc : c ∈ w.calls) : c ∈ w'.calls := by
  obtain ⟨_, calls, _, hcalls, _⟩ := h
  rw [hcalls]
  exact List.mem_append_left calls hc

theorem Transfers.accepted_of_harmless {w w' : Wire} {bytes : List UInt8}
    (h : w.Transfers w' bytes) (hharmless : ∀ c ∈ w'.calls, c.harmless = true)
    (hwaiting : w'.waiting = false) : w'.accepted.drop w.accepted.length = bytes := by
  obtain ⟨part, calls, haccepted, hcalls, _, _, _, hsafe, _⟩ := h
  rw [haccepted, List.drop_left]
  refine (hsafe fun c hc => hharmless c ?_).2 hwaiting
  rw [hcalls]
  exact List.mem_append_right _ hc

theorem Transfers.harmless_of_accepted {w w' : Wire} {bytes : List UInt8}
    (h : w.Transfers w' bytes) (haccepted : w'.accepted.drop w.accepted.length = bytes)
    (hharmless : ∀ c ∈ w.calls, c.harmless = true) : ∀ c ∈ w'.calls, c.harmless = true := by
  obtain ⟨part, calls, hpart, hcalls, _, _, _, _, hall⟩ := h
  rw [hpart, List.drop_left] at haccepted
  intro c hc
  rw [hcalls] at hc
  rcases List.mem_append.1 hc with hc | hc
  · exact hharmless c hc
  · exact hall haccepted c hc

theorem Transfers.trans {w w' w'' : Wire} {bytes bytes' : List UInt8}
    (h : w.Transfers w' bytes) (h' : w'.Transfers w'' bytes') :
    w.Transfers w'' (bytes ++ bytes') := by
  obtain ⟨part, calls, haccepted, hcalls, hfd, hlength, hwaiting, hsafe, hall⟩ := h
  obtain ⟨part', calls', haccepted', hcalls', hfd', hlength', hwaiting', hsafe', hall'⟩ := h'
  refine ⟨part ++ part', calls ++ calls', by simp [haccepted', haccepted], by simp [hcalls', hcalls],
    hfd'.trans hfd, by simp only [List.length_append]; omega, ?_, ?_, ?_⟩
  · intro hw
    have hsame := hwaiting hw
    rw [hwaiting' (by rw [hsame, hw]), hsame]
  · intro hharmless
    obtain ⟨hfront, hdone⟩ := hsafe fun c hc => hharmless c (List.mem_append_left _ hc)
    obtain ⟨hfront', hdone'⟩ := hsafe' fun c hc => hharmless c (List.mem_append_right _ hc)
    cases hw : w'.waiting with
    | true =>
      have hsame := hwaiting' hw
      have hnothing : part' = [] := by
        rw [hsame] at haccepted'
        simpa using haccepted'
      rw [hnothing, List.append_nil, hsame]
      exact ⟨hfront.trans (List.prefix_append _ _), fun h => by simp [hw] at h⟩
    | false =>
      rw [hdone hw]
      exact ⟨(List.prefix_append_right_inj _).2 hfront', fun h => by rw [hdone' h]⟩
  · intro heq c hc
    obtain ⟨hpart, hpart'⟩ : part = bytes ∧ part' = bytes' := by
      have hsame : part.length = bytes.length := by
        have hlengths := congrArg List.length heq
        simp only [List.length_append] at hlengths
        omega
      exact List.append_inj heq hsame
    rcases List.mem_append.1 hc with hc | hc
    · exact hall hpart c hc
    · exact hall' hpart' c hc

theorem sendLoop_done {buffer : List UInt8} {totalSent size : Nat} (h : ¬ totalSent < size)
    (answers : List SendResult) (w : Wire) :
    sendLoop buffer answers w totalSent size = (w, totalSent) := by
  cases answers with
  | nil => rw [sendLoop, if_neg h]
  | cons result answers => rw [sendLoop, if_neg h]

/-- How the loop runs behind `totalSent` bytes with `size` of them left, one case for each answer it
tells apart. -/
inductive Sends (buffer : List UInt8) :
    (answers : List SendResult) → (w : Wire) → (totalSent size : Nat) → (run : Wire × Nat) → Prop
  | waits {w totalSent size} :
    Sends buffer [] w totalSent size ({ w with waiting := true }, totalSent)
  | again {answers w totalSent size run errno} (hagain : errno = .EAGAIN ∨ errno = .EWOULDBLOCK)
      (h : Sends buffer answers (w.answered buffer totalSent size (.failed errno) answers)
        totalSent size run) :
    Sends buffer (.failed errno :: answers) w totalSent size run
  | fails {answers w totalSent size errno} (hfails : ¬ (errno = .EAGAIN ∨ errno = .EWOULDBLOCK)) :
    Sends buffer (.failed errno :: answers) w totalSent size
      (w.answered buffer totalSent size (.failed errno) answers, totalSent)
  | whole {answers w totalSent size count errno} (hwhole : bytesTaken size count = size) :
    Sends buffer (.accepted count errno :: answers) w totalSent size
      (w.answered buffer totalSent size (.accepted count errno) answers, totalSent + size)
  | part {answers w totalSent size run count errno} (hpart : bytesTaken size count < size)
      (hagain : errno = .EAGAIN ∨ errno = .EWOULDBLOCK ∨ errno = .EINTR ∨ errno = .ENOBUFS)
      (hmore : totalSent + bytesTaken size count < size - bytesTaken size count)
      (h : Sends buffer answers (w.answered buffer totalSent size (.accepted count errno) answers)
        (totalSent + bytesTaken size count) (size - bytesTaken size count) run) :
    Sends buffer (.accepted count errno :: answers) w totalSent size run
  -- half of the buffer is sent, and the loop takes that for all of it
  | half {answers w totalSent size count errno} (hpart : bytesTaken size count < size)
      (hagain : errno = .EAGAIN ∨ errno = .EWOULDBLOCK ∨ errno = .EINTR ∨ errno = .ENOBUFS)
      (hhalf : ¬ totalSent + bytesTaken size count < size - bytesTaken size count) :
    Sends buffer (.accepted count errno :: answers) w totalSent size
      (w.answered buffer totalSent size (.accepted count errno) answers,
        totalSent + bytesTaken size count)
  -- the part is accepted, but `totalSent` comes back without it
  | givesUp {answers w totalSent size count errno} (hpart : bytesTaken size count < size)
      (hfails : ¬ (errno = .EAGAIN ∨ errno = .EWOULDBLOCK ∨ errno = .EINTR ∨ errno = .ENOBUFS)) :
    Sends buffer (.accepted count errno :: answers) w totalSent size
      (w.answered buffer totalSent size (.accepted count errno) answers, totalSent)

theorem sendLoop_sends {buffer : List UInt8} (answers : List SendResult) (w : Wire)
    {totalSent size : Nat} (hleft : totalSent < size) :
    Sends buffer answers w totalSent size (sendLoop buffer answers w totalSent size) := by
  induction answers generalizing w totalSent size with
  | nil =>
    rw [sendLoop, if_pos hleft]
    exact .waits
  | cons result answers ih =>
    rw [sendLoop, if_pos hleft]
    cases result with
    | failed errno =>
      by_cases hagain : errno = .EAGAIN ∨ errno = .EWOULDBLOCK
      · have htest : (errno == .EAGAIN || errno == .EWOULDBLOCK) = true := by simpa using hagain
        simp only [htest, if_true]
        exact .again hagain (ih _ hleft)
      · have htest : (errno == .EAGAIN || errno == .EWOULDBLOCK) = false := by simpa using hagain
        simp only [htest, Bool.false_eq_true, if_false]
        exact .fails hagain
    | accepted count errno =>
      have htaken := bytesTaken_le (by omega : 0 < size) count
      have hpos := bytesTaken_pos size count
      by_cases hwhole : bytesTaken size count = size
      · simp only [hwhole, bne_self_eq_false, Bool.false_eq_true, if_false]
        rw [sendLoop_done (by omega)]
        exact .whole hwhole
      · have hpart : bytesTaken size count < size := by omega
        simp only [bne_iff_ne, ne_eq, hwhole, not_false_eq_true, if_true]
        by_cases hagain : errno = .EAGAIN ∨ errno = .EWOULDBLOCK ∨ errno = .EINTR ∨ errno = .ENOBUFS
        · have htest : (errno == .EAGAIN || errno == .EWOULDBLOCK || errno == .EINTR ||
              errno == .ENOBUFS) = true := by simpa [or_assoc] using hagain
          simp only [htest, if_true]
          by_cases hmore : totalSent + bytesTaken size count < size - bytesTaken size count
          · exact .part hpart hagain hmore (ih _ hmore)
          · rw [sendLoop_done hmore]
            exact .half hpart hagain hmore
        · have htest : (errno == .EAGAIN || errno == .EWOULDBLOCK || errno == .EINTR ||
              errno == .ENOBUFS) = false := by simpa [and_assoc] using hagain
          simp only [htest, Bool.false_eq_true, if_false]
          exact .givesUp hpart hagain

/-- Where the loop leaves a socket. It has sent `count` bytes more, which are all that were left
exactly when the answers were harmless and no call is waiting. -/
def Advances (buffer : List UInt8) (w w' : Wire) (totalSent : Nat) : Prop :=
  ∃ count calls, w'.accepted = w.accepted ++ (buffer.drop totalSent).take count ∧
    totalSent + count ≤ buffer.length ∧ w'.calls = w.calls ++ calls ∧ w'.fd = w.fd ∧
    ((∀ c ∈ calls, c.harmless = true) → w'.waiting = false → totalSent + count = buffer.length) ∧
    (totalSent + count = buffer.length → ∀ c ∈ calls, c.harmless = true)

/-- The answer that ends the loop. -/
theorem Advances.last {buffer : List UInt8} {w : Wire} {totalSent size : Nat} {result : SendResult}
    (answers : List SendResult) (count : Nat)
    (hbytes : result.taken size (buffer.drop totalSent) = (buffer.drop totalSent).take count)
    (hcount : totalSent + count ≤ buffer.length)
    (hharmless : (⟨totalSent, size, result⟩ : SendCall).harmless = true ↔
      totalSent + count = buffer.length) :
    Advances buffer w (w.answered buffer totalSent size result answers) totalSent := by
  refine ⟨count, [⟨totalSent, size, result⟩], ?_, hcount, rfl, rfl, ?_, ?_⟩
  · exact congrArg (w.accepted ++ ·) hbytes
  · intro hall _
    exact hharmless.1 (hall _ (List.mem_singleton_self _))
  · intro hdone c hc
    rw [List.mem_singleton.1 hc]
    exact hharmless.2 hdone

/-- An answer after which the loop goes on. -/
theorem Advances.next {buffer : List UInt8} {w w' : Wire} {totalSent size : Nat}
    {result : SendResult} {answers : List SendResult} (count : Nat)
    (hbytes : result.taken size (buffer.drop totalSent) = (buffer.drop totalSent).take count)
    (hharmless : (⟨totalSent, size, result⟩ : SendCall).harmless = true)
    (h : Advances buffer (w.answered buffer totalSent size result answers) w'
      (totalSent + count)) : Advances buffer w w' totalSent := by
  obtain ⟨more, calls, haccepted, hcount, hcalls, hfd, hsafe, hall⟩ := h
  refine ⟨count + more, ⟨totalSent, size, result⟩ :: calls, ?_, by omega, ?_, hfd, ?_, ?_⟩
  · rw [haccepted, List.take_add, List.drop_drop, ← List.append_assoc]
    exact congrArg (fun bytes => w.accepted ++ bytes ++ _) hbytes
  · exact hcalls.trans (List.append_assoc _ _ _)
  · intro hcalls hw
    have hdone := hsafe (fun c hc => hcalls c (List.mem_cons_of_mem _ hc)) hw
    omega
  · intro hdone c hc
    rcases List.mem_cons.1 hc with rfl | hc
    · exact hharmless
    · exact hall (by omega) c hc

theorem Sends.advances {buffer : List UInt8} {answers : List SendResult} {w : Wire}
    {totalSent size : Nat} {run : Wire × Nat} (h : Sends buffer answers w totalSent size run)
    (hbuffer : totalSent + size = buffer.length) (hleft : totalSent < size) :
    Advances buffer w run.1 totalSent := by
  induction h with
  | waits => exact ⟨0, [], by simp, by omega, by simp, rfl, fun _ h => by simp at h, by simp⟩
  | again hagain _ ih =>
    exact .next 0 (by simp [SendResult.taken]) (by simpa [SendCall.harmless] using hagain)
      (ih hbuffer hleft)
  | fails hfails =>
    refine .last _ 0 (by simp [SendResult.taken]) (by omega) (iff_of_false ?_ (by omega))
    simpa [SendCall.harmless] using hfails
  | @whole _ _ _ size _ _ hwhole =>
    refine .last _ size (by simp only [SendResult.taken, hwhole]) hbuffer.le (iff_of_true ?_ hbuffer)
    simp [SendCall.harmless, hwhole]
  | part hpart hagain hmore _ ih =>
    exact .next _ rfl (by simpa [SendCall.harmless, hmore, or_assoc] using Or.inr hagain)
      (ih (by omega) hmore)
  | half hpart hagain hhalf =>
    refine .last _ _ rfl (by omega) (iff_of_false ?_ (by omega))
    simp [SendCall.harmless, hpart.ne, hhalf]
  | givesUp hpart hfails =>
    refine .last _ _ rfl (by omega) (iff_of_false ?_ (by omega))
    simp [SendCall.harmless, hpart.ne, or_assoc, hfails]

theorem send_transfers {w : Wire} (hfd : w.fd.isSome = true) (buffer : List UInt8) :
    w.Transfers (w.send buffer).1 buffer := by
  unfold send
  cases hwaiting : w.waiting with
  | true => exact .idle hwaiting buffer
  | false =>
    have hopen : w.fd.isNone = false := by simpa using hfd
    simp only [hopen, Bool.or_false, Bool.false_eq_true, if_false]
    cases buffer with
    | nil =>
      rw [sendLoop_done (by simp)]
      exact .refl w
    | cons byte bytes =>
      obtain ⟨count, calls, haccepted, hcount, hcalls, hfd, hsafe, hall⟩ :=
        (sendLoop_sends w.answers w (by simp)).advances (Nat.zero_add (byte :: bytes).length) (by simp)
      rw [List.drop_zero] at haccepted
      simp only [Nat.zero_add] at hcount hsafe hall
      refine ⟨(byte :: bytes).take count, calls, haccepted, hcalls, hfd, by simp, by simp [hwaiting],
        fun h => ⟨List.take_prefix _ _, fun hw => ?_⟩, fun heq => hall ?_⟩
      · exact List.take_of_length_le (hsafe h hw).ge
      · have hlength := congrArg List.length heq
        rw [List.length_take] at hlength
        omega

end Wire

end LuPlatform.Socket
