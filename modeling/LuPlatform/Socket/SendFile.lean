import LuPlatform.Socket.SendAccount

/-! `BaseSocket::sendfile` against a kernel that answers each `::sendfile` as it likes and moves the
offset. The first call stands before the loop, its bytes are in no counter of the loop, and what the
loop runs to its end for is not what comes back. -/

namespace LuPlatform.Socket

/-- A kernel that accepts bytes of a file takes one at least, unless the file ends or none is asked
for. -/
def fileBytesTaken (size left count : Nat) : Nat := min (max 1 count) (min size left)

theorem fileBytesTaken_pos {size left : Nat} (hsize : 0 < size) (hleft : 0 < left) (count : Nat) :
    0 < fileBytesTaken size left count := by
  unfold fileBytesTaken
  omega

/-- An answer that the kernel can give is what it takes. -/
theorem fileBytesTaken_eq {size left count : Nat} (hsize : count ≤ size) (hleft : count ≤ left)
    (hpos : count = 0 → size = 0 ∨ left = 0) : fileBytesTaken size left count = count := by
  unfold fileBytesTaken
  omega

/-- What the kernel takes when it is asked for `size` bytes and these are left of the file. -/
def SendResult.takenOfFile (result : SendResult) (size : Nat) (bytes : List UInt8) : List UInt8 :=
  match result with
  | .accepted count _ => bytes.take (fileBytesTaken size bytes.length count)
  | .failed _ => []

/-- An open socket and an open file: the offset that the kernel moves, the answers it has yet to give,
all it transferred, and the calls, each with the offset before it. -/
structure FileWire where
  file : List UInt8
  answers : List SendResult
  offset : Nat := 0
  accepted : List UInt8 := []
  calls : List SendCall := []
  waiting : Bool := false
  deriving DecidableEq, Repr

namespace FileWire

/-- One `::sendfile` of `size` bytes. -/
def answered (w : FileWire) (size : Nat) (result : SendResult) (answers : List SendResult) : FileWire :=
  let part := result.takenOfFile size (w.file.drop w.offset)
  { w with
    answers := answers
    offset := w.offset + part.length
    accepted := w.accepted ++ part
    calls := w.calls ++ [⟨w.offset, size, result⟩] }

def sendfileLoop (sendBytes : Nat) :
    (answers : List SendResult) → (w : FileWire) → (totalSent size : Nat) → FileWire × Nat
  | [], w, totalSent, size =>
    if totalSent < size then ({ w with waiting := true }, totalSent) else (w, sendBytes)
  | result :: answers, w, totalSent, size =>
    if totalSent < size then
      let numBytesSend := (result.takenOfFile size (w.file.drop w.offset)).length
      let w := w.answered size result answers
      match result with
      | .failed errno =>
        if errno == .EAGAIN || errno == .EWOULDBLOCK then
          sendfileLoop sendBytes answers w totalSent size
        else
          (w, totalSent)
      | .accepted _ errno =>
        if numBytesSend != size then
          if errno == .EAGAIN || errno == .EWOULDBLOCK || errno == .EINTR || errno == .ENOBUFS then
            sendfileLoop sendBytes answers w (totalSent + numBytesSend) (size - numBytesSend)
          else
            (w, totalSent)
        else
          sendfileLoop sendBytes answers w (totalSent + numBytesSend) size
    else
      (w, sendBytes)

/-- `BaseSocket::sendfile`. Whatever the first call fails with, `false` comes back. -/
def sendfile (w : FileWire) (size : Nat) : FileWire × Nat :=
  let w := { w with offset := 0 }
  match w.answers with
  | [] => ({ w with waiting := true }, 0)
  | result :: answers =>
    let sendBytes := (result.takenOfFile size (w.file.drop w.offset)).length
    let w := w.answered size result answers
    match result with
    | .failed _ => (w, 0)
    | .accepted _ _ => sendfileLoop sendBytes answers w 0 size

/-- The bytes transferred are the front of the file, as many as come back and `size` at most, and
`size` of them unless a call failed for good. -/
structure Reports (w : FileWire) (size : Nat) : Prop where
  counted : ∃ part, (w.sendfile size).1.accepted = w.accepted ++ part ∧ part <+: w.file ∧
    part.length = (w.sendfile size).2 ∧ part.length ≤ size
  complete : ∃ calls, (w.sendfile size).1.calls = w.calls ++ calls ∧
    ((∀ c ∈ calls, c.onlyAgain = true) → (w.sendfile size).2 = size)

/-- What the loop adds to the bytes transferred. It comes back with no more than it counted, or at its
end with the count of the first call, and it does not end without a byte. -/
def Leaves (sendBytes : Nat) (w : FileWire) (run : FileWire × Nat) (totalSent size : Nat) : Prop :=
  ∃ more, run.1.accepted = w.accepted ++ more ∧
    (run.2 ≤ totalSent + more.length ∨ run.2 = sendBytes ∧ size ≤ totalSent + 2 * more.length)

variable {sendBytes totalSent size : Nat} {w : FileWire} {run : FileWire × Nat}
variable {result : SendResult} {answers : List SendResult}

/-- An answer after which the loop gives up. -/
theorem Leaves.last : Leaves sendBytes w (w.answered size result answers, totalSent) totalSent size :=
  ⟨_, rfl, Or.inl (Nat.le_add_right _ _)⟩

/-- An answer after which the loop goes on. -/
theorem Leaves.next {totalSent' size' : Nat}
    (hsent : totalSent' = totalSent + (result.takenOfFile size (w.file.drop w.offset)).length)
    (hsize : size ≤ size' + (result.takenOfFile size (w.file.drop w.offset)).length)
    (h : Leaves sendBytes (w.answered size result answers) run totalSent' size') :
    Leaves sendBytes w run totalSent size := by
  obtain ⟨more, haccepted, hreturned⟩ := h
  refine ⟨result.takenOfFile size (w.file.drop w.offset) ++ more, ?_, ?_⟩
  · rw [haccepted]
    apply List.append_assoc
  · rw [List.length_append]
    omega

theorem sendfileLoop_done (h : ¬ totalSent < size) :
    sendfileLoop sendBytes answers w totalSent size = (w, sendBytes) := by
  cases answers with
  | nil => rw [sendfileLoop, if_neg h]
  | cons result answers => rw [sendfileLoop, if_neg h]

theorem Leaves.done (h : ¬ totalSent < size) :
    Leaves sendBytes w (sendfileLoop sendBytes answers w totalSent size) totalSent size := by
  rw [sendfileLoop_done h]
  refine ⟨[], (List.append_nil _).symm, Or.inr ⟨rfl, ?_⟩⟩
  simpa using h

theorem sendfileLoop_leaves (sendBytes : Nat) (answers : List SendResult) (w : FileWire)
    (totalSent size : Nat) :
    Leaves sendBytes w (sendfileLoop sendBytes answers w totalSent size) totalSent size := by
  induction answers generalizing w totalSent size with
  | nil =>
    by_cases hleft : totalSent < size
    · rw [sendfileLoop, if_pos hleft]
      exact ⟨[], (List.append_nil _).symm, Or.inl (Nat.le_add_right _ _)⟩
    · exact .done hleft
  | cons result answers ih =>
    by_cases hleft : totalSent < size
    · rw [sendfileLoop, if_pos hleft]
      cases result with
      | failed errno =>
        dsimp only
        split
        · exact .next rfl (Nat.le_add_right _ _) (ih _ _ _)
        · exact .last
      | accepted count errno =>
        dsimp only
        split
        · split
          · exact .next rfl (by omega) (ih _ _ _)
          · exact .last
        · exact .next rfl (Nat.le_add_right _ _) (ih _ _ _)
    · exact .done hleft

/-- Once the first call transfers a byte, more is transferred than comes back. -/
theorem Leaves.not_counted (h : Leaves sendBytes w run 0 size) (hsize : 0 < size) {part : List UInt8}
    (hpart : part.length = sendBytes) (hsent : 0 < sendBytes) {w₀ : List UInt8}
    (haccepted : w.accepted = w₀ ++ part) {all : List UInt8} (hall : run.1.accepted = w₀ ++ all) :
    all.length ≠ run.2 := by
  obtain ⟨more, hmore, hreturned⟩ := h
  have hsplit : all = part ++ more := by
    rw [hall, haccepted, List.append_assoc] at hmore
    exact List.append_cancel_left hmore
  have hlength : all.length = sendBytes + more.length := by
    rw [hsplit, List.length_append, hpart]
  omega

/-- The errors of a first call that `false` is the right answer to. -/
def FailsAtOnce : List SendResult → Prop
  | .failed errno :: _ => errno ≠ .EAGAIN ∧ errno ≠ .EWOULDBLOCK
  | _ => False

/-- A call that transfers nothing and returns 0. -/
theorem reports_of_nothing (calls : List SendCall) (haccepted : (w.sendfile size).1.accepted = w.accepted)
    (hreturned : (w.sendfile size).2 = 0) (hcalls : (w.sendfile size).1.calls = w.calls ++ calls) :
    Reports w size ↔ (size ≠ 0 → ∃ c ∈ calls, c.onlyAgain = false) := by
  constructor
  · rintro ⟨_, calls', hcalls', hcomplete⟩ hsize
    obtain rfl := List.append_cancel_left (hcalls.symm.trans hcalls')
    by_contra hnone
    apply hsize
    rw [← hreturned, hcomplete]
    simpa using hnone
  · intro hfails
    refine ⟨⟨[], by rw [haccepted, List.append_nil], List.nil_prefix, hreturned.symm, Nat.zero_le _⟩,
      calls, hcalls, fun hall => ?_⟩
    by_cases hsize : size = 0
    · rw [hreturned, hsize]
    · obtain ⟨c, hc, hbad⟩ := hfails hsize
      rw [hall c hc] at hbad
      cases hbad

/-- A call that returns reports what it transferred exactly when nothing was asked for, or its first
`::sendfile` fails for good. -/
theorem sendfile_reports_iff (hfile : size ≤ w.file.length)
    (hreturns : (w.sendfile size).1.waiting = false) :
    Reports w size ↔ size = 0 ∨ FailsAtOnce w.answers := by
  cases hanswers : w.answers with
  | nil => simp [sendfile, hanswers] at hreturns
  | cons result answers =>
    cases result with
    | failed errno =>
      have hrun : w.sendfile size =
          (({ w with offset := 0 } : FileWire).answered size (.failed errno) answers, 0) := by
        simp [sendfile, hanswers]
      rw [reports_of_nothing [⟨0, size, .failed errno⟩]]
      · simp only [List.mem_singleton, exists_eq_left, FailsAtOnce, SendCall.onlyAgain]
        grind
      all_goals simp [hrun, answered, SendResult.takenOfFile]
    | accepted count errno =>
      have hrun : w.sendfile size = sendfileLoop
          ((SendResult.accepted count errno).takenOfFile size w.file).length answers
          (({ w with offset := 0 } : FileWire).answered size (.accepted count errno) answers) 0 size := by
        simp [sendfile, hanswers]
      rcases Nat.eq_zero_or_pos size with rfl | hsize
      · have hnone : (SendResult.accepted count errno).takenOfFile 0 w.file = [] := by
          simp [SendResult.takenOfFile, fileBytesTaken]
        rw [sendfileLoop_done (Nat.lt_irrefl 0), hnone] at hrun
        rw [reports_of_nothing [⟨0, 0, .accepted count errno⟩]]
        all_goals simp [hrun, answered, hnone]
      · apply iff_of_false
        · rintro ⟨⟨part, hpart, _, hcounted, _⟩, _⟩
          have hleaves := sendfileLoop_leaves
            ((SendResult.accepted count errno).takenOfFile size w.file).length answers
            (({ w with offset := 0 } : FileWire).answered size (.accepted count errno) answers) 0 size
          rw [← hrun] at hleaves
          refine hleaves.not_counted hsize rfl ?_ rfl hpart hcounted
          have htaken := fileBytesTaken_pos hsize (hsize.trans_le hfile) count
          simpa [SendResult.takenOfFile] using ⟨htaken, hsize.trans_le hfile⟩
        · simp [FailsAtOnce, hsize.ne']

/-- A socket that is gone. -/
theorem sendfile_reports_iff_epipe :
    Reports ⟨[0x68, 0x69], [.failed (.other 32)], 0, [], [], false⟩ 2 ↔
      2 = 0 ∨ FailsAtOnce [.failed (.other 32)] :=
  sendfile_reports_iff (by decide) (by decide)

/-- The kernel takes all that it is asked for. Of a file of two bytes the loop finds nothing more, and
returns 0; of a longer one it transfers two bytes more. -/
theorem sendfile_miscounts :
    ¬ Reports ⟨[0x68, 0x69], [.accepted 2 (.other 0), .accepted 0 (.other 0)], 0, [], [], false⟩ 2 ∧
      ¬ Reports ⟨[0x68, 0x69, 0x68, 0x6f], [.accepted 2 (.other 0), .accepted 2 (.other 0)], 0, [], [],
        false⟩ 2 := by
  constructor
  · rintro ⟨⟨part, hpart, _, hcounted, _⟩, _⟩
    obtain rfl : [0x68, 0x69] = part := hpart
    exact absurd hcounted (by decide)
  · rintro ⟨⟨part, hpart, _, hcounted, _⟩, _⟩
    obtain rfl : [0x68, 0x69, 0x68, 0x6f] = part := hpart
    exact absurd hcounted (by decide)

end FileWire

end LuPlatform.Socket
