import LuPlatform.Socket.BaseSocket

/-! What `send` reports of the bytes it got rid of. It offers nothing but the buffer and the kernel
accepts a part from its front. But a part that leaves another value in `errno` than those it retries on
is not counted, and what is accepted after half of the buffer is taken for all of it. -/

namespace LuPlatform.Socket

/-- The call does not fail, or only because it would block. -/
def SendCall.onlyAgain (c : SendCall) : Bool :=
  match c.result with
  | .failed errno => errno == .EAGAIN || errno == .EWOULDBLOCK
  | .accepted _ _ => true

namespace Wire

/-- The kernel got the front of the buffer, as much as `send` returns, and was offered nothing else; it
got all of it unless a call failed for good. -/
structure Accounts (w : Wire) (buffer : List UInt8) : Prop where
  counted : ∃ part, (w.send buffer).1.accepted = w.accepted ++ part ∧ part <+: buffer ∧
    part.length = (w.send buffer).2
  offered : ∃ calls, (w.send buffer).1.calls = w.calls ++ calls ∧
    (∀ c ∈ calls, c.totalSent + c.size ≤ buffer.length) ∧
    ((∀ c ∈ calls, c.onlyAgain = true) → (w.send buffer).2 = buffer.length)

/-- Of these answers, behind `sent` bytes of a buffer of this size, each that accepts bytes accepts the
last of them, or less than half in all, with a value in `errno` that is retried on. What comes behind a
failure for good or behind the last byte is not asked for. -/
def Continues (size : Nat) : (sent : Nat) → List SendResult → Prop
  | _, [] => True
  | sent, .failed errno :: answers =>
    errno = .EAGAIN ∨ errno = .EWOULDBLOCK → Continues size sent answers
  | sent, .accepted count errno :: answers =>
    sent + bytesTaken (size - sent) count = size ∨
      (errno = .EAGAIN ∨ errno = .EWOULDBLOCK ∨ errno = .EINTR ∨ errno = .ENOBUFS) ∧
        2 * (sent + bytesTaken (size - sent) count) < size ∧
        Continues size (sent + bytesTaken (size - sent) count) answers

/-- How the loop accounts for what it does behind `totalSent` bytes, and on which condition rightly. -/
def Accounted (buffer : List UInt8) (w : Wire) (run : Wire × Nat) (totalSent : Nat)
    (rightly : Prop) : Prop :=
  ∃ count calls, run.1.accepted = w.accepted ++ (buffer.drop totalSent).take count ∧
    totalSent + count ≤ buffer.length ∧ run.1.calls = w.calls ++ calls ∧
    (∀ c ∈ calls, c.totalSent + c.size ≤ buffer.length) ∧
    (run.2 = totalSent + count ∧ ((∀ c ∈ calls, c.onlyAgain = true) → run.2 = buffer.length) ↔ rightly)

variable {buffer : List UInt8} {w : Wire} {run : Wire × Nat} {totalSent size : Nat}
variable {result : SendResult} {answers : List SendResult} {rightly : Prop}

/-- The answer that ends the loop. -/
theorem Accounted.last {returned : Nat} (count : Nat)
    (hbytes : result.taken size (buffer.drop totalSent) = (buffer.drop totalSent).take count)
    (hcount : totalSent + count ≤ buffer.length) (hsize : totalSent + size ≤ buffer.length)
    (hrightly : returned = totalSent + count ∧
      ((⟨totalSent, size, result⟩ : SendCall).onlyAgain = true → returned = buffer.length) ↔ rightly) :
    Accounted buffer w (w.answered buffer totalSent size result answers, returned) totalSent rightly := by
  refine ⟨count, [⟨totalSent, size, result⟩], ?_, hcount, rfl, ?_, ?_⟩
  · exact congrArg (w.accepted ++ ·) hbytes
  · intro c hc
    rw [List.mem_singleton.mp hc]
    exact hsize
  · simpa using hrightly

/-- An answer after which the loop goes on. -/
theorem Accounted.next (count : Nat)
    (hbytes : result.taken size (buffer.drop totalSent) = (buffer.drop totalSent).take count)
    (hagain : (⟨totalSent, size, result⟩ : SendCall).onlyAgain = true)
    (hsize : totalSent + size ≤ buffer.length)
    (h : Accounted buffer (w.answered buffer totalSent size result answers) run (totalSent + count)
      rightly) : Accounted buffer w run totalSent rightly := by
  obtain ⟨more, calls, haccepted, hcount, hcalls, hoffered, hrightly⟩ := h
  refine ⟨count + more, ⟨totalSent, size, result⟩ :: calls, ?_, by omega, ?_, ?_, ?_⟩
  · rw [haccepted, List.take_add, List.drop_drop, ← List.append_assoc]
    exact congrArg (fun bytes => w.accepted ++ bytes ++ _) hbytes
  · exact hcalls.trans (List.append_assoc _ _ _)
  · intro c hc
    rcases List.mem_cons.mp hc with rfl | hc
    · exact hsize
    · exact hoffered c hc
  · rw [← hrightly, ← Nat.add_assoc]
    simp [hagain]

theorem Sends.accounted (h : Sends buffer answers w totalSent size run)
    (hbuffer : totalSent + size = buffer.length) (hleft : totalSent < size)
    (hreturns : run.1.waiting = false) :
    Accounted buffer w run totalSent (Continues buffer.length totalSent answers) := by
  induction h with
  | waits => cases hreturns
  | @again answers _ totalSent _ _ errno hagain _ ih =>
    have hcontinues : Continues buffer.length totalSent (.failed errno :: answers) ↔
        Continues buffer.length totalSent answers := by simp [Continues, hagain]
    rw [hcontinues]
    exact .next 0 (by simp [SendResult.taken]) (by simpa [SendCall.onlyAgain] using hagain)
      hbuffer.le (ih hbuffer hleft hreturns)
  | fails hfails =>
    refine .last 0 (by simp [SendResult.taken]) (by omega) hbuffer.le ?_
    simp [SendCall.onlyAgain, Continues, hfails]
  | @whole _ _ totalSent size _ _ hwhole =>
    have hsize : buffer.length - totalSent = size := by omega
    refine .last size (by simp only [SendResult.taken, hwhole]) (by omega) hbuffer.le ?_
    simp [Continues, hsize, hwhole, hbuffer]
  | @part answers _ totalSent size _ count errno hpart hagain hmore _ ih =>
    have hsize : buffer.length - totalSent = size := by omega
    have hshort : totalSent + bytesTaken size count ≠ buffer.length := by omega
    have hcontinues : Continues buffer.length totalSent (.accepted count errno :: answers) ↔
        Continues buffer.length (totalSent + bytesTaken size count) answers := by
      simp only [Continues, hsize, hshort, hagain, false_or, true_and]
      exact ⟨fun h => h.2, fun h => ⟨by omega, h⟩⟩
    rw [hcontinues]
    exact .next _ rfl rfl hbuffer.le (ih (by omega) hmore hreturns)
  | @half _ _ totalSent size count _ hpart _ hhalf =>
    have hsize : buffer.length - totalSent = size := by omega
    have hshort : totalSent + bytesTaken size count ≠ buffer.length := by omega
    have hmuch : ¬ 2 * (totalSent + bytesTaken size count) < buffer.length := by omega
    refine .last _ rfl (by omega) hbuffer.le ?_
    simp [SendCall.onlyAgain, Continues, hsize, hshort, hmuch]
  | @givesUp answers _ totalSent size count errno hpart hfails =>
    have hsize : buffer.length - totalSent = size := by omega
    have hshort : totalSent + bytesTaken size count ≠ buffer.length := by omega
    have hpos := bytesTaken_pos size count
    have hcontinues : ¬ Continues buffer.length totalSent (.accepted count errno :: answers) := by
      simp [Continues, hsize, hshort, hfails]
    exact .last _ rfl (by omega) hbuffer.le
      (iff_of_false (fun h => absurd h.1 (by omega)) hcontinues)

/-- What the loop does from the start is what `send` does. -/
theorem Accounted.accounts_iff (h : Accounted buffer w (w.send buffer) 0 rightly) :
    Accounts w buffer ↔ rightly := by
  obtain ⟨count, calls, haccepted, hcount, hcalls, hoffered, hrightly⟩ := h
  rw [← hrightly, Nat.zero_add]
  rw [List.drop_zero] at haccepted
  have hlength : (buffer.take count).length = count := by
    rw [List.length_take]
    omega
  constructor
  · rintro ⟨⟨part, hpart, _, hcounted⟩, calls', hcalls', _, hall⟩
    obtain rfl := List.append_cancel_left (haccepted.symm.trans hpart)
    obtain rfl := List.append_cancel_left (hcalls.symm.trans hcalls')
    exact ⟨hcounted.symm.trans hlength, hall⟩
  · rintro ⟨hreturned, hall⟩
    exact ⟨⟨buffer.take count, haccepted, List.take_prefix _ _, hlength.trans hreturned.symm⟩,
      calls, hcalls, hoffered, hall⟩

/-- A call that returns accounts for every byte exactly when there is nothing to send, or the socket is
open and the answers let the loop go on to the end. -/
theorem send_accounts_iff (hreturns : (w.send buffer).1.waiting = false) :
    Accounts w buffer ↔ buffer = [] ∨ w.fd.isSome = true ∧ Continues buffer.length 0 w.answers := by
  have hidle : ∀ {run : Wire × Nat}, w.send buffer = run → run.1 = w → run.2 = 0 →
      (Accounts w buffer ↔ buffer = []) := by
    rintro ⟨w', returned⟩ hsend rfl rfl
    constructor
    · rintro ⟨_, calls, hcalls, _, hall⟩
      rw [hsend] at hcalls hall
      have hnone : calls = [] := List.self_eq_append_right.mp hcalls
      have hlength := hall (by simp [hnone])
      exact List.length_eq_zero_iff.mp hlength.symm
    · rintro rfl
      refine ⟨⟨[], ?_, List.nil_prefix, ?_⟩, [], ?_, by simp, ?_⟩ <;> simp [hsend]
  cases hw : w.waiting with
  | true =>
    have hsend : w.send buffer = (w, 0) := by simp [send, hw]
    rw [hsend, hw] at hreturns
    cases hreturns
  | false =>
    by_cases hfd : w.fd.isSome = true
    · have hopen : w.fd.isNone = false := by simpa using hfd
      have hsend : w.send buffer = sendLoop buffer w.answers w 0 buffer.length := by
        simp [send, hw, hopen]
      by_cases hempty : buffer = []
      · have hdone : w.send buffer = (w, 0) := by rw [hsend, sendLoop_done (by simp [hempty])]
        rw [hidle hdone rfl rfl]
        simp [hempty]
      · rw [hsend] at hreturns
        have hleft := List.length_pos_iff.mpr hempty
        have haccounted := (sendLoop_sends w.answers w hleft).accounted (Nat.zero_add buffer.length)
          hleft hreturns
        rw [← hsend] at haccounted
        rw [haccounted.accounts_iff]
        simp [hempty, hfd]
    · have hclosed : w.fd.isNone = true := by simpa using hfd
      have hsend : w.send buffer = (w, 0) := by simp [send, hclosed]
      rw [hidle hsend rfl rfl]
      simp [hfd]

/-- A call that would block, and one that takes both bytes. -/
theorem send_accounts_iff_hi :
    Accounts ⟨some 3, [.failed .EAGAIN, .accepted 2 (.other 0)], [], [], false⟩ [0x48, 0x69] ↔
      ([0x48, 0x69] : List UInt8) = [] ∨ (some 3).isSome = true ∧
        Continues 2 0 [.failed .EAGAIN, .accepted 2 (.other 0)] :=
  send_accounts_iff (by decide)

/-- The kernel takes the first of two bytes: with nothing in `errno` it is not counted, and with what a
call before left there it is taken for both. -/
theorem send_miscounts :
    ¬ Accounts ⟨some 3, [.accepted 1 (.other 0)], [], [], false⟩ [0x48, 0x69] ∧
      ¬ Accounts ⟨some 3, [.accepted 1 .EAGAIN], [], [], false⟩ [0x48, 0x69] := by
  constructor
  · rintro ⟨⟨part, hpart, _, hcounted⟩, _⟩
    obtain rfl : [0x48] = part := hpart
    exact absurd hcounted (by decide)
  · rintro ⟨_, calls, hcalls, _, hall⟩
    obtain rfl : [⟨0, 2, .accepted 1 .EAGAIN⟩] = calls := hcalls
    exact absurd (hall (by decide)) (by decide)

end Wire

end LuPlatform.Socket
