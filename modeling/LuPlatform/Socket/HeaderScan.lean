import LuPlatform.Socket.Session
import LuPlatform.Websocket.HeaderLines

/-! The search for the end of a header, in a text that is searched from the start. -/

namespace LuPlatform.Socket

open Bytes Loop Websocket Receiver

/-- What the search comes to, from the start of a line. -/
theorem scanHeader_scanned {text : List UInt8} {offset offset' : Nat} {found : Bool}
    (hoffset : Scanned text offset) (h : scanHeader text offset = some (found, offset')) :
    if found then ∃ i, i + 2 = offset' ∧ Scanned text i ∧ EmptyLineAt text i
    else Scanned text offset' ∧ ∀ i, offset' ≤ i → ¬ CrlfAt text i := by
  refine loop_invariant (Scanned text)
    (fun r => if r.1 then ∃ i, i + 2 = r.2 ∧ Scanned text i ∧ EmptyLineAt text i
      else Scanned text r.2 ∧ ∀ i, r.2 ≤ i → ¬ CrlfAt text i) ?_ ?_ hoffset h
  · intro o o' ho hround
    unfold scanRound at hround
    split at hround
    · cases hround
    · rename_i location hfind
      split at hround
      · cases hround
      · rename_i hne
        obtain rfl := Round.again.inj hround
        exact ho.next hfind hne
  · intro o r ho hround
    unfold scanRound at hround
    split at hround
    · rename_i hnone
      obtain rfl := Round.leave.inj hround
      exact ⟨ho, findFrom_eq_none (by decide) hnone⟩
    · rename_i location hfind
      split at hround
      · rename_i heq
        obtain rfl := Round.leave.inj hround
        exact ⟨o, rfl, ho, ho.emptyLine (heq ▸ hfind)⟩
      · cases hround

variable {text front : List UInt8}

theorem scanHeader_total (text : List UInt8) (offset : Nat) :
    ∃ found offset', scanHeader text offset = some (found, offset') := by
  obtain ⟨found, offset', h, _⟩ := scanHeader_spec text offset
  exact ⟨found, offset', h⟩

theorem scanHeader_bounds {offset offset' : Nat} {found : Bool}
    (h : scanHeader text offset = some (found, offset')) :
    offset ≤ offset' ∧ (found = true → offset' ≤ text.length) := by
  refine loop_invariant (offset ≤ ·) (fun r => offset ≤ r.2 ∧ (r.1 = true → r.2 ≤ text.length))
    ?_ ?_ (Nat.le_refl offset) h
  · intro o o' ho hround
    have := (scanRound_again hround).1
    omega
  · intro o r ho hround
    unfold scanRound at hround
    split at hround
    · obtain rfl := Round.leave.inj hround
      exact ⟨ho, fun hfound => absurd hfound Bool.false_ne_true⟩
    · rename_i location hfind
      have hend : location + 2 ≤ text.length := findFrom_end_le hfind
      split at hround
      · rename_i heq
        obtain rfl := Round.leave.inj hround
        exact ⟨Nat.le_succ_of_le (Nat.le_succ_of_le ho), fun _ => by rw [← heq]; exact hend⟩
      · cases hround

/-- A request is what the search takes for one header. -/
theorem endsWithFirstEmptyLine_iff :
    EndsWithFirstEmptyLine text ↔ scanHeader text 0 = some (true, text.length) := by
  obtain ⟨found, offset, hscan⟩ := scanHeader_total text 0
  have hspec := scanHeader_scanned (scanned_zero text) hscan
  constructor
  · rintro ⟨last, hlast, hempty, hfirst⟩
    cases found with
    | true =>
      obtain ⟨i, rfl, _, hi⟩ := hspec
      have hend := hi.2.end_le
      have hle : ¬ i < last := fun hlt => hfirst i hlt hi
      rw [hscan, show i + 2 = text.length by omega]
    | false =>
      obtain ⟨⟨_, hnone⟩, hrest⟩ := hspec
      by_cases hlt : last < offset
      · exact absurd hempty (hnone last hlt)
      · exact absurd hempty.2 (hrest last (by omega))
  · intro h
    obtain ⟨rfl, rfl⟩ := Prod.mk.inj (Option.some.inj (hscan.symm.trans h))
    obtain ⟨i, hi, hscanned, hempty⟩ := hspec
    exact ⟨i, hi, hempty, hscanned.2⟩

theorem scanHeader_no_line (hnone : ∀ i, ¬ CrlfAt text i) : scanHeader text 0 = some (false, 0) := by
  refine loop_leave ?_ _
  have hfind : findFrom crlf text 0 = none := by
    cases h : findFrom crlf text 0 with
    | none => rfl
    | some i =>
      obtain ⟨_, _, hcrlf, _⟩ := findFrom_eq_some h
      exact absurd hcrlf (hnone i)
  rw [scanRound, hfind]

/-- Of a request that is cut off after its first line the search keeps an offset. -/
theorem scanHeader_cut (htext : EndsWithFirstEmptyLine text) (hpre : front <+: text)
    (hshort : front.length < text.length) {i : Nat} (hline : CrlfAt front i) :
    ∃ offset, 0 < offset ∧ scanHeader front 0 = some (false, offset) := by
  obtain ⟨found, offset, hscan⟩ := scanHeader_total front 0
  have hspec := scanHeader_scanned (scanned_zero front) hscan
  cases found with
  | true =>
    obtain ⟨j, _, _, hj⟩ := hspec
    exact absurd hj (htext.no_empty hpre hshort j)
  | false =>
    refine ⟨offset, ?_, hscan⟩
    by_contra hzero
    exact hspec.2 i (by omega) hline

end LuPlatform.Socket
