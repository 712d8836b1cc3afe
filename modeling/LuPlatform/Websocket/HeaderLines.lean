import LuPlatform.Websocket.Handshake

/-! Lines and the empty line that ends a header. The search of the sockets and the loop that parses
the lines visit the same positions: both stand at the start of a line before which no empty line
begins. -/

namespace LuPlatform.Websocket

open Bytes Loop

/-- The end of a line stands at `i`. -/
def CrlfAt (text : List UInt8) (i : Nat) : Prop := crlf <+: text.drop i

def LineStart (text : List UInt8) (i : Nat) : Prop := i = 0 ∨ ∃ j, j + 2 = i ∧ CrlfAt text j

def EmptyLineAt (text : List UInt8) (i : Nat) : Prop := LineStart text i ∧ CrlfAt text i

/-- The first empty line of the text ends it. -/
def EndsWithFirstEmptyLine (text : List UInt8) : Prop :=
  ∃ i, i + 2 = text.length ∧ EmptyLineAt text i ∧ ∀ j < i, ¬ EmptyLineAt text j

theorem crlfAt_iff {text : List UInt8} {i : Nat} :
    CrlfAt text i ↔ text[i]? = some 13 ∧ text[i + 1]? = some 10 := by
  have hcrlf : crlf = [13, 10] := by decide
  rw [CrlfAt, hcrlf]
  constructor
  · rintro ⟨rest, hrest⟩
    have hfirst := congrArg (·[0]?) hrest
    have hsecond := congrArg (·[1]?) hrest
    simp only [List.cons_append, List.getElem?_cons_zero, List.getElem?_cons_succ,
      List.getElem?_drop, Nat.add_zero] at hfirst hsecond
    exact ⟨hfirst.symm, hsecond.symm⟩
  · rintro ⟨hfirst, hsecond⟩
    obtain ⟨hi, hfirst⟩ := List.getElem?_eq_some_iff.mp hfirst
    obtain ⟨hj, hsecond⟩ := List.getElem?_eq_some_iff.mp hsecond
    rw [List.drop_eq_getElem_cons hi, List.drop_eq_getElem_cons hj, hfirst, hsecond]
    exact List.prefix_append [13, 10] _

theorem CrlfAt.end_le {text : List UInt8} {i : Nat} (h : CrlfAt text i) : i + 2 ≤ text.length := by
  obtain ⟨hlt, _⟩ := List.getElem?_eq_some_iff.mp (crlfAt_iff.mp h).2
  exact hlt

/-- Ends of lines do not overlap. -/
theorem CrlfAt.not_succ {text : List UInt8} {i : Nat} (h : CrlfAt text i) : ¬ CrlfAt text (i + 1) := by
  intro h'
  have hbyte := (crlfAt_iff.mp h).2.symm.trans (crlfAt_iff.mp h').1
  exact absurd hbyte (by decide)

theorem CrlfAt.of_front {front text : List UInt8} {i : Nat} (hpre : front <+: text)
    (h : CrlfAt front i) : CrlfAt text i := by
  obtain ⟨rest, rfl⟩ := hpre
  have hend := h.end_le
  rw [crlfAt_iff, List.getElem?_append_left (by omega), List.getElem?_append_left (by omega)]
  exact crlfAt_iff.mp h

theorem CrlfAt.to_front {front text : List UInt8} {i : Nat} (hpre : front <+: text)
    (h : CrlfAt text i) (hi : i + 2 ≤ front.length) : CrlfAt front i := by
  obtain ⟨rest, rfl⟩ := hpre
  rw [crlfAt_iff, List.getElem?_append_left (by omega), List.getElem?_append_left (by omega)] at h
  exact crlfAt_iff.mpr h

theorem EmptyLineAt.of_front {front text : List UInt8} {i : Nat} (hpre : front <+: text)
    (h : EmptyLineAt front i) : EmptyLineAt text i :=
  ⟨h.1.imp_right fun ⟨j, hj, hcrlf⟩ => ⟨j, hj, hcrlf.of_front hpre⟩, h.2.of_front hpre⟩

/-- A text that is cut off before its end has no empty line. -/
theorem EndsWithFirstEmptyLine.no_empty {front text : List UInt8}
    (htext : EndsWithFirstEmptyLine text) (hpre : front <+: text)
    (hshort : front.length < text.length) (i : Nat) : ¬ EmptyLineAt front i := by
  obtain ⟨last, hlast, _, hfirst⟩ := htext
  intro h
  have hend := h.2.end_le
  exact hfirst i (by omega) (h.of_front hpre)

theorem findFrom_crlf_take {text : List UInt8} {n pos i : Nat}
    (h : findFrom crlf (text.take n) pos = some i) : findFrom crlf text pos = some i := by
  obtain ⟨hpos, _, hcrlf, hmin⟩ := findFrom_eq_some h
  have hfront : text.take n <+: text := List.take_prefix n text
  have hend := CrlfAt.end_le (show CrlfAt (text.take n) i from hcrlf)
  have hwhole : CrlfAt text i := CrlfAt.of_front hfront hcrlf
  refine findFrom_of_first hpos (by have := hwhole.end_le; omega) hwhole fun j hj hji hcrlf' => ?_
  exact hmin j hj hji (CrlfAt.to_front hfront hcrlf' (by omega))

/-! ### From line to line -/

/-- A line starts here and no empty line before. -/
def Scanned (text : List UInt8) (offset : Nat) : Prop :=
  LineStart text offset ∧ ∀ j < offset, ¬ EmptyLineAt text j

theorem scanned_zero (text : List UInt8) : Scanned text 0 :=
  ⟨.inl rfl, fun j hj => absurd hj (Nat.not_lt_zero j)⟩

theorem Scanned.emptyLine {text : List UInt8} {offset : Nat} (h : Scanned text offset)
    (hfind : findFrom crlf text offset = some offset) : EmptyLineAt text offset := by
  obtain ⟨_, _, hcrlf, _⟩ := findFrom_eq_some hfind
  exact ⟨h.1, hcrlf⟩

theorem Scanned.next {text : List UInt8} {offset location : Nat} (h : Scanned text offset)
    (hfind : findFrom crlf text offset = some location) (hne : location ≠ offset) :
    Scanned text (location + 2) := by
  obtain ⟨hpos, _, hcrlf, hmin⟩ := findFrom_eq_some hfind
  have hcrlf : CrlfAt text location := hcrlf
  have hbetween : ∀ j, offset ≤ j → j < location → ¬ CrlfAt text j := hmin
  refine ⟨.inr ⟨location, rfl, hcrlf⟩, fun j hj hempty => ?_⟩
  obtain ⟨hstart, hcrlf'⟩ := hempty
  obtain hlt | hlt | rfl | rfl : j < offset ∨ offset ≤ j ∧ j < location ∨ j = location ∨
      j = location + 1 := by omega
  · exact h.2 j hlt ⟨hstart, hcrlf'⟩
  · exact hbetween j hlt.1 hlt.2 hcrlf'
  · -- The line that ends here would be empty, but it starts at the offset.
    obtain rfl | ⟨i, rfl, hi⟩ := hstart
    · omega
    · by_cases hoffset : offset ≤ i
      · exact hbetween i hoffset (by omega) hi
      · obtain rfl : offset = i + 1 := by omega
        obtain hzero | ⟨k, hk, hk'⟩ := h.1
        · omega
        · obtain rfl : i = k + 1 := by omega
          exact hk'.not_succ hi
  · exact hcrlf.not_succ hcrlf'

theorem readLines_scanned {firstLine : List UInt8 → Option KeyValue} {text : List UInt8}
    {keyValue : KeyValue} (h : readLines firstLine text = some (.ok (some keyValue))) :
    ∃ i, EmptyLineAt text i := by
  refine loop_invariant (fun s => Scanned text s.1)
    (fun r => r = .ok (some keyValue) → ∃ i, EmptyLineAt text i) ?_ ?_ (scanned_zero text) h rfl
  · rintro ⟨o, keyValue'⟩ s' ho hround
    simp only [lineRound] at hround
    split at hround
    · cases hround
    · rename_i location hfind
      split at hround
      · cases hround
      · rename_i hne
        have hnext : s'.1 = location + 2 := by grind
        rw [hnext]
        exact ho.next hfind hne
  · rintro ⟨o, keyValue'⟩ r ho hround rfl
    simp only [lineRound] at hround
    split at hround
    · cases hround
    · rename_i location hfind
      split at hround
      · rename_i heq
        exact ⟨o, ho.emptyLine (heq ▸ hfind)⟩
      · grind

/-- A text refused for its first lines is refused whatever follows them. -/
theorem readLines_refused {firstLine : List UInt8 → Option KeyValue} {text : List UInt8} {n : Nat}
    (h : readLines firstLine (text.take n) = some (.ok none)) :
    readLines firstLine text = some (.ok none) := by
  have hline : ∀ {o location : Nat}, findFrom crlf (text.take n) o = some location →
      ((text.take n).drop o).take (location - o) = (text.drop o).take (location - o) := by
    intro o location hfind
    have hend := findFrom_end_le hfind
    rw [List.length_take] at hend
    rw [List.drop_take, List.take_take, Nat.min_eq_left (by omega)]
  have hlength : (text.take n).length ≤ text.length := (List.take_prefix n text).length_le
  refine loop_mono (loop_transfer (fun s s' hround => ?_) (fun s hround => ?_) h) (by omega)
  · simp only [lineRound] at hround ⊢
    split at hround
    · cases hround
    · rename_i location hfind
      rw [hline hfind] at hround
      rw [findFrom_crlf_take hfind]
      exact hround
  · simp only [lineRound] at hround ⊢
    split at hround
    · cases hround
    · rename_i location hfind
      rw [hline hfind] at hround
      rw [findFrom_crlf_take hfind]
      exact hround

end LuPlatform.Websocket
