import LuPlatform.Websocket.HeaderFields

/-! The lines of a header, and what the loop over them comes to. A line without a colon refuses the
text; behind a colon that ends its line there is nothing to skip, and taking the value throws. -/

namespace LuPlatform.Websocket

open Bytes Loop Utils

/-- The lines from a position on, up to the first empty one. -/
def linesFrom (text : List UInt8) : (fuel pos : Nat) → List (List UInt8)
  | 0, _ => []
  | fuel + 1, pos =>
    match findFrom crlf text pos with
    | none => []
    | some location =>
      if location = pos then
        []
      else
        (text.drop pos).take (location - pos) :: linesFrom text fuel (location + 2)

def headLines (text : List UInt8) : List (List UInt8) := linesFrom text (text.length + 1) 0

/-- A line whose first colon is its last character. -/
def EndsInColon (line : List UInt8) : Prop := ∃ name, line = name ++ [58] ∧ 58 ∉ name

theorem infix_of_mem_linesFrom {text line : List UInt8} {fuel pos : Nat}
    (h : line ∈ linesFrom text fuel pos) : line <:+: text := by
  induction fuel generalizing pos with
  | zero => exact absurd h List.not_mem_nil
  | succ fuel ih =>
    rw [linesFrom] at h
    split at h
    · exact absurd h List.not_mem_nil
    · split at h
      · exact absurd h List.not_mem_nil
      · rcases List.mem_cons.1 h with rfl | h
        · exact (List.take_prefix _ _).isInfix.trans (List.drop_suffix _ _).isInfix
        · exact ih h

/-! ### The first colon of a line -/

theorem colon_prefix_iff (line : List UInt8) (i : Nat) :
    ascii ":" <+: line.drop i ↔ (line)[i]? = some 58 := by
  have hcolon : ascii ":" = [58] := by decide
  rw [hcolon]
  constructor
  · rintro ⟨rest, hrest⟩
    have hfirst := congrArg (·[0]?) hrest
    simpa using hfirst.symm
  · intro h
    obtain ⟨hlt, hbyte⟩ := List.getElem?_eq_some_iff.1 h
    rw [List.drop_eq_getElem_cons hlt, hbyte]
    exact ⟨_, rfl⟩

theorem find_colon_none {line : List UInt8} : find (ascii ":") line = none ↔ 58 ∉ line := by
  constructor
  · intro h hmem
    obtain ⟨i, hi⟩ := List.getElem?_of_mem hmem
    have hlt := (List.getElem?_eq_some_iff.1 hi).1
    exact find_eq_none h i hlt.le ((colon_prefix_iff line i).2 hi)
  · intro h
    cases hfind : find (ascii ":") line with
    | none => rfl
    | some i =>
      have hcolon := (colon_prefix_iff line i).1 (find_eq_some hfind).2.1
      exact absurd (List.mem_of_getElem? hcolon) h

theorem endsInColon_iff {line : List UInt8} {delimiterPos : Nat}
    (h : find (ascii ":") line = some delimiterPos) :
    EndsInColon line ↔ delimiterPos + 2 > line.length := by
  obtain ⟨_, hcolon, hmin⟩ := find_eq_some h
  have hbyte := (colon_prefix_iff line delimiterPos).1 hcolon
  obtain ⟨hlt, hbyte'⟩ := List.getElem?_eq_some_iff.1 hbyte
  have hbefore : 58 ∉ line.take delimiterPos := by
    intro hmem
    obtain ⟨i, hi⟩ := List.getElem?_of_mem hmem
    obtain ⟨hi', _⟩ := List.getElem?_eq_some_iff.1 hi
    rw [List.length_take] at hi'
    rw [List.getElem?_take_of_lt (by omega)] at hi
    exact hmin i (by omega) ((colon_prefix_iff line i).2 hi)
  constructor
  · rintro ⟨name, rfl, hname⟩
    have hpos : ¬ delimiterPos < name.length := by
      intro hlt
      rw [List.getElem?_append_left hlt] at hbyte
      exact hname (List.mem_of_getElem? hbyte)
    simp only [List.length_append, List.length_singleton] at hlt ⊢
    omega
  · intro hlast
    refine ⟨line.take delimiterPos, ?_, hbefore⟩
    have hrest : line.drop delimiterPos = [58] := by
      rw [List.drop_eq_getElem_cons hlt, hbyte', List.drop_eq_nil_of_le (by omega)]
    rw [← hrest, List.take_append_drop]

/-! ### The loop -/

/-- What the loop makes of the lines behind the first one. -/
def readFields : KeyValue → List (List UInt8) → Outcome (Option KeyValue)
  | keyValue, [] => .ok (some keyValue)
  | keyValue, line :: lines =>
    match find (ascii ":") line with
    | none => .ok none
    | some delimiterPos =>
      if delimiterPos + 2 > line.length then
        .thrown
      else
        readFields (keyValue.emplace (toLower (line.take delimiterPos))
          (line.drop (delimiterPos + 2))) lines

def readHead (firstLine : List UInt8 → Option KeyValue) : List (List UInt8) →
    Outcome (Option KeyValue)
  | [] => .ok (some [])
  | line :: lines =>
    match firstLine line with
    | none => .ok none
    | some keyValue => readFields keyValue lines

/-- From a line start before the first empty line the loop works through the lines. -/
theorem loop_readFields {firstLine : List UInt8 → Option KeyValue} {text : List UInt8} {last : Nat}
    (hlast : EmptyLineAt text last) (fuel : Nat) {pos : Nat} {keyValue : KeyValue}
    (hpos : Scanned text pos) (hfuel : text.length < fuel + pos) (hkeyValue : keyValue ≠ []) :
    loop (lineRound firstLine text) fuel (pos, keyValue) =
      some (readFields keyValue (linesFrom text fuel pos)) := by
  induction fuel generalizing pos keyValue with
  | zero =>
    have hle : pos ≤ last := Nat.le_of_not_lt fun h => hpos.2 last h hlast
    have := hlast.2.end_le
    omega
  | succ fuel ih =>
    have hle : pos ≤ last := Nat.le_of_not_lt fun h => hpos.2 last h hlast
    obtain ⟨location, hfind⟩ : ∃ location, findFrom crlf text pos = some location := by
      cases hfind : findFrom crlf text pos with
      | none => exact absurd hlast.2 (findFrom_eq_none (by decide) hfind last hle)
      | some location => exact ⟨location, rfl⟩
    by_cases heq : location = pos
    · have hround : lineRound firstLine text (pos, keyValue) = .leave (.ok (some keyValue)) := by
        simp only [lineRound, hfind, if_pos heq]
      simp only [loop_leave hround, linesFrom, hfind, if_pos heq, readFields]
    · have hempty : keyValue.isEmpty = false := by simpa using hkeyValue
      have hlines : linesFrom text (fuel + 1) pos =
          (text.drop pos).take (location - pos) :: linesFrom text fuel (location + 2) := by
        simp only [linesFrom, hfind, if_neg heq]
      rw [hlines]
      generalize hline : (text.drop pos).take (location - pos) = line
      cases hcolon : find (ascii ":") line with
      | none =>
        have hround : lineRound firstLine text (pos, keyValue) = .leave (.ok none) := by
          simp [lineRound, hfind, heq, hempty, hline, hcolon]
        simp only [loop_leave hround, readFields, hcolon]
      | some delimiterPos =>
        by_cases hlast' : delimiterPos + 2 > line.length
        · have hround : lineRound firstLine text (pos, keyValue) = .leave .thrown := by
            simp [lineRound, hfind, heq, hempty, hline, hcolon, hlast']
          simp only [loop_leave hround, readFields, hcolon, if_pos hlast']
        · have hround : lineRound firstLine text (pos, keyValue) =
              .again (location + 2, keyValue.emplace (toLower (line.take delimiterPos))
                (line.drop (delimiterPos + 2))) := by
            simp [lineRound, hfind, heq, hempty, hline, hcolon, hlast']
          rw [loop_again hround]
          have hend := (findFrom_eq_some hfind).1
          rw [ih (hpos.next hfind heq) (by omega) (emplace_ne_nil hkeyValue _ _)]
          simp only [readFields, hcolon, if_neg hlast']

/-- A text with an empty line is read line by line. -/
theorem readLines_headLines {firstLine : List UInt8 → Option KeyValue} {text : List UInt8}
    {last : Nat} (hlast : EmptyLineAt text last)
    (hfirst : ∀ line keyValue, firstLine line = some keyValue → keyValue ≠ []) :
    readLines firstLine text = some (readHead firstLine (headLines text)) := by
  obtain ⟨location, hfind⟩ : ∃ location, findFrom crlf text 0 = some location := by
    cases hfind : findFrom crlf text 0 with
    | none => exact absurd hlast.2 (findFrom_eq_none (by decide) hfind last (Nat.zero_le _))
    | some location => exact ⟨location, rfl⟩
  rw [readLines, headLines, linesFrom, hfind]
  by_cases heq : location = 0
  · have hround : lineRound firstLine text (0, []) = .leave (.ok (some [])) := by
      simp only [lineRound, hfind, if_pos heq]
    simp only [loop_leave hround, if_pos heq, readHead]
  · simp only [if_neg heq, readHead]
    generalize hline : (text.drop 0).take (location - 0) = line
    cases hfirstLine : firstLine line with
    | none =>
      have hround : lineRound firstLine text (0, []) = .leave (.ok none) := by
        simp only [lineRound, hfind, if_neg heq, hline, hfirstLine, List.isEmpty_nil, if_true]
      rw [loop_leave hround]
    | some keyValue =>
      have hround : lineRound firstLine text (0, []) = .again (location + 2, keyValue) := by
        simp only [lineRound, hfind, if_neg heq, hline, hfirstLine, List.isEmpty_nil, if_true]
      rw [loop_again hround]
      exact loop_readFields hlast _ ((scanned_zero text).next hfind heq) (by omega)
        (hfirst _ _ hfirstLine)

/-! ### What the lines come to -/

/-- The lines that are reached have something behind their colon. -/
def ColonsInside (lines : List (List UInt8)) : Prop :=
  ∀ line ∈ lines.takeWhile (58 ∈ ·), ¬ EndsInColon line

theorem readFields_thrown {lines : List (List UInt8)} {keyValue : KeyValue} :
    readFields keyValue lines = .thrown ↔ ¬ ColonsInside lines := by
  induction lines generalizing keyValue with
  | nil => simp [readFields, ColonsInside]
  | cons line lines ih =>
    cases hcolon : find (ascii ":") line with
    | none =>
      have hmem := find_colon_none.1 hcolon
      simp [readFields, hcolon, ColonsInside, hmem]
    | some delimiterPos =>
      have hmem : 58 ∈ line := by
        by_contra hmem
        rw [find_colon_none.2 hmem] at hcolon
        cases hcolon
      have hsplit : ColonsInside (line :: lines) ↔ ¬ EndsInColon line ∧ ColonsInside lines := by
        simp [ColonsInside, hmem]
      rw [hsplit, endsInColon_iff hcolon]
      by_cases hlast : delimiterPos + 2 > line.length
      · simp only [readFields, hcolon, hlast, if_true, not_true_eq_false, false_and,
          not_false_eq_true]
      · simp only [readFields, hcolon, hlast, if_false, not_false_eq_true, true_and]
        exact ih

theorem readFields_ok {lines : List (List UInt8)} {keyValue : KeyValue}
    (h : ColonsInside lines) :
    readFields keyValue lines =
      .ok (if ∀ line ∈ lines, 58 ∈ line then some (emplaceAll keyValue (lines.map readField))
        else none) := by
  induction lines generalizing keyValue with
  | nil => simp [readFields, emplaceAll]
  | cons line lines ih =>
    cases hcolon : find (ascii ":") line with
    | none =>
      have hmem := find_colon_none.1 hcolon
      simp [readFields, hcolon, hmem]
    | some delimiterPos =>
      have hmem : 58 ∈ line := by
        by_contra hmem
        rw [find_colon_none.2 hmem] at hcolon
        cases hcolon
      obtain ⟨hline, hlines⟩ : ¬ EndsInColon line ∧ ColonsInside lines := by
        simpa [ColonsInside, hmem] using h
      rw [endsInColon_iff hcolon] at hline
      have hfield : readField line =
          (toLower (line.take delimiterPos), line.drop (delimiterPos + 2)) := by
        simp only [readField, hcolon]
      simp only [readFields, hcolon, if_neg hline, ih hlines, List.forall_mem_cons, hmem, true_and,
        List.map_cons, hfield]
      rfl

end LuPlatform.Websocket
