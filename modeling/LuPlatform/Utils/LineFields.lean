import LuPlatform.Library.Pieces
import LuPlatform.Utils.DelimiterTextParser

/-! The fields of a line as successive calls of `next` read them. A field of blanks alone is handed out
as it stands: neither of the two steps that trim it finds a character to trim up to. -/

namespace LuPlatform.Utils

open Bytes

namespace DelimiterTextParser

/-- The pieces between delimiters that are fields. A line that ends behind a delimiter has no field
there, and an empty line has none at all. -/
def fieldsOf : List (List UInt8) → List (List UInt8)
  | [] => []
  | [last] => if last.isEmpty then [] else [last]
  | piece :: second :: pieces => piece :: fieldsOf (second :: pieces)

/-- All blanks at both ends go. -/
def stripped (piece : List UInt8) : List UInt8 :=
  ((piece.dropWhile isBlank).reverse.dropWhile isBlank).reverse

/-- What a field stands for. -/
def fieldValue (piece : List UInt8) : List UInt8 :=
  if isNull (stripped piece) then [] else stripped piece

/-- The parser behind a call of `next`; an exception leaves it as it was. -/
def advance (p : DelimiterTextParser) : DelimiterTextParser :=
  match p.next with
  | .ok (_, p') => p'
  | .error _ => p

/-- What the call behind `n` others answers. -/
def call : (n : Nat) → (p : DelimiterTextParser) → Except (List UInt8) (List UInt8)
  | 0, p => p.next.map Prod.fst
  | n + 1, p => call n p.advance

/-- The parsers that are about to read a line. -/
inductive Reads (line delimeter : List UInt8) : DelimiterTextParser → Prop
  | ofString : Reads line delimeter (ofString line delimeter)
  | ofView : Reads line delimeter (ofView line delimeter)
  | nextLine {p : DelimiterTextParser} (h : p.delimeter = delimeter) :
    Reads line delimeter (p.nextLine line)

/-- Successive calls return what the fields of the line stand for, one after the other, and throw
behind the last. -/
def Enumerates (line delimeter : List UInt8) (p : DelimiterTextParser) : Prop :=
  ∀ occurrences, Occurrences delimeter line 0 occurrences → ∀ n,
    match (fieldsOf (piecesBetween line delimeter.length 0 occurrences))[n]? with
    | some field => p.call n = .ok (fieldValue field)
    | none => ∃ what, p.call n = .error what

def BlankOnly (piece : List UInt8) : Prop := piece ≠ [] ∧ ∀ b ∈ piece, b = 32

/-! ### One call -/

variable {p : DelimiterTextParser} {piece : List UInt8} {pos : Nat} {occurrences : List Nat}

/-- The item that is handed out for a piece. -/
def handedOut (piece : List UInt8) : List UInt8 := if isNull (trim piece) then [] else trim piece

theorem all_isBlank_iff : piece.all isBlank = true ↔ ∀ b ∈ piece, b = 32 := by
  simp [isBlank]

theorem stripped_of_blank (h : piece.all isBlank = true) : stripped piece = [] := by
  have hnone : piece.dropWhile isBlank = [] := by
    rw [List.dropWhile_eq_nil_iff]
    simpa using h
  rw [stripped, hnone]
  rfl

/-- Only a piece of blanks is not handed out for what it stands for. -/
theorem handedOut_eq_iff : handedOut piece = fieldValue piece ↔ ¬ BlankOnly piece := by
  by_cases hblank : piece.all isBlank = true
  · have htrim : trim piece = piece := if_pos hblank
    have hstripped := stripped_of_blank hblank
    have hvalue : fieldValue piece = [] := by rw [fieldValue, hstripped, ite_self]
    have hnull : isNull piece = false := by
      have hfirst : ∀ word : List UInt8, word.all isBlank = false → (piece == word) = false := by
        intro word hword
        rw [beq_eq_false_iff_ne]
        rintro rfl
        simp [hword] at hblank
      rw [isNull, hfirst _ (by decide), hfirst _ (by decide), hfirst _ (by decide)]
      rfl
    rw [handedOut, htrim, hnull, hvalue, BlankOnly, ← all_isBlank_iff]
    simp [hblank]
  · have htrim : trim piece = stripped piece := if_neg hblank
    have hsame : handedOut piece = fieldValue piece := by rw [handedOut, fieldValue, htrim]
    refine iff_of_true hsame fun h => hblank ?_
    rw [all_isBlank_iff]
    exact h.2

theorem next_of_found {i : Nat} (h : findFrom p.delimeter p.line p.startPos = some i) :
    p.next = .ok (handedOut ((p.line.drop p.startPos).take (i - p.startPos)),
      { p with startPos := i + p.delimeter.length, currentIndex := p.currentIndex + 1 }) := by
  rw [next, h]
  rfl

theorem next_of_last (h : findFrom p.delimeter p.line p.startPos = none)
    (hleft : p.startPos < p.line.length) :
    p.next = .ok (handedOut (p.line.drop p.startPos),
      { p with
        startPos := p.line.length + p.delimeter.length
        currentIndex := p.currentIndex + 1 }) := by
  have hitem : (p.line.drop p.startPos).take (p.line.length - p.startPos) = p.line.drop p.startPos := by
    rw [← List.length_drop, List.take_length]
  rw [next, h]
  simp only [ge_iff_le, Nat.not_le.mpr hleft, if_false, next.item, hitem]
  rfl

theorem next_of_exhausted (hdelimeter : p.delimeter ≠ []) (hleft : p.line.length ≤ p.startPos) :
    p.next = .error p.outOfRange := by
  obtain ⟨b, hb⟩ := List.exists_mem_of_ne_nil _ hdelimeter
  have hnone : findFrom p.delimeter p.line p.startPos = none :=
    findFrom_of_not_mem hb (by simp [List.drop_eq_nil_of_le hleft])
  rw [next, hnone]
  exact if_pos hleft

/-! ### All calls -/

theorem call_of_exhausted (hdelimeter : p.delimeter ≠ []) (hleft : p.line.length ≤ p.startPos)
    (n : Nat) : p.call n = .error p.outOfRange := by
  have hnext := next_of_exhausted hdelimeter hleft
  induction n with
  | zero => rw [call, hnext]; rfl
  | succ n ih => rw [call, advance, hnext, ih]

theorem fieldsOf_cons (piece : List UInt8) {pieces : List (List UInt8)} (h : pieces ≠ []) :
    fieldsOf (piece :: pieces) = piece :: fieldsOf pieces := by
  cases pieces with
  | nil => exact absurd rfl h
  | cons second pieces => rfl

/-- What the calls answer where these fields are left. What they throw names the item behind the last
of them. -/
def answerAt (p : DelimiterTextParser) (fields : List (List UInt8)) (n : Nat) :
    Except (List UInt8) (List UInt8) :=
  match fields[n]? with
  | some field => .ok (handedOut field)
  | none => .error { p with currentIndex := p.currentIndex + fields.length }.outOfRange

theorem call_eq (hdelimeter : p.delimeter ≠ [])
    (h : Occurrences p.delimeter p.line p.startPos occurrences) (n : Nat) :
    p.call n =
      p.answerAt (fieldsOf (piecesBetween p.line p.delimeter.length p.startPos occurrences)) n := by
  induction occurrences generalizing p n with
  | nil =>
    by_cases hleft : p.startPos < p.line.length
    · have hfields : fieldsOf (piecesBetween p.line p.delimeter.length p.startPos []) =
          [p.line.drop p.startPos] := by simp [piecesBetween, fieldsOf, hleft]
      have hnext := next_of_last h.findFrom_eq hleft
      rw [hfields]
      cases n with
      | zero => rw [call, hnext]; rfl
      | succ n =>
        rw [call, advance, hnext]
        exact call_of_exhausted (p := { p with
          startPos := p.line.length + p.delimeter.length
          currentIndex := p.currentIndex + 1 }) hdelimeter (Nat.le_add_right _ _) n
    · have hfields : fieldsOf (piecesBetween p.line p.delimeter.length p.startPos []) = [] := by
        simpa [piecesBetween, fieldsOf] using Nat.le_of_not_lt hleft
      rw [hfields]
      exact call_of_exhausted hdelimeter (Nat.le_of_not_lt hleft) n
  | cons i occurrences ih =>
    have hnext := next_of_found h.findFrom_eq
    rw [piecesBetween, fieldsOf_cons _ (piecesBetween_ne_nil _ _ _ _)]
    cases n with
    | zero => rw [call, hnext]; rfl
    | succ n =>
      cases h with
      | next _ _ _ _ hrest =>
        have hcalls := ih (p := { p with
          startPos := i + p.delimeter.length
          currentIndex := p.currentIndex + 1 }) hdelimeter hrest n
        rw [call, advance, hnext, hcalls]
        simp only [answerAt, List.getElem?_cons_succ, List.length_cons, outOfRange, Nat.add_assoc,
          Nat.add_comm 1]

/-- A line without NUL is what its parser reads. -/
theorem Reads.start {line delimeter : List UInt8} (h : Reads line delimeter p) (hline : 0 ∉ line) :
    p.line = line ∧ p.delimeter = delimeter ∧ p.startPos = 0 := by
  cases h with
  | ofString => exact ⟨untilNul_of_not_mem hline, rfl, rfl⟩
  | ofView => exact ⟨rfl, rfl, rfl⟩
  | nextLine h => exact ⟨untilNul_of_not_mem hline, h, rfl⟩

theorem mem_of_mem_fieldsOf {pieces : List (List UInt8)} (h : piece ∈ fieldsOf pieces) :
    piece ∈ pieces := by
  induction pieces with
  | nil => exact h
  | cons first pieces ih =>
    cases pieces with
    | nil =>
      rw [fieldsOf] at h
      split at h
      · cases h
      · exact h
    | cons second pieces =>
      rw [fieldsOf, List.mem_cons] at h
      exact List.mem_cons.mpr (h.imp_right ih)

theorem mem_fieldsOf_of_ne_nil {pieces : List (List UInt8)} (h : piece ∈ pieces) (hne : piece ≠ []) :
    piece ∈ fieldsOf pieces := by
  induction pieces with
  | nil => exact h
  | cons first pieces ih =>
    cases pieces with
    | nil =>
      obtain rfl := List.mem_singleton.mp h
      simpa [fieldsOf] using hne
    | cons second pieces =>
      rw [fieldsOf, List.mem_cons]
      exact (List.mem_cons.mp h).imp_right ih

/-- The calls enumerate the fields of a line exactly when no piece between its delimiters consists of
blanks. -/
theorem next_enumerates_iff {line delimeter : List UInt8} (hp : Reads line delimeter p)
    (hline : 0 ∉ line) (hdelimeter : delimeter ≠ []) :
    Enumerates line delimeter p ↔ ∀ occurrences, Occurrences delimeter line 0 occurrences →
      ∀ piece ∈ piecesBetween line delimeter.length 0 occurrences, ¬ BlankOnly piece := by
  obtain ⟨rfl, rfl, hstart⟩ := hp.start hline
  constructor
  · intro henumerates occurrences h piece hpiece hblank
    have hfield := mem_fieldsOf_of_ne_nil hpiece hblank.1
    obtain ⟨n, hn⟩ := List.mem_iff_getElem?.mp hfield
    have hvalue := henumerates occurrences h n
    have hcall := call_eq hdelimeter (hstart ▸ h) n
    rw [hstart] at hcall
    simp only [hcall, answerAt, hn, Except.ok.injEq] at hvalue
    exact handedOut_eq_iff.mp hvalue hblank
  · intro hblank occurrences h n
    have hcall := call_eq hdelimeter (hstart ▸ h) n
    rw [hstart] at hcall
    rw [hcall, answerAt]
    cases hn : (fieldsOf (piecesBetween p.line p.delimeter.length 0 occurrences))[n]? with
    | none => exact ⟨_, rfl⟩
    | some field =>
      apply congrArg Except.ok
      rw [handedOut_eq_iff]
      exact hblank occurrences h field (mem_of_mem_fieldsOf (List.mem_of_getElem? hn))

/-- The empty item between two delimiters, and none behind the last. -/
theorem next_enumerates_iff_tilde :
    Enumerates (ascii " A~~") (ascii "~") (ofString (ascii " A~~") (ascii "~")) ↔
      ∀ occurrences, Occurrences (ascii "~") (ascii " A~~") 0 occurrences →
        ∀ piece ∈ piecesBetween (ascii " A~~") (ascii "~").length 0 occurrences, ¬ BlankOnly piece :=
  next_enumerates_iff .ofString (by decide) (by decide)

/-- A line that is one blank. -/
theorem next_keeps_blank : ¬ Enumerates (ascii " ") (ascii "~") (ofString (ascii " ") (ascii "~")) := by
  intro h
  have hnone : Occurrences (ascii "~") (ascii " ") 0 [] := by
    apply Occurrences.none
    rintro (_ | i) _ hoccurs
    · exact absurd hoccurs (by decide)
    · have hlength := hoccurs.length_le
      simp [ascii] at hlength
  have hcall : (ofString (ascii " ") (ascii "~")).call 0 = .ok (fieldValue (ascii " ")) := h [] hnone 0
  exact absurd hcall (by decide)

end DelimiterTextParser

end LuPlatform.Utils
