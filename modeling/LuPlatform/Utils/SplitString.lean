import LuPlatform.Library.Loop
import LuPlatform.Library.Pieces

/-! `Utils::splitString`. A delimiter is a string here, a character one of length 1. -/

namespace LuPlatform.Utils

open Bytes Loop

/-- `substr(start, end - start)`, where no `end` is `npos`; an exception is `none`. -/
def substr (str : List UInt8) (start : Nat) : (endPos : Option Nat) → Option (List UInt8)
  | some endPos => if start ≤ str.length then some ((str.drop start).take (endPos - start)) else none
  | none => if start ≤ str.length then some (str.drop start) else none

/-- How an element is made of its characters: the string itself, or its first character. -/
def subString : List UInt8 → List UInt8 := id

def subStringChar (str : List UInt8) : UInt8 := str.headD 0

section SplitString

variable {T : Type} (element : List UInt8 → T) (str delimeter : List UInt8)

structure Splitting (T : Type) where
  startPos : Nat
  endPos : Option Nat
  retVal : List T

/-- A round of the loop, and the element behind it where none is left to find. -/
def splitRound (s : Splitting T) : Round (Splitting T) (Option (List T)) :=
  match substr str s.startPos s.endPos with
  | none => .leave none
  | some item =>
    let retVal := s.retVal ++ [element item]
    match s.endPos with
    | none => .leave (some retVal)
    | some endPos =>
      let startPos := endPos + delimeter.length
      .again ⟨startPos, findFrom delimeter str startPos, retVal⟩

def splitString (fuel : Nat) : Option (Option (List T)) :=
  if str.isEmpty then
    some (some [])
  else
    loop (splitRound element str delimeter) fuel ⟨0, findFrom delimeter str 0, []⟩

end SplitString

variable {T : Type} {element : List UInt8 → T} {str delimeter : List UInt8}

/-- From a position on, the loop appends the pieces it begins to read there. -/
theorem loop_splitRound {pos : Nat} {occurrences : List Nat} (hdelimeter : delimeter ≠ [])
    (h : Occurrences delimeter str pos occurrences) (hpos : pos ≤ str.length) {fuel : Nat}
    (hfuel : occurrences.length < fuel) (retVal : List T) :
    loop (splitRound element str delimeter) fuel ⟨pos, findFrom delimeter str pos, retVal⟩ =
      some (some (retVal ++ (piecesBetween str delimeter.length pos occurrences).map element)) := by
  induction h generalizing fuel retVal with
  | @none pos hnone =>
    obtain ⟨fuel, rfl⟩ := Nat.exists_eq_add_one_of_ne_zero hfuel.ne_bot
    rw [(Occurrences.none hnone).findFrom_eq]
    apply loop_leave
    simp [splitRound, substr, hpos, piecesBetween]
  | @next pos i occurrences hfirst hi hoccurs hleftmost hrest ih =>
    obtain ⟨fuel, rfl⟩ := Nat.exists_eq_add_one_of_ne_zero hfuel.ne_bot
    have hround : splitRound element str delimeter ⟨pos, some i, retVal⟩ =
        .again ⟨i + delimeter.length, findFrom delimeter str (i + delimeter.length),
          retVal ++ [element ((str.drop pos).take (i - pos))]⟩ := by
      simp [splitRound, substr, hpos]
    rw [(Occurrences.next hfirst hi hoccurs hleftmost hrest).findFrom_eq, List.head?_cons,
      loop_again hround, ih (Occurrences.end_le hdelimeter hoccurs) (Nat.lt_of_succ_lt_succ hfuel),
      piecesBetween, List.map_cons, List.append_assoc, List.singleton_append]

/-- The elements are made of the pieces between the occurrences of the delimiter. -/
theorem splitString_eq (hstr : str ≠ []) (hdelimeter : delimeter ≠ []) {occurrences : List Nat}
    (h : Occurrences delimeter str 0 occurrences) {fuel : Nat} (hfuel : str.length < fuel) :
    splitString element str delimeter fuel =
      some (some ((piecesBetween str delimeter.length 0 occurrences).map element)) := by
  have hempty : str.isEmpty = false := by simpa using hstr
  have hlength := h.length_le hdelimeter
  rw [splitString, hempty]
  exact loop_splitRound hdelimeter h (Nat.zero_le _) (by omega) []

example : splitString subStringChar (ascii "A,B,C") (ascii ",") 6 = some (some (ascii "ABC")) := by
  decide

/-- Splitting ends, with one element more than there are occurrences and none of them in an element;
joining undoes it. -/
theorem splitString_inverts (str delimeter : List UInt8) (hstr : str ≠ []) (hdelimeter : delimeter ≠ []) :
    ∃ elements occurrences,
      (∀ fuel, str.length < fuel → splitString subString str delimeter fuel = some (some elements)) ∧
      Occurrences delimeter str 0 occurrences ∧ elements.length = occurrences.length + 1 ∧
      (∀ element ∈ elements, ¬ delimeter <:+: element) ∧ delimeter.intercalate elements = str := by
  obtain ⟨occurrences, h⟩ := Occurrences.exists hdelimeter str 0
  refine ⟨piecesBetween str delimeter.length 0 occurrences, occurrences, fun fuel hfuel => ?_, h,
    length_piecesBetween _ _ _, h.not_infix hdelimeter, h.intercalate⟩
  rw [splitString_eq hstr hdelimeter h hfuel, subString, List.map_id]

/-- Of three delimiters in a row two do not overlap. -/
theorem splitString_inverts_equals :
    ∃ elements occurrences,
      (∀ fuel, (ascii "A===B").length < fuel →
        splitString subString (ascii "A===B") (ascii "==") fuel = some (some elements)) ∧
      Occurrences (ascii "==") (ascii "A===B") 0 occurrences ∧
      elements.length = occurrences.length + 1 ∧
      (∀ element ∈ elements, ¬ ascii "==" <:+: element) ∧
      (ascii "==").intercalate elements = ascii "A===B" :=
  splitString_inverts (ascii "A===B") (ascii "==") (by decide) (by decide)

end LuPlatform.Utils
