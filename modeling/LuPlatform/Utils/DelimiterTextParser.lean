import LuPlatform.Utils.StringConversion
import Mathlib.Data.List.TakeWhile

/-! The parser that takes a line apart at a delimiter. Its errors are exceptions, here the text of
`what()`. -/

namespace LuPlatform.Utils

open Bytes

/-- The part of a string its C pointer shows. -/
def untilNul (str : List UInt8) : List UInt8 := str.takeWhile (· != 0)

theorem untilNul_of_not_mem {str : List UInt8} (h : 0 ∉ str) : untilNul str = str := by
  refine List.takeWhile_eq_self_iff.mpr fun b hb => ?_
  have hne : b ≠ 0 := fun heq => h (heq ▸ hb)
  simpa using hne

structure DelimiterTextParser where
  delimeter : List UInt8
  line : List UInt8
  startPos : Nat := 0
  currentIndex : Nat := 1
  lineNumber : Nat := 1
  deriving DecidableEq, Repr

namespace DelimiterTextParser

/-- The constructor that takes a view. -/
def ofView (line delimeter : List UInt8) : DelimiterTextParser := { delimeter, line }

/-- The constructor that takes a string, of which it only keeps what comes before a NUL. -/
def ofString (line delimeter : List UInt8) : DelimiterTextParser :=
  { delimeter, line := untilNul line }

def nextLine (p : DelimiterTextParser) (line : List UInt8) : DelimiterTextParser :=
  { p with line := untilNul line, startPos := 0, currentIndex := 1, lineNumber := p.lineNumber + 1 }

/-- The decimal digits of a number in a message. -/
def decimal (n : Nat) : List UInt8 := ascii (toString n)

def isBlank (b : UInt8) : Bool := b == 32

/-- Blanks around an item go, unless it has nothing else. -/
def trim (item : List UInt8) : List UInt8 :=
  if item.all isBlank then
    item
  else
    ((item.dropWhile isBlank).reverse.dropWhile isBlank).reverse

def isNull (item : List UInt8) : Bool :=
  item == ascii "null" || item == ascii "Null" || item == ascii "NULL"

def outOfRange (p : DelimiterTextParser) : List UInt8 :=
  ascii "Item [" ++ decimal p.currentIndex ++ ascii "] does not exist in line [" ++
    decimal p.lineNumber ++ ascii "]"

def next (p : DelimiterTextParser) :
    Except (List UInt8) (List UInt8 × DelimiterTextParser) :=
  match findFrom p.delimeter p.line p.startPos with
  | none =>
    if p.startPos ≥ p.line.length then
      .error p.outOfRange
    else
      item p.line.length
  | some endPos => item endPos
where
  item (endPos : Nat) : Except (List UInt8) (List UInt8 × DelimiterTextParser) :=
    let retVal := trim ((p.line.drop p.startPos).take (endPos - p.startPos))
    .ok (if isNull retVal then [] else retVal,
      { p with startPos := endPos + p.delimeter.length, currentIndex := p.currentIndex + 1 })

def cannotConvert (strView type : List UInt8) (index lineNumber : Nat) : List UInt8 :=
  ascii "Cannot convert '" ++ strView ++ ascii "' to " ++ type ++ ascii ", Item [" ++
    decimal index ++ ascii "] in line [" ++ decimal lineNumber ++ ascii "]"

def nextInt (p : DelimiterTextParser) : Except (List UInt8) (Int × DelimiterTextParser) := do
  let (strView, p) ← p.next
  if strView.isEmpty then
    return (0, p)
  match stoi strView with
  | some value => return (value, p)
  | none => throw (cannotConvert strView (ascii "integer") p.currentIndex p.lineNumber)

/-- An empty item is zero. -/
def nextFloat (p : DelimiterTextParser) :
    Except (List UInt8) (FloatValue × DelimiterTextParser) := do
  let (strView, p) ← p.next
  if strView.isEmpty then
    return (.finite false 0 1, p)
  match stof strView with
  | some value => return (value, p)
  | none => throw (cannotConvert strView (ascii "float") (p.currentIndex + 1) p.lineNumber)

example : (ofView (ascii "GET  /comms HTTP/1.1") (ascii " ")).next.map (·.1) =
    .ok (ascii "GET") := by decide

end DelimiterTextParser

end LuPlatform.Utils
