import LuPlatform.Library.Bytes

/-! The standard conversions of strings to numbers, in the C locale. A conversion that throws is
`none`. A `float` is kept as the exact value of its text, before rounding: rounding is monotone, so
comparing the rounded value with a constant is comparing the exact one with the midpoint below it.
Whether a value too small for a normal `float` throws is left open. -/

namespace LuPlatform.Utils

open Bytes

def isSpace (b : UInt8) : Bool := b == 32 || (9 ≤ b && b ≤ 13)

/-- One character of `Utils::toLower`. -/
def toLowerByte (b : UInt8) : UInt8 := if 65 ≤ b && b ≤ 90 then b + 32 else b

def toLower (str : List UInt8) : List UInt8 := str.map toLowerByte

def digitValue (base : Nat) (b : UInt8) : Option Nat :=
  if 48 ≤ b && b ≤ 57 then
    some (b.toNat - 48)
  else if base == 16 && 97 ≤ toLowerByte b && toLowerByte b ≤ 102 then
    some ((toLowerByte b).toNat - 87)
  else
    none

/-- The digits a text begins with, and what follows them. -/
def spanDigits (base : Nat) : List UInt8 → List Nat × List UInt8
  | [] => ([], [])
  | b :: rest =>
    match digitValue base b with
    | some digit => (digit :: (spanDigits base rest).1, (spanDigits base rest).2)
    | none => ([], b :: rest)

def ofDigits (base : Nat) (digits : List Nat) : Nat :=
  digits.foldl (fun value digit => value * base + digit) 0

/-- An optional sign. -/
def spanSign : List UInt8 → Bool × List UInt8
  | 43 :: rest => (false, rest)
  | 45 :: rest => (true, rest)
  | rest => (false, rest)

/-- `std::stoi`. -/
def stoi (str : List UInt8) : Option Int :=
  let (negative, rest) := spanSign (str.dropWhile isSpace)
  let digits := (spanDigits 10 rest).1
  let value : Int := if negative then -(ofDigits 10 digits : Int) else ofDigits 10 digits
  if digits.isEmpty || value < -2 ^ 31 || value ≥ 2 ^ 31 then none else some value

/-- Sign and magnitude of the number that a text begins with behind blanks, and nothing where no digit
is there. -/
def leadingNumber (str : List UInt8) : Option (Bool × Nat) :=
  let (negative, rest) := spanSign (str.dropWhile isSpace)
  let digits := (spanDigits 10 rest).1
  if digits.isEmpty then none else some (negative, ofDigits 10 digits)

/-- `std::stoll`. -/
def stoll (str : List UInt8) : Option Int := do
  let (negative, magnitude) ← leadingNumber str
  let value : Int := if negative then -magnitude else magnitude
  if value < -2 ^ 63 || value ≥ 2 ^ 63 then none else some value

/-- `std::stoull`: the magnitude has to fit, and a minus sign negates it in the type. -/
def stoull (str : List UInt8) : Option (BitVec 64) := do
  let (negative, magnitude) ← leadingNumber str
  if magnitude ≥ 2 ^ 64 then
    none
  else
    some (if negative then -BitVec.ofNat 64 magnitude else BitVec.ofNat 64 magnitude)

/-- `std::stoul`, where `unsigned long` has 64 bits. -/
def stoul (str : List UInt8) : Option (BitVec 64) := stoull str

inductive FloatValue where
  | nan
  | infinity (negative : Bool)
  /-- The magnitude is the fraction. -/
  | finite (negative : Bool) (numerator denominator : Nat)
  deriving DecidableEq, Repr

/-- `mantissa * base ^ exponent`. -/
def FloatValue.scaled (negative : Bool) (mantissa base : Nat) (exponent : Int) : FloatValue :=
  .finite negative (mantissa * base ^ exponent.toNat) (base ^ (-exponent).toNat)

/-- An exponent behind its mark, if a whole one is there. -/
def exponentAfter (mark : UInt8) : List UInt8 → Int
  | [] => 0
  | b :: rest =>
    if toLowerByte b == mark then
      let (negative, rest) := spanSign rest
      let value := ofDigits 10 (spanDigits 10 rest).1
      if negative then -(value : Int) else value
    else
      0

/-- The digits before and after the point, and what follows. -/
def spanFraction (base : Nat) (text : List UInt8) : List Nat × List Nat × List UInt8 :=
  let (whole, rest) := spanDigits base text
  match rest with
  | 46 :: rest => (whole, spanDigits base rest)
  | rest => (whole, [], rest)

/-- `strtof` behind the blanks and the sign. -/
def magnitude (negative : Bool) (text : List UInt8) : Option FloatValue :=
  let lower := toLower text
  let (hexWhole, hexFraction, hexRest) := spanFraction 16 (lower.drop 2)
  if ascii "inf" <+: lower then
    some (.infinity negative)
  else if ascii "nan" <+: lower then
    some .nan
  else if ascii "0x" <+: lower && !(hexWhole ++ hexFraction).isEmpty then
    some (.scaled negative (ofDigits 16 (hexWhole ++ hexFraction)) 2
      (exponentAfter 112 hexRest - 4 * hexFraction.length))
  else
    let (whole, fraction, rest) := spanFraction 10 lower
    if (whole ++ fraction).isEmpty then
      none
    else
      some (.scaled negative (ofDigits 10 (whole ++ fraction)) 10
        (exponentAfter 101 rest - fraction.length))

/-- `std::stof`. From half a unit above the largest `float` on a value is out of range. -/
def stof (str : List UInt8) : Option FloatValue :=
  let (negative, rest) := spanSign (str.dropWhile isSpace)
  match magnitude negative rest with
  | some (.finite negative numerator denominator) =>
    if numerator ≥ (2 ^ 128 - 2 ^ 103) * denominator then
      none
    else
      some (.finite negative numerator denominator)
  | value => value

/-- `value < 1.1F`. The literal is `18454938 / 2 ^ 24`, and the midpoint below it goes to the even
neighbour, away from the literal. -/
def FloatValue.lessThan11 : FloatValue → Bool
  | .nan => false
  | .infinity negative => negative
  | .finite negative numerator denominator =>
    negative || numerator * 2 ^ 24 ≤ 18454937 * denominator

example : (stof (ascii "1.1")).map FloatValue.lessThan11 = some false := by decide
example : (stof (ascii "1.0999999")).map FloatValue.lessThan11 = some true := by decide

end LuPlatform.Utils
