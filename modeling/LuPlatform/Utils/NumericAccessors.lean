import LuPlatform.Utils.LineFields

/-! The accessors that read a field as an integer. Two of them convert to the type they return. The two
unsigned ones do not: the number is read as an `unsigned long` or with its sign wrapped around, and
between the ranges another number comes back. -/

namespace LuPlatform.Utils

open Bytes

/-- What an accessor does: the value or the text of the exception, and the parser behind it. -/
structure Accessed (α : Type) where
  result : Except (List UInt8) α
  parser : DelimiterTextParser

namespace Accessor

/-- The item is consumed before it is converted. -/
def accessor {α : Type} (empty : α) (convert : List UInt8 → Option α) (type : List UInt8)
    (p : DelimiterTextParser) : Accessed α :=
  match p.next with
  | .error what => ⟨.error what, p⟩
  | .ok (strView, p') =>
    if strView.isEmpty then
      ⟨.ok empty, p'⟩
    else
      match convert strView with
      | some value => ⟨.ok value, p'⟩
      | none =>
        ⟨.error (DelimiterTextParser.cannotConvert strView type p'.currentIndex p'.lineNumber), p'⟩

def nextInt : DelimiterTextParser → Accessed Int := accessor 0 stoi (ascii "integer")

/-- An `unsigned long` is assigned to an `unsigned int`. -/
def nextUInt : DelimiterTextParser → Accessed (BitVec 32) :=
  accessor 0 (fun strView => (stoul strView).map (BitVec.setWidth 32)) (ascii "unsigned integer")

def nextLongLong : DelimiterTextParser → Accessed Int := accessor 0 stoll (ascii "long long")

def nextULongLong : DelimiterTextParser → Accessed (BitVec 64) :=
  accessor 0 stoull (ascii "unsigned long long")

/-- The accessor that the handshake uses too. -/
theorem nextInt_eq (p : DelimiterTextParser) :
    p.nextInt = (nextInt p).result.map fun value => (value, (nextInt p).parser) := by
  unfold DelimiterTextParser.nextInt nextInt accessor
  cases hnext : p.next with
  | error what => rfl
  | ok item =>
    simp only [bind, Except.bind]
    cases hempty : item.1.isEmpty with
    | true => rfl
    | false => cases stoi item.1 <;> rfl

/-! ### Numbers as texts -/

def isDigit (b : UInt8) : Bool := 48 ≤ b && b ≤ 57

def digitsValue (digits : List UInt8) : Nat := ofDigits 10 (digits.map fun b => b.toNat - 48)

/-- An optional minus sign and decimal digits, and the number they write. -/
inductive Numeral : (field : List UInt8) → (v : Int) → Prop
  | unsigned {digits : List UInt8} (hne : digits ≠ []) (hdigits : digits.all isDigit = true) :
    Numeral digits (digitsValue digits)
  | negative {digits : List UInt8} (hne : digits ≠ []) (hdigits : digits.all isDigit = true) :
    Numeral (45 :: digits) (-digitsValue digits)

variable {field digits : List UInt8} {v : Int}

theorem Numeral.ne_nil (h : Numeral field v) : field ≠ [] := by
  cases h with
  | unsigned hne => exact hne
  | negative => apply List.cons_ne_nil

theorem spanDigits_digits (hdigits : digits.all isDigit = true) :
    spanDigits 10 digits = (digits.map fun b => b.toNat - 48, []) := by
  induction digits with
  | nil => rfl
  | cons b digits ih =>
    rw [List.all_cons, Bool.and_eq_true] at hdigits
    have hdigit : digitValue 10 b = some (b.toNat - 48) := if_pos hdigits.1
    rw [spanDigits, hdigit, ih hdigits.2]
    rfl

theorem not_isSpace_of_isDigit {b : UInt8} (h : isDigit b = true) : isSpace b = false := by
  simp only [isDigit, isSpace, Bool.and_eq_true, decide_eq_true_eq, UInt8.le_iff_toNat_le,
    Bool.or_eq_false_iff, beq_eq_false_iff_ne, ne_eq, ← UInt8.toNat_inj, Bool.and_eq_false_iff,
    decide_eq_false_iff_not] at h ⊢
  simp only [UInt8.reduceToNat] at h ⊢
  omega

/-- A text that is digits from its second character on begins with them behind its sign. -/
theorem leadingNumber_numeral (h : Numeral field v) :
    ∃ negative digits, leadingNumber field = some (negative, digitsValue digits) ∧
      v = if negative then -(digitsValue digits : Int) else digitsValue digits := by
  have hread : ∀ {negative : Bool} {text digits : List UInt8}, digits ≠ [] →
      digits.all isDigit = true → spanSign (text.dropWhile isSpace) = (negative, digits) →
      leadingNumber text = some (negative, digitsValue digits) := by
    intro negative text digits hne hdigits hsign
    rw [leadingNumber, hsign]
    simp [spanDigits_digits hdigits, hne, digitsValue]
  cases h with
  | unsigned hne hdigits =>
    refine ⟨false, field, hread hne hdigits ?_, rfl⟩
    obtain ⟨b, digits, rfl⟩ := List.exists_cons_of_ne_nil hne
    rw [List.all_cons, Bool.and_eq_true] at hdigits
    have hb := hdigits.1
    rw [List.dropWhile_cons, not_isSpace_of_isDigit hb]
    have h43 : b ≠ 43 := by rintro rfl; cases hb
    have h45 : b ≠ 45 := by rintro rfl; cases hb
    simp only [Bool.false_eq_true, if_false]
    unfold spanSign
    split <;> simp_all
  | @negative digits hne hdigits => exact ⟨true, digits, hread hne hdigits rfl, rfl⟩

/-! ### Conversions of numbers -/

theorem stoi_numeral (h : Numeral field v) :
    stoi field = if -2 ^ 31 ≤ v ∧ v < 2 ^ 31 then some v else none := by
  obtain ⟨negative, digits, hread, hv⟩ := leadingNumber_numeral h
  have hstoi : stoi field = (leadingNumber field).bind fun number =>
      let value : Int := if number.1 then -number.2 else number.2
      if value < -2 ^ 31 || value ≥ 2 ^ 31 then none else some value := by
    simp only [stoi, leadingNumber]
    cases (spanDigits 10 (spanSign (field.dropWhile isSpace)).2).1.isEmpty <;> simp
  simp only [hstoi, hread, Option.bind_some, ← hv]
  grind

theorem stoll_numeral (h : Numeral field v) :
    stoll field = if -2 ^ 63 ≤ v ∧ v < 2 ^ 63 then some v else none := by
  obtain ⟨negative, digits, hread, hv⟩ := leadingNumber_numeral h
  simp only [stoll, hread, bind, Option.bind_some, ← hv]
  grind

/-- A number whose magnitude fits is taken modulo 2^64. -/
theorem stoull_numeral (h : Numeral field v) :
    stoull field = if v.natAbs < 2 ^ 64 then some (BitVec.ofInt 64 v) else none := by
  obtain ⟨negative, digits, hread, hv⟩ := leadingNumber_numeral h
  have hmagnitude : v.natAbs = digitsValue digits := by
    rw [hv]
    cases negative <;> simp
  have hvalue : BitVec.ofInt 64 v =
      if negative then -BitVec.ofNat 64 (digitsValue digits) else BitVec.ofNat 64 (digitsValue digits) := by
    rw [hv]
    cases negative <;> simp [BitVec.ofInt_neg]
  simp only [stoull, hread, bind, Option.bind_some, hmagnitude, hvalue]
  grind

/-! ### Accessors -/

/-- The accessor returns the number where its type can hold it and throws elsewhere, and in both cases
leaves the parser behind the field. -/
structure Keeps {α : Type} (toInt : α → Int) (low high : Int) (a : Accessed α) (v : Int)
    (behind : DelimiterTextParser) : Prop where
  value : low ≤ v ∧ v < high → ∃ value, a.result = .ok value ∧ toInt value = v
  throws : ¬ (low ≤ v ∧ v < high) → ∃ what, a.result = .error what
  consumed : a.parser = behind

variable {α : Type} {toInt : α → Int} {low high : Int} {empty : α} {convert : List UInt8 → Option α}
variable {type : List UInt8} {p behind : DelimiterTextParser}

theorem accessor_keeps_iff (hne : field ≠ []) (hnext : p.next = .ok (field, behind)) :
    Keeps toInt low high (accessor empty convert type p) v behind ↔
      if low ≤ v ∧ v < high then (convert field).map toInt = some v else convert field = none := by
  have hempty : field.isEmpty = false := by simpa using hne
  have hrun : accessor empty convert type p = match convert field with
      | some value => ⟨.ok value, behind⟩
      | none => ⟨.error (DelimiterTextParser.cannotConvert field type behind.currentIndex
          behind.lineNumber), behind⟩ := by
    simp only [accessor, hnext, hempty, Bool.false_eq_true, if_false]
  rw [hrun]
  constructor
  · rintro ⟨hvalue, hthrows, _⟩
    cases hconvert : convert field <;> grind
  · intro h
    cases hconvert : convert field <;> constructor <;> grind

theorem nextInt_keeps (hfield : Numeral field v) (hnext : p.next = .ok (field, behind)) :
    Keeps id (-2 ^ 31) (2 ^ 31) (nextInt p) v behind := by
  rw [nextInt, accessor_keeps_iff hfield.ne_nil hnext, stoi_numeral hfield]
  grind

theorem nextLongLong_keeps (hfield : Numeral field v) (hnext : p.next = .ok (field, behind)) :
    Keeps id (-2 ^ 63) (2 ^ 63) (nextLongLong p) v behind := by
  rw [nextLongLong, accessor_keeps_iff hfield.ne_nil hnext, stoll_numeral hfield]
  grind

def unsignedValue {width : Nat} (b : BitVec width) : Int := b.toNat

/-- What is left of a number in the type that an accessor returns. -/
theorem unsignedValue_setWidth {width : Nat} (hwidth : width ≤ 64) (hv : 0 ≤ v) (hlt : v < 2 ^ width) :
    unsignedValue ((BitVec.ofInt 64 v).setWidth width) = v := by
  obtain ⟨n, rfl⟩ := Int.eq_ofNat_of_zero_le hv
  have hn : n < 2 ^ width := by exact_mod_cast hlt
  have hpow : 2 ^ width ≤ 2 ^ 64 := Nat.pow_le_pow_right (by decide) hwidth
  rw [unsignedValue, BitVec.ofInt_natCast, BitVec.toNat_setWidth, BitVec.toNat_ofNat,
    Nat.mod_eq_of_lt (hn.trans_le hpow), Nat.mod_eq_of_lt hn]

/-- An accessor that reads 64 bits without a sign and returns some of them is right unless the number
fits the 64 bits only, or these only with its sign wrapped around. -/
theorem unsigned_keeps_iff {width : Nat} {convert : List UInt8 → Option (BitVec width)}
    {empty : BitVec width} (hwidth : width ≤ 64)
    (hconvert : convert field = (stoull field).map (BitVec.setWidth width))
    (hfield : Numeral field v) (hnext : p.next = .ok (field, behind)) :
    Keeps unsignedValue 0 (2 ^ width) (accessor empty convert type p) v behind ↔
      0 ≤ v ∧ v < 2 ^ width ∨ 2 ^ 64 ≤ v.natAbs := by
  have hpow : (2 : Int) ^ width ≤ 2 ^ 64 := by exact_mod_cast Nat.pow_le_pow_right (by decide) hwidth
  rw [accessor_keeps_iff hfield.ne_nil hnext, hconvert, stoull_numeral hfield]
  by_cases hrange : 0 ≤ v ∧ v < 2 ^ width
  · have hfits : v.natAbs < 2 ^ 64 := by omega
    rw [if_pos hrange, if_pos hfits, Option.map_some, Option.map_some,
      unsignedValue_setWidth hwidth hrange.1 hrange.2]
    simp [hrange]
  · rw [if_neg hrange]
    split
    · refine iff_of_false (by simp) ?_
      omega
    · refine iff_of_true rfl ?_
      omega

theorem nextUInt_keeps_iff (hfield : Numeral field v) (hnext : p.next = .ok (field, behind)) :
    Keeps unsignedValue 0 (2 ^ 32) (nextUInt p) v behind ↔
      0 ≤ v ∧ v < 2 ^ 32 ∨ 2 ^ 64 ≤ v.natAbs :=
  unsigned_keeps_iff (by decide) rfl hfield hnext

theorem nextULongLong_keeps_iff (hfield : Numeral field v) (hnext : p.next = .ok (field, behind)) :
    Keeps unsignedValue 0 (2 ^ 64) (nextULongLong p) v behind ↔
      0 ≤ v ∧ v < 2 ^ 64 ∨ 2 ^ 64 ≤ v.natAbs := by
  have hwhole : stoull field = (stoull field).map (BitVec.setWidth 64) := by
    cases stoull field <;> simp
  exact unsigned_keeps_iff le_rfl hwhole hfield hnext

/-- No accessor changes the number that a field writes. -/
structure NumberKept (p behind : DelimiterTextParser) (v : Int) : Prop where
  int : Keeps id (-2 ^ 31) (2 ^ 31) (nextInt p) v behind
  unsignedInt : Keeps unsignedValue 0 (2 ^ 32) (nextUInt p) v behind
  longLong : Keeps id (-2 ^ 63) (2 ^ 63) (nextLongLong p) v behind
  unsignedLongLong : Keeps unsignedValue 0 (2 ^ 64) (nextULongLong p) v behind

/-- None changes it exactly when it fits an `unsigned int` or its magnitude fits no type. -/
theorem numberKept_iff (hfield : Numeral field v) (hnext : p.next = .ok (field, behind)) :
    NumberKept p behind v ↔ 0 ≤ v ∧ v < 2 ^ 32 ∨ 2 ^ 64 ≤ v.natAbs := by
  constructor
  · intro h
    exact (nextUInt_keeps_iff hfield hnext).mp h.unsignedInt
  · intro h
    constructor
    · exact nextInt_keeps hfield hnext
    · exact (nextUInt_keeps_iff hfield hnext).mpr h
    · exact nextLongLong_keeps hfield hnext
    · rw [nextULongLong_keeps_iff hfield hnext]
      omega

/-- The largest `unsigned int`, with another field behind it. -/
theorem numberKept_iff_max :
    NumberKept (.ofString (ascii "4294967295~1") (ascii "~"))
        (DelimiterTextParser.ofString (ascii "4294967295~1") (ascii "~")).advance
        (digitsValue (ascii "4294967295")) ↔
      0 ≤ (digitsValue (ascii "4294967295") : Int) ∧ (digitsValue (ascii "4294967295") : Int) < 2 ^ 32 ∨
        2 ^ 64 ≤ (digitsValue (ascii "4294967295") : Int).natAbs :=
  numberKept_iff (.unsigned (by decide) (by decide)) (by decide)

/-- The number behind it comes back as 0, and -1 as the largest `unsigned long long`. -/
theorem numberKept_wraps :
    (Numeral (ascii "4294967296") (digitsValue (ascii "4294967296")) ∧
      (DelimiterTextParser.ofString (ascii "4294967296") (ascii "~")).next = .ok (ascii "4294967296",
        (DelimiterTextParser.ofString (ascii "4294967296") (ascii "~")).advance) ∧
      ¬ NumberKept (.ofString (ascii "4294967296") (ascii "~"))
        (DelimiterTextParser.ofString (ascii "4294967296") (ascii "~")).advance
        (digitsValue (ascii "4294967296"))) ∧
    Numeral (ascii "-1") (-digitsValue (ascii "1")) ∧
      (DelimiterTextParser.ofString (ascii "-1") (ascii "~")).next = .ok (ascii "-1",
        (DelimiterTextParser.ofString (ascii "-1") (ascii "~")).advance) ∧
      ¬ NumberKept (.ofString (ascii "-1") (ascii "~"))
        (DelimiterTextParser.ofString (ascii "-1") (ascii "~")).advance (-digitsValue (ascii "1")) := by
  refine ⟨⟨.unsigned (by decide) (by decide), by decide, ?_⟩,
    (.negative (by decide) (by decide) : Numeral (45 :: ascii "1") _), by decide, ?_⟩
  · rintro ⟨_, ⟨_, hthrows, _⟩, _, _⟩
    obtain ⟨what, hwhat⟩ := hthrows (by decide)
    have hzero : (nextUInt (.ofString (ascii "4294967296") (ascii "~"))).result = .ok 0 := by decide
    rw [hzero] at hwhat
    cases hwhat
  · rintro ⟨_, _, _, ⟨_, hthrows, _⟩⟩
    obtain ⟨what, hwhat⟩ := hthrows (by decide)
    have hmax : (nextULongLong (.ofString (ascii "-1") (ascii "~"))).result =
        .ok 18446744073709551615 := by decide
    rw [hmax] at hwhat
    cases hwhat

end Accessor

end LuPlatform.Utils
