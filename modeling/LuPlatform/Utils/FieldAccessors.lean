import LuPlatform.Utils.NumericAccessors

/-! The other accessors, and what all of them take from the fields of a line that a single character
separates. -/

namespace LuPlatform.Utils

open Bytes

namespace DelimiterTextParser

/-- The parser has these fields of its line still to read. -/
def FieldsLeft (p : DelimiterTextParser) (delimeter : UInt8) (fields : List (List UInt8)) : Prop :=
  p.delimeter = [delimeter] ∧ fieldsOf ((p.line.drop p.startPos).splitOn delimeter) = fields

variable {p : DelimiterTextParser} {delimeter : UInt8} {fields : List (List UInt8)}

theorem fieldsLeft_nextLine (h : p.delimeter = [delimeter]) (line : List UInt8) :
    FieldsLeft (p.nextLine line) delimeter (fieldsOf ((untilNul line).splitOn delimeter)) :=
  ⟨h, rfl⟩

theorem find_of_mem {before after : List UInt8} (hbefore : delimeter ∉ before)
    (hline : p.line.drop p.startPos = before ++ delimeter :: after) :
    findFrom [delimeter] p.line p.startPos = some (p.startPos + before.length) := by
  have hlength := congrArg List.length hline
  rw [List.length_drop, List.length_append, List.length_cons] at hlength
  apply findFrom_of_first
  · apply Nat.le_add_right
  · omega
  · rw [← List.drop_drop, hline, List.drop_left]
    exact ⟨after, rfl⟩
  · intro j hpos hlt
    rw [← Nat.add_sub_cancel' hpos, ← List.drop_drop, hline]
    exact not_prefix_of_not_mem hbefore (by omega)

/-- Behind the last field there is none. -/
theorem FieldsLeft.next_nil (h : FieldsLeft p delimeter []) : p.next = .error p.outOfRange := by
  obtain ⟨hdelimeter, hfields⟩ := h
  by_cases hmem : delimeter ∈ p.line.drop p.startPos
  · obtain ⟨before, after, hline, hbefore⟩ := List.eq_append_cons_of_mem hmem
    rw [hline, List.splitOn_append_cons_self_of_not_mem hbefore,
      fieldsOf_cons _ (List.splitOn_ne_nil _ _)] at hfields
    contradiction
  · rw [List.splitOn_eq_singleton hmem, fieldsOf] at hfields
    split at hfields
    · rename_i hempty
      apply next_of_exhausted (by rw [hdelimeter]; simp)
      exact List.drop_eq_nil_iff.1 (List.isEmpty_iff.1 hempty)
    · contradiction

theorem FieldsLeft.next_cons {field : List UInt8} (h : FieldsLeft p delimeter (field :: fields)) :
    ∃ p', p.next = .ok (handedOut field, p') ∧ FieldsLeft p' delimeter fields := by
  obtain ⟨hdelimeter, hfields⟩ := h
  by_cases hmem : delimeter ∈ p.line.drop p.startPos
  · obtain ⟨before, after, hline, hbefore⟩ := List.eq_append_cons_of_mem hmem
    rw [hline, List.splitOn_append_cons_self_of_not_mem hbefore,
      fieldsOf_cons _ (List.splitOn_ne_nil _ _)] at hfields
    have hfind := find_of_mem hbefore hline
    have hnext := next_of_found (p := p) (hdelimeter ▸ hfind)
    have hitem : (p.line.drop p.startPos).take (p.startPos + before.length - p.startPos) = before := by
      rw [Nat.add_sub_cancel_left, hline, List.take_left]
    have hrest : p.line.drop (p.startPos + before.length + p.delimeter.length) = after := by
      rw [Nat.add_assoc, ← List.drop_drop, hline, hdelimeter, ← List.drop_drop, List.drop_left]
      rfl
    rw [hitem] at hnext
    obtain ⟨rfl, rfl⟩ := List.cons.inj hfields
    refine ⟨_, hnext, hdelimeter, ?_⟩
    rw [hrest]
  · rw [List.splitOn_eq_singleton hmem, fieldsOf] at hfields
    split at hfields
    · contradiction
    · rename_i hne
      have hleft : p.startPos < p.line.length := by
        by_contra hle
        rw [List.drop_eq_nil_of_le (by omega)] at hne
        simp at hne
      have hfind : findFrom p.delimeter p.line p.startPos = none :=
        findFrom_of_not_mem (by simp [hdelimeter]) hmem
      have hnext := next_of_last hfind hleft
      rw [(List.cons.inj hfields).1] at hnext
      refine ⟨_, hnext, hdelimeter, ?_⟩
      rw [List.drop_eq_nil_of_le (Nat.le_add_right _ _), ← (List.cons.inj hfields).2]
      rfl

end DelimiterTextParser

/-- The conversions that depend on floating point or on the time zone. One that throws is `none`. -/
structure Conversions (F D : Type) where
  stof : List UInt8 → Option F
  stod : List UInt8 → Option D
  zeroF : F
  zeroD : D
  getDateTime : (dateTimeStr format : List UInt8) → Int

/-- The same access with its value put into another type. -/
def Accessed.map {α β : Type} (f : α → β) (a : Accessed α) : Accessed β :=
  ⟨a.result.map f, a.parser⟩

namespace Accessor

def nextBool : DelimiterTextParser → Accessed Bool :=
  accessor false (fun strView => (stoi strView).map (· == 1)) (ascii "boolean")

/-- The next item, and what becomes of it. -/
def reading {α : Type} (take : (strView : List UInt8) → DelimiterTextParser → Except (List UInt8) α)
    (p : DelimiterTextParser) : Accessed α :=
  match p.next with
  | .error what => ⟨.error what, p⟩
  | .ok (strView, p') => ⟨take strView p', p'⟩

def nextChar : DelimiterTextParser → Accessed UInt8 :=
  reading fun strView _ => .ok (if strView.isEmpty then 32 else strView.headD 0)

/-- The message counts one item too many. -/
def nextFloat {F D : Type} (c : Conversions F D) : DelimiterTextParser → Accessed F :=
  reading fun strView p =>
    if strView.isEmpty then
      .ok c.zeroF
    else
      match c.stof strView with
      | some value => .ok value
      | none => .error (DelimiterTextParser.cannotConvert strView (ascii "float")
          (p.currentIndex + 1) p.lineNumber)

def nextDouble {F D : Type} (c : Conversions F D) : DelimiterTextParser → Accessed D :=
  accessor c.zeroD c.stod (ascii "double")

/-- The default of the parameter. -/
def timeFormat : List UInt8 := ascii "%Y%m%d%H%M%S"

/-- An empty item is converted like any other. -/
def nextDateTime {F D : Type} (c : Conversions F D) : DelimiterTextParser → Accessed Int :=
  reading fun strView p =>
    let retVal := c.getDateTime strView timeFormat
    if retVal = -1 then
      .error (DelimiterTextParser.cannotConvert strView (ascii "time format " ++ timeFormat)
        p.currentIndex p.lineNumber)
    else
      .ok retVal

/-! ### What an accessor takes from an item -/

/-- The conversion of an accessor that makes a value of its own of an empty item. -/
def orEmpty {α : Type} (empty : α) (convert : List UInt8 → Option α) (item : List UInt8) : Option α :=
  if item.isEmpty then some empty else convert item

def dateTime {F D : Type} (c : Conversions F D) (item : List UInt8) : Option Int :=
  if c.getDateTime item timeFormat = -1 then none else some (c.getDateTime item timeFormat)

/-- The accessor throws where there is no item or where the conversion fails, and returns what the
conversion does elsewhere. -/
structure Takes {α : Type} (access : DelimiterTextParser → Accessed α)
    (convert : List UInt8 → Option α) : Prop where
  throws : ∀ {p what}, p.next = .error what → access p = ⟨.error what, p⟩
  reads : ∀ {p item p'}, p.next = .ok (item, p') →
    (access p).parser = p' ∧ (access p).result.toOption = convert item

variable {F D α β : Type}

theorem reading_takes {take : List UInt8 → DelimiterTextParser → Except (List UInt8) α}
    {convert : List UInt8 → Option α} (h : ∀ item p, (take item p).toOption = convert item) :
    Takes (reading take) convert := by
  constructor
  · intro p what hnext
    rw [reading, hnext]
  · intro p item p' hnext
    simp only [reading, hnext, true_and]
    apply h

theorem accessor_takes (empty : α) (convert : List UInt8 → Option α) (type : List UInt8) :
    Takes (accessor empty convert type) (orEmpty empty convert) := by
  constructor
  · intro p what hnext
    rw [accessor, hnext]
  · intro p item p' hnext
    simp only [accessor, hnext, orEmpty]
    split
    · exact ⟨rfl, rfl⟩
    · cases convert item <;> exact ⟨rfl, rfl⟩

theorem nextFloat_takes (c : Conversions F D) : Takes (nextFloat c) (orEmpty c.zeroF c.stof) := by
  apply reading_takes
  intro item p
  rw [orEmpty]
  split
  · rfl
  · cases c.stof item <;> rfl

theorem nextDateTime_takes (c : Conversions F D) : Takes (nextDateTime c) (dateTime c) := by
  apply reading_takes
  intro item p
  simp only [dateTime]
  split <;> rfl

theorem Takes.map {access : DelimiterTextParser → Accessed α} {convert : List UInt8 → Option α}
    (h : Takes access convert) (f : α → β) :
    Takes (fun p => (access p).map f) fun item => (convert item).map f := by
  constructor
  · intro p what hnext
    rw [h.throws hnext]
    rfl
  · intro p item p' hnext
    obtain ⟨hparser, hresult⟩ := h.reads hnext
    refine ⟨hparser, ?_⟩
    rw [← hresult, Accessed.map]
    cases (access p).result <;> rfl

/-- A string is taken as it is. -/
theorem reading_ok_takes (f : List UInt8 → α) :
    Takes (reading fun strView _ => .ok (f strView)) fun item => some (f item) := by
  apply reading_takes
  intro item p
  rfl

variable {access : DelimiterTextParser → Accessed α} {convert : List UInt8 → Option α}
variable {p : DelimiterTextParser} {delimeter : UInt8} {field : List UInt8} {fields : List (List UInt8)}

theorem Takes.nil (h : Takes access convert) (hleft : p.FieldsLeft delimeter []) :
    access p = ⟨.error p.outOfRange, p⟩ :=
  h.throws hleft.next_nil

theorem Takes.cons (h : Takes access convert) (hleft : p.FieldsLeft delimeter (field :: fields)) :
    (access p).result.toOption = convert (DelimiterTextParser.handedOut field) ∧
      (access p).parser.FieldsLeft delimeter fields := by
  obtain ⟨p', hnext, hrest⟩ := hleft.next_cons
  obtain ⟨hparser, hresult⟩ := h.reads hnext
  rw [hparser]
  exact ⟨hresult, hrest⟩

end Accessor

end LuPlatform.Utils
