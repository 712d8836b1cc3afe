import LuPlatform.Library.FirstWins
import LuPlatform.Utils.FieldAccessors

/-! Configurations that are loaded from files. A line is a setting: a group, a name, a type and a value,
stored at once in the set of its group. Both maps keep the first entry of a key. -/

namespace LuPlatform.Common

open Bytes Utils Accessor FirstWins

/-- `Config::Type`. -/
inductive ConfigType where
  | boolean
  | char
  | int
  | unsignedInt
  | longLong
  | unsignedLongLong
  | float
  | double
  | string
  | epochTime
  deriving DecidableEq, Repr

/-- The enumerator of a number. A cast takes any other number as well, and no case is for it. -/
def ConfigType.ofInt : Int → Option ConfigType
  | 1 => some .boolean
  | 2 => some .char
  | 3 => some .int
  | 4 => some .unsignedInt
  | 5 => some .longLong
  | 6 => some .unsignedLongLong
  | 7 => some .float
  | 8 => some .double
  | 9 => some .string
  | 10 => some .epochTime
  | _ => none

/-- `Config::Value`. -/
inductive ConfigValue (F D : Type) where
  | boolean (value : Bool)
  | char (value : UInt8)
  | int (value : Int)
  | unsignedInt (value : BitVec 32)
  | longLong (value : Int)
  | unsignedLongLong (value : BitVec 64)
  | float (value : F)
  | double (value : D)
  | string (value : List UInt8)
  | epochTime (value : Int)
  deriving DecidableEq, Repr

variable {F D : Type}

/-- The alternative that is held. -/
def ConfigValue.type : ConfigValue F D → ConfigType
  | boolean _ => .boolean
  | char _ => .char
  | int _ => .int
  | unsignedInt _ => .unsignedInt
  | longLong _ => .longLong
  | unsignedLongLong _ => .unsignedLongLong
  | float _ => .float
  | double _ => .double
  | string _ => .string
  | epochTime _ => .epochTime

/-- `m_configsByGroup`. -/
abbrev Configurations (F D : Type) := Nested (List UInt8) (List UInt8) (ConfigValue F D)

/-- The parser and the configurations while a file is loaded. -/
structure ConfigLoad (F D : Type) where
  delimiterTextParser : DelimiterTextParser
  configsByGroup : Configurations F D

namespace Configurations

def delimiter : UInt8 := 44

/-- The cases of the switch. -/
def nextValue (c : Conversions F D) : ConfigType → DelimiterTextParser → Accessed (ConfigValue F D)
  | .boolean, p => (nextBool p).map .boolean
  | .char, p => (nextChar p).map .char
  | .int, p => (nextInt p).map .int
  | .unsignedInt, p => (nextUInt p).map .unsignedInt
  | .longLong, p => (nextLongLong p).map .longLong
  | .unsignedLongLong, p => (nextULongLong p).map .unsignedLongLong
  | .float, p => (nextFloat c p).map .float
  | .double, p => (nextDouble c p).map .double
  | .string, p => reading (fun strView _ => .ok (.string strView)) p
  | .epochTime, p => (nextDateTime c p).map .epochTime

/-- One round of the loop. What it has stored stays when it throws. -/
def loadLine (c : Conversions F D) (s : ConfigLoad F D) (line : List UInt8) :
    Except (List UInt8) Unit × ConfigLoad F D :=
  let p := s.delimiterTextParser.nextLine line
  match p.next with
  | .error what => (.error what, ⟨p, s.configsByGroup⟩)
  | .ok (groupName, p) =>
    match p.next with
    | .error what => (.error what, ⟨p, s.configsByGroup⟩)
    | .ok (configName, p) =>
      let configsByGroup := s.configsByGroup.emplaceOuter groupName
      match nextInt p with
      | ⟨.error what, p⟩ => (.error what, ⟨p, configsByGroup⟩)
      | ⟨.ok number, p⟩ =>
        match ConfigType.ofInt number with
        | none => (.ok (), ⟨p, configsByGroup⟩)
        | some type =>
          match nextValue c type p with
          | ⟨.error what, p⟩ => (.error what, ⟨p, configsByGroup⟩)
          | ⟨.ok value, p⟩ =>
            (.ok (), ⟨p, configsByGroup.emplaceInner (groupName, configName) value⟩)

def loadLines (c : Conversions F D) (s : ConfigLoad F D) :
    List (List UInt8) → Except (List UInt8) Bool × ConfigLoad F D
  | [] => (.ok true, s)
  | line :: lines =>
    match loadLine c s line with
    | (.error what, s') => (.error what, s')
    | (.ok (), s') => loadLines c s' lines

/-- The lines `std::getline` reads. Like a field, there is none behind the last newline. -/
def getlines (content : List UInt8) : List (List UInt8) :=
  DelimiterTextParser.fieldsOf (content.splitOn 10)

/-- The parser is made for an empty line in front of the file. -/
def begin (configsByGroup : Configurations F D) : ConfigLoad F D :=
  ⟨{ delimeter := [delimiter], line := [], lineNumber := 0 }, configsByGroup⟩

/-- `loadFile` for the content of the file, or for a file that can not be opened. -/
def loadFile (c : Conversions F D) (file : Option (List UInt8)) (configsByGroup : Configurations F D) :
    Except (List UInt8) Bool × Configurations F D :=
  match file with
  | none => (.ok false, configsByGroup)
  | some content =>
    let load := loadLines c (begin configsByGroup) (getlines content)
    (load.1, load.2.configsByGroup)

/-- `T{}`. -/
def configSetting (c : Conversions F D) : ConfigType → ConfigValue F D
  | .boolean => .boolean false
  | .char => .char 0
  | .int => .int 0
  | .unsignedInt => .unsignedInt 0
  | .longLong => .longLong 0
  | .unsignedLongLong => .unsignedLongLong 0
  | .float => .float c.zeroF
  | .double => .double c.zeroD
  | .string => .string []
  | .epochTime => .epochTime 0

/-- `get` for the type of an alternative. It throws `std::bad_variant_access` where another one is
held. -/
def get (c : Conversions F D) (type : ConfigType) (configsByGroup : Configurations F D)
    (group configName : List UInt8) : Option (ConfigValue F D) :=
  match configsByGroup.find (group, configName) with
  | some value => if value.type = type then some value else none
  | none => some (configSetting c type)

/-! ### What a line says -/

/-- What a case of the switch makes of an item. -/
def convert (c : Conversions F D) : ConfigType → List UInt8 → Option (ConfigValue F D)
  | .boolean, item => (orEmpty false (fun item => (stoi item).map (· == 1)) item).map .boolean
  | .char, item => some (.char (if item.isEmpty then 32 else item.headD 0))
  | .int, item => (orEmpty 0 stoi item).map .int
  | .unsignedInt, item =>
    (orEmpty 0 (fun item => (stoul item).map (BitVec.setWidth 32)) item).map .unsignedInt
  | .longLong, item => (orEmpty 0 stoll item).map .longLong
  | .unsignedLongLong, item => (orEmpty 0 stoull item).map .unsignedLongLong
  | .float, item => (orEmpty c.zeroF c.stof item).map .float
  | .double, item => (orEmpty c.zeroD c.stod item).map .double
  | .string, item => some (.string item)
  | .epochTime, item => (dateTime c item).map .epochTime

theorem nextValue_takes (c : Conversions F D) (type : ConfigType) :
    Takes (nextValue c type) (convert c type) := by
  cases type with
  | boolean => exact (accessor_takes _ _ _).map _
  | char => exact (reading_ok_takes _).map _
  | int => exact (accessor_takes _ _ _).map _
  | unsignedInt => exact (accessor_takes _ _ _).map _
  | longLong => exact (accessor_takes _ _ _).map _
  | unsignedLongLong => exact (accessor_takes _ _ _).map _
  | float => exact (nextFloat_takes c).map _
  | double => exact (accessor_takes _ _ _).map _
  | string => exact reading_ok_takes _
  | epochTime => exact (nextDateTime_takes c).map _

/-- The group and the name of a setting, with its value where the type is known. Nothing where a field
is missing or not what it should be. -/
def settingOf (c : Conversions F D) (line : List UInt8) :
    Option ((List UInt8 × List UInt8) × Option (ConfigValue F D)) :=
  match DelimiterTextParser.fieldsOf ((untilNul line).splitOn delimiter) with
  | group :: name :: type :: values =>
    let key := (DelimiterTextParser.handedOut group, DelimiterTextParser.handedOut name)
    (orEmpty 0 stoi (DelimiterTextParser.handedOut type)).bind fun number =>
      match ConfigType.ofInt number, values with
      | none, _ => some (key, none)
      | some _, [] => none
      | some type, value :: _ =>
        (convert c type (DelimiterTextParser.handedOut value)).map fun value => (key, some value)
  | _ => none

variable {c : Conversions F D} {s : ConfigLoad F D} {line : List UInt8}

theorem nextInt_takes : Takes nextInt (orEmpty 0 stoi) := accessor_takes _ _ _

/-- The round behind the name of the group. -/
theorem loadLine_eq {group name : List UInt8} {p p' : DelimiterTextParser}
    (hgroup : (s.delimiterTextParser.nextLine line).next = .ok (group, p))
    (hname : p.next = .ok (name, p')) :
    loadLine c s line =
      match nextInt p' with
      | ⟨.error what, p⟩ => (.error what, ⟨p, s.configsByGroup.emplaceOuter group⟩)
      | ⟨.ok number, p⟩ =>
        match ConfigType.ofInt number with
        | none => (.ok (), ⟨p, s.configsByGroup.emplaceOuter group⟩)
        | some type =>
          match nextValue c type p with
          | ⟨.error what, p⟩ => (.error what, ⟨p, s.configsByGroup.emplaceOuter group⟩)
          | ⟨.ok value, p⟩ =>
            (.ok (), ⟨p, (s.configsByGroup.emplaceOuter group).emplaceInner (group, name) value⟩) := by
  rw [loadLine]
  simp only [hgroup, hname]

theorem loadLine_spec (hdelimiter : s.delimiterTextParser.delimeter = [delimiter]) (line : List UInt8) :
    match settingOf c line with
    | some item => ∃ p, loadLine c s line = (.ok (), ⟨p, s.configsByGroup.store item⟩) ∧
        p.delimeter = [delimiter]
    | none => ∃ what s', loadLine c s line = (.error what, s') := by
  have hleft := DelimiterTextParser.fieldsLeft_nextLine hdelimiter line
  rw [settingOf]
  generalize DelimiterTextParser.fieldsOf ((untilNul line).splitOn delimiter) = fields at hleft
  match fields with
  | [] =>
    simp only [loadLine, hleft.next_nil]
    exact ⟨_, _, rfl⟩
  | [group] =>
    obtain ⟨p, hgroup, hleft⟩ := hleft.next_cons
    simp only [loadLine, hgroup, hleft.next_nil]
    exact ⟨_, _, rfl⟩
  | [group, name] =>
    obtain ⟨p, hgroup, hleft⟩ := hleft.next_cons
    obtain ⟨p', hname, hleft⟩ := hleft.next_cons
    simp only [loadLine_eq hgroup hname, nextInt_takes.nil hleft]
    exact ⟨_, _, rfl⟩
  | group :: name :: type :: values =>
    obtain ⟨p, hgroup, hleft⟩ := hleft.next_cons
    obtain ⟨p', hname, hleft⟩ := hleft.next_cons
    obtain ⟨hnumber, hvalues⟩ := nextInt_takes.cons hleft
    simp only [loadLine_eq hgroup hname]
    generalize nextInt p' = access at hnumber hvalues
    obtain ⟨result, q'⟩ := access
    simp only [← hnumber]
    cases result with
    | error what => exact ⟨_, _, rfl⟩
    | ok number =>
      simp only [Except.toOption, Option.bind_some]
      cases htype : ConfigType.ofInt number with
      | none => exact ⟨q', rfl, hvalues.1⟩
      | some type =>
        cases values with
        | nil =>
          simp only [(nextValue_takes c type).nil hvalues]
          exact ⟨_, _, rfl⟩
        | cons value values =>
          obtain ⟨hvalue, hrest⟩ := (nextValue_takes c type).cons hvalues
          simp only
          generalize nextValue c type q' = access at hvalue hrest
          obtain ⟨result, q⟩ := access
          simp only [← hvalue]
          cases result with
          | error what => exact ⟨_, _, rfl⟩
          | ok value => exact ⟨q, rfl, hrest.1⟩

/-! ### What a file says -/

theorem loadLines_ok (hdelimiter : s.delimiterTextParser.delimeter = [delimiter])
    {lines : List (List UInt8)} (h : ∀ line ∈ lines, settingOf c line ≠ none) :
    (loadLines c s lines).1 = .ok true ∧ (loadLines c s lines).2.configsByGroup =
      (lines.filterMap (settingOf c)).foldl Nested.store s.configsByGroup := by
  induction lines generalizing s with
  | nil => exact ⟨rfl, rfl⟩
  | cons line lines ih =>
    have hline := loadLine_spec (c := c) hdelimiter line
    rw [loadLines]
    cases hitem : settingOf c line with
    | none => exact absurd hitem (h line List.mem_cons_self)
    | some item =>
      rw [hitem] at hline
      obtain ⟨p, hload, hp⟩ := hline
      rw [hload, List.filterMap_cons_some hitem, List.foldl_cons]
      exact ih hp fun line' hline' => h line' (List.mem_cons_of_mem _ hline')

/-- A line that says nothing ends the load. -/
theorem loadLines_error (hdelimiter : s.delimiterTextParser.delimeter = [delimiter])
    {lines : List (List UInt8)} (h : ∃ line ∈ lines, settingOf c line = none) :
    ∃ what, (loadLines c s lines).1 = .error what := by
  induction lines generalizing s with
  | nil => simp at h
  | cons line lines ih =>
    have hline := loadLine_spec (c := c) hdelimiter line
    rw [loadLines]
    cases hitem : settingOf c line with
    | none =>
      rw [hitem] at hline
      obtain ⟨what, s', hload⟩ := hline
      rw [hload]
      exact ⟨what, rfl⟩
    | some item =>
      rw [hitem] at hline
      obtain ⟨p, hload, hp⟩ := hline
      rw [hload]
      apply ih hp
      simpa [hitem] using h

end Configurations

end LuPlatform.Common
