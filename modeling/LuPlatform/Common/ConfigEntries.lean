import LuPlatform.Common.Config

/-! Configurations written to a file and loaded from it. A line gives back its entry unless its value is
the empty string: behind the last comma there is no field. -/

namespace LuPlatform.Common

open Bytes Utils Accessor FirstWins DelimiterTextParser

/-- The texts that a field of a line can hold as they are. -/
structure Clean (text : List UInt8) : Prop where
  noComma : 44 ∉ text
  noNewline : 10 ∉ text
  noNul : 0 ∉ text
  noBlankFirst : text.head? ≠ some 32
  noBlankLast : text.getLast? ≠ some 32
  notNull : isNull text = false

instance (text : List UInt8) : Decidable (Clean text) :=
  decidable_of_iff (44 ∉ text ∧ 10 ∉ text ∧ 0 ∉ text ∧ text.head? ≠ some 32 ∧
      text.getLast? ≠ some 32 ∧ isNull text = false)
    ⟨fun ⟨h₁, h₂, h₃, h₄, h₅, h₆⟩ => ⟨h₁, h₂, h₃, h₄, h₅, h₆⟩,
      fun ⟨h₁, h₂, h₃, h₄, h₅, h₆⟩ => ⟨h₁, h₂, h₃, h₄, h₅, h₆⟩⟩

/-- The number of an enumerator. -/
def ConfigType.number : ConfigType → Nat
  | .boolean => 1
  | .char => 2
  | .int => 3
  | .unsignedInt => 4
  | .longLong => 5
  | .unsignedLongLong => 6
  | .float => 7
  | .double => 8
  | .string => 9
  | .epochTime => 10

def ConfigType.text (type : ConfigType) : List UInt8 := decimal type.number

variable {F D : Type}

/-- The text writes the value. Integers are in decimal, with any number of leading zeros. -/
inductive Denotes : (type : ConfigType) → (text : List UInt8) → ConfigValue F D → Prop
  | booleanFalse : Denotes .boolean (ascii "0") (.boolean false)
  | booleanTrue : Denotes .boolean (ascii "1") (.boolean true)
  | char {b : UInt8} (h : b ≠ 32) : Denotes .char [b] (.char b)
  | int {text : List UInt8} {v : Int} (h : Numeral text v) (low : -2 ^ 31 ≤ v) (high : v < 2 ^ 31) :
    Denotes .int text (.int v)
  | unsignedInt {text : List UInt8} {v : Int} (h : Numeral text v) (low : 0 ≤ v)
      (high : v < 2 ^ 32) :
    Denotes .unsignedInt text (.unsignedInt (BitVec.ofInt 32 v))
  | longLong {text : List UInt8} {v : Int} (h : Numeral text v) (low : -2 ^ 63 ≤ v)
      (high : v < 2 ^ 63) :
    Denotes .longLong text (.longLong v)
  | unsignedLongLong {text : List UInt8} {v : Int} (h : Numeral text v) (low : 0 ≤ v)
      (high : v < 2 ^ 64) :
    Denotes .unsignedLongLong text (.unsignedLongLong (BitVec.ofInt 64 v))
  | string {text : List UInt8} : Denotes .string text (.string text)

/-- An entry that can be written. -/
structure ConfigEntry (F D : Type) where
  group : List UInt8
  name : List UInt8
  type : ConfigType
  text : List UInt8
  value : ConfigValue F D
  group_clean : Clean group
  name_clean : Clean name
  text_clean : Clean text
  group_ne_nil : group ≠ []
  name_ne_nil : name ≠ []
  denotes : Denotes type text value

namespace ConfigEntry

def key (e : ConfigEntry F D) : List UInt8 × List UInt8 := (e.group, e.name)

/-- `group,name,type,value`. -/
def line (e : ConfigEntry F D) : List UInt8 :=
  List.intercalate [Configurations.delimiter] [e.group, e.name, e.type.text, e.text]

/-- The entry of a string. -/
def ofString (group name text : List UInt8) (hgroup : Clean group ∧ group ≠ [])
    (hname : Clean name ∧ name ≠ []) (htext : Clean text) : ConfigEntry F D :=
  { group, name, type := .string, text, value := .string text, group_clean := hgroup.1,
    name_clean := hname.1, text_clean := htext, group_ne_nil := hgroup.2, name_ne_nil := hname.2,
    denotes := .string }

end ConfigEntry

/-- A line for each entry. -/
def fileOf (entries : List (ConfigEntry F D)) : List UInt8 :=
  entries.flatMap fun e => e.line ++ [10]

/-- The file is loaded, and each entry has the value of the first one with its group and name. -/
def LoadsEntries (c : Conversions F D) (entries : List (ConfigEntry F D)) : Prop :=
  (Configurations.loadFile c (some (fileOf entries)) ∅).1 = .ok true ∧
    ∀ e ∈ entries,
      Configurations.get c e.type (Configurations.loadFile c (some (fileOf entries)) ∅).2 e.group e.name =
        (entries.find? fun first => first.key = e.key).map ConfigEntry.value

/-- A group and a name go with one type. -/
def OneType (entries : List (ConfigEntry F D)) : Prop :=
  ∀ e ∈ entries, ∀ e' ∈ entries, e.key = e'.key → e.type = e'.type

/-! ### Texts of fields -/

theorem clean_type (type : ConfigType) : Clean type.text := by
  cases type <;> constructor <;> decide

theorem ofInt_type (type : ConfigType) :
    (orEmpty 0 stoi type.text).bind ConfigType.ofInt = some type := by
  cases type <;> decide

theorem Clean.trim {text : List UInt8} (h : Clean text) : trim text = text := by
  have hkeep : ∀ text : List UInt8, text.head? ≠ some 32 → text.dropWhile isBlank = text := by
    intro text hhead
    cases text with
    | nil => rfl
    | cons b text =>
      have hb : isBlank b = false := by simpa [isBlank] using hhead
      rw [List.dropWhile_cons_of_neg (by simp [hb])]
  rw [DelimiterTextParser.trim]
  split
  · rfl
  · rw [hkeep text h.noBlankFirst, hkeep text.reverse (by simpa using h.noBlankLast),
      List.reverse_reverse]

theorem Clean.handedOut {text : List UInt8} (h : Clean text) : handedOut text = text := by
  rw [DelimiterTextParser.handedOut, h.trim, h.notNull]
  rfl

theorem toUInt8_toNat {d : Char} (h : d.isDigit = true) :
    isDigit d.val.toUInt8 = true ∧ d.val.toUInt8.toNat = d.toNat := by
  have hrange : 48 ≤ d.val.toNat ∧ d.val.toNat ≤ 57 := by
    simpa [Char.isDigit, UInt32.le_iff_toNat_le] using h
  have hsmall : d.val.toUInt8.toNat = d.val.toNat := by
    rw [UInt32.toNat_toUInt8, Nat.mod_eq_of_lt (by omega)]
  refine ⟨?_, hsmall⟩
  rw [isDigit, Bool.and_eq_true, decide_eq_true_eq, decide_eq_true_eq, UInt8.le_iff_toNat_le,
    UInt8.le_iff_toNat_le, hsmall]
  exact hrange

theorem ofDigitChars_eq {digits : List Char} (h : ∀ d ∈ digits, d.isDigit = true) (value : Nat) :
    (digits.map fun d => d.val.toUInt8.toNat - 48).foldl (fun value digit => value * 10 + digit) value =
      Nat.ofDigitChars 10 digits value := by
  induction digits generalizing value with
  | nil => rfl
  | cons d digits ih =>
    have hd := (toUInt8_toNat (h d List.mem_cons_self)).2
    rw [List.map_cons, List.foldl_cons, ih fun d' hd' => h d' (List.mem_cons_of_mem _ hd'),
      Nat.ofDigitChars_cons, hd, Nat.mul_comm]
    rfl

theorem digitsValue_decimal (n : Nat) :
    decimal n ≠ [] ∧ (decimal n).all isDigit = true ∧ digitsValue (decimal n) = n := by
  have hdecimal : decimal n = (Nat.toDigits 10 n).map fun d => d.val.toUInt8 := by
    rw [decimal, ascii, Nat.toString_eq_ofList_toDigits, String.toList_ofList]
  have hdigits : ∀ d ∈ Nat.toDigits 10 n, d.isDigit = true := fun d hd =>
    Nat.isDigit_of_mem_toDigits (by decide) (by decide) hd
  rw [hdecimal]
  refine ⟨?_, ?_, ?_⟩
  · simp [Nat.toDigits_ne_nil]
  · rw [List.all_map, List.all_eq_true]
    intro d hd
    exact (toUInt8_toNat (hdigits d hd)).1
  · rw [digitsValue, ofDigits, List.map_map]
    exact (ofDigitChars_eq hdigits 0).trans Nat.ofDigitChars_ten_toDigits

/-- Every integer can be written. -/
theorem exists_numeral (v : Int) : ∃ text, Numeral text v := by
  obtain ⟨hne, hdigits, hvalue⟩ := digitsValue_decimal v.natAbs
  by_cases hv : 0 ≤ v
  · have hunsigned := Numeral.unsigned hne hdigits
    rw [hvalue, Int.natAbs_of_nonneg hv] at hunsigned
    exact ⟨_, hunsigned⟩
  · have hnegative := Numeral.negative hne hdigits
    rw [hvalue, Int.ofNat_natAbs_of_nonpos (by omega), Int.neg_neg] at hnegative
    exact ⟨_, hnegative⟩

theorem convert_denotes (c : Conversions F D) {type : ConfigType} {text : List UInt8}
    {value : ConfigValue F D} (h : Denotes type text value) (hne : text ≠ []) :
    Configurations.convert c type text = some value := by
  have hempty : ∀ {α : Type} (zero : α) (convert : List UInt8 → Option α),
      orEmpty zero convert text = convert text := by
    intro α zero convert
    rw [orEmpty, if_neg (by simpa using hne)]
  cases h with
  | booleanFalse => rfl
  | booleanTrue => rfl
  | char => rfl
  | int h low high => rw [Configurations.convert, hempty, stoi_numeral h, if_pos ⟨low, high⟩]; rfl
  | @unsignedInt _ v h low high =>
    obtain ⟨n, rfl⟩ := Int.eq_ofNat_of_zero_le low
    have hwidth : (BitVec.ofInt 64 (n : Int)).setWidth 32 = BitVec.ofInt 32 (n : Int) := by
      rw [BitVec.ofInt_natCast, BitVec.ofInt_natCast, BitVec.setWidth_ofNat_of_le (by decide)]
    rw [Configurations.convert, hempty, stoul, stoull_numeral h, if_pos (by omega), Option.map_some,
      hwidth]
    rfl
  | longLong h low high => rw [Configurations.convert, hempty, stoll_numeral h, if_pos ⟨low, high⟩]; rfl
  | unsignedLongLong h low high =>
    rw [Configurations.convert, hempty, stoull_numeral h, if_pos (by omega)]
    rfl
  | string => rfl

theorem Denotes.type_eq {type : ConfigType} {text : List UInt8} {value : ConfigValue F D}
    (h : Denotes type text value) : value.type = type := by
  cases h <;> rfl

/-! ### Lines -/

namespace ConfigEntry

theorem clean_pieces (e : ConfigEntry F D) :
    ∀ piece ∈ [e.group, e.name, e.type.text, e.text], Clean piece := by
  simp [e.group_clean, e.name_clean, clean_type, e.text_clean]

theorem not_mem_line (e : ConfigEntry F D) {b : UInt8} (hb : b ≠ 44)
    (h : ∀ piece, Clean piece → b ∉ piece) : b ∉ e.line := by
  simp [line, List.intercalate, Configurations.delimiter, hb, h _ e.group_clean, h _ e.name_clean,
    h _ (clean_type e.type), h _ e.text_clean]

theorem splitOn_line (e : ConfigEntry F D) :
    e.line.splitOn Configurations.delimiter = [e.group, e.name, e.type.text, e.text] :=
  List.splitOn_intercalate _ (fun piece hpiece => (e.clean_pieces piece hpiece).noComma)
    (List.cons_ne_nil _ _)

theorem settingOf_line (c : Conversions F D) (e : ConfigEntry F D) :
    Configurations.settingOf c e.line = if e.text = [] then none else some (e.key, some e.value) := by
  have huntil : untilNul e.line = e.line :=
    untilNul_of_not_mem (e.not_mem_line (by decide) fun _ h => h.noNul)
  obtain ⟨number, hnumber, htype⟩ := Option.bind_eq_some_iff.1 (ofInt_type e.type)
  have hkey : (handedOut e.group, handedOut e.name) = e.key := by
    rw [e.group_clean.handedOut, e.name_clean.handedOut]
    rfl
  rw [Configurations.settingOf, huntil, splitOn_line]
  by_cases hempty : e.text = []
  · simp [fieldsOf, hempty, (clean_type e.type).handedOut, hnumber, htype]
  · simp [fieldsOf, hempty, (clean_type e.type).handedOut, hnumber, htype, hkey,
      e.text_clean.handedOut, convert_denotes c e.denotes hempty]

end ConfigEntry

/-! ### Files -/

theorem getlines_fileOf (entries : List (ConfigEntry F D)) :
    Configurations.getlines (fileOf entries) = entries.map ConfigEntry.line := by
  induction entries with
  | nil => rfl
  | cons e entries ih =>
    have hnewline : 10 ∉ e.line := e.not_mem_line (by decide) fun _ h => h.noNewline
    rw [Configurations.getlines, fileOf, List.flatMap_cons, List.append_assoc, List.singleton_append,
      List.splitOn_append_cons_self_of_not_mem hnewline, fieldsOf_cons _ (List.splitOn_ne_nil _ _),
      List.map_cons, ← ih]
    rfl

/-- The first value stored under a key is that of the first entry. -/
theorem firstValue_entries (entries : List (ConfigEntry F D)) (key : List UInt8 × List UInt8) :
    Nested.firstValue (entries.map fun e => (e.key, some e.value)) key =
      (entries.find? fun first => first.key = key).map ConfigEntry.value := by
  induction entries with
  | nil => rfl
  | cons e entries ih =>
    rw [List.map_cons, Nested.firstValue_cons, ih]
    by_cases hkey : e.key = key
    · rw [if_pos hkey.symm, List.find?_cons_of_pos (by simpa using hkey)]
      rfl
    · rw [if_neg (fun h => hkey h.symm), List.find?_cons_of_neg (by simpa using hkey)]
      rfl

theorem loadFile_entries (c : Conversions F D) {entries : List (ConfigEntry F D)}
    (h : ∀ e ∈ entries, e.text ≠ []) :
    (Configurations.loadFile c (some (fileOf entries)) ∅).1 = .ok true ∧
      ∀ key, (Configurations.loadFile c (some (fileOf entries)) ∅).2.find key =
        (entries.find? fun first => first.key = key).map ConfigEntry.value := by
  have hsome : ∀ e ∈ entries, Configurations.settingOf c e.line = some (e.key, some e.value) := by
    intro e he
    rw [e.settingOf_line, if_neg (h e he)]
  have hlines : ∀ line ∈ entries.map ConfigEntry.line, Configurations.settingOf c line ≠ none := by
    intro line hline
    obtain ⟨e, he, rfl⟩ := List.mem_map.1 hline
    rw [hsome e he]
    exact Option.some_ne_none _
  have hitems : (entries.map ConfigEntry.line).filterMap (Configurations.settingOf c) =
      entries.map fun e => (e.key, some e.value) := by
    rw [List.filterMap_map, ← List.filterMap_eq_map]
    exact List.filterMap_congr hsome
  obtain ⟨hok, hstored⟩ := Configurations.loadLines_ok (c := c) (s := Configurations.begin ∅) rfl hlines
  simp only [Configurations.loadFile, getlines_fileOf]
  refine ⟨hok, fun key => ?_⟩
  rw [hstored, hitems, Nested.find_foldl_store, firstValue_entries]
  simp [Configurations.begin]

theorem not_loadsEntries_of_empty (c : Conversions F D) {entries : List (ConfigEntry F D)}
    {e : ConfigEntry F D} (he : e ∈ entries) (hempty : e.text = []) : ¬LoadsEntries c entries := by
  intro ⟨hok, _⟩
  have hnone : Configurations.settingOf c e.line = none := by
    rw [e.settingOf_line, if_pos hempty]
  obtain ⟨what, herror⟩ := Configurations.loadLines_error (s := Configurations.begin ∅) rfl
    ⟨_, List.mem_map_of_mem he, hnone⟩
  rw [Configurations.loadFile, getlines_fileOf, herror] at hok
  contradiction

/-- Everything is loaded as it was written exactly when no value is the empty string. -/
theorem loadsEntries_iff (c : Conversions F D) {entries : List (ConfigEntry F D)}
    (h : OneType entries) : LoadsEntries c entries ↔ ∀ e ∈ entries, e.text ≠ [] := by
  constructor
  · intro hloads e he hempty
    exact not_loadsEntries_of_empty c he hempty hloads
  · intro hne
    obtain ⟨hok, hfind⟩ := loadFile_entries c hne
    refine ⟨hok, fun e he => ?_⟩
    rw [Configurations.get, show (e.group, e.name) = e.key from rfl, hfind]
    cases hfirst : entries.find? fun first => first.key = e.key with
    | none =>
      have hother := List.find?_eq_none.1 hfirst e he
      simp at hother
    | some first =>
      have hkey : first.key = e.key := by simpa using List.find?_some hfirst
      have htype : first.value.type = e.type :=
        first.denotes.type_eq.trans (h first (List.mem_of_find?_eq_some hfirst) e he hkey)
      simp [htype]

/-- The setting `CHECK_STRING` of the group `G2`. -/
def checkString (text : List UInt8) (h : Clean text) : ConfigEntry Unit Unit :=
  .ofString (ascii "G2") (ascii "CHECK_STRING") text (by decide) (by decide) h

theorem oneType_singleton (e : ConfigEntry F D) : OneType [e] := by
  intro e₁ h₁ e₂ h₂ _
  rw [List.mem_singleton.1 h₁, List.mem_singleton.1 h₂]

/-- With a value. -/
theorem loadsEntries_iff_thread :
    OneType [checkString (ascii "OMS Thread") (by decide)] ∧
      ∀ c, LoadsEntries c [checkString (ascii "OMS Thread") (by decide)] ↔
        ∀ e ∈ [checkString (ascii "OMS Thread") (by decide)], e.text ≠ [] :=
  ⟨oneType_singleton _, fun c => loadsEntries_iff c (oneType_singleton _)⟩

/-- With the empty string. -/
theorem empty_string_not_loaded :
    OneType [checkString [] (by decide)] ∧ ∀ c, ¬LoadsEntries c [checkString [] (by decide)] := by
  constructor
  · apply oneType_singleton
  · intro c
    exact not_loadsEntries_of_empty c (List.mem_singleton.2 rfl) rfl

end LuPlatform.Common
