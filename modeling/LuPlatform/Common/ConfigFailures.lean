import LuPlatform.Common.Config

/-! What a load leaves behind. An exception leaves it with the lines before stored, and a line of an
unknown type is passed over. -/

namespace LuPlatform.Common

open Utils FirstWins

namespace Configurations

variable {F D : Type} {c : Conversions F D} {configsByGroup : Configurations F D}

/-- The group and the name are there. -/
def Present (configsByGroup : Configurations F D) (key : List UInt8 × List UInt8) : Prop :=
  configsByGroup.find key ≠ none

/-- The setting of a line between others is stored in the end, or it was there before the line was
read. -/
def LineKept (c : Conversions F D) (configsByGroup after : Configurations F D)
    (before : List (List UInt8)) (line : List UInt8) : Prop :=
  ∃ item, settingOf c line = some item ∧
    (Present (loadLines c (begin configsByGroup) before).2.configsByGroup item.1 ∨
      ∃ value, item.2 = some value ∧ after.find item.1 = some value)

/-- A load that returns true keeps all lines, one that returns false changes nothing, and none
throws. -/
def AllOrNothing (c : Conversions F D) (file : Option (List UInt8))
    (configsByGroup : Configurations F D) : Prop :=
  match loadFile c file configsByGroup with
  | (.ok true, after) => ∃ content, file = some content ∧
      ∀ before line behind, getlines content = before ++ line :: behind →
        LineKept c configsByGroup after before line
  | (.ok false, after) => after = configsByGroup
  | (.error _, _) => False

/-- The line has all its fields, they convert, and where its type is unknown its group and name are
those of a setting from before. -/
def LineLoads (c : Conversions F D) (configsByGroup : Configurations F D)
    (before : List (List UInt8)) (line : List UInt8) : Prop :=
  ∃ item, settingOf c line = some item ∧
    (item.2 ≠ none ∨ Present configsByGroup item.1 ∨
      ∃ earlier ∈ before, ∃ value, settingOf c earlier = some (item.1, some value))

/-- The file can not be opened, or all its lines load. -/
def Loads (c : Conversions F D) (file : Option (List UInt8)) (configsByGroup : Configurations F D) :
    Prop :=
  ∀ content, file = some content → ∀ before line behind,
    getlines content = before ++ line :: behind → LineLoads c configsByGroup before line

theorem begin_delimeter (configsByGroup : Configurations F D) :
    (begin configsByGroup).delimiterTextParser.delimeter = [delimiter] := rfl

/-- What is there behind some lines was there before them or stands in one. -/
theorem present_loadLines_iff {lines : List (List UInt8)}
    (h : ∀ line ∈ lines, settingOf c line ≠ none) (key : List UInt8 × List UInt8) :
    Present (loadLines c (begin configsByGroup) lines).2.configsByGroup key ↔
      Present configsByGroup key ∨
        ∃ line ∈ lines, ∃ value, settingOf c line = some (key, some value) := by
  have hfirst := Nested.firstValue_ne_none_iff (lines.filterMap (settingOf c)) key
  rw [Present, (loadLines_ok (begin_delimeter _) h).2, Nested.find_foldl_store, Present, ne_eq,
    Option.or_eq_none_iff, not_and_or, begin]
  apply or_congr_right
  rw [← ne_eq, hfirst]
  simp only [List.mem_filterMap]
  grind

/-- The value of a line is found behind it unless its name was taken. -/
theorem find_loadLines {before behind : List (List UInt8)} {line : List UInt8}
    {key : List UInt8 × List UInt8} {value : ConfigValue F D}
    (h : ∀ line' ∈ before ++ line :: behind, settingOf c line' ≠ none)
    (hitem : settingOf c line = some (key, some value))
    (hnew : ¬Present (loadLines c (begin configsByGroup) before).2.configsByGroup key) :
    (loadLines c (begin configsByGroup) (before ++ line :: behind)).2.configsByGroup.find key =
      some value := by
  have hbefore : ∀ line' ∈ before, settingOf c line' ≠ none := fun line' hline' =>
    h line' (List.mem_append_left _ hline')
  have hnone : (loadLines c (begin configsByGroup) before).2.configsByGroup.find key = none := by
    simpa [Present] using hnew
  rw [(loadLines_ok (begin_delimeter _) hbefore).2] at hnone
  rw [(loadLines_ok (begin_delimeter _) h).2, List.filterMap_append, List.foldl_append,
    List.filterMap_cons_some hitem, List.foldl_cons, Nested.find_foldl_store, Nested.find_store,
    hnone, if_pos rfl, Option.none_or, Option.some_or]

theorem loads_all {content : List UInt8} (h : Loads c (some content) configsByGroup) :
    ∀ line ∈ getlines content, settingOf c line ≠ none := by
  intro line hline
  obtain ⟨before, behind, hsplit⟩ := List.append_of_mem hline
  obtain ⟨item, hitem, _⟩ := h content rfl before line behind hsplit
  rw [hitem]
  exact Option.some_ne_none item

/-- In a load that does not throw. -/
theorem lineKept_iff {before behind : List (List UInt8)} {line : List UInt8}
    (h : ∀ line' ∈ before ++ line :: behind, settingOf c line' ≠ none) :
    LineKept c configsByGroup
        (loadLines c (begin configsByGroup) (before ++ line :: behind)).2.configsByGroup before line ↔
      LineLoads c configsByGroup before line := by
  have hbefore : ∀ line' ∈ before, settingOf c line' ≠ none := fun line' hline' =>
    h line' (List.mem_append_left _ hline')
  have hpresent : ∀ key, Present (loadLines c (begin configsByGroup) before).2.configsByGroup key ↔
      Present configsByGroup key ∨
        ∃ line' ∈ before, ∃ value, settingOf c line' = some (key, some value) :=
    present_loadLines_iff hbefore
  constructor
  · intro ⟨item, hitem, hkept⟩
    refine ⟨item, hitem, ?_⟩
    cases hkept with
    | inl hbefore => exact Or.inr ((hpresent item.1).1 hbefore)
    | inr hstored =>
      obtain ⟨value, hvalue, _⟩ := hstored
      rw [hvalue]
      exact Or.inl (Option.some_ne_none value)
  · intro ⟨⟨key, setting⟩, hitem, hloads⟩
    refine ⟨(key, setting), hitem, ?_⟩
    by_cases hbefore : Present (loadLines c (begin configsByGroup) before).2.configsByGroup key
    · exact Or.inl hbefore
    · cases setting with
      | none =>
        apply Or.inl
        apply (hpresent key).2
        exact hloads.resolve_left fun hne => hne rfl
      | some value => exact Or.inr ⟨value, rfl, find_loadLines h hitem hbefore⟩

theorem allOrNothing_iff (c : Conversions F D) (file : Option (List UInt8))
    (configsByGroup : Configurations F D) :
    AllOrNothing c file configsByGroup ↔ Loads c file configsByGroup := by
  cases file with
  | none => exact iff_of_true rfl fun content hfile => nomatch hfile
  | some content =>
    by_cases hall : ∀ line ∈ getlines content, settingOf c line ≠ none
    · have hok := (loadLines_ok (begin_delimeter configsByGroup) hall).1
      have hload : loadFile c (some content) configsByGroup =
          (.ok true, (loadLines c (begin configsByGroup) (getlines content)).2.configsByGroup) := by
        rw [loadFile, hok]
      rw [AllOrNothing, hload]
      constructor
      · intro ⟨_, hcontent, hkept⟩ _ heq before line behind hsplit
        obtain rfl := Option.some.inj hcontent
        obtain rfl := Option.some.inj heq
        have hline := hkept before line behind hsplit
        rw [hsplit] at hline hall
        exact (lineKept_iff hall).1 hline
      · intro h
        refine ⟨content, rfl, fun before line behind hsplit => ?_⟩
        have hline := h content rfl before line behind hsplit
        rw [hsplit] at hall ⊢
        exact (lineKept_iff hall).2 hline
    · push Not at hall
      obtain ⟨what, herror⟩ := loadLines_error (begin_delimeter configsByGroup) hall
      have hload : loadFile c (some content) configsByGroup =
          (.error what, (loadLines c (begin configsByGroup) (getlines content)).2.configsByGroup) := by
        rw [loadFile, herror]
      rw [AllOrNothing, hload]
      refine iff_of_false id fun h => ?_
      obtain ⟨line, hline, hnone⟩ := hall
      exact loads_all h line hline hnone

/-- A line of a group, a name and a type, with no value behind them. -/
theorem not_allOrNothing : ∃ content, ∀ (F D : Type) (c : Conversions F D),
    ¬AllOrNothing c (some content) ∅ := by
  refine ⟨Bytes.ascii "G1,NAME,3\n", fun F D c h => ?_⟩
  have hnone : settingOf c (Bytes.ascii "G1,NAME,3") = none := by rfl
  have hmem : Bytes.ascii "G1,NAME,3" ∈ getlines (Bytes.ascii "G1,NAME,3\n") := by decide
  obtain ⟨what, herror⟩ := loadLines_error (begin_delimeter ∅) ⟨_, hmem, hnone⟩
  rw [AllOrNothing, loadFile, herror] at h
  exact h

end Configurations

end LuPlatform.Common
