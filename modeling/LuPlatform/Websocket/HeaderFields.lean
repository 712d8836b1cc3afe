import LuPlatform.Websocket.HeaderLines

/-! Reading printed header lines. A line is read back as its name, in lower case and up to a colon,
and what follows the colon and one more character; of several fields with one name the first one is
found. -/

namespace LuPlatform.Websocket

open Bytes Loop Utils

/-! ### Fields -/

theorem find_emplace (keyValue : KeyValue) (key value sought : List UInt8) :
    (keyValue.emplace key value).find sought = (keyValue ++ [(key, value)]).lookup sought := by
  unfold KeyValue.emplace KeyValue.find
  split
  · rename_i hsome
    by_cases heq : sought = key
    · subst heq
      obtain ⟨v, hv⟩ := Option.isSome_iff_exists.mp hsome
      rw [List.lookup_append, hv]
      rfl
    · have hne : (sought == key) = false := by simpa using heq
      rw [List.lookup_append, List.lookup_cons, hne]
      simp
  · rfl

def emplaceAll (keyValue : KeyValue) (fields : List (List UInt8 × List UInt8)) : KeyValue :=
  fields.foldl (fun keyValue field => keyValue.emplace field.1 field.2) keyValue

theorem find_emplaceAll (keyValue : KeyValue) (fields : List (List UInt8 × List UInt8))
    (sought : List UInt8) :
    (emplaceAll keyValue fields).find sought = (keyValue ++ fields).lookup sought := by
  induction fields generalizing keyValue with
  | nil => simp [emplaceAll, KeyValue.find]
  | cons field fields ih =>
    have hstep : emplaceAll keyValue (field :: fields) =
        emplaceAll (keyValue.emplace field.1 field.2) fields := rfl
    have hfield := find_emplace keyValue field.1 field.2 sought
    rw [hstep, ih, List.lookup_append]
    rw [KeyValue.find] at hfield
    rw [hfield, ← List.lookup_append, List.append_assoc]
    rfl

theorem emplace_ne_nil {keyValue : KeyValue} (h : keyValue ≠ []) (key value : List UInt8) :
    keyValue.emplace key value ≠ [] := by
  unfold KeyValue.emplace
  split
  · exact h
  · simp

/-! ### Lines -/

/-- A text without the characters that end a line. -/
def OneLine (text : List UInt8) : Prop := 13 ∉ text ∧ 10 ∉ text

instance (text : List UInt8) : Decidable (OneLine text) := inferInstanceAs (Decidable (_ ∧ _))

theorem OneLine.append {a b : List UInt8} (ha : OneLine a) (hb : OneLine b) : OneLine (a ++ b) :=
  ⟨by simp [ha.1, hb.1], by simp [ha.2, hb.2]⟩

/-- The end of a line is found behind it. -/
theorem findFrom_crlf_line (before : List UInt8) {line : List UInt8} (hline : OneLine line)
    (after : List UInt8) :
    findFrom crlf (before ++ line ++ crlf ++ after) before.length =
      some (before.length + line.length) := by
  have hdrop : (before ++ line ++ crlf ++ after).drop (before.length + line.length) =
      crlf ++ after := by
    rw [← List.length_append, List.append_assoc (before ++ line), List.drop_left]
  refine findFrom_of_first (Nat.le_add_right _ _) ?_ ?_ fun j hj hlt hcrlf => ?_
  · simp only [List.length_append]
    omega
  · rw [hdrop]
    exact List.prefix_append _ _
  · obtain ⟨hbyte, _⟩ := crlfAt_iff.mp hcrlf
    have hmem : (before ++ line ++ crlf ++ after)[j]? = (line)[j - before.length]? := by
      rw [List.append_assoc, List.append_assoc, List.getElem?_append_right hj,
        List.getElem?_append_left (by omega)]
    exact hline.1 (List.mem_of_getElem? (hmem ▸ hbyte))

/-- What the loop makes of a line. -/
def readField (line : List UInt8) : List UInt8 × List UInt8 :=
  match find (ascii ":") line with
  | none => ([], line)
  | some delimiterPos => (toLower (line.take delimiterPos), line.drop (delimiterPos + 2))

/-- A printed header line, without its end. -/
def fieldLine (field : List UInt8 × List UInt8) : List UInt8 := field.1 ++ ascii ": " ++ field.2

theorem find_colon (field : List UInt8 × List UInt8) :
    ∃ delimiterPos, delimiterPos ≤ field.1.length ∧
      find (ascii ":") (fieldLine field) = some delimiterPos := by
  have hcolon : ascii ":" <+: (fieldLine field).drop field.1.length := by
    rw [fieldLine, List.append_assoc, List.drop_left]
    exact ⟨32 :: field.2, rfl⟩
  have hlength : (fieldLine field).length = field.1.length + 2 + field.2.length := by
    rw [fieldLine, List.length_append, List.length_append]
    rfl
  cases h : find (ascii ":") (fieldLine field) with
  | none => exact absurd hcolon (find_eq_none h _ (by omega))
  | some delimiterPos =>
    obtain ⟨_, _, hmin⟩ := find_eq_some h
    exact ⟨delimiterPos, Nat.le_of_not_lt fun hlt => hmin _ hlt hcolon, rfl⟩

/-- A name without a colon comes back whole. -/
theorem readField_fieldLine {name : List UInt8} (hname : 58 ∉ name) (value : List UInt8) :
    readField (fieldLine (name, value)) = (toLower name, value) := by
  obtain ⟨delimiterPos, hle, hfind⟩ := find_colon (name, value)
  have hpos : delimiterPos = name.length := by
    obtain ⟨_, ⟨rest, hrest⟩, _⟩ := find_eq_some hfind
    by_contra hne
    have hlt : delimiterPos < name.length := lt_of_le_of_ne hle hne
    have hcolon : ascii ":" = [58] := by decide
    have hbyte : (fieldLine (name, value))[delimiterPos]? = some 58 := by
      have hfirst := congrArg (·[0]?) hrest
      simpa [hcolon] using hfirst.symm
    rw [fieldLine, List.append_assoc, List.getElem?_append_left hlt] at hbyte
    exact hname (List.mem_of_getElem? hbyte)
  have hdrop : (fieldLine (name, value)).drop (name.length + 2) = value := by
    rw [← List.drop_drop, fieldLine, List.append_assoc, List.drop_left]
    rfl
  have htake : (fieldLine (name, value)).take name.length = name := by
    rw [fieldLine, List.append_assoc, List.take_left]
  simp only [readField, hfind, hpos, htake, hdrop]

/-! ### The loop over the lines -/

section Lines

variable (firstLine : List UInt8 → Option KeyValue) {keyValue : KeyValue}

theorem lineRound_field (hkeyValue : keyValue ≠ []) (before : List UInt8)
    {field : List UInt8 × List UInt8} (hline : OneLine (fieldLine field)) (after : List UInt8) :
    lineRound firstLine (before ++ fieldLine field ++ crlf ++ after) (before.length, keyValue) =
      .again ((before ++ fieldLine field ++ crlf).length,
        keyValue.emplace (readField (fieldLine field)).1 (readField (fieldLine field)).2) := by
  obtain ⟨delimiterPos, hle, hfind⟩ := find_colon field
  have hlength : (fieldLine field).length = field.1.length + 2 + field.2.length := by
    rw [fieldLine, List.length_append, List.length_append]
    rfl
  have hempty : keyValue.isEmpty = false := by simpa using hkeyValue
  have hread : ((before ++ fieldLine field ++ crlf ++ after).drop before.length).take
      (before.length + (fieldLine field).length - before.length) = fieldLine field := by
    rw [Nat.add_sub_cancel_left, List.append_assoc, List.append_assoc, List.drop_left, List.take_left]
  have hnext : before.length + (fieldLine field).length + 2 =
      (before ++ fieldLine field ++ crlf).length := by
    rw [List.length_append, List.length_append]
    rfl
  simp only [lineRound, findFrom_crlf_line before hline after, hread, hempty, hfind, readField,
    if_neg (show ¬ before.length + (fieldLine field).length = before.length by omega),
    if_neg (show ¬ delimiterPos + 2 > (fieldLine field).length by omega), hnext]
  rfl

theorem loop_fields {fields : List (List UInt8 × List UInt8)}
    (hfields : ∀ field ∈ fields, OneLine (fieldLine field)) (hkeyValue : keyValue ≠ [])
    (before : List UInt8) {text : List UInt8}
    (htext : before ++ (fields.map fun field => headerLine field.1 field.2).flatten ++ crlf = text) :
    loop (lineRound firstLine text) (fields.length + 1) (before.length, keyValue) =
      some (.ok (some (emplaceAll keyValue (fields.map fun field => readField (fieldLine field))))) := by
  induction fields generalizing before keyValue with
  | nil =>
    have hempty : OneLine [] := by decide
    have hfind := findFrom_crlf_line before hempty []
    rw [List.map_nil, List.flatten_nil, List.append_nil] at htext
    rw [List.append_nil, List.append_nil, htext, List.length_nil, Nat.add_zero] at hfind
    refine loop_leave ?_ 0
    simp only [lineRound, hfind, if_true]
    rfl
  | cons field fields ih =>
    have hline := hfields field (by simp)
    have hsplit : before ++ fieldLine field ++ crlf ++
        ((fields.map fun field => headerLine field.1 field.2).flatten ++ crlf) = text := by
      rw [← htext]
      simp only [List.map_cons, List.flatten_cons, headerLine, fieldLine, List.append_assoc]
    have hround := lineRound_field firstLine hkeyValue before hline
      ((fields.map fun field => headerLine field.1 field.2).flatten ++ crlf)
    rw [hsplit] at hround
    rw [List.length_cons, loop_again hround]
    exact ih (fun f hf => hfields f (by simp [hf])) (emplace_ne_nil hkeyValue _ _) _
      (by rw [List.append_assoc, hsplit])

variable {firstLine} in
/-- Printed lines are read back field by field. -/
theorem readLines_fields {first : List UInt8} (hfirst : firstLine first = some keyValue)
    (hkeyValue : keyValue ≠ []) (hline : OneLine first) (hne : first ≠ [])
    {fields : List (List UInt8 × List UInt8)}
    (hfields : ∀ field ∈ fields, OneLine (fieldLine field)) :
    readLines firstLine
        (first ++ crlf ++ (fields.map fun field => headerLine field.1 field.2).flatten ++ crlf) =
      some (.ok (some (emplaceAll keyValue (fields.map fun field => readField (fieldLine field))))) := by
  have hloop := loop_fields firstLine hfields hkeyValue (first ++ crlf) rfl
  generalize htext : first ++ crlf ++ (fields.map fun field => headerLine field.1 field.2).flatten ++
    crlf = text at hloop ⊢
  have hround : lineRound firstLine text (0, []) = .again ((first ++ crlf).length, keyValue) := by
    have hfind := findFrom_crlf_line [] hline
      ((fields.map fun field => headerLine field.1 field.2).flatten ++ crlf)
    have hpos := List.length_pos_iff.mpr hne
    rw [List.nil_append, ← List.append_assoc, htext, List.length_nil, Nat.zero_add] at hfind
    have hread : (text.drop 0).take first.length = first := by
      rw [← htext, List.drop_zero, List.append_assoc, List.append_assoc, List.take_left]
    simp only [lineRound, hfind, if_neg (show ¬ first.length = 0 by omega), Nat.sub_zero, hread,
      List.isEmpty_nil, if_true, hfirst, List.length_append]
    rfl
  obtain ⟨outcome, houtcome⟩ := readLines_terminates firstLine text
  rw [houtcome]
  exact congrArg some (loop_unique houtcome ((loop_again hround _).trans hloop))

end Lines

end LuPlatform.Websocket
