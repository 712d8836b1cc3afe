import LuPlatform.Library.Bytes

/-! A text and the occurrences of a pattern that are met from the left, each behind the end of the one
before it; the pieces between them. They are what a loop around a string search finds. -/

namespace LuPlatform.Bytes

variable {α : Type} {pattern text : List α} {pos : Nat} {occurrences : List Nat}

/-- The occurrences at `pos` or behind it: none, or the leftmost and those behind its end. -/
inductive Occurrences (pattern text : List α) : (pos : Nat) → (occurrences : List Nat) → Prop
  | none {pos : Nat} (h : ∀ i, pos ≤ i → ¬ pattern <+: text.drop i) : Occurrences pattern text pos []
  | next {pos i : Nat} {occurrences : List Nat} (hpos : pos ≤ i) (hi : i ≤ text.length)
      (hoccurs : pattern <+: text.drop i)
      (hleftmost : ∀ j, pos ≤ j → j < i → ¬ pattern <+: text.drop j)
      (h : Occurrences pattern text (i + pattern.length) occurrences) :
      Occurrences pattern text pos (i :: occurrences)

/-- The pieces of a text from `pos` on, between occurrences of this width. -/
def piecesBetween (text : List α) (width : Nat) : (pos : Nat) → (occurrences : List Nat) → List (List α)
  | pos, [] => [text.drop pos]
  | pos, i :: occurrences =>
    (text.drop pos).take (i - pos) :: piecesBetween text width (i + width) occurrences

@[simp] theorem length_piecesBetween (width : Nat) (pos : Nat) (occurrences : List Nat) :
    (piecesBetween text width pos occurrences).length = occurrences.length + 1 := by
  induction occurrences generalizing pos with
  | nil => rfl
  | cons i occurrences ih => rw [piecesBetween, List.length_cons, ih, List.length_cons]

theorem piecesBetween_ne_nil (text : List α) (width : Nat) (pos : Nat) (occurrences : List Nat) :
    piecesBetween text width pos occurrences ≠ [] := by
  apply List.ne_nil_of_length_pos
  rw [length_piecesBetween]
  apply Nat.succ_pos

theorem Occurrences.exists (hpattern : pattern ≠ []) (text : List α) (pos : Nat) :
    ∃ occurrences, Occurrences pattern text pos occurrences := by
  classical
  induction hleft : text.length - pos using Nat.strong_induction_on generalizing pos with
  | _ left ih =>
    cases hfind : findFrom pattern text pos with
    | none => exact ⟨[], .none (findFrom_eq_none hpattern hfind)⟩
    | some i =>
      obtain ⟨hpos, hi, hoccurs, hleftmost⟩ := findFrom_eq_some hfind
      have hend := findFrom_end_le hfind
      have hlength := List.length_pos_iff.mpr hpattern
      obtain ⟨occurrences, h⟩ := ih _ (by omega) (i + pattern.length) rfl
      exact ⟨i :: occurrences, .next hpos hi hoccurs hleftmost h⟩

theorem Occurrences.unique {occurrences' : List Nat} (h : Occurrences pattern text pos occurrences)
    (h' : Occurrences pattern text pos occurrences') : occurrences = occurrences' := by
  induction h generalizing occurrences' with
  | none hnone =>
    cases h' with
    | none => rfl
    | next hpos _ hoccurs => exact absurd hoccurs (hnone _ hpos)
  | next hpos _ hoccurs hleftmost _ ih =>
    cases h' with
    | none hnone => exact absurd hoccurs (hnone _ hpos)
    | next hpos' _ hoccurs' hleftmost' h' =>
      obtain rfl := Nat.le_antisymm
        (Nat.le_of_not_lt fun hlt => hleftmost _ hpos' hlt hoccurs')
        (Nat.le_of_not_lt fun hlt => hleftmost' _ hpos hlt hoccurs)
      rw [ih h']

/-- An occurrence ends inside the text. -/
theorem Occurrences.end_le (hpattern : pattern ≠ []) {i : Nat} (hoccurs : pattern <+: text.drop i) :
    i + pattern.length ≤ text.length := by
  have hlength := hoccurs.length_le
  have hpos := List.length_pos_iff.mpr hpattern
  rw [List.length_drop] at hlength
  omega

theorem Occurrences.length_le (hpattern : pattern ≠ [])
    (h : Occurrences pattern text pos occurrences) : occurrences.length ≤ text.length - pos := by
  have hlength := List.length_pos_iff.mpr hpattern
  induction h with
  | none => exact Nat.zero_le _
  | next hpos _ hoccurs _ _ ih =>
    have hend := Occurrences.end_le hpattern hoccurs
    rw [List.length_cons]
    omega

/-- With the pattern between them the pieces are the text again. -/
theorem Occurrences.intercalate (h : Occurrences pattern text pos occurrences) :
    pattern.intercalate (piecesBetween text pattern.length pos occurrences) = text.drop pos := by
  induction h with
  | none => rw [piecesBetween, List.intercalate_singleton]
  | @next pos i occurrences hpos _ hoccurs _ _ ih =>
    obtain ⟨first, rest, hrest⟩ :=
      List.exists_cons_of_ne_nil (piecesBetween_ne_nil text pattern.length
        (i + pattern.length) occurrences)
    have hbehind : text.drop i = pattern ++ text.drop (i + pattern.length) := by
      obtain ⟨tail, htail⟩ := hoccurs
      rw [← List.drop_drop, ← htail, List.drop_left]
    calc pattern.intercalate (piecesBetween text pattern.length pos (i :: occurrences))
        = (text.drop pos).take (i - pos) ++ pattern ++ text.drop (i + pattern.length) := by
          rw [piecesBetween, hrest, List.intercalate_cons_cons, ← hrest, ih]
      _ = (text.drop pos).take (i - pos) ++ (text.drop pos).drop (i - pos) := by
          rw [List.append_assoc, ← hbehind, List.drop_drop, Nat.add_sub_cancel' hpos]
      _ = text.drop pos := List.take_append_drop _ _

/-- An occurrence inside a piece from `pos` on is one in the text, which ends with the piece. -/
theorem occurs_of_infix_take {count : Nat} (hinside : pattern <:+: (text.drop pos).take count) :
    ∃ i, pos ≤ i ∧ i + pattern.length ≤ pos + count ∧ pattern <+: text.drop i := by
  obtain ⟨before, after, happend⟩ := hinside
  have hlength := congrArg List.length happend
  rw [List.length_append, List.length_append, List.length_take] at hlength
  refine ⟨pos + before.length, Nat.le_add_right _ _, by omega, ?_⟩
  have hdrop : pattern ++ after = ((text.drop pos).take count).drop before.length := by
    rw [← happend, List.append_assoc, List.drop_left]
  rw [← List.drop_drop]
  calc pattern <+: pattern ++ after := List.prefix_append _ _
    _ = ((text.drop pos).drop before.length).take (count - before.length) := by
      rw [hdrop, List.drop_take]
    _ <+: (text.drop pos).drop before.length := List.take_prefix _ _

theorem Occurrences.not_infix (hpattern : pattern ≠ []) (h : Occurrences pattern text pos occurrences) :
    ∀ piece ∈ piecesBetween text pattern.length pos occurrences, ¬ pattern <:+: piece := by
  have hlength := List.length_pos_iff.mpr hpattern
  induction h with
  | @none pos hnone =>
    intro piece hpiece hinside
    rw [piecesBetween, List.mem_singleton] at hpiece
    rw [hpiece, ← List.take_length (l := text.drop pos)] at hinside
    obtain ⟨i, hpos, _, hoccurs⟩ := occurs_of_infix_take hinside
    exact hnone i hpos hoccurs
  | next hpos _ _ hleftmost _ ih =>
    rw [piecesBetween, List.forall_mem_cons]
    refine ⟨fun hinside => ?_, ih⟩
    obtain ⟨j, hj, hend, hoccurs⟩ := occurs_of_infix_take hinside
    exact hleftmost j hj (by omega) hoccurs

/-- What the search finds is the first of the occurrences. -/
theorem Occurrences.findFrom_eq [DecidableEq α] (h : Occurrences pattern text pos occurrences) :
    findFrom pattern text pos = occurrences.head? := by
  cases h with
  | none hnone =>
    cases hfind : findFrom pattern text pos with
    | none => rfl
    | some i =>
      obtain ⟨hpos, _, hoccurs, _⟩ := findFrom_eq_some hfind
      exact absurd hoccurs (hnone i hpos)
  | next hpos hi hoccurs hleftmost => exact findFrom_of_first hpos hi hoccurs hleftmost

end LuPlatform.Bytes
