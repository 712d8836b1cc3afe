import LuPlatform.Utils.LineFields
import LuPlatform.Websocket.Handshake
import Mathlib.Data.List.TakeWhile

/-! The list of protocols as the server reads it. Items come back as they were printed as long as they
hold no separator; the list ends early at an item that stands for nothing, and at a NUL, since the
parser keeps a C string. -/

namespace LuPlatform.Websocket

open Bytes Utils DelimiterTextParser

def separator : List UInt8 := ascii ", "

theorem separator_eq : separator = [44, 32] := by decide

/-- Nothing in the item is taken for a separator or trimmed away. -/
def Unbroken (item : List UInt8) : Prop := 44 ∉ item ∧ 32 ∉ item

instance (item : List UInt8) : Decidable (Unbroken item) := inferInstanceAs (Decidable (_ ∧ _))

theorem trim_of_not_mem {item : List UInt8} (h : 32 ∉ item) : trim item = item := by
  have hkeep : ∀ l : List UInt8, 32 ∉ l → l.dropWhile isBlank = l := by
    intro l hl
    cases l with
    | nil => rfl
    | cons b l =>
      have hb : isBlank b = false := by
        rw [isBlank, beq_eq_false_iff_ne]
        exact fun heq => hl (by simp [heq])
      rw [List.dropWhile_cons, hb]
      rfl
  unfold trim
  split
  · rfl
  · rw [hkeep item h, hkeep item.reverse (by simpa using h), List.reverse_reverse]

theorem trim_unbroken {item : List UInt8} (hitem : Unbroken item) : trim item = item :=
  trim_of_not_mem hitem.2

/-- The item the parser hands out. -/
def shown (item : List UInt8) : List UInt8 := if isNull item then [] else item

/-- The item does not end the list. -/
def goesOn (item : List UInt8) : Bool := !item.isEmpty && !isNull item

theorem isEmpty_shown (item : List UInt8) : (shown item).isEmpty = !goesOn item := by
  unfold shown goesOn
  cases isNull item <;> simp

/-- No separator is found in the rest of a line without commas. -/
theorem findFrom_separator_none {line : List UInt8} {pos : Nat} (h : 44 ∉ line.drop pos) :
    findFrom separator line pos = none :=
  findFrom_of_not_mem (by simp [separator_eq]) h

variable {p : DelimiterTextParser} {item : List UInt8}

/-- An item with the delimiter behind it, which does not begin earlier. -/
theorem next_found {rest : List UInt8} (hline : p.line.drop p.startPos = item ++ p.delimeter ++ rest)
    (hpos : p.startPos ≤ p.line.length)
    (hfirst : ∀ j < item.length, ¬ p.delimeter <+: (p.line.drop p.startPos).drop j) :
    ∃ p', p.next = .ok (shown (trim item), p') ∧ p'.delimeter = p.delimeter ∧ p'.line = p.line ∧
      p'.line.drop p'.startPos = rest := by
  have hlength : p.line.length - p.startPos = item.length + p.delimeter.length + rest.length := by
    rw [← List.length_drop, hline, List.length_append, List.length_append]
  have hbehind : p.line.drop (p.startPos + item.length) = p.delimeter ++ rest := by
    rw [← List.drop_drop, hline, List.append_assoc, List.drop_left]
  have hfind : findFrom p.delimeter p.line p.startPos = some (p.startPos + item.length) := by
    refine findFrom_of_first (Nat.le_add_right _ _) (by omega) ?_ fun j hj hlt hpre => ?_
    · rw [hbehind]
      exact List.prefix_append _ _
    · refine hfirst (j - p.startPos) (by omega) ?_
      rwa [List.drop_drop, Nat.add_sub_cancel' hj]
  have hread : (p.line.drop p.startPos).take (p.startPos + item.length - p.startPos) = item := by
    rw [Nat.add_sub_cancel_left, hline, List.append_assoc, List.take_left]
  refine ⟨{ p with
    startPos := p.startPos + item.length + p.delimeter.length
    currentIndex := p.currentIndex + 1 }, ?_, rfl, rfl, ?_⟩
  · rw [next_of_found hfind, hread]
    rfl
  · simp only
    rw [← List.drop_drop, hbehind, List.drop_left]

/-- The rest of a line in which the delimiter does not occur. -/
theorem next_rest (hline : p.line.drop p.startPos = item) (hne : item ≠ [])
    (hfind : findFrom p.delimeter p.line p.startPos = none) :
    ∃ p', p.next = .ok (shown (trim item), p') ∧ p'.delimeter = p.delimeter ∧ p'.line = p.line ∧
      p'.line.drop p'.startPos = [] := by
  have hpos : p.startPos < p.line.length := by
    by_contra hge
    exact hne (hline.symm.trans (List.drop_eq_nil_of_le (by omega)))
  refine ⟨{ p with
    startPos := p.line.length + p.delimeter.length
    currentIndex := p.currentIndex + 1 }, ?_, rfl, rfl, ?_⟩
  · rw [next_of_last hfind hpos, hline]
    rfl
  · exact List.drop_eq_nil_of_le (Nat.le_add_right _ _)

/-- An item with another one behind it. -/
theorem next_item (hdelimeter : p.delimeter = separator) {rest : List UInt8} (hitem : Unbroken item)
    (hline : p.line.drop p.startPos = item ++ separator ++ rest) :
    ∃ p', p.next = .ok (shown item, p') ∧ p'.delimeter = separator ∧ p'.line = p.line ∧
      p'.line.drop p'.startPos = rest := by
  have hpos : p.startPos ≤ p.line.length := by
    by_contra hgt
    rw [List.drop_eq_nil_of_le (by omega), separator_eq] at hline
    simp at hline
  have hfirst : ∀ j < item.length, ¬ p.delimeter <+: (p.line.drop p.startPos).drop j := by
    intro j hlt
    rw [hdelimeter, hline, separator_eq, List.append_assoc]
    exact not_prefix_of_not_mem hitem.1 hlt
  have hnext := next_found (by rw [hdelimeter]; exact hline) hpos hfirst
  rwa [trim_unbroken hitem, hdelimeter] at hnext

/-- The last item of a line. -/
theorem next_last (hdelimeter : p.delimeter = separator) (hitem : Unbroken item) (hne : item ≠ [])
    (hline : p.line.drop p.startPos = item) :
    ∃ p', p.next = .ok (shown item, p') ∧ p'.delimeter = separator ∧ p'.line = p.line ∧
      p'.line.drop p'.startPos = [] := by
  have hfind : findFrom p.delimeter p.line p.startPos = none := by
    rw [hdelimeter]
    exact findFrom_separator_none (hline ▸ hitem.1)
  have hnext := next_rest hline hne hfind
  rwa [trim_unbroken hitem, hdelimeter] at hnext

theorem next_end (hdelimeter : p.delimeter = separator) (hline : p.line.drop p.startPos = []) :
    p.next = .error p.outOfRange := by
  apply next_of_exhausted
  · rw [hdelimeter, separator_eq]
    exact List.cons_ne_nil _ _
  · exact List.drop_eq_nil_iff.mp hline

/-- Where anything is left of a printed list the parser reads its first item. -/
theorem next_intercalate (hdelimeter : p.delimeter = separator) {items : List (List UInt8)}
    (hitems : ∀ t ∈ item :: items, Unbroken t)
    (hline : p.line.drop p.startPos = List.intercalate separator (item :: items))
    (hne : List.intercalate separator (item :: items) ≠ []) :
    ∃ p', p.next = .ok (shown item, p') ∧ p'.delimeter = separator ∧ p'.line = p.line ∧
      p'.line.drop p'.startPos = List.intercalate separator items := by
  have hitem := hitems item (by simp)
  cases items with
  | nil =>
    rw [List.intercalate_singleton] at hline hne
    exact next_last hdelimeter hitem hne hline
  | cons next items =>
    rw [List.intercalate_cons_cons] at hline
    exact next_item hdelimeter hitem hline

/-- Only an empty item prints as nothing. -/
theorem eq_nil_of_intercalate {items : List (List UInt8)}
    (h : List.intercalate separator (item :: items) = []) : item = [] := by
  cases items with
  | nil => rwa [List.intercalate_singleton] at h
  | cons second items =>
    rw [List.intercalate_cons_cons] at h
    simp [separator_eq] at h

/-- The loop collects the items up to the first one that does not go on. -/
theorem collect_intercalate {items : List (List UInt8)} (hdelimeter : p.delimeter = separator)
    (hitems : ∀ t ∈ items, Unbroken t)
    (hline : p.line.drop p.startPos = List.intercalate separator items) {fuel : Nat}
    (hfuel : items.length < fuel) :
    collect DelimiterTextParser.next List.isEmpty fuel (shown item) p =
      (item :: items).takeWhile goesOn := by
  induction items generalizing item p fuel with
  | nil =>
    obtain ⟨fuel, rfl⟩ : ∃ k, fuel = k + 1 := ⟨fuel - 1, by omega⟩
    rw [collect, isEmpty_shown, next_end hdelimeter hline, List.takeWhile_cons]
    cases hgoes : goesOn item with
    | true =>
      have hshown : shown item = item := if_neg (by simp [goesOn] at hgoes; simp [hgoes])
      simp [hshown]
    | false => rfl
  | cons first items ih =>
    obtain ⟨fuel, rfl⟩ : ∃ k, fuel = k + 1 := ⟨fuel - 1, by omega⟩
    rw [List.length_cons] at hfuel
    rw [collect, isEmpty_shown, List.takeWhile_cons]
    cases hgoes : goesOn item with
    | false => rfl
    | true =>
      have hshown : shown item = item := if_neg (by simp [goesOn] at hgoes; simp [hgoes])
      simp only [Bool.not_true, Bool.false_eq_true, if_false, if_true, hshown, List.cons.injEq,
        true_and]
      by_cases hne : List.intercalate separator (first :: items) = []
      · -- an empty item ends the list as the end of the line does
        rw [next_end hdelimeter (hline.trans hne), eq_nil_of_intercalate hne]
        rfl
      · obtain ⟨p', hnext, hdelimeter', _, hrest⟩ := next_intercalate hdelimeter hitems hline hne
        rw [hnext]
        exact ih hdelimeter' (fun t ht => hitems t (by simp [ht])) hrest (by omega)

/-! ### The list up to a NUL -/

/-- The items of which something comes before the first NUL. -/
def cutItems : List (List UInt8) → List (List UInt8)
  | [] => []
  | item :: items => if 0 ∈ item then [untilNul item] else item :: cutItems items

theorem untilNul_append_of_mem (h : 0 ∈ item) (rest : List UInt8) :
    untilNul (item ++ rest) = untilNul item := by
  have hshort : ¬ (item.takeWhile (· != 0)).length = item.length := by
    intro heq
    have hall := List.takeWhile_eq_self_iff.mp ((List.takeWhile_prefix _).eq_of_length heq) 0 h
    simp at hall
  rw [untilNul, List.takeWhile_append, if_neg hshort]
  rfl

theorem untilNul_append_of_not_mem (h : 0 ∉ item) (rest : List UInt8) :
    untilNul (item ++ rest) = item ++ untilNul rest := by
  have hself : item.takeWhile (· != 0) = item := untilNul_of_not_mem h
  rw [untilNul, List.takeWhile_append, hself, if_pos rfl]
  rfl

theorem cutItems_ne_nil {items : List (List UInt8)} (h : items ≠ []) : cutItems items ≠ [] := by
  cases items with
  | nil => exact absurd rfl h
  | cons item items =>
    rw [cutItems]
    split <;> simp

theorem untilNul_intercalate (items : List (List UInt8)) :
    untilNul (List.intercalate separator items) = List.intercalate separator (cutItems items) := by
  induction items with
  | nil => rfl
  | cons item items ih =>
    rw [cutItems]
    cases items with
    | nil =>
      rw [List.intercalate_singleton]
      split
      · rw [List.intercalate_singleton]
      · rename_i h
        rw [cutItems, List.intercalate_singleton]
        exact untilNul_of_not_mem h
    | cons second items =>
      rw [List.intercalate_cons_cons, List.append_assoc]
      split
      · rename_i h
        rw [untilNul_append_of_mem h, List.intercalate_singleton]
      · rename_i h
        have hsep : 0 ∉ separator := by decide
        obtain ⟨first, rest, hcut⟩ := List.exists_cons_of_ne_nil
          (cutItems_ne_nil (List.cons_ne_nil second items))
        rw [untilNul_append_of_not_mem h, untilNul_append_of_not_mem hsep, ih, hcut,
          List.intercalate_cons_cons, List.append_assoc]

theorem unbroken_cutItems {items : List (List UInt8)} (hitems : ∀ t ∈ items, Unbroken t) :
    ∀ t ∈ cutItems items, Unbroken t := by
  induction items with
  | nil => exact hitems
  | cons item items ih =>
    obtain ⟨hcomma, hblank⟩ := hitems item (by simp)
    rw [cutItems]
    split
    · intro t ht
      obtain rfl := List.mem_singleton.mp ht
      have hsub := (List.takeWhile_prefix (· != 0) (l := item)).sublist
      exact ⟨fun h => hcomma (hsub.mem h), fun h => hblank (hsub.mem h)⟩
    · exact List.forall_mem_cons.mpr ⟨⟨hcomma, hblank⟩, ih fun t ht => hitems t (by simp [ht])⟩

theorem length_cutItems_le (items : List (List UInt8)) :
    (cutItems items).length ≤ (List.intercalate separator items).length + 1 := by
  have hitems : ∀ l : List (List UInt8), l.length ≤ (List.intercalate separator l).length + 1 := by
    intro l
    induction l with
    | nil => exact Nat.zero_le _
    | cons item l ih =>
      cases l with
      | nil => exact Nat.succ_le_succ (Nat.zero_le _)
      | cons second l =>
        rw [List.intercalate_cons_cons, List.length_append, List.length_append, separator_eq,
          List.length_cons]
        rw [separator_eq] at ih
        simp only [List.length_cons, List.length_nil] at ih ⊢
        omega
  have hcut : (cutItems items).length ≤ items.length := by
    induction items with
    | nil => exact Nat.le_refl 0
    | cons item items ih =>
      rw [cutItems]
      split
      · simp
      · simpa using ih
  exact hcut.trans (hitems items)

/-- Reading the list in order one meets the protocol, at least before a NUL, and before it neither an
item that stands for nothing nor a NUL. -/
def ProtocolReached (protocol : List UInt8) (items : List (List UInt8)) : Prop :=
  ∃ before item after, items = before ++ item :: after ∧ untilNul item = protocol ∧
    ∀ t ∈ before, 0 ∉ t ∧ isNull t = false

theorem protocolReached_cons {protocol : List UInt8} {items : List (List UInt8)} :
    ProtocolReached protocol (item :: items) ↔
      untilNul item = protocol ∨ (0 ∉ item ∧ isNull item = false) ∧ ProtocolReached protocol items := by
  constructor
  · rintro ⟨before, found, after, heq, hfound, hbefore⟩
    cases before with
    | nil =>
      obtain ⟨rfl, rfl⟩ := List.cons.inj heq
      exact .inl hfound
    | cons first before =>
      obtain ⟨rfl, rfl⟩ := List.cons.inj heq
      exact .inr ⟨hbefore item (by simp), before, found, after, rfl, hfound,
        fun t ht => hbefore t (by simp [ht])⟩
  · rintro (h | ⟨hitem, before, found, after, rfl, hfound, hbefore⟩)
    · exact ⟨[], item, items, rfl, h, by simp⟩
    · exact ⟨item :: before, found, after, rfl, hfound, List.forall_mem_cons.mpr ⟨hitem, hbefore⟩⟩

/-- The protocol is among those that are collected exactly when it is reached. -/
theorem mem_collected_iff {protocol : List UInt8} (hprotocol : goesOn protocol = true)
    {items : List (List UInt8)} (hitems : ∀ t ∈ items, t ≠ []) :
    protocol ∈ (cutItems items).takeWhile goesOn ↔ ProtocolReached protocol items := by
  induction items with
  | nil =>
    refine iff_of_false (by simp [cutItems]) ?_
    rintro ⟨before, item, after, heq, _⟩
    simp at heq
  | cons item items ih =>
    rw [protocolReached_cons, ← ih fun t ht => hitems t (by simp [ht]), cutItems]
    by_cases hnul : 0 ∈ item
    · rw [if_pos hnul, List.takeWhile_cons]
      by_cases heq : untilNul item = protocol
      · simp [heq, hprotocol]
      · have hne : ¬ protocol = untilNul item := fun h => heq h.symm
        cases goesOn (untilNul item) <;> simp [hne, heq, hnul]
    · rw [if_neg hnul, List.takeWhile_cons, untilNul_of_not_mem hnul]
      have hitem : goesOn item = !isNull item := by simp [goesOn, hitems item (by simp)]
      cases hnull : isNull item with
      | true =>
        have hne : ¬ item = protocol := by
          rintro rfl
          simp [hitem, hnull] at hprotocol
        simp [hitem, hnull, hne]
      | false => simp [hitem, hnull, hnul, eq_comm]

end LuPlatform.Websocket
