import Mathlib.Data.Finmap
import Mathlib.Tactic.Common

/-! Finite maps that keep the first value of a key, and maps of such maps. What a key finds behind many
stores is what it found before them, or else the first value stored under it. -/

namespace LuPlatform.FirstWins

variable {K K₁ K₂ V : Type} [DecidableEq K] [DecidableEq K₁] [DecidableEq K₂]

/-- A value for a key that has none; another one stays. -/
def emplace (m : Finmap fun _ : K => V) (k : K) (v : V) : Finmap fun _ : K => V :=
  if k ∈ m then m else m.insert k v

theorem lookup_emplace (m : Finmap fun _ : K => V) (k k' : K) (v : V) :
    (emplace m k v).lookup k' = if k' = k then some ((m.lookup k).getD v) else m.lookup k' := by
  rw [emplace]
  by_cases hmem : k ∈ m
  · obtain ⟨old, hold⟩ := Finmap.mem_iff.1 hmem
    rw [if_pos hmem]
    split
    · subst k'
      rw [hold, Option.getD_some]
    · rfl
  · rw [if_neg hmem]
    split
    · subst k'
      rw [Finmap.lookup_insert, Finmap.lookup_eq_none.2 hmem, Option.getD_none]
    · exact Finmap.lookup_insert_of_ne m ‹_›

/-- Keys of two parts. -/
abbrev Nested (K₁ K₂ V : Type) := Finmap fun _ : K₁ => Finmap fun _ : K₂ => V

namespace Nested

def find (m : Nested K₁ K₂ V) (k : K₁ × K₂) : Option V :=
  (m.lookup k.1).bind fun inner => inner.lookup k.2

/-- An inner map, empty where there is none. -/
def emplaceOuter (m : Nested K₁ K₂ V) (k₁ : K₁) : Nested K₁ K₂ V := emplace m k₁ ∅

/-- A value for a key in its inner map. -/
def emplaceInner (m : Nested K₁ K₂ V) (k : K₁ × K₂) (v : V) : Nested K₁ K₂ V :=
  m.insert k.1 (emplace ((m.lookup k.1).getD ∅) k.2 v)

@[simp] theorem find_empty (k : K₁ × K₂) : find (∅ : Nested K₁ K₂ V) k = none := by
  rw [find, Finmap.lookup_empty, Option.bind_none]

@[simp] theorem find_emplaceOuter (m : Nested K₁ K₂ V) (k₁ : K₁) (k : K₁ × K₂) :
    (m.emplaceOuter k₁).find k = m.find k := by
  rw [find, find, emplaceOuter, lookup_emplace]
  split
  · subst k₁
    cases m.lookup k.1 with
    | none => exact Finmap.lookup_empty _
    | some inner => rfl
  · rfl

theorem find_eq_lookup_getD (m : Nested K₁ K₂ V) (k : K₁ × K₂) :
    m.find k = ((m.lookup k.1).getD ∅).lookup k.2 := by
  rw [find]
  cases m.lookup k.1 with
  | none => rw [Option.bind_none, Option.getD_none, Finmap.lookup_empty]
  | some inner => rfl

theorem find_emplaceInner (m : Nested K₁ K₂ V) (k k' : K₁ × K₂) (v : V) :
    (m.emplaceInner k v).find k' = if k' = k then some ((m.find k).getD v) else m.find k' := by
  rw [find_eq_lookup_getD m k, find_eq_lookup_getD m k', find, emplaceInner]
  by_cases houter : k'.1 = k.1
  · rw [houter, Finmap.lookup_insert, Option.bind_some, lookup_emplace]
    by_cases hinner : k'.2 = k.2
    · rw [if_pos hinner, if_pos (Prod.ext houter hinner)]
    · rw [if_neg hinner, if_neg (fun heq => hinner (congrArg Prod.snd heq))]
  · rw [Finmap.lookup_insert_of_ne m houter, if_neg (fun heq => houter (congrArg Prod.fst heq)),
      ← find_eq_lookup_getD, find]

/-- One item: a key with the value to be stored under it, if there is one. -/
def store (m : Nested K₁ K₂ V) (item : (K₁ × K₂) × Option V) : Nested K₁ K₂ V :=
  match item.2 with
  | some v => (m.emplaceOuter item.1.1).emplaceInner item.1 v
  | none => m.emplaceOuter item.1.1

theorem find_store (m : Nested K₁ K₂ V) (item : (K₁ × K₂) × Option V) (k : K₁ × K₂) :
    (m.store item).find k = (m.find k).or (if k = item.1 then item.2 else none) := by
  rw [store]
  split
  · rename_i v hv
    rw [find_emplaceInner, find_emplaceOuter, find_emplaceOuter, hv]
    split
    · subst k
      cases m.find item.1 <;> rfl
    · rw [Option.or_none]
  · rename_i hnone
    rw [find_emplaceOuter, hnone, ite_self, Option.or_none]

/-- The first value that the items have for a key. -/
def firstValue (items : List ((K₁ × K₂) × Option V)) (k : K₁ × K₂) : Option V :=
  items.findSome? fun item => if k = item.1 then item.2 else none

theorem firstValue_cons (item : (K₁ × K₂) × Option V) (items : List ((K₁ × K₂) × Option V))
    (k : K₁ × K₂) : firstValue (item :: items) k =
      (if k = item.1 then item.2 else none).or (firstValue items k) := by
  rw [firstValue, List.findSome?_cons]
  cases (if k = item.1 then item.2 else none : Option V) <;> rfl

theorem find_foldl_store (items : List ((K₁ × K₂) × Option V)) (m : Nested K₁ K₂ V) (k : K₁ × K₂) :
    (items.foldl store m).find k = (m.find k).or (firstValue items k) := by
  induction items generalizing m with
  | nil => exact (Option.or_none).symm
  | cons item items ih => rw [List.foldl_cons, ih, find_store, Option.or_assoc, firstValue_cons]

theorem firstValue_ne_none_iff (items : List ((K₁ × K₂) × Option V)) (k : K₁ × K₂) :
    firstValue items k ≠ none ↔ ∃ v, (k, some v) ∈ items := by
  rw [firstValue, ne_eq, List.findSome?_eq_none_iff]
  constructor
  · intro h
    by_contra hnone
    apply h
    intro item hitem
    split
    · rename_i heq
      rw [Option.eq_none_iff_forall_ne_some]
      intro v hv
      apply hnone
      exact ⟨v, heq ▸ hv ▸ hitem⟩
    · rfl
  · intro ⟨v, hmem⟩ hall
    have hv := hall _ hmem
    simp at hv

end Nested

end LuPlatform.FirstWins
