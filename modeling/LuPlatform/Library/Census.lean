import Mathlib.Data.List.Basic

/-! How many entries of a list name one thing. Things that move from list to list keep their count
over all of them. -/

namespace LuPlatform.Census

variable {α β γ : Type} [DecidableEq β]

/-- The entries that `name` maps to `b`. -/
def census (name : α → Option β) (b : β) (entries : List α) : Nat :=
  entries.countP fun a => name a = some b

variable {name : α → Option β} {b : β}

@[simp] theorem census_nil : census name b [] = 0 := rfl

@[simp] theorem census_append (entries entries' : List α) :
    census name b (entries ++ entries') = census name b entries + census name b entries' :=
  List.countP_append

theorem census_cons (a : α) (entries : List α) :
    census name b (a :: entries) = census name b [a] + census name b entries :=
  census_append [a] entries

/-- What one entry counts. -/
def hit (b : β) (c : Option β) : Nat := if c = some b then 1 else 0

@[simp] theorem hit_none : hit b none = 0 := rfl

@[simp] theorem hit_self : hit b (some b) = 1 := if_pos rfl

theorem hit_of_ne {c : β} (h : c ≠ b) : hit b (some c) = 0 := if_neg (by simpa using h)

theorem census_singleton (a : α) : census name b [a] = hit b (name a) := by
  simp [census, hit, List.countP_cons]

theorem census_map {f : γ → α} {name' : γ → Option β} (h : ∀ c, name (f c) = name' c)
    (entries : List γ) : census name b (entries.map f) = census name' b entries := by
  simp only [census, List.countP_map]
  congr 1
  funext c
  simp [h]

theorem census_pos {entries : List α} {a : α} (ha : a ∈ entries) (hname : name a = some b) :
    0 < census name b entries :=
  List.countP_pos_iff.2 ⟨a, ha, by simpa using hname⟩

theorem exists_of_census_pos {entries : List α} (h : 0 < census name b entries) :
    ∃ a ∈ entries, name a = some b := by
  obtain ⟨a, ha, hname⟩ := List.countP_pos_iff.1 h
  exact ⟨a, ha, by simpa using hname⟩

theorem census_le {name' : α → Option β} (h : ∀ a, name a = some b → name' a = some b)
    (entries : List α) : census name b entries ≤ census name' b entries :=
  List.countP_mono_left fun a _ ha => by simpa using h a (by simpa using ha)

/-- Two different entries for one thing. -/
theorem two_le_census {entries : List α} {a a' : α} (ha : a ∈ entries) (ha' : a' ∈ entries)
    (hne : a ≠ a') (hname : name a = some b) (hname' : name a' = some b) :
    2 ≤ census name b entries := by
  obtain ⟨before, after, rfl⟩ := List.append_of_mem ha
  have hrest : a' ∈ before ++ after := by
    simp only [List.mem_append, List.mem_cons] at ha' ⊢
    rcases ha' with h | h | h
    · exact .inl h
    · exact absurd h.symm hne
    · exact .inr h
  have hpos := census_pos hrest hname'
  rw [census_append] at hpos ⊢
  rw [census_cons a after, census_singleton, hname, hit_self]
  omega

variable (name b) in
theorem census_set {entries : List α} {i : Nat} {a : α} (h : entries[i]? = some a) (a' : α) :
    census name b (entries.set i a') + census name b [a] =
      census name b entries + census name b [a'] := by
  induction entries generalizing i with
  | nil => simp at h
  | cons first entries ih =>
    cases i with
    | zero =>
      obtain rfl : first = a := by simpa using h
      rw [List.set_cons_zero, census_cons a' entries, census_cons first entries]
      omega
    | succ i =>
      have hrest := ih (by simpa using h)
      rw [List.set_cons_succ, census_cons first entries, census_cons first (entries.set i a')]
      omega

theorem census_flatMap {f : γ → List α} {name' : γ → Option β}
    (h : ∀ c, census name b (f c) = hit b (name' c)) (entries : List γ) :
    census name b (entries.flatMap f) = census name' b entries := by
  induction entries with
  | nil => rfl
  | cons c entries ih =>
    rw [List.flatMap_cons, census_append, h, ih, census_cons c entries, census_singleton]

/-- An entry taken out of the middle. -/
theorem census_remove (before after : List α) (a : α) :
    census name b (before ++ a :: after) = census name b (before ++ after) + census name b [a] := by
  rw [census_append, census_cons, census_append]
  omega

variable (name b) in
theorem census_eraseP {p : α → Bool} {entries : List α} {a : α} (ha : a ∈ entries)
    (hp : p a = true) : ∃ removed, p removed = true ∧ removed ∈ entries ∧
      census name b entries = census name b (entries.eraseP p) + census name b [removed] := by
  obtain ⟨removed, before, after, -, hremoved, hentries, herase⟩ := List.exists_of_eraseP ha hp
  refine ⟨removed, hremoved, by simp [hentries], ?_⟩
  rw [herase, hentries, census_remove]

end LuPlatform.Census
