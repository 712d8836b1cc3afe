import Mathlib.Data.List.Induction

/-! Runs by a list of actions. What is asked of every state of a run and what is asked of every step
are tied together by one lemma about a step. -/

namespace LuPlatform.Actions

variable {σ α : Type}

section Definitions

variable (step : σ → α → Option σ) (s₀ : σ)

/-- An action that is not possible ends the run without a result. -/
def run : σ → List α → Option σ
  | s, [] => some s
  | s, a :: actions => (step s a).bind (run · actions)

/-- The actions so far and the state they lead to. -/
def Always (P : List α → σ → Prop) (actions : List α) : Prop :=
  ∀ before after s, actions = before ++ after → run step s₀ before = some s → P before s

/-- Each action and the state that it is taken in. -/
def EachStep (G : α → σ → Prop) (actions : List α) : Prop :=
  ∀ before a after s, actions = before ++ a :: after → run step s₀ before = some s → G a s

end Definitions

variable {step : σ → α → Option σ} {s₀ s s' : σ} {actions actions' : List α} {a : α}
  {P : List α → σ → Prop} {G : α → σ → Prop}

theorem run_append : run step s (actions ++ actions') =
    (run step s actions).bind (run step · actions') := by
  induction actions generalizing s with
  | nil => rfl
  | cons a actions ih =>
    rw [List.cons_append, run, run]
    cases step s a with
    | none => rfl
    | some s' => exact ih

theorem run_concat (h : run step s actions = some s') : run step s (actions ++ [a]) = step s' a := by
  rw [run_append, h, Option.bind_some, run]
  cases step s' a <;> rfl

theorem exists_before (h : run step s₀ (actions ++ [a]) = some s) :
    ∃ s', run step s₀ actions = some s' ∧ step s' a = some s := by
  rw [run_append] at h
  obtain ⟨s', hbefore, hlast⟩ := Option.bind_eq_some_iff.1 h
  have hrun := run_concat (a := a) hbefore
  rw [run_append, hbefore, Option.bind_some, hlast] at hrun
  exact ⟨s', hbefore, hrun.symm⟩

/-- Where every action is possible, every run has a result. -/
theorem run_total {f : σ → α → σ} (s : σ) (actions : List α) :
    run (fun s a => some (f s a)) s actions = some (actions.foldl f s) := by
  induction actions generalizing s with
  | nil => rfl
  | cons a actions ih => exact ih (f s a)

/-! ### The last action -/

/-- A prefix of a run with one more action is the whole of it, or a prefix of the run before. -/
theorem eq_append_concat_iff {before after : List α} :
    actions ++ [a] = before ++ after ↔
      (after = [] ∧ before = actions ++ [a]) ∨
        ∃ rest, after = rest ++ [a] ∧ actions = before ++ rest := by
  constructor
  · intro h
    rcases List.eq_nil_or_concat after with rfl | ⟨rest, last, rfl⟩
    · exact .inl ⟨rfl, by simpa using h.symm⟩
    · rw [List.concat_eq_append, ← List.append_assoc] at h
      obtain ⟨hactions, hlast⟩ := List.append_inj' h rfl
      obtain rfl : a = last := by simpa using hlast
      exact .inr ⟨rest, List.concat_eq_append, hactions⟩
  · rintro (⟨rfl, rfl⟩ | ⟨rest, rfl, rfl⟩) <;> simp

theorem always_nil : Always step s₀ P [] ↔ P [] s₀ := by
  constructor
  · intro h
    exact h [] [] s₀ rfl rfl
  · intro h before after s hnil hrun
    obtain ⟨rfl, -⟩ := List.append_eq_nil_iff.1 hnil.symm
    exact Option.some.inj hrun ▸ h

theorem always_concat : Always step s₀ P (actions ++ [a]) ↔
    Always step s₀ P actions ∧ ∀ s, run step s₀ (actions ++ [a]) = some s → P (actions ++ [a]) s := by
  constructor
  · intro h
    refine ⟨fun before after s hactions => ?_, fun s => h _ [] s (List.append_nil _).symm⟩
    apply h before (after ++ [a]) s
    rw [hactions, List.append_assoc]
  · rintro ⟨h, hlast⟩ before after s hactions hrun
    obtain ⟨-, rfl⟩ | ⟨rest, -, hbefore⟩ := eq_append_concat_iff.1 hactions
    · exact hlast s hrun
    · exact h before rest s hbefore hrun

theorem eachStep_nil : EachStep step s₀ G [] := by
  intro before a after s hnil
  simp at hnil

theorem eachStep_cons : EachStep step s₀ G (a :: actions) ↔
    G a s₀ ∧ ∀ s, step s₀ a = some s → EachStep step s G actions := by
  constructor
  · intro h
    refine ⟨h [] a actions s₀ rfl rfl, fun s hstep before b after s' hactions hrun => ?_⟩
    apply h (a :: before) b after s'
    · rw [hactions, List.cons_append]
    · rw [run, hstep, Option.bind_some, hrun]
  · rintro ⟨hfirst, hrest⟩ before b after s hactions hrun
    cases before with
    | nil =>
      obtain ⟨rfl, -⟩ := List.cons.inj hactions
      exact Option.some.inj hrun ▸ hfirst
    | cons c before =>
      obtain ⟨rfl, hlater⟩ := List.cons.inj hactions
      obtain ⟨s', hstep, hbefore⟩ := Option.bind_eq_some_iff.1 hrun
      exact hrest s' hstep before b after s hlater hbefore

theorem eachStep_concat : EachStep step s₀ G (actions ++ [a]) ↔
    EachStep step s₀ G actions ∧ ∀ s, run step s₀ actions = some s → G a s := by
  constructor
  · intro h
    refine ⟨fun before b after s hactions => ?_, fun s => h actions a [] s rfl⟩
    apply h before b (after ++ [a]) s
    rw [hactions, List.append_assoc, List.cons_append]
  · rintro ⟨h, hlast⟩ before b after s hactions hrun
    obtain ⟨hnil, -⟩ | ⟨rest, hrest, hbefore⟩ := eq_append_concat_iff.1 hactions
    · exact absurd hnil (List.cons_ne_nil b after)
    · cases rest with
      | nil =>
        obtain ⟨rfl, -⟩ := List.cons.inj hrest
        rw [hbefore, List.append_nil] at hlast
        exact hlast s hrun
      | cons c rest =>
        obtain ⟨rfl, -⟩ := List.cons.inj hrest
        exact h before b rest s hbefore hrun

theorem Always.of_append (h : Always step s₀ P (actions ++ actions')) : Always step s₀ P actions := by
  intro before after s hactions
  apply h before (after ++ actions') s
  rw [hactions, List.append_assoc]

theorem Always.last (h : Always step s₀ P actions) (hrun : run step s₀ actions = some s) :
    P actions s :=
  h actions [] s (List.append_nil _).symm hrun

/-! ### Rules -/

/-- The invariant rule. -/
theorem run_invariant (initial : P [] s₀)
    (keep : ∀ actions s a s', run step s₀ actions = some s → P actions s →
      step s a = some s' → P (actions ++ [a]) s')
    (hrun : run step s₀ actions = some s) : P actions s := by
  induction actions using List.reverseRecOn generalizing s with
  | nil => exact Option.some.inj hrun ▸ initial
  | append_singleton actions a ih =>
    obtain ⟨s', hbefore, hstep⟩ := exists_before hrun
    exact keep actions s' a s hbefore (ih hbefore) hstep

/-- Where one step keeps what is asked of the states if and only if it is as is asked of the steps,
so it is with whole runs. -/
theorem always_iff_eachStep (initial : P [] s₀)
    (keep : ∀ before a after s s', actions = before ++ a :: after → run step s₀ before = some s →
      Always step s₀ P before → EachStep step s₀ G before → step s a = some s' →
        (P (before ++ [a]) s' ↔ G a s))
    (hrun : run step s₀ actions = some s) :
    Always step s₀ P actions ↔ EachStep step s₀ G actions := by
  induction actions using List.reverseRecOn generalizing s with
  | nil => exact iff_of_true (always_nil.2 initial) eachStep_nil
  | append_singleton actions a ih =>
    obtain ⟨s', hbefore, hstep⟩ := exists_before hrun
    have hsame : Always step s₀ P actions ↔ EachStep step s₀ G actions := by
      apply ih _ hbefore
      rintro before b after s s' rfl
      apply keep before b (after ++ [a])
      simp
    have hlast : (∀ t, run step s₀ (actions ++ [a]) = some t → P (actions ++ [a]) t) ↔
        P (actions ++ [a]) s := by simp [hrun]
    have hgiven : (∀ t, run step s₀ actions = some t → G a t) ↔ G a s' := by simp [hbefore]
    rw [always_concat, eachStep_concat, hlast, hgiven]
    constructor
    · rintro ⟨hP, hnext⟩
      have hG := hsame.1 hP
      exact ⟨hG, (keep actions a [] s' s rfl hbefore hP hG hstep).1 hnext⟩
    · rintro ⟨hG, hnext⟩
      have hP := hsame.2 hG
      exact ⟨hP, (keep actions a [] s' s rfl hbefore hP hG hstep).2 hnext⟩

/-- What is asked of the steps may be about the actions alone. -/
theorem eachStep_iff_forall_mem {p : α → Prop} (hrun : run step s₀ actions = some s) :
    EachStep step s₀ (fun a _ => p a) actions ↔ ∀ a ∈ actions, p a := by
  constructor
  · intro h a ha
    obtain ⟨before, after, rfl⟩ := List.append_of_mem ha
    rw [run_append] at hrun
    obtain ⟨s', hbefore, -⟩ := Option.bind_eq_some_iff.1 hrun
    exact h before a after s' rfl hbefore
  · rintro h before a after s' rfl -
    exact h a (by simp)

end LuPlatform.Actions
