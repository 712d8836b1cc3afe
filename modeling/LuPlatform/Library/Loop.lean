import Mathlib.Tactic.Common

/-! Loops without a bound of their own, run on fuel. A body goes round again with a new state or
leaves with a result. Fuel only decides how long one is ready to wait: more of it never changes a
result, and a measure that every round decreases bounds how much is needed. -/

namespace LuPlatform.Loop

/-- What one execution of a loop body does. -/
inductive Round (σ ρ : Type) where
  | again (s : σ)
  | leave (r : ρ)

def loop {σ ρ : Type} (body : σ → Round σ ρ) : Nat → σ → Option ρ
  | 0, _ => none
  | fuel + 1, s =>
    match body s with
    | .again s' => loop body fuel s'
    | .leave r => some r

variable {σ ρ : Type} {body : σ → Round σ ρ}

theorem loop_again {s s' : σ} (h : body s = .again s') (fuel : Nat) :
    loop body (fuel + 1) s = loop body fuel s' := by
  rw [loop, h]

theorem loop_leave {s : σ} {r : ρ} (h : body s = .leave r) (fuel : Nat) :
    loop body (fuel + 1) s = some r := by
  rw [loop, h]

theorem loop_mono {n m : Nat} {s : σ} {r : ρ} (h : loop body n s = some r) (hnm : n ≤ m) :
    loop body m s = some r := by
  induction n generalizing m s with
  | zero => simp [loop] at h
  | succ n ih =>
    obtain ⟨m, rfl⟩ : ∃ k, m = k + 1 := ⟨m - 1, by omega⟩
    cases hb : body s with
    | again s' =>
      rw [loop_again hb] at h ⊢
      exact ih h (by omega)
    | leave r' =>
      rw [loop_leave hb] at h ⊢
      exact h

/-- Fuel that is enough, whatever it is, gives the same result. -/
theorem loop_unique {n m : Nat} {s : σ} {r r' : ρ} (h : loop body n s = some r)
    (h' : loop body m s = some r') : r = r' := by
  have hmax := (loop_mono h (Nat.le_max_left n m)).symm.trans (loop_mono h' (Nat.le_max_right n m))
  exact Option.some.inj hmax

/-- Partial correctness: an invariant of the rounds holds when the loop is left. -/
theorem loop_invariant (P : σ → Prop) (Q : ρ → Prop)
    (again : ∀ s s', P s → body s = .again s' → P s')
    (leave : ∀ s r, P s → body s = .leave r → Q r)
    {n : Nat} {s : σ} {r : ρ} (hs : P s) (h : loop body n s = some r) : Q r := by
  induction n generalizing s with
  | zero => simp [loop] at h
  | succ n ih =>
    cases hb : body s with
    | again s' =>
      rw [loop_again hb] at h
      exact ih (again s s' hs hb) h
    | leave r' =>
      rw [loop_leave hb] at h
      obtain rfl := Option.some.inj h
      exact leave s r' hs hb

/-- Termination: fuel above a measure that every round decreases is enough. -/
theorem loop_terminates (P : σ → Prop) (μ : σ → Nat)
    (again : ∀ s s', P s → body s = .again s' → P s' ∧ μ s' < μ s)
    {n : Nat} {s : σ} (hs : P s) (hn : μ s < n) : ∃ r, loop body n s = some r := by
  induction n generalizing s with
  | zero => omega
  | succ n ih =>
    cases hb : body s with
    | again s' =>
      obtain ⟨hs', hμ⟩ := again s s' hs hb
      rw [loop_again hb]
      exact ih hs' (by omega)
    | leave r => exact ⟨r, loop_leave hb n⟩

/-- A body that goes round wherever another does, and leaves with `r` where it does, ends with `r`
where it does. -/
theorem loop_transfer {body' : σ → Round σ ρ} {r : ρ}
    (again : ∀ s s', body s = .again s' → body' s = .again s')
    (leave : ∀ s, body s = .leave r → body' s = .leave r)
    {n : Nat} {s : σ} (h : loop body n s = some r) : loop body' n s = some r := by
  induction n generalizing s with
  | zero => simp [loop] at h
  | succ n ih =>
    cases hb : body s with
    | again s' =>
      rw [loop_again hb] at h
      rw [loop_again (again s s' hb), ih h]
    | leave r' =>
      rw [loop_leave hb] at h
      obtain rfl := Option.some.inj h
      exact loop_leave (leave s hb) n

/-- A body that keeps up, round by round, with one that ends, ends too. -/
theorem loop_simulation {τ ρ' : Type} {body' : τ → Round τ ρ'} (R : σ → τ → Prop)
    (Q : ρ → ρ' → Prop)
    (again : ∀ s t t', R s t → body' t = .again t' → ∃ s', body s = .again s' ∧ R s' t')
    (leave : ∀ s t r', R s t → body' t = .leave r' → ∃ r, body s = .leave r ∧ Q r r')
    {n : Nat} {s : σ} {t : τ} {r' : ρ'} (hst : R s t) (h : loop body' n t = some r') :
    ∃ r, loop body n s = some r ∧ Q r r' := by
  induction n generalizing s t with
  | zero => simp [loop] at h
  | succ n ih =>
    cases hb : body' t with
    | again t' =>
      obtain ⟨s', hs', hR⟩ := again s t t' hst hb
      rw [loop_again hb] at h
      rw [loop_again hs']
      exact ih hR h
    | leave r =>
      obtain ⟨q, hq, hQ⟩ := leave s t r hst hb
      rw [loop_leave hb] at h
      obtain rfl := Option.some.inj h
      exact ⟨q, loop_leave hq n, hQ⟩

/-- The states in which a round begins. -/
inductive Reached (body : σ → Round σ ρ) (s : σ) : σ → Prop where
  | start : Reached body s s
  | round {t u : σ} : Reached body s t → body t = .again u → Reached body s u

theorem Reached.of_again {s t u : σ} (h : body s = .again t) (hu : Reached body t u) :
    Reached body s u := by
  induction hu with
  | start => exact .round .start h
  | round _ hround ih => exact .round ih hround

/-- What is reached is the first state, or reached from the one behind it. -/
theorem Reached.cases_again {s u : σ} (h : Reached body s u) :
    u = s ∨ ∃ t, body s = .again t ∧ Reached body t u := by
  induction h with
  | start => exact .inl rfl
  | @round t u _ hround ih =>
    right
    obtain rfl | ⟨v, hv, ht⟩ := ih
    · exact ⟨u, hround, .start⟩
    · exact ⟨v, hv, .round ht hround⟩

theorem Reached.invariant {P : σ → Prop} (again : ∀ s s', P s → body s = .again s' → P s') {s t : σ}
    (h : Reached body s t) (hs : P s) : P t := by
  induction h with
  | start => exact hs
  | round _ hround ih => exact again _ _ ih hround

/-- Of two states one is reached from the other. -/
theorem Reached.linear {s t u : σ} (ht : Reached body s t) (hu : Reached body s u) :
    Reached body t u ∨ Reached body u t := by
  induction ht with
  | start => exact .inl hu
  | @round t t' _ hround ih =>
    obtain hfwd | hback := ih
    · obtain rfl | ⟨v, hv, hu'⟩ := hfwd.cases_again
      · exact .inr (.round .start hround)
      · obtain rfl := Round.again.inj (hround.symm.trans hv)
        exact .inl hu'
    · exact .inr (.round hback hround)

/-- Only one of the states leaves the loop. -/
theorem Reached.leaving_unique {s t u : σ} {r r' : ρ} (ht : Reached body s t) (hu : Reached body s u)
    (hleave : body t = .leave r) (hleave' : body u = .leave r') : t = u := by
  have hlast : ∀ {v w : σ} {q : ρ}, Reached body v w → body v = .leave q → w = v := by
    intro v w q hw hv
    obtain rfl | ⟨x, hx, _⟩ := hw.cases_again
    · rfl
    · rw [hv] at hx
      cases hx
  obtain h | h := ht.linear hu
  · exact (hlast h hleave).symm
  · exact hlast h hleave'

/-- A loop that ends reaches a state that leaves it. -/
theorem Reached.of_loop {n : Nat} {s : σ} {r : ρ} (h : loop body n s = some r) :
    ∃ t, Reached body s t ∧ body t = .leave r := by
  induction n generalizing s with
  | zero => simp [loop] at h
  | succ n ih =>
    cases hb : body s with
    | again s' =>
      rw [loop_again hb] at h
      obtain ⟨t, ht, hleave⟩ := ih h
      exact ⟨t, ht.of_again hb, hleave⟩
    | leave r' =>
      rw [loop_leave hb] at h
      obtain rfl := Option.some.inj h
      exact ⟨s, .start, hb⟩

/-- A loop that ends, ends from every state it reaches. -/
theorem Reached.loop_eq {s t : σ} (h : Reached body s t) {n : Nat} {r : ρ}
    (hloop : loop body n s = some r) : loop body n t = some r := by
  induction h with
  | start => exact hloop
  | round _ hround ih =>
    cases n with
    | zero => simp [loop] at hloop
    | succ n =>
      rw [loop_again hround] at ih
      exact loop_mono ih (Nat.le_succ n)

end LuPlatform.Loop
