import Mathlib.Logic.Relation

/-! Systems that start in one of some states and take steps. What holds at the start and is kept by
every step holds in all that is reached, and a system whose steps are steps of another one reaches,
through the map between them, nothing else than that one does. -/

namespace LuPlatform.Transition

structure TransitionSystem (σ : Type) where
  Initial : σ → Prop
  Step : σ → σ → Prop

namespace TransitionSystem

variable {σ τ : Type} {S : TransitionSystem σ} {U : TransitionSystem τ}

variable (S) in
def Reaches : σ → σ → Prop := Relation.ReflTransGen S.Step

variable (S) in
def Reachable (s : σ) : Prop := ∃ s₀, S.Initial s₀ ∧ S.Reaches s₀ s

variable (S) in
/-- The system without the steps that do not meet a condition. -/
def restrict (G : σ → σ → Prop) : TransitionSystem σ where
  Initial := S.Initial
  Step s s' := S.Step s s' ∧ G s s'

theorem Reaches.refl (s : σ) : S.Reaches s s := Relation.ReflTransGen.refl

theorem Reaches.step {s s' s'' : σ} (h : S.Reaches s s') (hstep : S.Step s' s'') :
    S.Reaches s s'' :=
  Relation.ReflTransGen.tail h hstep

theorem Reaches.trans {s s' s'' : σ} (h : S.Reaches s s') (h' : S.Reaches s' s'') :
    S.Reaches s s'' :=
  Relation.ReflTransGen.trans h h'

theorem Reaches.of_restrict {G : σ → σ → Prop} {s s' : σ} (h : (S.restrict G).Reaches s s') :
    S.Reaches s s' :=
  Relation.ReflTransGen.mono (fun _ _ hstep => hstep.1) _ _ h

theorem Reaches.weaken {G G' : σ → σ → Prop} {s s' : σ} (h : (S.restrict G).Reaches s s')
    (hG : ∀ s s', G s s' → G' s s') : (S.restrict G').Reaches s s' :=
  Relation.ReflTransGen.mono (fun s s' hstep => ⟨hstep.1, hG s s' hstep.2⟩) _ _ h

theorem Reachable.initial {s : σ} (h : S.Initial s) : S.Reachable s := ⟨s, h, .refl s⟩

theorem Reachable.reaches {s s' : σ} (h : S.Reachable s) (h' : S.Reaches s s') : S.Reachable s' := by
  obtain ⟨s₀, hinitial, hreaches⟩ := h
  exact ⟨s₀, hinitial, hreaches.trans h'⟩

theorem Reachable.step {s s' : σ} (h : S.Reachable s) (hstep : S.Step s s') : S.Reachable s' :=
  h.reaches (.step (.refl s) hstep)

/-- The invariant rule. A step may use that it starts in a reachable state. -/
theorem Reachable.invariant {I : σ → Prop} (initial : ∀ s, S.Initial s → I s)
    (step : ∀ s s', S.Reachable s → I s → S.Step s s' → I s') {s : σ} (h : S.Reachable s) : I s := by
  obtain ⟨s₀, hinitial, hreaches⟩ := h
  induction hreaches with
  | refl => exact initial _ hinitial
  | tail hbefore hstep ih => exact step _ _ ⟨s₀, hinitial, hbefore⟩ ih hstep

theorem Reachable.of_restrict {G : σ → σ → Prop} {s : σ} (h : (S.restrict G).Reachable s) :
    S.Reachable s := by
  obtain ⟨s₀, hinitial, hreaches⟩ := h
  exact ⟨s₀, hinitial, hreaches.of_restrict⟩

/-- A weaker condition on the steps. -/
theorem Reachable.weaken {G G' : σ → σ → Prop} {s : σ} (h : (S.restrict G).Reachable s)
    (hG : ∀ s s', G s s' → G' s s') : (S.restrict G').Reachable s := by
  obtain ⟨s₀, hinitial, hreaches⟩ := h
  exact ⟨s₀, hinitial, hreaches.weaken hG⟩

/-- A step of one system is a step of the other one, or nothing happens there. -/
theorem Reachable.map (f : σ → τ) (initial : ∀ s, S.Initial s → U.Initial (f s))
    (step : ∀ s s', S.Reachable s → S.Step s s' → U.Step (f s) (f s') ∨ f s' = f s) {s : σ}
    (h : S.Reachable s) : U.Reachable (f s) := by
  refine Reachable.invariant (I := fun s => U.Reachable (f s))
    (fun s hs => .initial (initial s hs)) ?_ h
  intro s s' hreachable hs hstep
  obtain hstep' | heq := step s s' hreachable hstep
  · exact hs.reaches (.step (.refl _) hstep')
  · exact heq ▸ hs

/-- A step of one system is some steps of the other one, between states that are related. -/
theorem Reachable.simulation (R : σ → τ → Prop) (initial : ∀ s, S.Initial s → ∃ t, U.Initial t ∧ R s t)
    (step : ∀ s s' t, U.Reachable t → R s t → S.Step s s' → ∃ t', U.Reaches t t' ∧ R s' t') {s : σ}
    (h : S.Reachable s) : ∃ t, U.Reachable t ∧ R s t := by
  refine Reachable.invariant (I := fun s => ∃ t, U.Reachable t ∧ R s t) ?_ ?_ h
  · intro s hs
    obtain ⟨t, ht, hR⟩ := initial s hs
    exact ⟨t, .initial ht, hR⟩
  · rintro s s' - ⟨t, ht, hR⟩ hstep
    obtain ⟨t', hreaches, hR'⟩ := step s s' t ht hR hstep
    exact ⟨t', ht.reaches hreaches, hR'⟩

end TransitionSystem

end LuPlatform.Transition
