import LuPlatform.Crypto.DataWrap
import LuPlatform.Library.ActionRuns

/-! Moves of a `DataWrap`. Both kinds of move hand over the array and its length and leave the offset
behind. -/

namespace LuPlatform.Crypto

open Actions

namespace DataWrap

/-- The move constructor: the new object, and what is left of the other one. -/
def moveConstruct (other : DataWrap) : DataWrap × DataWrap :=
  (⟨other.data, other.length, 0⟩, { other with data := none })

/-- The move assignment of two different objects. -/
def moveAssign (w other : DataWrap) : DataWrap × DataWrap :=
  ({ w with data := other.data, length := other.length },
    { other with data := w.data, length := w.length })

/-- `append` copies nothing through a null pointer. -/
def Writes (w : DataWrap) (bytes : List UInt8) : Prop :=
  w.data = none → w.offset + bytes.length ≤ w.length → bytes = []

instance (w : DataWrap) (bytes : List UInt8) : Decidable (w.Writes bytes) :=
  inferInstanceAs (Decidable (w.data = none → w.offset + bytes.length ≤ w.length → bytes = []))

theorem append_offset_le {w : DataWrap} {bytes : List UInt8} (h : w.offset ≤ w.length) :
    (w.append bytes).1.offset ≤ (w.append bytes).1.length := by
  unfold append
  split
  · exact h
  · simp only [gt_iff_lt, Nat.not_lt] at *
    assumption

theorem append_data_eq_none {w : DataWrap} {bytes : List UInt8} :
    (w.append bytes).1.data = none ↔ w.data = none := by
  unfold append
  split
  · rfl
  · simp

end DataWrap

/-- The objects that are alive, by their names. -/
abbrev Objects (I : Type) := I → Option DataWrap

inductive DataWrapAction (I : Type) where
  | construct (i : I) (length : Nat)
  | append (i : I) (bytes : List UInt8)
  | clear (i : I)
  | moveConstruct (target source : I)
  | moveAssign (target source : I)
  | destroy (i : I)
  deriving DecidableEq, Repr

namespace Objects

variable {I : Type} [DecidableEq I]

def set (s : Objects I) (i : I) (w : DataWrap) : Objects I := Function.update s i (some w)

def step (s : Objects I) : DataWrapAction I → Option (Objects I)
  | .construct i length =>
    match s i with
    | none => some (s.set i (.new length))
    | some _ => none
  | .append i bytes =>
    match s i with
    | some w => if w.Writes bytes then some (s.set i (w.append bytes).1) else none
    | none => none
  | .clear i =>
    match s i with
    | some w => some (s.set i w.clear)
    | none => none
  | .moveConstruct target source =>
    match s target, s source with
    | none, some other =>
      some ((s.set source other.moveConstruct.2).set target other.moveConstruct.1)
    | _, _ => none
  | .moveAssign target source =>
    match s target, s source with
    | some w, some other =>
      if target = source then
        some s
      else
        some ((s.set source (w.moveAssign other).2).set target (w.moveAssign other).1)
    | _, _ => none
  | .destroy i =>
    match s i with
    | some _ => some (Function.update s i none)
    | none => none

/-- No object with a buffer claims more data than fits. -/
def Fits (s : Objects I) : Prop :=
  ∀ i w, s i = some w → w.data ≠ none → w.getDataLength ≤ w.getCapacity

/-- If the action is a move, its target has become what the source was. -/
def Carried (a : DataWrapAction I) (s s' : Objects I) : Prop :=
  ∀ target source, a = .moveConstruct target source ∨ a = .moveAssign target source →
    ∀ w w', s source = some w → s' target = some w' →
      w'.getCapacity = w.getCapacity ∧ w'.getDataLength = w.getDataLength ∧ w'.getData = w.getData

/-- What is asked of the objects after some actions. -/
structure MovesCarry (actions : List (DataWrapAction I)) (s : Objects I) : Prop where
  fits : s.Fits
  carried : ∀ before a s₀, actions = before ++ [a] → run step (fun _ => none) before = some s₀ →
    Carried a s₀ s

/-- The offset that a move leaves behind is the right one. -/
def KeepsOffset : DataWrapAction I → Objects I → Prop
  | .moveConstruct _ source, s => ∀ w, s source = some w → w.getDataLength = 0
  | .moveAssign target source, s => ∀ w other, s target = some w → s source = some other →
      w.getDataLength = other.getDataLength
  | _, _ => True

/-! ### One step -/

@[simp] theorem set_self (s : Objects I) (i : I) (w : DataWrap) : s.set i w i = some w :=
  Function.update_self ..

theorem set_of_ne (s : Objects I) {i j : I} (w : DataWrap) (h : j ≠ i) : s.set i w j = s j :=
  Function.update_of_ne h ..

theorem Fits.set {s : Objects I} (h : s.Fits) {i : I} {w : DataWrap}
    (hw : w.data ≠ none → w.offset ≤ w.length) : (s.set i w).Fits := by
  intro j w' hj hdata
  by_cases hji : j = i
  · rw [hji, set_self] at hj
    cases hj
    exact hw hdata
  · rw [set_of_ne s w hji] at hj
    exact h j w' hj hdata

variable {s s' : Objects I} {a : DataWrapAction I}

theorem step_moveConstruct {target source : I} (hstep : s.step (.moveConstruct target source) = some s') :
    ∃ other, s target = none ∧ s source = some other ∧
      s' = (s.set source other.moveConstruct.2).set target other.moveConstruct.1 := by
  cases htarget : s target with
  | some w => simp [step, htarget] at hstep
  | none =>
    cases hsource : s source with
    | none => simp [step, htarget, hsource] at hstep
    | some other =>
      simp only [step, htarget, hsource, Option.some.injEq] at hstep
      exact ⟨other, rfl, rfl, hstep.symm⟩

/-- A move assignment to the object itself does nothing. -/
theorem step_moveAssign {target source : I} (hstep : s.step (.moveAssign target source) = some s') :
    ∃ w other, s target = some w ∧ s source = some other ∧
      (target = source ∧ s' = s ∨ target ≠ source ∧
        s' = (s.set source (w.moveAssign other).2).set target (w.moveAssign other).1) := by
  cases htarget : s target with
  | none => simp [step, htarget] at hstep
  | some w =>
    cases hsource : s source with
    | none => simp [step, htarget, hsource] at hstep
    | some other =>
      simp only [step, htarget, hsource] at hstep
      refine ⟨w, other, rfl, rfl, ?_⟩
      by_cases hself : target = source
      · rw [if_pos hself] at hstep
        exact Or.inl ⟨hself, (Option.some.inj hstep).symm⟩
      · rw [if_neg hself] at hstep
        exact Or.inr ⟨hself, (Option.some.inj hstep).symm⟩

/-- What a move does, where it is one. -/
theorem carried_iff_keepsOffset (hstep : s.step a = some s') : Carried a s s' ↔ KeepsOffset a s := by
  cases a with
  | moveConstruct target source =>
    obtain ⟨other, -, hsource, rfl⟩ := step_moveConstruct hstep
    simp [Carried, KeepsOffset, hsource, DataWrap.moveConstruct, DataWrap.getCapacity,
      DataWrap.getDataLength, DataWrap.getData, eq_comm]
  | moveAssign target source =>
    obtain ⟨w, other, htarget, hsource, hs'⟩ := step_moveAssign hstep
    cases hs' with
    | inl hself =>
      obtain ⟨rfl, rfl⟩ := hself
      rw [htarget] at hsource
      cases hsource
      simp [Carried, KeepsOffset, htarget]
    | inr hother =>
      rw [hother.2]
      simp [Carried, KeepsOffset, htarget, hsource, DataWrap.moveAssign, DataWrap.getCapacity,
        DataWrap.getDataLength, DataWrap.getData]
  | construct i length => simp [Carried, KeepsOffset]
  | append i bytes => simp [Carried, KeepsOffset]
  | clear i => simp [Carried, KeepsOffset]
  | destroy i => simp [Carried, KeepsOffset]

theorem Fits.append (h : s.Fits) {i : I} {w : DataWrap} (hi : s i = some w) (bytes : List UInt8) :
    (s.set i (w.append bytes).1).Fits := by
  apply h.set
  intro hdata
  apply DataWrap.append_offset_le
  apply h i w hi
  intro hnone
  exact hdata (DataWrap.append_data_eq_none.2 hnone)

theorem Fits.destroy (h : s.Fits) (i : I) : Fits (Function.update s i none) := by
  intro j w hj
  by_cases hji : j = i
  · simp [hji] at hj
  · rw [Function.update_of_ne hji] at hj
    exact h j w hj

/-- With one offset for both, the two objects change places. -/
theorem Fits.moveAssign (h : s.Fits) {target source : I} {w other : DataWrap}
    (htarget : s target = some w) (hsource : s source = some other)
    (hsame : w.offset = other.offset) :
    ((s.set source (w.moveAssign other).2).set target (w.moveAssign other).1).Fits := by
  apply Fits.set
  · apply h.set
    intro hdata
    exact hsame ▸ h target w htarget hdata
  · intro hdata
    exact hsame.symm ▸ h source other hsource hdata

theorem Fits.step (h : s.Fits) (hstep : s.step a = some s') (hkeeps : KeepsOffset a s) :
    s'.Fits := by
  cases a with
  | construct i length =>
    cases hi : s i with
    | some w => simp [Objects.step, hi] at hstep
    | none =>
      simp only [Objects.step, hi, Option.some.injEq] at hstep
      exact hstep ▸ h.set fun _ => Nat.zero_le _
  | append i bytes =>
    cases hi : s i with
    | none => simp [Objects.step, hi] at hstep
    | some w =>
      simp only [Objects.step, hi, Option.ite_none_right_eq_some, Option.some.injEq] at hstep
      exact hstep.2 ▸ h.append hi bytes
  | clear i =>
    cases hi : s i with
    | none => simp [Objects.step, hi] at hstep
    | some w =>
      simp only [Objects.step, hi, Option.some.injEq] at hstep
      exact hstep ▸ h.set fun _ => Nat.zero_le _
  | moveConstruct target source =>
    obtain ⟨other, -, -, rfl⟩ := step_moveConstruct hstep
    apply Fits.set
    · exact h.set fun hdata => absurd rfl hdata
    · exact fun _ => Nat.zero_le _
  | moveAssign target source =>
    obtain ⟨w, other, htarget, hsource, hs'⟩ := step_moveAssign hstep
    cases hs' with
    | inl hself => exact hself.2 ▸ h
    | inr hother => exact hother.2 ▸ h.moveAssign htarget hsource (hkeeps w other htarget hsource)
  | destroy i =>
    cases hi : s i with
    | none => simp [Objects.step, hi] at hstep
    | some w =>
      simp only [Objects.step, hi, Option.some.injEq] at hstep
      exact hstep ▸ h.destroy i

/-! ### Runs -/

/-- Moves carry the content in all of a run if and only if no move constructor takes from an object
that holds data, and no move assignment joins two objects that hold different amounts of it. -/
theorem moves_carry_iff {actions : List (DataWrapAction I)} {s : Objects I}
    (hrun : run step (fun _ => none) actions = some s) :
    Always step (fun _ => none) MovesCarry actions ↔
      EachStep step (fun _ => none) KeepsOffset actions := by
  apply always_iff_eachStep _ _ hrun
  · refine ⟨?_, fun before a s₀ hactions => ?_⟩
    · intro i w hi
      simp at hi
    · simp at hactions
  · intro before a after s s' _ hbefore halways _ hstep
    constructor
    · intro h
      exact (carried_iff_keepsOffset hstep).1 (h.carried before a s rfl hbefore)
    · intro hkeeps
      refine ⟨(halways.last hbefore).fits.step hstep hkeeps, ?_⟩
      intro before' a' s₀ hactions hs₀
      obtain ⟨rfl, hlast⟩ := List.append_inj' hactions rfl
      obtain rfl : a = a' := by simpa using hlast
      obtain rfl : s = s₀ := Option.some.inj (hbefore.symm.trans hs₀)
      exact (carried_iff_keepsOffset hstep).2 hkeeps

/-- A buffer with data in it that is filled after the move. -/
theorem moves_carry_new : ∃ s : Objects Bool, run step (fun _ => none)
      [.construct false 10, .moveConstruct true false, .append true [65]] = some s ∧
    Always step (fun _ => none) MovesCarry
      [.construct false 10, .moveConstruct true false, .append true [65]] := by
  refine ⟨_, rfl, (moves_carry_iff rfl).2 ?_⟩
  rw [← List.nil_append [DataWrapAction.construct _ _, _, _], List.append_cons, List.append_cons,
    eachStep_concat, eachStep_concat, eachStep_concat]
  refine ⟨⟨⟨eachStep_nil, fun _ _ => trivial⟩, fun s hs => ?_⟩, fun _ _ => trivial⟩
  cases hs
  intro w hw
  cases hw
  rfl

/-- Eight bytes in a buffer of ten, and one of two is moved over it: eight bytes of data in a buffer
of two. -/
theorem moveAssign_leaves_offset : ∃ (s : Objects Bool) (w : DataWrap), run step (fun _ => none)
      [.construct false 10, .append false [84, 101, 115, 116, 83, 116, 114, 49], .construct true 2,
        .moveAssign false true] = some s ∧
    s false = some w ∧ w.data = some [0, 0] ∧ w.getCapacity = 2 ∧ w.getDataLength = 8 ∧
    ¬ s.Fits := by
  refine ⟨_, _, rfl, rfl, rfl, rfl, rfl, fun hfits => ?_⟩
  have hle := hfits false ⟨some [0, 0], 2, 8⟩ rfl (by simp)
  exact absurd hle (by decide)

end Objects

end LuPlatform.Crypto
