import Mathlib.Data.List.Basic
import LuPlatform.Library.TransitionSystem

/-! Threads that take locks as they run. Where every thread asks only for locks above those it holds
no thread waits for itself and no threads wait for one another in a ring. A discipline on the code
of the threads makes this so: what a command unfolds to has to fit the locks held when it runs. -/

namespace LuPlatform.LockOrder

open Transition TransitionSystem

section Order

variable {θ Λ : Type} (holds requests : θ → Λ → Prop)

/-- The first thread asks for a lock that the second one has. -/
def Waits (t t' : θ) : Prop := ∃ l, requests t l ∧ holds t' l

def Ordered (rank : Λ → Nat) : Prop :=
  ∀ t l l', holds t l → requests t l' → rank l < rank l'

variable {holds requests} {rank : Λ → Nat}

theorem Ordered.rank_le (h : Ordered holds requests rank) {t t' : θ}
    (hwaits : Relation.TransGen (Waits holds requests) t t') :
    ∃ l l', requests t l ∧ holds t' l' ∧ rank l ≤ rank l' := by
  induction hwaits with
  | single hwaits =>
    obtain ⟨l, hrequests, hholds⟩ := hwaits
    exact ⟨l, l, hrequests, hholds, Nat.le_refl _⟩
  | tail _ hwaits ih =>
    obtain ⟨l, l', hrequests, hholds, hle⟩ := ih
    obtain ⟨next, hnext, hheld⟩ := hwaits
    exact ⟨l, next, hrequests, hheld, Nat.le_trans hle (Nat.le_of_lt (h _ _ _ hholds hnext))⟩

/-- Nobody waits for himself, directly or through others. -/
theorem Ordered.no_ring (h : Ordered holds requests rank) (t : θ) :
    ¬ Relation.TransGen (Waits holds requests) t t := by
  intro hring
  obtain ⟨l, l', hrequests, hholds, hle⟩ := h.rank_le hring
  exact absurd (h t l' l hholds hrequests) (Nat.not_lt.2 hle)

end Order

/-- What a thread has still to do: take and leave locks, and run commands that may unfold. -/
inductive Instr (Λ κ : Type) where
  | lock (l : Λ)
  | unlock (l : Λ)
  | run (c : κ)
  deriving DecidableEq

structure LockThread (Λ κ : Type) where
  code : List (Instr Λ κ)
  held : List Λ := []
  deriving DecidableEq

structure LockState (σ Λ κ : Type) where
  data : σ
  threads : List (LockThread Λ κ) := []

/-- What a command makes of the data, what it unfolds to, and the threads that it starts. -/
structure Effect (σ Λ κ : Type) where
  data : σ
  code : List (Instr Λ κ) := []
  started : List (List (Instr Λ κ)) := []

namespace LockState

variable {σ Λ κ : Type} [DecidableEq Λ]

def Holds (s : LockState σ Λ κ) (i : Nat) (l : Λ) : Prop := ∃ t, s.threads[i]? = some t ∧ l ∈ t.held

def Requests (s : LockState σ Λ κ) (i : Nat) (l : Λ) : Prop :=
  ∃ t code, s.threads[i]? = some t ∧ t.code = .lock l :: code

/-- One instruction of a thread. A lock can be taken when no thread holds it. -/
def advance (exec : Nat → κ → σ → Effect σ Λ κ) (s : LockState σ Λ κ) (i : Nat) :
    Option (LockState σ Λ κ) :=
  match s.threads[i]? with
  | some ⟨.lock l :: code, held⟩ =>
    if ∀ t ∈ s.threads, l ∉ t.held then
      some { s with threads := s.threads.set i ⟨code, l :: held⟩ }
    else
      none
  | some ⟨.unlock l :: code, held⟩ =>
    some { s with threads := s.threads.set i ⟨code, held.erase l⟩ }
  | some ⟨.run c :: code, held⟩ =>
    some
      { data := (exec i c s.data).data
        threads := s.threads.set i ⟨(exec i c s.data).code ++ code, held⟩ ++
          (exec i c s.data).started.map (⟨·, []⟩) }
  | _ => none

/-- The command that a thread comes to next meets a condition. -/
def NextMeets (allowed : κ → σ → Prop) (s : LockState σ Λ κ) (i : Nat) : Prop :=
  ∀ c code held, s.threads[i]? = some ⟨.run c :: code, held⟩ → allowed c s.data

/-- A thread starts at one of the entries, or goes on. -/
inductive Step (entry : List (Instr Λ κ) → Prop) (exec : Nat → κ → σ → Effect σ Λ κ)
    (allowed : κ → σ → Prop) (s : LockState σ Λ κ) : LockState σ Λ κ → Prop
  | start {code : List (Instr Λ κ)} (h : entry code) :
      Step entry exec allowed s { s with threads := s.threads ++ [⟨code, []⟩] }
  | advance {s' : LockState σ Λ κ} {i : Nat} (hmeets : s.NextMeets allowed i)
      (h : s.advance exec i = some s') : Step entry exec allowed s s'

/-- The system that starts with no threads. -/
def system (entry : List (Instr Λ κ) → Prop) (exec : Nat → κ → σ → Effect σ Λ κ)
    (allowed : κ → σ → Prop) (start : σ) : TransitionSystem (LockState σ Λ κ) where
  Initial s := s = ⟨start, []⟩
  Step := Step entry exec allowed

/-- A schedule: code that a new thread starts with, or the thread that goes on. -/
def runSchedule (exec : Nat → κ → σ → Effect σ Λ κ) (s : LockState σ Λ κ) :
    List (List (Instr Λ κ) ⊕ Nat) → Option (LockState σ Λ κ)
  | [] => some s
  | .inl code :: schedule =>
    runSchedule exec { s with threads := s.threads ++ [⟨code, []⟩] } schedule
  | .inr i :: schedule => (s.advance exec i).bind (runSchedule exec · schedule)

theorem reachable_of_runSchedule {entry : List (Instr Λ κ) → Prop}
    {exec : Nat → κ → σ → Effect σ Λ κ} {start : σ} {s s' : LockState σ Λ κ}
    (hs : (system entry exec (fun _ _ => True) start).Reachable s)
    {schedule : List (List (Instr Λ κ) ⊕ Nat)} (hentry : ∀ code, .inl code ∈ schedule → entry code)
    (h : runSchedule exec s schedule = some s') :
    (system entry exec (fun _ _ => True) start).Reachable s' := by
  induction schedule generalizing s with
  | nil => exact Option.some.inj h ▸ hs
  | cons move schedule ih =>
    have hrest := fun code hcode => hentry code (List.mem_cons_of_mem move hcode)
    cases move with
    | inl code =>
      exact ih (hs.reaches (.step (.refl s) (.start (hentry code List.mem_cons_self)))) hrest h
    | inr i =>
      obtain ⟨next, hadvance, hrun⟩ := Option.bind_eq_some_iff.1 h
      exact ih (hs.reaches (.step (.refl s) (.advance (fun _ _ _ _ => trivial) hadvance))) hrest hrun

end LockState

section Discipline

variable {σ Λ κ : Type} [DecidableEq Λ] (rank : Λ → Nat) (Ok : List Λ → κ → Prop)

/-- Code that may run with some locks held, and the locks held behind it. -/
def Fits : List Λ → List (Instr Λ κ) → List Λ → Prop
  | held, [], last => held = last
  | held, .lock l :: code, last => (∀ l' ∈ held, rank l' < rank l) ∧ Fits (l :: held) code last
  | held, .unlock l :: code, last => Fits (held.erase l) code last
  | held, .run c :: code, last => Ok held c ∧ Fits held code last

variable {rank Ok}

theorem Fits.append {held middle last : List Λ} {code code' : List (Instr Λ κ)}
    (h : Fits rank Ok held code middle) (h' : Fits rank Ok middle code' last) :
    Fits rank Ok held (code ++ code') last := by
  induction code generalizing held with
  | nil =>
    obtain rfl : held = middle := h
    exact h'
  | cons instr code ih =>
    cases instr with
    | lock l => exact ⟨h.1, ih h.2⟩
    | unlock l => exact ih h
    | run c => exact ⟨h.1, ih h.2⟩

variable (rank Ok) in
/-- Threads start with code that fits, and commands unfold to code that fits where they stood. -/
structure Disciplined (entry : List (Instr Λ κ) → Prop) (exec : Nat → κ → σ → Effect σ Λ κ)
    (allowed : κ → σ → Prop) : Prop where
  entries : ∀ code, entry code → Fits rank Ok [] code []
  unfolds : ∀ i c data held, Ok held c → allowed c data → Fits rank Ok held (exec i c data).code held
  starts : ∀ i c data, ∀ code ∈ (exec i c data).started, Fits rank Ok [] code []

variable {entry : List (Instr Λ κ) → Prop} {exec : Nat → κ → σ → Effect σ Λ κ}
variable {allowed : κ → σ → Prop}

theorem Disciplined.step (h : Disciplined rank Ok entry exec allowed) {s s' : LockState σ Λ κ}
    (hs : ∀ t ∈ s.threads, Fits rank Ok t.held t.code [])
    (hstep : LockState.Step entry exec allowed s s') :
    ∀ t ∈ s'.threads, Fits rank Ok t.held t.code [] := by
  have hset : ∀ {i : Nat} {u : LockThread Λ κ}, Fits rank Ok u.held u.code [] →
      ∀ t ∈ s.threads.set i u, Fits rank Ok t.held t.code [] := by
    intro i u hu t ht
    rcases List.mem_or_eq_of_mem_set ht with ht | rfl
    · exact hs t ht
    · exact hu
  cases hstep with
  | start hentry =>
    intro t ht
    rcases List.mem_append.1 ht with ht | ht
    · exact hs t ht
    · rw [List.mem_singleton.1 ht]
      exact h.entries _ hentry
  | advance hmeets hadvance =>
    rename_i i
    unfold LockState.advance at hadvance
    split at hadvance
    · rename_i l code held ht
      have hfits := hs _ (List.mem_of_getElem? ht)
      simp only [Option.ite_none_right_eq_some, Option.some.injEq] at hadvance
      obtain ⟨-, rfl⟩ := hadvance
      exact hset hfits.2
    · rename_i l code held ht
      have hfits := hs _ (List.mem_of_getElem? ht)
      obtain rfl := Option.some.inj hadvance
      exact hset hfits
    · rename_i c code held ht
      have hfits := hs _ (List.mem_of_getElem? ht)
      obtain rfl := Option.some.inj hadvance
      intro t ht'
      rcases List.mem_append.1 ht' with ht' | ht'
      · exact hset ((h.unfolds i c s.data held hfits.1 (hmeets c code held ht)).append hfits.2) t ht'
      · obtain ⟨started, hstarted, rfl⟩ := List.mem_map.1 ht'
        exact h.starts i c s.data started hstarted
    · exact absurd hadvance (by simp)

/-- Under a discipline locks are only asked for in order. -/
theorem Disciplined.ordered (h : Disciplined rank Ok entry exec allowed) {start : σ}
    {s : LockState σ Λ κ} (hs : (LockState.system entry exec allowed start).Reachable s) :
    Ordered s.Holds s.Requests rank := by
  have hfits : ∀ t ∈ s.threads, Fits rank Ok t.held t.code [] := by
    refine Reachable.invariant (I := fun s : LockState σ Λ κ =>
      ∀ t ∈ s.threads, Fits rank Ok t.held t.code []) ?_ ?_ hs
    · rintro s rfl
      exact fun t ht => absurd ht List.not_mem_nil
    · exact fun s s' _ hs hstep => h.step hs hstep
  rintro i l l' ⟨t, ht, hholds⟩ ⟨t', code, ht', hcode⟩
  obtain rfl : t = t' := Option.some.inj (ht.symm.trans ht')
  have ht := hfits t (List.mem_of_getElem? ht)
  rw [hcode] at ht
  exact ht.1 l hholds

end Discipline

end LuPlatform.LockOrder
