import Mathlib.Tactic.Common

/-! Decoders that ask for their input. In each state the decoder names how many items it needs
next, or that it has stopped; given exactly so many it moves on and emits events. Items arrive in
chunks and wait in a buffer until enough of them are there.

The one fact everything else rests on is `Feeds.append`: a decoder that was fed a chunk and is then
fed what it left over together with the next chunk does what it does on both at once. -/

namespace LuPlatform.Feed

structure Decoder (σ β ε : Type) where
  /-- How many items the state needs; `none` when the decoder has stopped. -/
  need : σ → Option Nat
  consume : σ → List β → σ × List ε

variable {σ β ε : Type} {D : Decoder σ β ε}

/-- Too few items are buffered for the state to move, or it has stopped. -/
def Decoder.Starved (D : Decoder σ β ε) (s : σ) (available : Nat) : Prop :=
  ∀ n, D.need s = some n → available < n

/-- `Feeds D s items events s' rest`: fed `items` in state `s`, the decoder emits `events` and
comes to rest in `s'` with `rest` still buffered. -/
inductive Feeds (D : Decoder σ β ε) : σ → List β → List ε → σ → List β → Prop where
  | starve {s : σ} {items : List β} : D.Starved s items.length → Feeds D s items [] s items
  | take {s s' : σ} {n : Nat} {items rest : List β} {events : List ε} :
      D.need s = some n → n ≤ items.length →
      Feeds D (D.consume s (items.take n)).1 (items.drop n) events s' rest →
      Feeds D s items ((D.consume s (items.take n)).2 ++ events) s' rest

/-- `Feeds.take` with the outcome of `consume` named. -/
theorem Feeds.step {s s₁ s' : σ} {n : Nat} {items rest : List β} {first events : List ε}
    (hn : D.need s = some n) (hle : n ≤ items.length)
    (hc : D.consume s (items.take n) = (s₁, first))
    (h : Feeds D s₁ (items.drop n) events s' rest) : Feeds D s items (first ++ events) s' rest := by
  have htake := Feeds.take hn hle (by rw [hc]; exact h)
  rwa [hc] at htake

/-- A state that is given exactly the items it needs, with more behind them. -/
theorem Feeds.given {s s₁ s' : σ} {items more rest : List β} {first events : List ε}
    (hn : D.need s = some items.length) (hc : D.consume s items = (s₁, first))
    (h : Feeds D s₁ more events s' rest) : Feeds D s (items ++ more) (first ++ events) s' rest :=
  Feeds.step hn (by simp) (by rwa [List.take_left]) (by rwa [List.drop_left])

theorem Feeds.silent {s s₁ s' : σ} {items more rest : List β} {events : List ε}
    (hn : D.need s = some items.length) (hc : D.consume s items = (s₁, []))
    (h : Feeds D s₁ more events s' rest) : Feeds D s (items ++ more) events s' rest :=
  Feeds.given hn hc h

/-- A decoder comes to rest in one way only. -/
theorem Feeds.unique {s s₁ s₂ : σ} {items r₁ r₂ : List β} {e₁ e₂ : List ε}
    (h₁ : Feeds D s items e₁ s₁ r₁) (h₂ : Feeds D s items e₂ s₂ r₂) :
    e₁ = e₂ ∧ s₁ = s₂ ∧ r₁ = r₂ := by
  induction h₁ generalizing e₂ with
  | starve hs =>
    cases h₂ with
    | starve _ => exact ⟨rfl, rfl, rfl⟩
    | take hn hle _ => exact absurd (hs _ hn) (by omega)
  | take hn hle _ ih =>
    cases h₂ with
    | starve hs => exact absurd (hs _ hn) (by omega)
    | take hn' _ h₂ =>
      rw [hn] at hn'
      obtain rfl := Option.some.inj hn'
      obtain ⟨he, hs, hr⟩ := ih h₂
      exact ⟨by rw [he], hs, hr⟩

theorem Feeds.starved {s s' : σ} {items rest : List β} {events : List ε}
    (h : Feeds D s items events s' rest) : D.Starved s' rest.length := by
  induction h with
  | starve hs => exact hs
  | take _ _ _ ih => exact ih

/-- Feeding in two pieces, the leftover put before the second, is feeding at once. -/
theorem Feeds.append {s s₁ s₂ : σ} {a b r₁ r₂ : List β} {e₁ e₂ : List ε}
    (h₁ : Feeds D s a e₁ s₁ r₁) (h₂ : Feeds D s₁ (r₁ ++ b) e₂ s₂ r₂) :
    Feeds D s (a ++ b) (e₁ ++ e₂) s₂ r₂ := by
  induction h₁ with
  | starve _ => exact h₂
  | @take s s' n items rest events hn hle _ ih =>
    have htake : items.take n = (items ++ b).take n := (List.take_append_of_le_length hle).symm
    have hdrop : items.drop n ++ b = (items ++ b).drop n := (List.drop_append_of_le_length hle).symm
    have hnext := ih h₂
    rw [hdrop, htake] at hnext
    rw [htake, List.append_assoc]
    exact .take hn (by simp only [List.length_append]; omega) hnext

/-- The rest of a run that has stopped for lack of items, once more of them are there. -/
theorem Feeds.resume {s s₁ s₂ : σ} {a b r₁ r₂ : List β} {e₁ e : List ε}
    (h₁ : Feeds D s a e₁ s₁ r₁) (h : Feeds D s (a ++ b) e s₂ r₂) :
    ∃ e₂, e = e₁ ++ e₂ ∧ Feeds D s₁ (r₁ ++ b) e₂ s₂ r₂ := by
  induction h₁ generalizing e with
  | starve _ => exact ⟨e, rfl, h⟩
  | @take s s' n items rest events hn hle _ ih =>
    cases h with
    | starve hs => exact absurd (hs _ hn) (by simp only [List.length_append]; omega)
    | take hn' _ h =>
      rw [hn] at hn'
      obtain rfl := Option.some.inj hn'
      rw [List.take_append_of_le_length hle, List.drop_append_of_le_length hle] at h
      obtain ⟨e₂, he, h₂⟩ := ih h
      exact ⟨e₂, by rw [he, List.take_append_of_le_length hle, List.append_assoc], h₂⟩

/-- What every `consume` preserves, a run preserves. -/
theorem Feeds.invariant {s s' : σ} {items rest : List β} {events : List ε} (P : σ → Prop)
    (consume : ∀ s n items, D.need s = some n → P s → P (D.consume s items).1)
    (h : Feeds D s items events s' rest) (hs : P s) : P s' := by
  induction h with
  | starve _ => exact hs
  | take hn _ _ ih => exact ih (consume _ _ _ hn hs)

end LuPlatform.Feed
