import LuPlatform.Common.FixedString

/-! What an assignment leaves of the value before it. `copy` writes the characters and nothing behind
them, `strncpy` pads up to the last byte but one, and neither writes the last. -/

namespace LuPlatform.Common.FixedString

variable {N : Nat} {fs fs' : FixedString N} {s : List UInt8}

/-- Both assignments, and the loading of a column value, leave the front of `s` and nothing else. -/
structure Replaces (fs : FixedString N) (s : List UInt8) : Prop where
  string : (fs.assignString s).bind toString = some (s.take N)
  cString : (fs.assignCString s).bind toString = some (s.take N)
  column : (fromBase s fs).bind toString = some (s.take N)

/-- Where the first bytes are those of `s`, it comes back if a NUL is behind them. -/
theorem toString_take_iff (hs : 0 ∉ s)
    (hbyte : ∀ i < min N s.length, fs.byte i = s.getD i 0) :
    fs.toString = some (s.take N) ↔ fs.byte (min N s.length) = 0 := by
  have hfree : 0 ∉ s.take N := fun h => hs (List.mem_of_mem_take h)
  have hnul : (s.take N).getD (min N s.length) 0 = 0 := by
    rw [getD_take]
    split
    · rw [List.getD_eq_getElem?_getD, List.getElem?_eq_none (by omega)]
      rfl
    · rfl
  rw [toString_eq_some_iff_byte, List.length_take]
  constructor
  · rintro ⟨_, _, h⟩
    rw [h _ le_rfl, hnul]
  · intro hlast
    refine ⟨hfree, Nat.min_le_left _ _, fun i hi => ?_⟩
    rcases Nat.lt_or_eq_of_le hi with hlt | rfl
    · rw [hbyte i hlt, getD_take, if_pos (by omega)]
    · rw [hlast, hnul]

theorem assignString_toString_iff (hs : 0 ∉ s) (fs : FixedString N) :
    (fs.assignString s).bind toString = some (s.take N) ↔ fs.byte (min N s.length) = 0 := by
  obtain ⟨fs', hfs', hbyte⟩ := byte_assignString fs s
  rw [hfs', Option.bind_some, toString_take_iff hs fun i hi => by rw [hbyte, if_pos hi], hbyte,
    if_neg (Nat.lt_irrefl _)]

/-- The padding ends before the last byte. -/
theorem assignCString_toString_iff (hs : 0 ∉ s) (fs : FixedString N) :
    (fs.assignCString s).bind toString = some (s.take N) ↔ s.length < N ∨ fs.byte N = 0 := by
  obtain ⟨fs', hfs', hbyte⟩ := byte_assignCString fs s
  rw [cString_of_not_mem hs] at hbyte
  rw [hfs', Option.bind_some, toString_take_iff hs fun i hi => by rw [hbyte, if_pos (by omega)], hbyte]
  rcases Nat.lt_or_ge s.length N with hlt | hge
  · rw [Nat.min_eq_right hlt.le, if_pos hlt, List.getD_eq_getElem?_getD, List.getElem?_eq_none le_rfl]
    simp [hlt]
  · rw [Nat.min_eq_left hge, if_neg (Nat.lt_irrefl N)]
    simp [Nat.not_lt.mpr hge]

/-- The value is replaced exactly when the byte behind the new one was a NUL before. -/
theorem replaces_iff (hs : 0 ∉ s) (fs : FixedString N) :
    fs.Replaces s ↔ fs.byte (min N s.length) = 0 := by
  constructor
  · intro h
    rw [← assignString_toString_iff hs]
    exact h.string
  · intro h
    have hstring := (assignString_toString_iff hs fs).mpr h
    refine ⟨hstring, ?_, hstring⟩
    rw [assignCString_toString_iff hs]
    rcases Nat.lt_or_ge s.length N with hlt | hge
    · exact .inl hlt
    · rw [Nat.min_eq_left hge] at h
      exact .inr h

def hello : FixedString 10 := ⟨[72, 101, 108, 108, 111, 0, 0, 0, 0, 0, 0], rfl⟩

/-- A longer value over a shorter one. -/
theorem replaces_iff_longer :
    hello.Replaces [71, 111, 111, 100, 98, 121, 101] ↔ hello.byte (min 10 7) = 0 :=
  replaces_iff (by decide) hello

/-- A shorter one keeps the tail: `Hello` becomes `Hillo`. -/
theorem replaces_keeps_tail :
    ¬ hello.Replaces [72, 105] ∧ (fromBase [72, 105] hello).bind toString = some [72, 105, 108, 108, 111] := by
  have hkeeps : (fromBase [72, 105] hello).bind toString = some [72, 105, 108, 108, 111] := by decide
  refine ⟨fun h => ?_, hkeeps⟩
  have hcolumn := h.column
  rw [hkeeps] at hcolumn
  exact absurd hcolumn (by decide)

end LuPlatform.Common.FixedString
