import Mathlib.Tactic.Common
import Mathlib.Data.List.TakeWhile

/-! `FixedString<N>`: the `N + 1` bytes of `m_buffer` and everything that writes to them. A write that
does not lie inside the buffer is `none`, and so is a conversion that finds no NUL there. -/

namespace LuPlatform.Common

structure FixedString (N : Nat) where
  m_buffer : List UInt8
  size_eq : m_buffer.length = N + 1
  deriving DecidableEq, Repr

/-- The characters that a C string shows of these bytes. -/
def cString (bytes : List UInt8) : List UInt8 := bytes.takeWhile (· != 0)

/-- The bytes that `std::strncpy(_, str, count)` writes. -/
def strncpy (str : List UInt8) (count : Nat) : List UInt8 :=
  (cString str).take count ++ List.replicate (count - (cString str).length) 0

@[simp] theorem length_strncpy (str : List UInt8) (count : Nat) :
    (strncpy str count).length = count := by
  rw [strncpy, List.length_append, List.length_take, List.length_replicate]
  omega

namespace FixedString

variable {N : Nat}

/-- The bytes from `position` on are overwritten. -/
def write (fs : FixedString N) (position : Nat) (bytes : List UInt8) : Option (FixedString N) :=
  if h : position + bytes.length ≤ N + 1 then
    some ⟨fs.m_buffer.take position ++ bytes ++ fs.m_buffer.drop (position + bytes.length), by
      have hsize := fs.size_eq
      simp only [List.length_append, List.length_take, List.length_drop]
      omega⟩
  else
    none

/-- A buffer as its initializer leaves it. -/
def empty : FixedString N := ⟨List.replicate (N + 1) 0, List.length_replicate⟩

/-! ### Constructors and assignments -/

def ofString (str : List UInt8) : Option (FixedString N) := do
  let fs ← empty.write 0 (str.take N)
  fs.write N [0]

def ofChar (c : UInt8) : Option (FixedString N) := do
  let fs ← empty.write 0 [c]
  fs.write 1 [0]

def ofCString (str : List UInt8) : Option (FixedString N) := do
  let fs ← empty.write 0 (strncpy str N)
  fs.write N [0]

def ofCStringSize (str : List UInt8) (size : BitVec 64) : Option (FixedString N) := do
  let fs ← empty.write 0 (strncpy str size.toNat)
  fs.write size.toNat [0]

/-- `operator=(const std::string&)`. -/
def assignString (fs : FixedString N) (str : List UInt8) : Option (FixedString N) :=
  fs.write 0 (str.take N)

/-- `operator=(const char*)`. -/
def assignCString (fs : FixedString N) (str : List UInt8) : Option (FixedString N) :=
  fs.write 0 (strncpy str N)

/-- A byte that was written has an index before the end of memory, and so has the one behind it. -/
def appendChar (fs : FixedString N) (c : UInt8) (position : BitVec 64) : Option (FixedString N) := do
  let fs ← fs.write position.toNat [c]
  fs.write (position.toNat + 1) [0]

def append (fs : FixedString N) (src : List UInt8) (startOffset size : BitVec 64) :
    Option (FixedString N) := do
  let fs ← fs.write startOffset.toNat (strncpy src size.toNat)
  fs.write (startOffset.toNat + size.toNat) [0]

/-! ### What is read -/

/-- `operator std::string`. -/
def toString (fs : FixedString N) : Option (List UInt8) :=
  if 0 ∈ fs.m_buffer then some (cString fs.m_buffer) else none

/-- `operator==` of two of them. -/
def equal (fs other : FixedString N) : Bool := fs.m_buffer == other.m_buffer

/-- All bytes go into the hash, whatever follows the string. -/
def hash (hasher : List UInt8 → Nat) (fs : FixedString N) : Nat := hasher fs.m_buffer

/-- The column value that is loaded into an object (`soci::type_conversion::from_base`). -/
def fromBase (str : List UInt8) (fs : FixedString N) : Option (FixedString N) := fs.assignString str

/-! ### Single bytes -/

/-- The byte at an index, 0 behind the buffer. -/
def byte (fs : FixedString N) (i : Nat) : UInt8 := fs.m_buffer.getD i 0

@[simp] theorem byte_empty (i : Nat) : (empty : FixedString N).byte i = 0 := by
  rw [byte, empty, List.getD_eq_getElem?_getD, List.getElem?_replicate]
  split <;> rfl

theorem write_eq_none {fs : FixedString N} {position : Nat} {bytes : List UInt8} :
    fs.write position bytes = none ↔ N + 1 < position + bytes.length := by
  unfold write
  split <;> simp <;> omega

theorem write_inside (fs : FixedString N) (position : Nat) (bytes : List UInt8)
    (h : position + bytes.length ≤ N + 1) : ∃ fs', fs.write position bytes = some fs' :=
  ⟨_, dif_pos h⟩

/-- A write changes the bytes it covers and no other. -/
theorem byte_write {fs fs' : FixedString N} {position : Nat} {bytes : List UInt8}
    (h : fs.write position bytes = some fs') (i : Nat) :
    fs'.byte i =
      if position ≤ i ∧ i < position + bytes.length then bytes.getD (i - position) 0 else fs.byte i := by
  unfold write at h
  split at h
  · obtain rfl := Option.some.inj h
    have hsize := fs.size_eq
    have hbefore : (fs.m_buffer.take position).length = position := by
      rw [List.length_take]
      omega
    simp only [byte, List.getD_eq_getElem?_getD, List.append_assoc]
    rcases Nat.lt_or_ge i position with hlt | hge
    · rw [List.getElem?_append_left (by omega), List.getElem?_take_of_lt hlt, if_neg (by omega)]
    rw [List.getElem?_append_right (by omega), hbefore]
    by_cases hin : i < position + bytes.length
    · rw [List.getElem?_append_left (by omega), if_pos ⟨hge, hin⟩]
    · rw [List.getElem?_append_right (by omega), List.getElem?_drop, if_neg (by omega)]
      congr 2
      omega
  · cases h

theorem cString_getD_eq_zero_iff (str : List UInt8) (i : Nat) :
    (cString str).getD i 0 = 0 ↔ (cString str).length ≤ i := by
  rw [List.getD_eq_getElem?_getD]
  constructor
  · intro h
    by_contra hlt
    have hne := List.mem_takeWhile_imp (List.getElem_mem (Nat.lt_of_not_le hlt))
    rw [List.getElem?_eq_getElem (Nat.lt_of_not_le hlt)] at h
    simp_all
  · intro h
    rw [List.getElem?_eq_none h]
    rfl

theorem cString_of_not_mem {str : List UInt8} (h : 0 ∉ str) : cString str = str := by
  rw [cString, List.takeWhile_eq_self_iff]
  intro b hb
  have hne : b ≠ 0 := fun heq => h (heq ▸ hb)
  simpa using hne

theorem getD_strncpy (str : List UInt8) (count i : Nat) :
    (strncpy str count).getD i 0 = if i < count then (cString str).getD i 0 else 0 := by
  simp only [strncpy, List.getD_eq_getElem?_getD]
  grind

/-! ### Writers -/

variable {fs fs' : FixedString N} {str : List UInt8}

/-- Bytes, and a NUL at `stop`. -/
theorem write_write (fs : FixedString N) (position stop : Nat) (bytes : List UInt8)
    (hbytes : position + bytes.length ≤ N + 1) (hstop : stop ≤ N) :
    ∃ fs', ((fs.write position bytes).bind fun fs => fs.write stop [0]) = some fs' ∧
      ∀ i, fs'.byte i =
        if i = stop then 0
        else if position ≤ i ∧ i < position + bytes.length then bytes.getD (i - position) 0
        else fs.byte i := by
  obtain ⟨fs₁, h₁⟩ := fs.write_inside position bytes hbytes
  obtain ⟨fs₂, h₂⟩ := fs₁.write_inside stop [0] (Nat.succ_le_succ hstop)
  refine ⟨fs₂, by rw [h₁, Option.bind_some, h₂], fun i => ?_⟩
  rw [byte_write h₂, byte_write h₁]
  by_cases hi : i = stop
  · simp [hi]
  · rw [if_neg hi, if_neg]
    simp only [List.length_cons, List.length_nil]
    omega

theorem write_write_none {position stop : Nat} {bytes : List UInt8} (hstop : N < stop)
    (fs : FixedString N) : ((fs.write position bytes).bind fun fs => fs.write stop [0]) = none := by
  rw [Option.bind_eq_none_iff]
  intro fs₁ _
  rw [write_eq_none]
  simpa using hstop

theorem getD_take (str : List UInt8) (count i : Nat) :
    (str.take count).getD i 0 = if i < count then str.getD i 0 else 0 := by
  simp only [List.getD_eq_getElem?_getD, List.getElem?_take]
  split <;> rfl

theorem byte_ofString (str : List UInt8) :
    ∃ fs : FixedString N, ofString str = some fs ∧
      ∀ i, fs.byte i = if i < N then str.getD i 0 else 0 := by
  obtain ⟨fs, hfs, hbyte⟩ := (empty : FixedString N).write_write 0 N (str.take N) (by rw [List.length_take]; omega) le_rfl
  refine ⟨fs, hfs, fun i => ?_⟩
  rw [hbyte, getD_take, byte_empty, List.length_take]
  grind

theorem byte_ofChar (hN : 1 ≤ N) (c : UInt8) :
    ∃ fs : FixedString N, ofChar c = some fs ∧ ∀ i, fs.byte i = if i = 0 then c else 0 := by
  obtain ⟨fs, hfs, hbyte⟩ := (empty : FixedString N).write_write 0 1 [c] (by simp) hN
  refine ⟨fs, hfs, fun i => ?_⟩
  rw [hbyte, byte_empty]
  cases i <;> simp

theorem byte_ofCStringSize {size : BitVec 64} (hsize : size.toNat ≤ N) (str : List UInt8) :
    ∃ fs : FixedString N, ofCStringSize str size = some fs ∧
      ∀ i, fs.byte i = if i < size.toNat then (cString str).getD i 0 else 0 := by
  obtain ⟨fs, hfs, hbyte⟩ := (empty : FixedString N).write_write 0 size.toNat
    (strncpy str size.toNat) (by rw [length_strncpy]; omega) hsize
  refine ⟨fs, hfs, fun i => ?_⟩
  rw [hbyte, getD_strncpy, byte_empty, length_strncpy]
  grind

theorem byte_ofCString (str : List UInt8) :
    ∃ fs : FixedString N, ofCString str = some fs ∧
      ∀ i, fs.byte i = if i < N then (cString str).getD i 0 else 0 := by
  obtain ⟨fs, hfs, hbyte⟩ := (empty : FixedString N).write_write 0 N (strncpy str N)
    (by rw [length_strncpy]; omega) le_rfl
  refine ⟨fs, hfs, fun i => ?_⟩
  rw [hbyte, getD_strncpy, byte_empty, length_strncpy]
  grind

theorem byte_assignString (fs : FixedString N) (str : List UInt8) :
    ∃ fs', fs.assignString str = some fs' ∧
      ∀ i, fs'.byte i = if i < min N str.length then str.getD i 0 else fs.byte i := by
  obtain ⟨fs', hfs'⟩ := fs.write_inside 0 (str.take N) (by rw [List.length_take]; omega)
  refine ⟨fs', hfs', fun i => ?_⟩
  rw [byte_write hfs', getD_take, List.length_take]
  grind

theorem byte_assignCString (fs : FixedString N) (str : List UInt8) :
    ∃ fs', fs.assignCString str = some fs' ∧
      ∀ i, fs'.byte i = if i < N then (cString str).getD i 0 else fs.byte i := by
  obtain ⟨fs', hfs'⟩ := fs.write_inside 0 (strncpy str N) (by rw [length_strncpy]; omega)
  refine ⟨fs', hfs', fun i => ?_⟩
  rw [byte_write hfs', getD_strncpy, length_strncpy]
  grind

theorem byte_appendChar {position : BitVec 64} (hposition : position.toNat < N) (fs : FixedString N)
    (c : UInt8) :
    ∃ fs', fs.appendChar c position = some fs' ∧
      ∀ i, fs'.byte i =
        if i = position.toNat then c else if i = position.toNat + 1 then 0 else fs.byte i := by
  obtain ⟨fs', hfs', hbyte⟩ := fs.write_write position.toNat (position.toNat + 1) [c]
    (by simpa using hposition.le) hposition
  refine ⟨fs', hfs', fun i => ?_⟩
  rw [hbyte]
  simp only [List.length_cons, List.length_nil]
  by_cases hi : i = position.toNat
  · simp [hi]
  · grind

theorem byte_append {startOffset size : BitVec 64} (hsize : startOffset.toNat + size.toNat ≤ N)
    (fs : FixedString N) (src : List UInt8) :
    ∃ fs', fs.append src startOffset size = some fs' ∧
      ∀ i, fs'.byte i =
        if i = startOffset.toNat + size.toNat then 0
        else if startOffset.toNat ≤ i ∧ i < startOffset.toNat + size.toNat then
          (cString src).getD (i - startOffset.toNat) 0
        else fs.byte i := by
  obtain ⟨fs', hfs', hbyte⟩ := fs.write_write startOffset.toNat (startOffset.toNat + size.toNat)
    (strncpy src size.toNat) (by rw [length_strncpy]; omega) hsize
  refine ⟨fs', hfs', fun i => ?_⟩
  rw [hbyte, getD_strncpy, length_strncpy]
  grind

/-! ### Conversion -/

theorem cString_append_nul {s : List UInt8} (hs : 0 ∉ s) (rest : List UInt8) :
    cString (s ++ 0 :: rest) = s := by
  have hself : s.takeWhile (· != 0) = s := cString_of_not_mem hs
  rw [cString, List.takeWhile_append, hself, if_pos rfl, List.takeWhile_cons]
  simp

theorem toString_eq_some_iff {s : List UInt8} :
    fs.toString = some s ↔ 0 ∉ s ∧ s ++ [0] <+: fs.m_buffer := by
  unfold toString
  constructor
  · intro h
    split at h
    · rename_i hnul
      obtain rfl := Option.some.inj h
      have hfree : 0 ∉ cString fs.m_buffer := fun hmem => by simpa using List.mem_takeWhile_imp hmem
      refine ⟨hfree, ?_⟩
      have hsplit : cString fs.m_buffer ++ fs.m_buffer.dropWhile (· != 0) = fs.m_buffer :=
        List.takeWhile_append_dropWhile
      cases hrest : fs.m_buffer.dropWhile (· != 0) with
      | nil =>
        rw [hrest, List.append_nil] at hsplit
        rw [hsplit] at hfree
        exact absurd hnul hfree
      | cons b rest =>
        have hb := List.head?_dropWhile_not (· != 0) fs.m_buffer
        rw [hrest] at hb hsplit
        obtain rfl : b = 0 := by simpa using hb
        exact ⟨rest, by rw [List.append_assoc]; exact hsplit⟩
    · cases h
  · rintro ⟨hs, rest, hbuffer⟩
    rw [List.append_assoc, List.singleton_append] at hbuffer
    rw [← hbuffer, cString_append_nul hs]
    simp

/-- A string comes back where its characters and a NUL behind them stand in front. -/
theorem toString_eq_some_iff_byte {s : List UInt8} :
    fs.toString = some s ↔ 0 ∉ s ∧ s.length ≤ N ∧ ∀ i ≤ s.length, fs.byte i = s.getD i 0 := by
  have hsize := fs.size_eq
  have hlast : ∀ i ≤ s.length, (s ++ [0])[i]? = some (s.getD i 0) := by
    intro i hi
    rcases Nat.lt_or_eq_of_le hi with hlt | rfl
    · rw [List.getElem?_append_left hlt, List.getD_eq_getElem?_getD, List.getElem?_eq_getElem hlt]
      rfl
    · simp
  rw [toString_eq_some_iff, List.prefix_iff_getElem?]
  refine and_congr_right fun _ => ⟨fun h => ⟨?_, fun i hi => ?_⟩, ?_⟩
  · have hlength := h s.length (by simp)
    have hinside := (List.getElem?_eq_some_iff.mp hlength).1
    omega
  · have hbyte := h i (by simpa using Nat.lt_succ_of_le hi)
    rw [← List.getElem?_eq_getElem, hlast i hi] at hbyte
    rw [byte, List.getD_eq_getElem?_getD, hbyte]
    rfl
  · rintro ⟨hlength, h⟩ i hi
    have hle : i ≤ s.length := Nat.le_of_lt_succ (by simpa using hi)
    have hbyte := h i hle
    rw [← List.getElem?_eq_getElem, hlast i hle, ← hbyte, byte, List.getD_eq_getElem?_getD,
      List.getElem?_eq_getElem (by omega)]
    rfl

end FixedString

end LuPlatform.Common
