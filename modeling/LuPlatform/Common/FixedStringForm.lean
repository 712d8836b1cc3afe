import LuPlatform.Common.FixedString

/-! The form that comparing and hashing rely on: behind the first NUL there are only NULs. Each writer
fills a part of the buffer and leaves the rest as it was, so that it takes the right arguments for what
the buffer holds to keep the form. A copy has the bytes, and the history, of what it is copied from. -/

namespace LuPlatform.Common.FixedString

variable {N : Nat} {fs fs' : FixedString N}

structure Canonical (fs : FixedString N) : Prop where
  last : fs.byte N = 0
  padded : ∀ i j, i ≤ j → j ≤ N → fs.byte i = 0 → fs.byte j = 0

/-- How many characters are before the first NUL. -/
def length (fs : FixedString N) : Nat := (cString fs.m_buffer).length

theorem toString_of_byte_eq_zero {i : Nat} (hi : i ≤ N) (h : fs.byte i = 0) :
    fs.toString = some (cString fs.m_buffer) := by
  apply if_pos
  have hinside : i < fs.m_buffer.length := by
    rw [fs.size_eq]
    omega
  rw [byte, List.getD_eq_getElem?_getD, List.getElem?_eq_getElem hinside] at h
  exact List.mem_of_getElem h

theorem Canonical.byte_eq_zero_iff (h : fs.Canonical) {i : Nat} (hi : i ≤ N) :
    fs.byte i = 0 ↔ fs.length ≤ i := by
  have hstring := toString_of_byte_eq_zero le_rfl h.last
  rw [toString_eq_some_iff_byte] at hstring
  obtain ⟨_, hlength, hbyte⟩ := hstring
  constructor
  · intro hzero
    by_contra hlt
    rw [hbyte i (Nat.le_of_not_le hlt), cString_getD_eq_zero_iff] at hzero
    exact hlt hzero
  · intro hle
    apply h.padded fs.length i hle hi
    rw [length, hbyte _ le_rfl, cString_getD_eq_zero_iff]

theorem Canonical.length_le (h : fs.Canonical) : fs.length ≤ N :=
  (h.byte_eq_zero_iff le_rfl).mp h.last

/-- The zero bytes are those from some index on. -/
theorem canonical_of_byte {k : Nat} (hk : k ≤ N) (h : ∀ i ≤ N, fs.byte i = 0 ↔ k ≤ i) :
    fs.Canonical := by
  refine ⟨(h N le_rfl).mpr hk, fun i j hij hj hi => ?_⟩
  rw [h i (hij.trans hj)] at hi
  rw [h j hj]
  exact hi.trans hij

/-! ### Comparing -/

theorem eq_of_byte (h : ∀ i ≤ N, fs.byte i = fs'.byte i) : fs = fs' := by
  have hbuffer : fs.m_buffer = fs'.m_buffer := by
    apply List.ext_getElem (fs.size_eq.trans fs'.size_eq.symm)
    intro i hi hi'
    have hinside := fs.size_eq
    have hbyte := h i (by omega)
    simpa [byte, List.getD_eq_getElem?_getD, hi, hi'] using hbyte
  cases fs
  cases fs'
  congr

theorem Canonical.toString_eq (h : fs.Canonical) : fs.toString = some (cString fs.m_buffer) :=
  toString_of_byte_eq_zero le_rfl h.last

/-- The string determines the bytes. -/
theorem Canonical.eq_of_toString (h : fs.Canonical) (h' : fs'.Canonical)
    (heq : fs.toString = fs'.toString) : fs = fs' := by
  have hstring := h.toString_eq
  have hstring' := h'.toString_eq
  have hsame : cString fs.m_buffer = cString fs'.m_buffer := by
    rw [hstring, hstring'] at heq
    exact Option.some.inj heq
  rw [toString_eq_some_iff_byte] at hstring hstring'
  apply eq_of_byte
  intro i hi
  rcases Nat.lt_or_ge i fs.length with hlt | hge
  · rw [hstring.2.2 i hlt.le, hstring'.2.2 i (hsame ▸ hlt.le), hsame]
  · rw [(h.byte_eq_zero_iff hi).mpr hge, (h'.byte_eq_zero_iff hi).mpr]
    rwa [length, ← hsame]

theorem Canonical.compares (h : fs.Canonical) (h' : fs'.Canonical) (hasher : List UInt8 → Nat) :
    fs.equal fs' = true ∧ fs.hash hasher = fs'.hash hasher ↔ fs.toString = fs'.toString := by
  constructor
  · rintro ⟨hequal, _⟩
    have hbuffer : fs.m_buffer = fs'.m_buffer := by simpa [equal] using hequal
    rw [toString, toString, hbuffer]
  · intro heq
    rw [h.eq_of_toString h' heq]
    exact ⟨by simp [equal], rfl⟩

/-! ### Constructors and writers -/

inductive Constructor where
  | default
  | string (str : List UInt8)
  | char (c : UInt8)
  | cString (str : List UInt8)
  | cStringSize (str : List UInt8) (size : BitVec 64)
  deriving DecidableEq, Repr

inductive Writer where
  | assignString (str : List UInt8)
  | assignCString (str : List UInt8)
  | appendChar (c : UInt8) (position : BitVec 64)
  | append (src : List UInt8) (startOffset size : BitVec 64)
  deriving DecidableEq, Repr

def Constructor.construct : Constructor → Option (FixedString N)
  | .default => some empty
  | .string str => ofString str
  | .char c => ofChar c
  | .cString str => ofCString str
  | .cStringSize str size => ofCStringSize str size

def Writer.write : Writer → FixedString N → Option (FixedString N)
  | .assignString str, fs => fs.assignString str
  | .assignCString str, fs => fs.assignCString str
  | .appendChar c position, fs => fs.appendChar c position
  | .append src startOffset size, fs => fs.append src startOffset size

/-- What a constructor asserts. -/
def Constructor.Asserts (N : Nat) : Constructor → Prop
  | .cStringSize _ size => size.toNat ≤ N
  | _ => True

/-- What a writer asserts. The sum of an offset and a size wraps around. -/
def Writer.Asserts (N : Nat) : Writer → Prop
  | .appendChar _ position => position.toNat ≤ N
  | .append _ startOffset size => startOffset.toNat < N ∧ (startOffset + size).toNat ≤ N
  | _ => True

/-- Behind a NUL there are only NULs. -/
def Padded (bytes : List UInt8) : Prop :=
  ∀ i j, i ≤ j → j < bytes.length → bytes.getD i 0 = 0 → bytes.getD j 0 = 0

/-- The arguments with which a constructor leaves the form. -/
def Constructor.Restores (N : Nat) : Constructor → Prop
  | .string str => Padded (str.take N)
  | _ => True

/-- The arguments with which a writer keeps the form of what the buffer holds. -/
def Writer.Restores (fs : FixedString N) : Writer → Prop
  | .assignString str =>
    Padded (str.take N) ∧ (0 ∈ str.take N → fs.length ≤ min N str.length)
  | .assignCString _ => True
  | .appendChar c position =>
    position.toNat < N ∧ fs.length ≤ position.toNat + 2 ∧ (c ≠ 0 → position.toNat ≤ fs.length)
  | .append src startOffset size =>
    startOffset.toNat + size.toNat ≤ N ∧ fs.length ≤ startOffset.toNat + size.toNat + 1 ∧
      (min (Common.cString src).length size.toNat ≠ 0 → startOffset.toNat ≤ fs.length)

/-- The call stays inside the buffer and leaves the form. -/
def Leaves (result : Option (FixedString N)) : Prop := ∃ fs, result = some fs ∧ fs.Canonical

theorem leaves_some_iff : Leaves (some fs) ↔ fs.Canonical := by
  simp [Leaves]

/-- Only NULs are read behind a list. -/
theorem Padded.getD {bytes : List UInt8} (h : Padded bytes) {i j : Nat} (hij : i ≤ j)
    (hi : bytes.getD i 0 = 0) : bytes.getD j 0 = 0 := by
  rcases Nat.lt_or_ge j bytes.length with hlt | hge
  · exact h i j hij hlt hi
  · rw [List.getD_eq_getElem?_getD, List.getElem?_eq_none hge]
    rfl

theorem nul_mem_iff {bytes : List UInt8} : 0 ∈ bytes ↔ ∃ i < bytes.length, bytes.getD i 0 = 0 := by
  rw [List.mem_iff_getElem]
  constructor
  · rintro ⟨i, hi, hzero⟩
    exact ⟨i, hi, by simp [hi, hzero]⟩
  · rintro ⟨i, hi, hzero⟩
    exact ⟨i, hi, by simpa [hi] using hzero⟩

theorem ofString_leaves_iff (str : List UInt8) :
    Leaves (ofString str : Option (FixedString N)) ↔ Padded (str.take N) := by
  obtain ⟨fs, hfs, hbyte⟩ := byte_ofString (N := N) str
  have hfront : ∀ i, fs.byte i = (str.take N).getD i 0 := by
    intro i
    rw [hbyte, getD_take]
  rw [hfs, leaves_some_iff]
  constructor
  · intro h i j hij hj hi
    rw [← hfront] at hi ⊢
    rw [List.length_take] at hj
    exact h.padded i j hij (by omega) hi
  · intro h
    refine ⟨by rw [hbyte, if_neg (Nat.lt_irrefl N)], fun i j hij _ hi => ?_⟩
    rw [hfront] at hi ⊢
    exact h.getD hij hi

theorem ofChar_leaves (hN : 1 ≤ N) (c : UInt8) : Leaves (ofChar c : Option (FixedString N)) := by
  obtain ⟨fs, hfs, hbyte⟩ := byte_ofChar hN c
  refine ⟨fs, hfs, ?_⟩
  by_cases hc : c = 0
  · apply canonical_of_byte (Nat.zero_le N)
    simp [hbyte, hc]
  · apply canonical_of_byte hN
    intro i _
    rw [hbyte]
    grind

/-- The characters of a C string that fit, and NULs. -/
theorem canonical_of_cString (str : List UInt8) {size : Nat} (hsize : size ≤ N)
    (hbyte : ∀ i ≤ N, fs.byte i = if i < size then (cString str).getD i 0 else 0) : fs.Canonical := by
  apply canonical_of_byte ((Nat.min_le_left size (cString str).length).trans hsize)
  intro i hi
  have hzero := cString_getD_eq_zero_iff str i
  rw [hbyte i hi]
  grind

theorem construct_leaves_iff (hN : 1 ≤ N) {c : Constructor} (hasserts : c.Asserts N) :
    Leaves (c.construct : Option (FixedString N)) ↔ c.Restores N := by
  cases c with
  | default =>
    refine iff_of_true ⟨empty, rfl, ?_⟩ trivial
    apply canonical_of_byte (Nat.zero_le N)
    simp
  | string str => exact ofString_leaves_iff str
  | char c => exact iff_of_true (ofChar_leaves hN c) trivial
  | cString str =>
    obtain ⟨fs, hfs, hbyte⟩ := byte_ofCString (N := N) str
    exact iff_of_true ⟨fs, hfs, canonical_of_cString str le_rfl fun i _ => hbyte i⟩ trivial
  | cStringSize str size =>
    obtain ⟨fs, hfs, hbyte⟩ := byte_ofCStringSize hasserts str
    exact iff_of_true ⟨fs, hfs, canonical_of_cString str hasserts fun i _ => hbyte i⟩ trivial

/-! ### Writers of a buffer that has the form -/

theorem Canonical.assignString_leaves_iff (h : fs.Canonical) (str : List UInt8) :
    Leaves (fs.assignString str) ↔
      Padded (str.take N) ∧ (0 ∈ str.take N → fs.length ≤ min N str.length) := by
  obtain ⟨fs', hfs', hbyte⟩ := byte_assignString fs str
  have hfront : ∀ i < min N str.length, fs'.byte i = (str.take N).getD i 0 := by
    intro i hi
    rw [hbyte, if_pos hi, getD_take, if_pos (by omega)]
  have hrest : ∀ i, min N str.length ≤ i → fs'.byte i = fs.byte i := by
    intro i hi
    rw [hbyte, if_neg (Nat.not_lt.mpr hi)]
  have hmin := Nat.min_le_left N str.length
  rw [hfs', leaves_some_iff]
  constructor
  · intro h'
    refine ⟨fun i j hij hj hi => ?_, fun hnul => ?_⟩
    · rw [List.length_take] at hj
      rw [← hfront i (hij.trans_lt hj)] at hi
      rw [← hfront j hj]
      exact h'.padded i j hij (hj.le.trans hmin) hi
    · obtain ⟨i, hi, hzero⟩ := nul_mem_iff.mp hnul
      rw [List.length_take] at hi
      rw [← hfront i hi] at hzero
      rw [← h.byte_eq_zero_iff hmin, ← hrest _ le_rfl]
      exact h'.padded i _ hi.le hmin hzero
  · rintro ⟨hpadded, hlength⟩
    refine ⟨by rw [hrest N hmin, h.last], fun i j hij hj hi => ?_⟩
    rcases Nat.lt_or_ge j (min N str.length) with hlt | hge
    · rw [hfront i (hij.trans_lt hlt)] at hi
      rw [hfront j hlt]
      exact hpadded.getD hij hi
    · rw [hrest j hge]
      rcases Nat.lt_or_ge i (min N str.length) with hlt | hle
      · rw [hfront i hlt] at hi
        have hnul := nul_mem_iff.mpr ⟨i, by rwa [List.length_take], hi⟩
        exact (h.byte_eq_zero_iff hj).mpr ((hlength hnul).trans hge)
      · rw [hrest i hle] at hi
        exact h.padded i j hij hj hi

theorem Canonical.assignCString_leaves (h : fs.Canonical) (str : List UInt8) :
    Leaves (fs.assignCString str) := by
  obtain ⟨fs', hfs', hbyte⟩ := byte_assignCString fs str
  refine ⟨fs', hfs', canonical_of_cString str le_rfl fun i hi => ?_⟩
  rw [hbyte]
  rcases Nat.lt_or_eq_of_le hi with hlt | rfl
  · rw [if_pos hlt, if_pos hlt]
  · rw [if_neg (Nat.lt_irrefl i), if_neg (Nat.lt_irrefl i), h.last]

/-- A NUL at `stop` is the first one behind a text from `start` on. -/
theorem Canonical.leaves_iff (h : fs.Canonical) (start text stop : Nat) (htext : text ≤ stop - start)
    (hstop : stop ≤ N) (hstart : start ≤ stop)
    (hbyte : ∀ i ≤ N, fs'.byte i = 0 ↔
      start + text ≤ i ∧ i ≤ stop ∨ (i < start ∨ stop < i) ∧ fs.byte i = 0) :
    fs'.Canonical ↔ fs.length ≤ stop + 1 ∧ (text ≠ 0 → start ≤ fs.length) := by
  have hlength := h.length_le
  have hzero : ∀ i ≤ N, fs'.byte i = 0 ↔
      start + text ≤ i ∧ i ≤ stop ∨ (i < start ∨ stop < i) ∧ fs.length ≤ i := by
    intro i hi
    rw [hbyte i hi, h.byte_eq_zero_iff hi]
  constructor
  · intro h'
    constructor
    · -- the byte behind the NUL would be the last but one of a longer string
      by_contra hlong
      have hnul := (hzero stop hstop).mpr (by omega)
      have hbehind := h'.padded stop (stop + 1) (Nat.le_succ stop) (by omega) hnul
      rw [hzero _ (by omega)] at hbehind
      omega
    · intro htext
      by_contra hshort
      have hnul := (hzero fs.length (by omega)).mpr (by omega)
      have hfirst := h'.padded fs.length start (by omega) (by omega) hnul
      rw [hzero _ (by omega)] at hfirst
      omega
  · rintro ⟨hlong, hshort⟩
    by_cases hempty : text = 0
    · apply canonical_of_byte (k := min start fs.length) (by omega)
      intro i hi
      rw [hzero i hi]
      omega
    · have hle := hshort hempty
      apply canonical_of_byte (k := start + text) (by omega)
      intro i hi
      rw [hzero i hi]
      omega

theorem Canonical.appendChar_leaves_iff (h : fs.Canonical) (c : UInt8) (position : BitVec 64) :
    Leaves (fs.appendChar c position) ↔ position.toNat < N ∧ fs.length ≤ position.toNat + 2 ∧
      (c ≠ 0 → position.toNat ≤ fs.length) := by
  rcases Nat.lt_or_ge position.toNat N with hlt | hge
  · obtain ⟨fs', hfs', hbyte⟩ := byte_appendChar hlt fs c
    rw [hfs', leaves_some_iff]
    by_cases hc : c = 0
    · rw [h.leaves_iff position.toNat 0 (position.toNat + 1)]
      all_goals grind
    · rw [h.leaves_iff position.toNat 1 (position.toNat + 1)]
      all_goals grind
  · have hnone : fs.appendChar c position = none := write_write_none (Nat.lt_succ_of_le hge) fs
    rw [hnone]
    refine iff_of_false ?_ fun h => absurd h.1 (Nat.not_lt.mpr hge)
    rintro ⟨fs', hfs', _⟩
    cases hfs'

theorem Canonical.append_leaves_iff (h : fs.Canonical) (src : List UInt8)
    (startOffset size : BitVec 64) :
    Leaves (fs.append src startOffset size) ↔ startOffset.toNat + size.toNat ≤ N ∧
      fs.length ≤ startOffset.toNat + size.toNat + 1 ∧
      (min (cString src).length size.toNat ≠ 0 → startOffset.toNat ≤ fs.length) := by
  rcases Nat.lt_or_ge N (startOffset.toNat + size.toNat) with hlt | hle
  · have hnone : fs.append src startOffset size = none := write_write_none hlt fs
    rw [hnone]
    refine iff_of_false ?_ fun h => absurd h.1 (Nat.not_le.mpr hlt)
    rintro ⟨fs', hfs', _⟩
    cases hfs'
  · obtain ⟨fs', hfs', hbyte⟩ := byte_append hle fs src
    rw [hfs', leaves_some_iff, h.leaves_iff startOffset.toNat (min (cString src).length size.toNat)
      (startOffset.toNat + size.toNat)]
    · simp only [hle, true_and]
    · omega
    · exact hle
    · omega
    · intro i _
      have hzero := cString_getD_eq_zero_iff src (i - startOffset.toNat)
      rw [hbyte]
      grind

theorem Canonical.write_leaves_iff (h : fs.Canonical) (w : Writer) :
    Leaves (w.write fs) ↔ w.Restores fs := by
  cases w with
  | assignString str => exact h.assignString_leaves_iff str
  | assignCString str => exact iff_of_true (h.assignCString_leaves str) trivial
  | appendChar c position => exact h.appendChar_leaves_iff c position
  | append src startOffset size => exact h.append_leaves_iff src startOffset size

/-! ### Histories -/

/-- How an object came about. -/
structure History where
  constructed : Constructor
  writers : List Writer := []
  deriving DecidableEq, Repr

namespace History

def run (N : Nat) (history : History) : Option (FixedString N) :=
  history.writers.foldl (fun fs w => fs.bind w.write) history.constructed.construct

/-- The first `n` calls behind the constructor. -/
def upTo (history : History) (n : Nat) : History :=
  { history with writers := history.writers.take n }

/-- The arguments satisfy the assertions. -/
def Asserts (N : Nat) (history : History) : Prop :=
  history.constructed.Asserts N ∧ ∀ w ∈ history.writers, w.Asserts N

/-- Every call, the constructor first, stays inside the buffer and leaves the form. -/
def KeepsForm (N : Nat) (history : History) : Prop := ∀ n, Leaves ((history.upTo n).run N)

/-- Each call has arguments that keep the form of what it finds. -/
def Restores (N : Nat) (history : History) : Prop :=
  history.constructed.Restores N ∧ ∀ n w, history.writers[n]? = some w →
    ∀ fs, (history.upTo n).run N = some fs → w.Restores fs

theorem run_upTo_succ {history : History} {n : Nat} {w : Writer} (hw : history.writers[n]? = some w) :
    (history.upTo (n + 1)).run N = ((history.upTo n).run N).bind w.write := by
  obtain ⟨hn, rfl⟩ := List.getElem?_eq_some_iff.mp hw
  simp only [run, upTo]
  rw [List.take_succ_eq_append_getElem hn, List.foldl_append]
  rfl

theorem run_upTo_of_length_le {history : History} {n : Nat} (hn : history.writers.length ≤ n) :
    history.upTo n = history := by
  rw [upTo, List.take_of_length_le hn]

theorem keepsForm_iff (hN : 1 ≤ N) {history : History} (hasserts : history.Asserts N) :
    history.KeepsForm N ↔ history.Restores N := by
  have hconstructed := construct_leaves_iff hN hasserts.1
  constructor
  · intro h
    refine ⟨hconstructed.mp (h 0), fun n w hw fs hfs => ?_⟩
    obtain ⟨fs₁, hfs₁, hcanonical⟩ := h n
    obtain rfl := Option.some.inj (hfs₁.symm.trans hfs)
    rw [← hcanonical.write_leaves_iff]
    have hnext := h (n + 1)
    rwa [run_upTo_succ hw, hfs, Option.bind_some] at hnext
  · rintro ⟨hfirst, hrestores⟩ n
    induction n with
    | zero => exact hconstructed.mpr hfirst
    | succ n ih =>
      cases hw : history.writers[n]? with
      | none =>
        have hlength := List.getElem?_eq_none_iff.mp hw
        rw [run_upTo_of_length_le hlength] at ih
        rwa [run_upTo_of_length_le (Nat.le_succ_of_le hlength)]
      | some w =>
        obtain ⟨fs, hfs, hcanonical⟩ := ih
        rw [run_upTo_succ hw, hfs, Option.bind_some, hcanonical.write_leaves_iff]
        exact hrestores n w hw fs hfs

/-- Two objects have the form throughout, and comparing and hashing them compares their strings. -/
structure Represent (hasher : List UInt8 → Nat) (N : Nat) (history other : History) : Prop where
  form : history.KeepsForm N
  otherForm : other.KeepsForm N
  compares : ∀ fs fs', history.run N = some fs → other.run N = some fs' →
    (fs.equal fs' = true ∧ fs.hash hasher = fs'.hash hasher ↔ fs.toString = fs'.toString)

/-- They do exactly when each call of both histories keeps the form of what it finds. -/
theorem represent_iff (hN : 1 ≤ N) (hasher : List UInt8 → Nat) {history other : History}
    (hasserts : history.Asserts N) (hother : other.Asserts N) :
    Represent hasher N history other ↔ history.Restores N ∧ other.Restores N := by
  have hend : ∀ {h : History} {fs : FixedString N}, h.KeepsForm N → h.run N = some fs →
      fs.Canonical := by
    intro h fs hform hfs
    obtain ⟨fs₁, hfs₁, hcanonical⟩ := hform h.writers.length
    rw [run_upTo_of_length_le le_rfl] at hfs₁
    obtain rfl := Option.some.inj (hfs₁.symm.trans hfs)
    exact hcanonical
  rw [← keepsForm_iff hN hasserts, ← keepsForm_iff hN hother]
  constructor
  · intro h
    exact ⟨h.form, h.otherForm⟩
  · rintro ⟨hform, hotherForm⟩
    refine ⟨hform, hotherForm, fun fs fs' hfs hfs' => ?_⟩
    exact (hend hform hfs).compares (hend hotherForm hfs') hasher

/-- `Hello` is made `Hi!`, and `Hi!` is made of a C string. -/
theorem represent_iff_hi :
    Represent (fun bytes => bytes.foldl (fun hash b => 31 * hash + b.toNat) 0) 10
        ⟨.string [72, 101, 108, 108, 111], [.assignCString [72, 105], .appendChar 33 2]⟩
        ⟨.cString [72, 105, 33], []⟩ ↔
      Restores 10 ⟨.string [72, 101, 108, 108, 111], [.assignCString [72, 105], .appendChar 33 2]⟩ ∧
        Restores 10 ⟨.cString [72, 105, 33], []⟩ :=
  represent_iff (by decide) _ ⟨trivial, by simp [Writer.Asserts]⟩ ⟨trivial, by simp⟩

/-- `C` at the front of `Hello` leaves `llo` behind the NUL, so that the result has the string of
another object and does not equal it. A character at position `N` is followed by a NUL outside. -/
theorem append_breaks_form :
    (Asserts 10 ⟨.cString [72, 101, 108, 108, 111], [.appendChar 67 0]⟩ ∧
      ¬ Represent (fun bytes => bytes.foldl (fun hash b => 31 * hash + b.toNat) 0) 10
        ⟨.cString [72, 101, 108, 108, 111], [.appendChar 67 0]⟩ ⟨.char 67, []⟩) ∧
    Asserts 10 ⟨.default, [.appendChar 67 10]⟩ ∧ run 10 ⟨.default, [.appendChar 67 10]⟩ = none := by
  refine ⟨⟨⟨trivial, by simp [Writer.Asserts]⟩, fun h => ?_⟩, ⟨trivial, by simp [Writer.Asserts]⟩,
    by decide⟩
  have hcompares := h.compares ⟨[67, 0, 108, 108, 111, 0, 0, 0, 0, 0, 0], rfl⟩
    ⟨[67, 0, 0, 0, 0, 0, 0, 0, 0, 0, 0], rfl⟩ (by decide) (by decide)
  exact absurd (hcompares.mpr (by decide)).1 (by decide)

end History

end LuPlatform.Common.FixedString
