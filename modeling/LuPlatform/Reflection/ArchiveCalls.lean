import LuPlatform.Reflection.RoundTrip

/-! Calls of `out` and `in`, one after the other, on any bytes. -/

namespace LuPlatform.Reflection

section

variable {o : Options} {n : Nat} {items : Items n} {values : items.Values} {a a' : Archive}

theorem Archive.resize_position (h : a.Valid) : a.resize a.position = ⟨a.processedData, a.position⟩ := by
  rw [resize, Nat.sub_eq_zero_of_le h.position_le, List.replicate_zero, List.append_nil, processedData]

/-- Fitting takes away what is behind the position. -/
theorem Options.fit_eq (o : Options) (finish : Nat) (h : a.Valid) :
    o.fit finish a = a ∨ o.resizable = true ∧ o.fit finish a = ⟨a.processedData, a.position⟩ := by
  rw [Options.fit]
  split
  · rename_i hfit
    simp only [Bool.and_eq_true] at hfit
    exact .inr ⟨hfit.1.1.1, Archive.resize_position h⟩
  · exact .inl rfl

theorem Options.fit_kept (finish : Nat) (h : a.Kept o a') : a.Kept o (o.fit finish a') := by
  rcases o.fit_eq finish h.valid with hfit | ⟨hresizable, hfit⟩
  · rwa [hfit]
  · have hlength := Archive.length_processedData h.valid
    have hprocessed : (Archive.mk a'.processedData a'.position).processedData = a'.processedData := by
      rw [Archive.processedData, List.take_of_length_le hlength.le]
    rw [hfit]
    refine ⟨⟨hlength.ge, ?_⟩, ?_, fun hfixed => ?_, ?_⟩
    · show a'.processedData.length < 2 ^ 64
      rw [hlength]
      exact h.valid.position_le.trans_lt h.valid.length_lt
    · rw [hprocessed]
      exact h.processedData
    · rw [hresizable] at hfixed
      cases hfixed
    · exact hlength.le.trans (h.valid.position_le.trans h.limit)

theorem out_ok (h : o.Sound) (hvalid : a.Valid) (hok : o.out items values a = .ok () a') :
    ∃ written, items.representation o values a.ahead = some written ∧ a.Kept o a' ∧
      a'.position = a.position + written.length ∧ a'.processedData = a.processedData ++ written ∧
      ∀ p, Blank p a.ahead → Blank p a'.ahead := by
  rw [Options.out] at hok
  cases hmany : serializeMany o items values a with
  | error e b =>
    rw [hmany] at hok
    cases hok
  | ok _ b =>
    rw [hmany] at hok
    cases hok
    obtain ⟨written, hbytes, hextended⟩ := (writes_many h items values).ok hvalid hmany
    refine ⟨written, hbytes, Options.fit_kept _ hextended.kept, ?_⟩
    have hahead (p : Bool) (hblank : Blank p a.ahead) : Blank p b.ahead := by
      rw [funext hextended.ahead]
      exact hblank.shift _
    rcases o.fit_eq a.data.length hextended.valid with hfit | ⟨-, hfit⟩
    · rw [hfit]
      exact ⟨hextended.position, hextended.processedData, hahead⟩
    · have hlength := Archive.length_processedData hextended.valid
      rw [hfit]
      refine ⟨hextended.position, ?_, fun p _ _ i => ?_⟩
      · rw [Archive.processedData, List.take_of_length_le hlength.le, hextended.processedData]
      · rw [Archive.ahead, List.getD_eq_default _ _ (by rw [hlength]; exact Nat.le_add_right _ _)]

theorem out_error (h : o.Sound) (hvalid : a.Valid) {e : Failure} (herror : o.out items values a = .error e a') :
    o.Refuses e ∧ a.Kept o a' := by
  rw [Options.out] at herror
  cases hmany : serializeMany o items values a with
  | error e b =>
    rw [hmany] at herror
    cases herror
    obtain ⟨hrefuses, hkept⟩ := (writes_many h items values).error hvalid hmany
    exact ⟨hrefuses, Options.fit_kept _ hkept⟩
  | ok _ b =>
    rw [hmany] at herror
    cases herror

/-- The bytes that a call wrote, as one finds them from where it began. -/
theorem remainingData_of_processedData (written : List UInt8) (hvalid : a.Valid) (hvalid' : a'.Valid)
    (hprocessed : a.processedData ++ written <+: a'.processedData) :
    (Archive.mk a'.data a.position).Valid ∧
      ∃ rest, (Archive.mk a'.data a.position).remainingData = written ++ rest := by
  have hlength := Archive.length_processedData hvalid
  have hlength' := Archive.length_processedData hvalid'
  obtain ⟨more, hmore⟩ := hprocessed
  have hle := congrArg List.length hmore
  rw [List.length_append, List.length_append, hlength, hlength'] at hle
  refine ⟨⟨?_, hvalid'.length_lt⟩, more ++ a'.remainingData, ?_⟩
  · have := hvalid'.position_le
    show a.position ≤ a'.data.length
    omega
  · rw [Archive.remainingData, ← a'.processedData_append_remainingData, ← hmore, ← hlength, List.append_assoc,
      List.append_assoc, List.drop_left]

end

/-! ### Some views and some values -/

/-- A `std::vector` without options. -/
def vectorOptions : Options where
  resizable := true
  endianAware := false
  allocationLimit := 2 ^ 64 - 1
  multiplier := 3
  divisor := 2
  noEnlargeOverflow := false
  noFitSize := false
  inlineDecodeVarint := false
  multiplier_ne := by decide
  divisor_ne := by decide

theorem vectorOptions_sound : vectorOptions.Sound := ⟨by decide, rfl⟩

/-- A `std::span` that swaps. -/
def spanOptions : Options := { vectorOptions with resizable := false, endianAware := true }

theorem spanOptions_sound : spanOptions.Sound := ⟨by decide, rfl⟩

def shortType : Fundamental := ⟨2, false, Nat.two_pos, fun h => by cases h⟩

/-- A `std::vector<std::uint16_t>` and an empty optional. -/
def someItems : Items 2 :=
  .cons (.container ⟨.fixed 4, true, 2, Nat.two_pos⟩ (.fundamental shortType))
    (.cons (.optional (.fundamental byte)) .nil)

def someValues : someItems.Values := ([⟨[1, 2], rfl⟩, ⟨[3, 4], rfl⟩], none, ())

theorem someValues_encodable : someItems.Encodable spanOptions someValues :=
  ⟨⟨show 2 < 256 ^ 4 by decide, fun h => absurd rfl h, fun _ _ => trivial⟩, trivial, trivial⟩

theorem valid_of_lt {data : List UInt8} (h : data.length < 2 ^ 64) : (Archive.mk data 0).Valid :=
  ⟨Nat.zero_le _, h⟩

/-! ### Messages -/

/-- What one call takes. -/
structure Message where
  size : Nat
  items : Items size
  values : items.Values

def Options.outAll (o : Options) : List Message → Serialize Unit
  | [] => pure ()
  | message :: messages => do
    o.out message.items message.values
    o.outAll messages

/-- `in` reads the messages in their order, from one archive to the other. -/
def Options.InOrder (o : Options) : List Message → Archive → Archive → Prop
  | [], a, a' => a' = a
  | message :: messages, a, a'' =>
    ∃ a', o.in message.items a = .ok message.values a' ∧ o.InOrder messages a' a''

section

variable {o : Options} {messages : List Message} {a a' : Archive}

theorem outAll_kept (h : o.Sound) (hvalid : a.Valid) (hok : o.outAll messages a = .ok () a') : a.Kept o a' := by
  induction messages generalizing a with
  | nil =>
    cases hok
    exact .refl hvalid
  | cons message messages ih =>
    obtain ⟨_, b, hout, hrest⟩ := bind_eq_ok hok
    obtain ⟨_, _, hkept, -⟩ := out_ok h hvalid hout
    exact hkept.trans (ih hkept.valid hrest)

theorem inOrder_of_encodable (h : o.Sound) (hvalid : a.Valid)
    (hblank : ∀ message ∈ messages, Blank message.items.hasBitset a.ahead)
    (hencodable : ∀ message ∈ messages, message.items.Encodable o message.values)
    (hok : o.outAll messages a = .ok () a') : o.InOrder messages ⟨a'.data, a.position⟩ a' := by
  induction messages generalizing a with
  | nil =>
    cases hok
    rfl
  | cons message messages ih =>
    rw [List.forall_mem_cons] at hblank hencodable
    obtain ⟨_, b, hout, hrest⟩ := bind_eq_ok hok
    obtain ⟨written, hbytes, hkept, hposition, hprocessed, hahead⟩ := out_ok h hvalid hout
    have hkept' := outAll_kept h hkept.valid hrest
    obtain ⟨hvalid', rest, hremaining⟩ := remainingData_of_processedData written hvalid hkept'.valid
      (hprocessed ▸ hkept'.processedData)
    have hread := reads_many message.items message.values hblank.1 hencodable.1 hbytes
    refine ⟨⟨a'.data, b.position⟩, ?_, ?_⟩
    · rw [Options.in, hread.whole hvalid' hremaining, ← hposition]
    · exact ih hkept.valid (fun message hmem => hahead _ (hblank.2 message hmem)) hencodable.2 hrest

theorem encodable_of_inOrder (hvalid : a.Valid) (hin : o.InOrder messages a a') :
    ∀ message ∈ messages, message.items.Encodable o message.values := by
  induction messages generalizing a with
  | nil => simp
  | cons message messages ih =>
    obtain ⟨b, hread, hrest⟩ := hin
    obtain ⟨-, -, hvalid', hencodable⟩ := (accepts_many message.items).ok hvalid hread
    exact List.forall_mem_cons.2 ⟨hencodable, ih hvalid' hrest⟩

end

/-! ### Calls that fail -/

/-- Calls that are made one after the other, also after one that failed: the failures and what is left. -/
def attempt {α : Type} : List (Serialize α) → Archive → List Failure × Archive
  | [], a => ([], a)
  | call :: calls, a =>
    match call a with
    | .ok _ a' => attempt calls a'
    | .error e a' => (e :: (attempt calls a').1, (attempt calls a').2)

theorem attempt_of_step {α : Type} (Allowed : Failure → Prop) (Kept : Archive → Archive → Prop)
    (calls : List (Serialize α)) (hrefl : ∀ {a}, a.Valid → Kept a a)
    (htrans : ∀ {a a' a''}, Kept a a' → Kept a' a'' → Kept a a'')
    (hok : ∀ call ∈ calls, ∀ {a x a'}, a.Valid → call a = .ok x a' → a'.Valid ∧ Kept a a')
    (herror : ∀ call ∈ calls, ∀ {a e a'}, a.Valid → call a = .error e a' → Allowed e ∧ a'.Valid ∧ Kept a a')
    {a : Archive} (hvalid : a.Valid) :
    (∀ e ∈ (attempt calls a).1, Allowed e) ∧ (attempt calls a).2.Valid ∧ Kept a (attempt calls a).2 := by
  induction calls generalizing a with
  | nil => exact ⟨by simp [attempt], hvalid, hrefl hvalid⟩
  | cons call calls ih =>
    rw [List.forall_mem_cons] at hok herror
    rw [attempt]
    cases hcall : call a with
    | ok x a' =>
      obtain ⟨hvalid', hkept⟩ := hok.1 hvalid hcall
      obtain ⟨hallowed, hvalid'', hkept'⟩ := ih hok.2 herror.2 hvalid'
      exact ⟨hallowed, hvalid'', htrans hkept hkept'⟩
    | error e a' =>
      obtain ⟨he, hvalid', hkept⟩ := herror.1 hvalid hcall
      obtain ⟨hallowed, hvalid'', hkept'⟩ := ih hok.2 herror.2 hvalid'
      exact ⟨List.forall_mem_cons.2 ⟨he, hallowed⟩, hvalid'', htrans hkept hkept'⟩

section

variable {o : Options} {a : Archive}

variable {n : Nat} {items : Items n} {values : items.Values}

end

end LuPlatform.Reflection
