import Mathlib.Data.List.GetD
import Mathlib.Order.Nat
import Mathlib.Tactic.Common
import Mathlib.Tactic.Ring

/-! The archives `basic_out` and `in`. Both have bytes and a position in them. What is serialized goes to
the position and moves it; an archive over a resizable view makes place first. -/

namespace LuPlatform.Reflection

inductive Errc where
  | noBufferSpace | resultOutOfRange | messageSize | invalidArgument | badMessage | valueTooLarge
deriving DecidableEq, Repr

/-- What ends a serialization early: a code it returns, or an access outside the bytes of the view. -/
inductive Failure where
  | errc (code : Errc)
  | outside
deriving DecidableEq, Repr

structure Archive where
  data : List UInt8
  position : Nat
deriving DecidableEq, Repr

abbrev Serialize (α : Type) := EStateM Failure Archive α

/-- What an archive is instantiated with. A machine stores its least significant byte first, so
`endian::swapped` is big endian. `allocationLimit` is the largest `std::size_t` without `alloc_limit`. -/
structure Options where
  resizable : Bool
  endianAware : Bool
  allocationLimit : Nat
  multiplier : Nat
  divisor : Nat
  noEnlargeOverflow : Bool
  noFitSize : Bool
  inlineDecodeVarint : Bool
  multiplier_ne : multiplier ≠ 0
  divisor_ne : divisor ≠ 0

namespace Archive

/-- `data.size() - position`, in `std::size_t`. -/
def room (a : Archive) : Nat := (2 ^ 64 + a.data.length - a.position) % 2 ^ 64

def remainingData (a : Archive) : List UInt8 := a.data.drop a.position

def processedData (a : Archive) : List UInt8 := a.data.take a.position

/-- The bytes from the position on, with the zeros that enlarging puts behind them. -/
def ahead (a : Archive) (i : Nat) : UInt8 := a.data.getD (a.position + i) 0

def resize (a : Archive) (size : Nat) : Archive :=
  { a with data := a.data.take size ++ List.replicate (size - a.data.length) 0 }

structure Valid (a : Archive) : Prop where
  position_le : a.position ≤ a.data.length
  length_lt : a.data.length < 2 ^ 64

end Archive

namespace Options

/-- The size `enlarge_for` resizes to. A product that does not fit is not divided back to its factor; a sum
that does not fit is smaller than what it is a sum of. -/
def enlargedSize (o : Options) (size additional : Nat) : Option Nat :=
  let requiredSize := (size + additional) % 2 ^ 64
  let newSize := requiredSize * o.multiplier % 2 ^ 64
  if !o.noEnlargeOverflow && 2 ^ 64 ≤ size + additional then none
  else if !o.noEnlargeOverflow && newSize / o.multiplier ≠ requiredSize then none
  else if newSize / o.divisor > o.allocationLimit then none
  else some (newSize / o.divisor)

def enlargeFor (o : Options) (additional : Nat) : Serialize Unit := do
  let a ← get
  if additional > a.room then
    match o.enlargedSize a.data.length additional with
    | none => throw (.errc .noBufferSpace)
    | some size => set (a.resize size)

/-- How every item begins that knows its size. -/
def reserve (o : Options) (size : Nat) : Serialize Unit := do
  if o.resizable then o.enlargeFor size
  else if size > (← get).room then throw (.errc .resultOutOfRange)

end Options

/-- `std::memcpy` to the position. -/
def put (bytes : List UInt8) : Serialize Unit := do
  let a ← get
  if a.data.length < a.position + bytes.length then throw .outside
  else set (Archive.mk (a.processedData ++ bytes ++ a.data.drop (a.position + bytes.length))
    (a.position + bytes.length))

/-- `std::memcpy` from the position. -/
def take (size : Nat) : Serialize (List UInt8) := do
  let a ← get
  if size > a.room then throw (.errc .resultOutOfRange)
  else if a.data.length < a.position + size then throw .outside
  else
    set { a with position := a.position + size }
    return a.remainingData.take size

/-! ### Writing -/

namespace Archive

variable {a a' a'' : Archive} {o : Options} {bytes bytes' : List UInt8}

theorem room_eq (h : a.Valid) : a.room = a.data.length - a.position := by
  have := h.position_le
  have := h.length_lt
  rw [room]
  omega

/-- `bytes` stand behind what was there before, and what lies ahead of them is as it was. -/
structure Extended (a : Archive) (o : Options) (bytes : List UInt8) (a' : Archive) : Prop where
  valid : a'.Valid
  position : a'.position = a.position + bytes.length
  processedData : a'.processedData = a.processedData ++ bytes
  ahead : ∀ i, a'.ahead i = a.ahead (bytes.length + i)
  length : o.resizable = false → a'.data.length = a.data.length
  limit : a'.data.length ≤ max a.data.length o.allocationLimit

/-- What was there before is there yet. -/
structure Kept (a : Archive) (o : Options) (a' : Archive) : Prop where
  valid : a'.Valid
  processedData : a.processedData <+: a'.processedData
  length : o.resizable = false → a'.data.length = a.data.length
  limit : a'.data.length ≤ max a.data.length o.allocationLimit

theorem Kept.refl (h : a.Valid) : a.Kept o a := ⟨h, List.prefix_rfl, fun _ => rfl, le_max_left _ _⟩

theorem Extended.kept (h : a.Extended o bytes a') : a.Kept o a' :=
  ⟨h.valid, ⟨bytes, h.processedData.symm⟩, h.length, h.limit⟩

theorem Kept.trans (h : a.Kept o a') (h' : a'.Kept o a'') : a.Kept o a'' :=
  ⟨h'.valid, h.processedData.trans h'.processedData, fun hfixed => (h'.length hfixed).trans (h.length hfixed),
    h'.limit.trans (max_le h.limit (le_max_right _ _))⟩

theorem Extended.trans (h : a.Extended o bytes a') (h' : a'.Extended o bytes' a'') :
    a.Extended o (bytes ++ bytes') a'' where
  valid := h'.valid
  position := by
    rw [h'.position, h.position, List.length_append, Nat.add_assoc]
  processedData := by
    rw [h'.processedData, h.processedData, List.append_assoc]
  ahead i := by
    rw [h'.ahead, h.ahead, List.length_append, Nat.add_assoc]
  length hfixed := (h'.length hfixed).trans (h.length hfixed)
  limit := h'.limit.trans (max_le h.limit (le_max_right _ _))

theorem length_processedData (h : a.Valid) : a.processedData.length = a.position := by
  rw [processedData, List.length_take, Nat.min_eq_left h.position_le]

theorem processedData_append_remainingData (a : Archive) : a.processedData ++ a.remainingData = a.data :=
  List.take_append_drop _ _

theorem length_remainingData (a : Archive) : a.remainingData.length = a.data.length - a.position :=
  List.length_drop

theorem extended_nil (h : a.Valid) : a.Extended o [] a where
  valid := h
  position := rfl
  processedData := (List.append_nil _).symm
  ahead i := by rw [List.length_nil, Nat.zero_add]
  length _ := rfl
  limit := le_max_left _ _

theorem extended_resize {size : Nat} (h : a.Valid) (hle : a.data.length ≤ size) (hlt : size < 2 ^ 64)
    (hlimit : size ≤ o.allocationLimit) (hresizable : o.resizable = true) : a.Extended o [] (a.resize size) where
  valid := by
    have := h.position_le
    refine ⟨?_, ?_⟩ <;> simp only [resize, List.length_append, List.length_take, List.length_replicate] <;> omega
  position := rfl
  processedData := by
    rw [List.append_nil, processedData, processedData, resize, List.take_of_length_le hle,
      List.take_append_of_le_length h.position_le]
  ahead i := by
    rw [List.length_nil, Nat.zero_add, ahead, ahead, resize, List.take_of_length_le hle]
    rcases Nat.lt_or_ge (a.position + i) a.data.length with hin | hin
    · rw [List.getD_append _ _ _ _ hin]
    · rw [List.getD_append_right _ _ _ _ hin, List.getD_eq_default _ _ hin, List.getD_eq_getElem?_getD,
        List.getElem?_replicate]
      split <;> rfl
  length hfixed := by rw [hresizable] at hfixed; cases hfixed
  limit := by
    refine le_trans ?_ (hlimit.trans (le_max_right _ _))
    simp only [resize, List.length_append, List.length_take, List.length_replicate]
    omega

/-- The archive that `put` leaves. -/
theorem extended_put (h : a.Valid) (hle : a.position + bytes.length ≤ a.data.length) :
    a.Extended o bytes ⟨a.processedData ++ bytes ++ a.data.drop (a.position + bytes.length),
      a.position + bytes.length⟩ := by
  have hprocessed := length_processedData h
  have hlength : (a.processedData ++ bytes ++ a.data.drop (a.position + bytes.length)).length =
      a.data.length := by
    simp only [List.length_append, List.length_drop, hprocessed]
    omega
  refine ⟨⟨?_, ?_⟩, rfl, ?_, fun i => ?_, fun _ => hlength, hlength.le.trans (le_max_left _ _)⟩
  · simp only [hlength, hle]
  · simp only [hlength, h.length_lt]
  · rw [processedData, ← hprocessed, ← List.length_append, List.take_left]
  · rw [ahead, ahead, List.getD_append_right]
    · simp only [List.length_append, hprocessed, List.getD_eq_getElem?_getD, List.getElem?_drop]
      congr 2
      omega
    · simp only [List.length_append, hprocessed]
      omega

end Archive

namespace Options

/-- Enlarging that goes as intended: an archive does not shrink by it, and sizes that do not fit are
noticed. -/
structure Sound (o : Options) : Prop where
  divisor_le : o.divisor ≤ o.multiplier
  overflow : o.noEnlargeOverflow = false

/-- What an archive says that does not take an item. -/
def Refuses (o : Options) (e : Failure) : Prop :=
  e = .errc .invalidArgument ∨ e = .errc (if o.resizable then .noBufferSpace else .resultOutOfRange)

variable {o : Options}

theorem enlargedSize_bounds (h : o.Sound) {size additional newSize : Nat}
    (henlarged : o.enlargedSize size additional = some newSize) :
    size + additional ≤ newSize ∧ newSize < 2 ^ 64 ∧ newSize ≤ o.allocationLimit := by
  have hmultiplier := Nat.pos_of_ne_zero o.multiplier_ne
  have hdivisor := Nat.pos_of_ne_zero o.divisor_ne
  rw [enlargedSize, h.overflow] at henlarged
  simp only [Bool.not_false, Bool.true_and, decide_eq_true_eq, gt_iff_lt, Option.ite_none_left_eq_some,
    not_le, not_not, not_lt, Option.some.injEq] at henlarged
  obtain ⟨hfits, hproduct, hlimit, rfl⟩ := henlarged
  rw [Nat.mod_eq_of_lt hfits] at hproduct hlimit ⊢
  refine ⟨?_, (Nat.div_le_self _ _).trans_lt (Nat.mod_lt _ (by decide)), hlimit⟩
  rw [Nat.le_div_iff_mul_le hdivisor]
  calc (size + additional) * o.divisor
      ≤ (size + additional) * o.multiplier := Nat.mul_le_mul_left _ h.divisor_le
    _ ≤ (size + additional) * o.multiplier % 2 ^ 64 := (Nat.le_div_iff_mul_le hmultiplier).1 hproduct.ge

end Options

/-- The bytes of an item at the archive it comes to; no bytes are those of an item that has no
representation. They can depend on what lies ahead. -/
abbrev Representation := (Nat → UInt8) → Option (List UInt8)

def Representation.of (bytes : List UInt8) : Representation := fun _ => some bytes

def Representation.append (first second : Representation) : Representation := fun ahead => do
  let bytes ← first ahead
  let bytes' ← second fun i => ahead (bytes.length + i)
  return bytes ++ bytes'

/-- `m` writes the bytes of an item or refuses it, and an archive of a fixed size has its reason. -/
structure Writes (o : Options) (m : Serialize Unit) (bytes : Representation) : Prop where
  ok {a a'} : a.Valid → m a = .ok () a' → ∃ written, bytes a.ahead = some written ∧ a.Extended o written a'
  error {a a' e} : a.Valid → m a = .error e a' → o.Refuses e ∧ a.Kept o a'
  fits {a written} : a.Valid → o.resizable = false → bytes a.ahead = some written →
    a.position + written.length ≤ a.data.length → ∃ a', m a = .ok () a'

section

variable {o : Options} {a a' a'' : Archive} {e : Failure} {α β : Type}

theorem bind_ok {m : Serialize α} {f : α → Serialize β} {x : α} (h : m a = .ok x a') :
    (m >>= f) a = f x a' := by
  show EStateM.bind m f a = _
  rw [EStateM.bind, h]

theorem bind_error {m : Serialize α} {f : α → Serialize β} (h : m a = .error e a') :
    (m >>= f) a = .error e a' := by
  show EStateM.bind m f a = _
  rw [EStateM.bind, h]

theorem bind_eq_ok {m : Serialize α} {f : α → Serialize β} {y : β} (h : (m >>= f) a = .ok y a'') :
    ∃ x a', m a = .ok x a' ∧ f x a' = .ok y a'' := by
  cases hm : m a with
  | ok x a' =>
    rw [bind_ok hm] at h
    exact ⟨x, a', rfl, h⟩
  | error e a' =>
    rw [bind_error hm] at h
    cases h

theorem bind_eq_error {m : Serialize α} {f : α → Serialize β} (h : (m >>= f) a = .error e a'') :
    m a = .error e a'' ∨ ∃ x a', m a = .ok x a' ∧ f x a' = .error e a'' := by
  cases hm : m a with
  | ok x a' =>
    rw [bind_ok hm] at h
    exact .inr ⟨x, a', rfl, h⟩
  | error e a' =>
    rw [bind_error hm] at h
    cases h
    exact .inl rfl

end

namespace Writes

variable {o : Options} {m m' : Serialize Unit} {bytes bytes' : Representation}

theorem seq (h : Writes o m bytes) (h' : Writes o m' bytes') : Writes o (do m; m') (bytes.append bytes') where
  ok := by
    intro a a'' hvalid hok
    obtain ⟨_, a', hm, hm'⟩ := bind_eq_ok hok
    obtain ⟨written, hbytes, hextended⟩ := h.ok hvalid hm
    obtain ⟨written', hbytes', hextended'⟩ := h'.ok hextended.valid hm'
    refine ⟨written ++ written', ?_, hextended.trans hextended'⟩
    rw [funext hextended.ahead] at hbytes'
    simp only [Representation.append, hbytes, Option.bind_eq_bind, Option.bind_some, hbytes', Option.pure_def]
  error := by
    intro a a'' e hvalid herror
    obtain hm | ⟨_, a', hm, hm'⟩ := bind_eq_error herror
    · exact h.error hvalid hm
    · obtain ⟨written, -, hextended⟩ := h.ok hvalid hm
      obtain ⟨hrefuses, hkept⟩ := h'.error hextended.valid hm'
      exact ⟨hrefuses, hextended.kept.trans hkept⟩
  fits := by
    intro a written hvalid hfixed hbytes hroom
    simp only [Representation.append, Option.bind_eq_bind, Option.bind_eq_some_iff, Option.pure_def,
      Option.some.injEq] at hbytes
    obtain ⟨first, hfirst, second, hsecond, rfl⟩ := hbytes
    rw [List.length_append] at hroom
    obtain ⟨a', hm⟩ := h.fits hvalid hfixed hfirst (by omega)
    obtain ⟨first', hfirst', hextended⟩ := h.ok hvalid hm
    obtain rfl : first = first' := Option.some.inj (hfirst.symm.trans hfirst')
    have hbytes' : bytes' a'.ahead = some second := by rw [funext hextended.ahead, hsecond]
    obtain ⟨a'', hm'⟩ := h'.fits hextended.valid hfixed hbytes'
      (by rw [hextended.position, hextended.length hfixed]; omega)
    exact ⟨a'', by rw [bind_ok hm, hm']⟩

theorem nothing : Writes o (pure ()) (Representation.of []) where
  ok := by
    rintro a a' hvalid ⟨⟩
    exact ⟨[], rfl, a.extended_nil hvalid⟩
  error := by rintro a a' e - ⟨⟩
  fits _ _ _ _ := ⟨_, rfl⟩

theorem invalidArgument : Writes o (throw (.errc .invalidArgument)) fun _ => none where
  ok := by rintro a a' - ⟨⟩
  error := by
    rintro a a' e hvalid ⟨⟩
    exact ⟨.inl rfl, .refl hvalid⟩
  fits := by rintro a written - - ⟨⟩

end Writes

/-- `m` sees to it that there is room for `size` bytes, and nothing else is different then. -/
structure Reserves (o : Options) (m : Serialize Unit) (size : Nat) : Prop where
  ok {a a'} : a.Valid → m a = .ok () a' → a.Extended o [] a' ∧ a'.position + size ≤ a'.data.length
  error {a a' e} : a.Valid → m a = .error e a' → o.Refuses e ∧ a' = a
  fits {a} : a.Valid → o.resizable = false → a.position + size ≤ a.data.length → ∃ a', m a = .ok () a'

section

variable {o : Options} {size : Nat}

theorem Reserves.mono {m : Serialize Unit} {size' : Nat} (h : Reserves o m size) (hle : size' ≤ size)
    (hresizable : o.resizable = true) : Reserves o m size' where
  ok hvalid hok := ⟨(h.ok hvalid hok).1, by have := (h.ok hvalid hok).2; omega⟩
  error := h.error
  fits _ hfixed := by rw [hresizable] at hfixed; cases hfixed

theorem reserves_enlargeFor (h : o.Sound) (hresizable : o.resizable = true) :
    Reserves o (o.enlargeFor size) size where
  ok := by
    intro a a' hvalid hok
    have hroom := Archive.room_eq hvalid
    have hposition := hvalid.position_le
    change (if size > a.room then _ else _ : Serialize Unit) a = _ at hok
    split at hok
    · cases henlarged : o.enlargedSize a.data.length size with
      | none =>
        rw [henlarged] at hok
        cases hok
      | some newSize =>
        rw [henlarged] at hok
        cases hok
        obtain ⟨hle, hlt, hlimit⟩ := Options.enlargedSize_bounds h henlarged
        refine ⟨Archive.extended_resize hvalid (by omega) hlt hlimit hresizable, ?_⟩
        simp only [Archive.resize, List.length_append, List.length_take, List.length_replicate]
        omega
    · cases hok
      exact ⟨Archive.extended_nil hvalid, by omega⟩
  error := by
    intro a a' e hvalid herror
    change (if size > a.room then _ else _ : Serialize Unit) a = _ at herror
    split at herror
    · cases henlarged : o.enlargedSize a.data.length size with
      | none =>
        rw [henlarged] at herror
        cases herror
        exact ⟨.inr (by rw [if_pos hresizable]), rfl⟩
      | some newSize =>
        rw [henlarged] at herror
        cases herror
    · cases herror
  fits _ hfixed := by rw [hresizable] at hfixed; cases hfixed

theorem reserves_reserve (h : o.Sound) : Reserves o (o.reserve size) size := by
  cases hresizable : o.resizable with
  | true =>
    have hreserve : o.reserve size = o.enlargeFor size := by rw [Options.reserve, if_pos hresizable]
    exact hreserve ▸ reserves_enlargeFor h hresizable
  | false =>
    have hreserve (a : Archive) : o.reserve size a =
        if size > a.room then .error (.errc .resultOutOfRange) a else .ok () a := by
      rw [Options.reserve, if_neg (by simp [hresizable])]
      show (if size > a.room then _ else _ : Serialize Unit) a = _
      split <;> rfl
    refine ⟨fun {a a'} hvalid hok => ?_, fun {a a' e} hvalid herror => ?_, fun {a} hvalid _ hfits => ?_⟩
    · have hroom := Archive.room_eq hvalid
      have hposition := hvalid.position_le
      rw [hreserve] at hok
      split at hok
      · cases hok
      · cases hok
        exact ⟨Archive.extended_nil hvalid, by omega⟩
    · rw [hreserve] at herror
      split at herror
      · cases herror
        exact ⟨.inr (by simp [hresizable]), rfl⟩
      · cases herror
    · have hroom := Archive.room_eq hvalid
      exact ⟨a, by rw [hreserve, if_neg (by omega)]⟩

/-- Writing into what was reserved. -/
theorem Reserves.writes {m : Serialize Unit} (h : Reserves o m size) (content : (Nat → UInt8) → List UInt8)
    (hsize : ∀ ahead, (content ahead).length = size) :
    Writes o (do m; put (content (← get).ahead)) fun ahead => some (content ahead) := by
  have hrun {a a' : Archive} (hm : m a = .ok () a') :
      (do m; put (content (← get).ahead) : Serialize Unit) a = put (content a'.ahead) a' := by
    rw [bind_ok hm]
    rfl
  have hput {a : Archive} (hroom : a.position + size ≤ a.data.length) :
      put (content a.ahead) a = .ok () ⟨a.processedData ++ content a.ahead ++
        a.data.drop (a.position + (content a.ahead).length), a.position + (content a.ahead).length⟩ := by
    show (if a.data.length < a.position + (content a.ahead).length then _ else _ : Serialize Unit) a = _
    rw [if_neg (by rw [hsize]; omega)]
    rfl
  refine ⟨fun {a a'} hvalid hok => ?_, fun {a a' e} hvalid herror => ?_, fun {a written} hvalid hfixed hbytes hfits => ?_⟩
  · obtain ⟨_, b, hm, -⟩ := bind_eq_ok hok
    obtain ⟨hextended, hroom⟩ := h.ok hvalid hm
    rw [hrun hm, hput hroom] at hok
    cases hok
    have hahead : b.ahead = a.ahead := by
      funext i
      rw [hextended.ahead, List.length_nil, Nat.zero_add]
    refine ⟨_, rfl, ?_⟩
    rw [hahead]
    exact hextended.trans (Archive.extended_put hextended.valid (by rw [hsize]; omega))
  · obtain hm | ⟨_, b, hm, -⟩ := bind_eq_error herror
    · obtain ⟨hrefuses, rfl⟩ := h.error hvalid hm
      exact ⟨hrefuses, .refl hvalid⟩
    · obtain ⟨hextended, hroom⟩ := h.ok hvalid hm
      rw [hrun hm, hput hroom] at herror
      cases herror
  · obtain rfl := Option.some.inj hbytes
    obtain ⟨b, hm⟩ := h.fits hvalid hfixed (by rw [hsize] at hfits; omega)
    obtain ⟨hextended, hroom⟩ := h.ok hvalid hm
    exact ⟨_, by rw [hrun hm, hput hroom]⟩

theorem Reserves.writes_const {m : Serialize Unit} (h : Reserves o m size) (bytes : List UInt8)
    (hsize : bytes.length = size) : Writes o (do m; put bytes) (Representation.of bytes) :=
  h.writes (fun _ => bytes) fun _ => hsize

end

/-! ### Reading -/

/-- `m` reads the bytes of `x`, whatever is behind them, and says that bytes are missing where they are. -/
structure Reads {α : Type} (m : Serialize α) (bytes : List UInt8) (x : α) : Prop where
  whole {a rest} : a.Valid → a.remainingData = bytes ++ rest →
    m a = .ok x ⟨a.data, a.position + bytes.length⟩
  cut {a} : a.Valid → a.remainingData <+: bytes → a.remainingData ≠ bytes →
    ∃ a', m a = .error (.errc .resultOutOfRange) a'

/-- Whatever stands in the archive: `m` stays in it, goes forward only, and what it reads is good. -/
structure Accepts {α : Type} (m : Serialize α) (Good : α → Prop) : Prop where
  ok {a x a'} : a.Valid → m a = .ok x a' → a'.data = a.data ∧ a.position ≤ a'.position ∧ a'.Valid ∧ Good x
  error {a e a'} : a.Valid → m a = .error e a' →
    (∃ code, e = .errc code) ∧ a'.data = a.data ∧ a.position ≤ a'.position ∧ a'.Valid

namespace Archive

theorem remainingData_read {a : Archive} {bytes rest : List UInt8} (h : a.remainingData = bytes ++ rest) :
    (Archive.mk a.data (a.position + bytes.length)).remainingData = rest := by
  rw [remainingData, ← List.drop_drop, ← remainingData, h, List.drop_left]

theorem valid_read {a : Archive} {bytes rest : List UInt8} (hvalid : a.Valid)
    (h : a.remainingData = bytes ++ rest) : (Archive.mk a.data (a.position + bytes.length)).Valid := by
  have hposition := hvalid.position_le
  have hlength := congrArg List.length h
  rw [length_remainingData, List.length_append] at hlength
  exact ⟨by show a.position + bytes.length ≤ a.data.length; omega, hvalid.length_lt⟩

end Archive

section

variable {α β : Type} {m : Serialize α} {f : α → Serialize β} {bytes bytes' : List UInt8} {x : α} {y : β}

theorem Reads.bind (h : Reads m bytes x) (h' : Reads (f x) bytes' y) : Reads (m >>= f) (bytes ++ bytes') y where
  whole := by
    intro a rest hvalid hremaining
    rw [List.append_assoc] at hremaining
    rw [bind_ok (h.whole hvalid hremaining),
      h'.whole (Archive.valid_read hvalid hremaining) (Archive.remainingData_read hremaining),
      List.length_append, Nat.add_assoc]
  cut := by
    intro a hvalid hbegins hne
    rcases List.prefix_or_prefix_of_prefix hbegins (List.prefix_append _ _) with hfirst | ⟨second, hremaining⟩
    · by_cases hall : a.remainingData = bytes
      · have hremaining : a.remainingData = bytes ++ [] := by rw [hall, List.append_nil]
        have hrest := Archive.remainingData_read hremaining
        obtain ⟨a', hm⟩ := h'.cut (Archive.valid_read hvalid hremaining) (by rw [hrest]; exact List.nil_prefix)
          (by rw [hrest]; rintro rfl; exact hne (by rw [hall, List.append_nil]))
        exact ⟨a', by rw [bind_ok (h.whole hvalid hremaining), hm]⟩
      · obtain ⟨a', hm⟩ := h.cut hvalid hfirst hall
        exact ⟨a', bind_error hm⟩
    · replace hremaining := hremaining.symm
      rw [hremaining, List.prefix_append_right_inj] at hbegins
      have hrest := Archive.remainingData_read hremaining
      obtain ⟨a', hm⟩ := h'.cut (Archive.valid_read hvalid hremaining) (by rw [hrest]; exact hbegins)
        (by rw [hrest]; rintro rfl; exact hne hremaining)
      exact ⟨a', by rw [bind_ok (h.whole hvalid hremaining), hm]⟩

theorem Reads.pure (x : α) : Reads (Pure.pure x) [] x where
  whole _ _ := rfl
  cut _ hbegins hne := absurd (List.prefix_nil.1 hbegins) hne

theorem Reads.map (h : Reads m bytes x) (g : α → β) : Reads (do return g (← m)) bytes (g x) := by
  have hread := h.bind (f := fun x => Pure.pure (g x)) (.pure (g x))
  rwa [List.append_nil] at hread

variable {Good : α → Prop} {Good' : β → Prop}

theorem Accepts.bind (h : Accepts m Good) (h' : ∀ x, Good x → Accepts (f x) Good') : Accepts (m >>= f) Good' where
  ok := by
    intro a y a'' hvalid hok
    obtain ⟨x, a', hm, hf⟩ := bind_eq_ok hok
    obtain ⟨hdata, hposition, hvalid', hgood⟩ := h.ok hvalid hm
    obtain ⟨hdata', hposition', hvalid'', hgood'⟩ := (h' x hgood).ok hvalid' hf
    exact ⟨hdata'.trans hdata, hposition.trans hposition', hvalid'', hgood'⟩
  error := by
    intro a e a'' hvalid herror
    obtain hm | ⟨x, a', hm, hf⟩ := bind_eq_error herror
    · exact h.error hvalid hm
    · obtain ⟨hdata, hposition, hvalid', hgood⟩ := h.ok hvalid hm
      obtain ⟨hcode, hdata', hposition', hvalid''⟩ := (h' x hgood).error hvalid' hf
      exact ⟨hcode, hdata'.trans hdata, hposition.trans hposition', hvalid''⟩

theorem Accepts.pure (h : Good x) : Accepts (Pure.pure x) Good where
  ok := by
    rintro a x' a' hvalid ⟨⟩
    exact ⟨rfl, le_rfl, hvalid, h⟩
  error := by rintro a e a' - ⟨⟩

theorem Accepts.throw (code : Errc) : Accepts (throw (.errc code) : Serialize α) Good where
  ok := by rintro a x a' - ⟨⟩
  error := by
    rintro a e a' hvalid ⟨⟩
    exact ⟨⟨code, rfl⟩, rfl, le_rfl, hvalid⟩

theorem Accepts.mono {Better : α → Prop} (h : Accepts m Better) (hgood : ∀ x, Better x → Good x) :
    Accepts m Good where
  ok hvalid hok :=
    have ⟨hdata, hposition, hvalid', hbetter⟩ := h.ok hvalid hok
    ⟨hdata, hposition, hvalid', hgood _ hbetter⟩
  error := h.error

theorem Accepts.map (h : Accepts m Good) {g : α → β} (hgood : ∀ x, Good x → Good' (g x)) :
    Accepts (do return g (← m)) Good' :=
  h.bind fun x hx => .pure (hgood x hx)

end

theorem take_run {a : Archive} (h : a.Valid) (size : Nat) : take size a =
    if size ≤ a.remainingData.length then .ok (a.remainingData.take size) ⟨a.data, a.position + size⟩
    else .error (.errc .resultOutOfRange) a := by
  have hroom := Archive.room_eq h
  have hposition := h.position_le
  have hlength := Archive.length_remainingData a
  show (if size > a.room then _ else _ : Serialize (List UInt8)) a = _
  split
  · rw [if_neg (by omega)]
    rfl
  · rw [if_neg (by omega), if_pos (by omega)]
    rfl

theorem reads_take (bytes : List UInt8) : Reads (take bytes.length) bytes bytes where
  whole hvalid hremaining := by
    rw [take_run hvalid, hremaining, if_pos (by simp), List.take_left]
  cut := by
    intro a hvalid hbegins hne
    have hlt : a.remainingData.length < bytes.length :=
      lt_of_le_of_ne hbegins.length_le fun heq => hne (hbegins.eq_of_length heq)
    exact ⟨a, by rw [take_run hvalid, if_neg (by omega)]⟩

theorem accepts_take (size : Nat) : Accepts (take size) fun bytes => bytes.length = size where
  ok := by
    intro a bytes a' hvalid hok
    have hposition := hvalid.position_le
    have hlength := Archive.length_remainingData a
    rw [take_run hvalid] at hok
    split at hok
    · cases hok
      exact ⟨rfl, Nat.le_add_right _ _, ⟨by show a.position + size ≤ a.data.length; omega, hvalid.length_lt⟩,
        List.length_take_of_le ‹_›⟩
    · cases hok
  error := by
    intro a e a' hvalid herror
    rw [take_run hvalid] at herror
    split at herror
    · cases herror
    · cases herror
      exact ⟨⟨_, rfl⟩, rfl, le_rfl, hvalid⟩

end LuPlatform.Reflection
