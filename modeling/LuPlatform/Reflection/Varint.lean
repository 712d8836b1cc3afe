import LuPlatform.Library.Base128
import LuPlatform.Reflection.Archive

/-! Integers of variable size. A `varint` is written seven bits a byte. It is read byte by byte near the
end of the data and with unrolled steps where the largest one would still fit. -/

namespace LuPlatform.Reflection

open Base128

inductive VarintEncoding where
  | normal | zigZag
deriving DecidableEq, Repr

/-- An integer type and how it is encoded. Zig-zag goes with signed types. -/
structure VarintType where
  width : Nat
  encoding : VarintEncoding
  width_mem : width = 8 ∨ width = 16 ∨ width = 32 ∨ width = 64

def varintMaxSize (width : Nat) : Nat := width / 7 + 1

def varintSize {width : Nat} (value : BitVec width) : Nat :=
  (width - (value ||| (BitVec.ofNat width 0x1)).clz.toNat + 6) / 7

namespace VarintType

variable (type : VarintType)

def toUnsigned (value : BitVec type.width) : BitVec type.width :=
  match type.encoding with
  | .normal => value
  | .zigZag => (value <<< 1) ^^^ value.sshiftRight (type.width - 1)

def ofUnsigned (value : BitVec type.width) : BitVec type.width :=
  match type.encoding with
  | .normal => value
  | .zigZag => (value >>> 1) ^^^ -(value &&& (BitVec.ofNat type.width 0x1))

end VarintType

theorem toNat_shiftRight_lt {width : Nat} {value : BitVec width} (h : 0x80 ≤ value.toNat) :
    (value >>> 7).toNat < value.toNat := by
  rw [BitVec.toNat_ushiftRight, Nat.shiftRight_eq_div_pow]
  exact Nat.div_lt_self (by omega) (by decide)

/-- The bytes that the loop writes. -/
def varintBytes {width : Nat} (value : BitVec width) : List UInt8 :=
  if 0x80 ≤ value.toNat then
    UInt8.ofNat ((value &&& (BitVec.ofNat width 0x7f)) ||| (BitVec.ofNat width 0x80)).toNat :: varintBytes (value >>> 7)
  else [UInt8.ofNat value.toNat]
termination_by value.toNat
decreasing_by exact toNat_shiftRight_lt ‹_›

namespace Options

/-- A resizable archive gets place for the largest number. -/
def reserveVarint (o : Options) {width : Nat} (value : BitVec width) : Serialize Unit := do
  if o.resizable then o.enlargeFor (varintMaxSize width)
  else
    let dataSize := (← get).room
    if dataSize < varintMaxSize width ∧ dataSize < varintSize value then throw (.errc .resultOutOfRange)

def serializeVarint (o : Options) (type : VarintType) (origValue : BitVec type.width) : Serialize Unit := do
  let value := type.toUnsigned origValue
  o.reserveVarint value
  put (varintBytes value)

end Options

/-- The loop of `decode_varint` near the end of the data. The second component counts the bytes. -/
def decodeSlow {width : Nat} (value : BitVec width) (shift : Nat) :
    List UInt8 → Except Failure (BitVec width × Nat)
  | [] => .error (.errc .resultOutOfRange)
  | byteValue :: data =>
    let nextByte := BitVec.ofNat width byteValue.toNat
    let value := value ||| ((nextByte &&& (BitVec.ofNat width 0x7f)) <<< shift)
    if 0x80 ≤ nextByte.toNat then (decodeSlow value (shift + 7) data).map fun (value, n) => (value, n + 1)
    else .ok (value, 1)

/-- The unrolled steps, each with its shift and mask. -/
def decodeFast {width : Nat} (value : BitVec width) :
    List (Nat × BitVec width) → List UInt8 → Except Failure (BitVec width × Nat)
  | [], _ => .error (.errc .valueTooLarge)
  | _ :: _, [] => .error .outside
  | (shift, mask) :: steps, byteValue :: data =>
    let nextByte := BitVec.ofNat width byteValue.toNat
    let value := value ||| ((nextByte &&& mask) <<< shift)
    if nextByte.toNat < 0x80 then .ok (value, 1)
    else (decodeFast value steps data).map fun (value, n) => (value, n + 1)

/-- The tenth step takes one bit, the last of 64. -/
def fastStep (width i : Nat) : Nat × BitVec width := (7 * i, if i = 9 then (BitVec.ofNat width 0x01) else (BitVec.ofNat width 0x7f))

def decodeVarint (width : Nat) (data : List UInt8) : Except Failure (BitVec width × Nat) :=
  if data.length < varintMaxSize width then decodeSlow (BitVec.ofNat width 0) 0 data
  else decodeFast (BitVec.ofNat width 0) ((List.range (varintMaxSize width)).map (fastStep width)) data

/-- A first byte that nothing follows is taken without `decode_varint`, unless the macro
`LU_REFLECTION_INLINE_DECODE_VARINT` is set. -/
def Options.decodeFirst (o : Options) (width : Nat) : List UInt8 → Except Failure (BitVec width × Nat)
  | [] => decodeVarint width []
  | byteValue :: data =>
    if !o.inlineDecodeVarint && BitVec.ofNat width byteValue.toNat &&& (BitVec.ofNat width 0x80) == (BitVec.ofNat width 0) then
      .ok (BitVec.ofNat width byteValue.toNat, 1)
    else decodeVarint width (byteValue :: data)

def Options.deserializeVarint (o : Options) (type : VarintType) : Serialize (BitVec type.width) := do
  let a ← get
  match o.decodeFirst type.width a.remainingData with
  | .ok (value, n) =>
    set { a with position := a.position + n }
    return type.ofUnsigned value
  | .error e => throw e

/-! ### The bytes -/

section

variable {width : Nat} (value : BitVec width)

theorem toNat_digit (hwidth : 8 ≤ width) :
    ((value &&& (BitVec.ofNat width 0x7f)) ||| (BitVec.ofNat width 0x80)).toNat = value.toNat % 128 + 128 := by
  have hpow : 2 ^ 8 ≤ 2 ^ width := Nat.pow_le_pow_right (by decide) hwidth
  rw [BitVec.toNat_or, BitVec.toNat_and, BitVec.toNat_ofNat, BitVec.toNat_ofNat,
    Nat.mod_eq_of_lt (a := 0x7f) (by omega), Nat.mod_eq_of_lt (a := 0x80) (by omega),
    show 0x7f = 2 ^ 7 - 1 from rfl, Nat.and_two_pow_sub_one_eq_mod, Nat.or_comm,
    show 0x80 = 2 ^ 7 * 1 from rfl, ← Nat.two_pow_add_eq_or_of_lt (Nat.mod_lt _ (by decide))]
  omega

theorem varintBytes_eq (hwidth : 8 ≤ width) : varintBytes value = encode value.toNat := by
  induction h : value.toNat using Nat.strongRecOn generalizing value with
  | ind n ih =>
    subst h
    rw [varintBytes]
    split
    · rename_i hmore
      rw [toNat_digit value hwidth, ih _ (toNat_shiftRight_lt hmore) _ rfl, BitVec.toNat_ushiftRight,
        Nat.shiftRight_eq_div_pow, encode_of_le hmore]
    · rw [encode_of_lt (by omega)]

theorem log2_or_one (n : Nat) : Nat.log2 (n ||| 1) = Nat.log2 n := by
  rcases Nat.eq_zero_or_pos n with rfl | hpos
  · rfl
  · have hle := Nat.log2_self_le (Nat.pos_iff_ne_zero.1 hpos)
    rw [Nat.log2_eq_iff (Nat.pos_iff_ne_zero.1 (hpos.trans_le Nat.left_le_or))]
    exact ⟨hle.trans Nat.left_le_or, Nat.or_lt_two_pow Nat.lt_log2_self (Nat.one_lt_two_pow (by omega))⟩

/-- `varint_size` is the number of bytes that the loop writes. -/
theorem varintSize_eq (hwidth : 0 < width) : varintSize value = (encode value.toNat).length := by
  have hone : (value ||| (BitVec.ofNat width 0x1)) ≠ (BitVec.ofNat width 0) := by
    intro h
    have hbit := congrArg (·.getLsbD 0) h
    simp [hwidth] at hbit
  have hor : (value ||| (BitVec.ofNat width 0x1)).toNat = value.toNat ||| 1 := by
    rw [BitVec.toNat_or, BitVec.toNat_ofNat, Nat.mod_eq_of_lt (Nat.one_lt_two_pow (by omega))]
  have hlt := BitVec.toNat_lt_two_pow_sub_clz (x := value ||| (BitVec.ofNat width 0x1))
  have hclz : (value ||| (BitVec.ofNat width 0x1)).clz.toNat < width := by
    by_contra hge
    rw [show width - _ = 0 by omega] at hlt
    exact hone (BitVec.eq_of_toNat_eq (by simpa using hlt))
  have hlog : Nat.log2 (value.toNat ||| 1) = width - 1 - (value ||| (BitVec.ofNat width 0x1)).clz.toNat := by
    rw [← hor, Nat.log2_eq_iff (by simpa [BitVec.toNat_eq] using hone)]
    refine ⟨BitVec.two_pow_sub_clz_le_toNat_of_ne_zero hwidth hone, ?_⟩
    rwa [show width - 1 - _ + 1 = width - (value ||| (BitVec.ofNat width 0x1)).clz.toNat by omega]
  rw [length_encode, ← log2_or_one, hlog, varintSize]
  omega

theorem length_encode_le_maxSize : (encode value.toNat).length ≤ varintMaxSize width :=
  length_encode_le (value.isLt.trans_le (Nat.pow_le_pow_right (by decide) (by rw [varintMaxSize]; omega)))
    (Nat.succ_pos _)

end

/-! ### Reading them -/

section

variable {width : Nat}

theorem toNat_ofNat_byte (hwidth : 8 ≤ width) (b : UInt8) : (BitVec.ofNat width b.toNat).toNat = b.toNat := by
  have hpow : 2 ^ 8 ≤ 2 ^ width := Nat.pow_le_pow_right (by decide) hwidth
  have hb := b.toNat_lt
  rw [BitVec.toNat_ofNat, Nat.mod_eq_of_lt (by omega)]

theorem ofNat_and_digit (n : Nat) : BitVec.ofNat width n &&& (BitVec.ofNat width 0x7f) = BitVec.ofNat width (n % 128) := by
  rw [← BitVec.ofNat_and, show 0x7f = 2 ^ 7 - 1 from rfl, Nat.and_two_pow_sub_one_eq_mod]

/-- A digit and the number behind it, shifted to their place. -/
theorem shiftLeft_digit (b n shift : Nat) :
    (BitVec.ofNat width b &&& (BitVec.ofNat width 0x7f)) <<< shift ||| BitVec.ofNat width n <<< (shift + 7) =
      BitVec.ofNat width (b % 128 + 128 * n) <<< shift := by
  have hdigits : b % 128 + 128 * n = b % 128 ||| n <<< 7 := by
    rw [Nat.shiftLeft_eq, Nat.or_comm, Nat.mul_comm n, ← Nat.two_pow_add_eq_or_of_lt (Nat.mod_lt _ (by decide))]
    omega
  have hshift : BitVec.ofNat width (n <<< 7) = BitVec.ofNat width n <<< 7 := by
    apply BitVec.eq_of_toNat_eq
    rw [BitVec.toNat_ofNat, BitVec.toNat_shiftLeft, BitVec.toNat_ofNat, Nat.shiftLeft_eq, Nat.shiftLeft_eq,
      Nat.mod_mul_mod]
  rw [ofNat_and_digit, hdigits, BitVec.ofNat_or, hshift, BitVec.shiftLeft_or_distrib, ← BitVec.shiftLeft_add,
    Nat.add_comm shift]

theorem decodeSlow_eq (hwidth : 8 ≤ width) (value : BitVec width) (shift : Nat) (data : List UInt8) :
    decodeSlow value shift data = match decode data with
      | none => .error (.errc .resultOutOfRange)
      | some (n, rest) => .ok (value ||| BitVec.ofNat width n <<< shift, data.length - rest.length) := by
  induction data generalizing value shift with
  | nil => rfl
  | cons b data ih =>
    rw [decodeSlow]
    simp only [toNat_ofNat_byte hwidth]
    by_cases hmore : 0x80 ≤ b.toNat
    · rw [if_pos hmore, ih, decode_more hmore]
      cases hdecode : decode data with
      | none => rfl
      | some result =>
        obtain ⟨n, rest⟩ := result
        obtain ⟨digits, -, rfl, -⟩ := decode_eq_some hdecode
        simp only [Except.map, Option.map_some, BitVec.or_assoc, shiftLeft_digit, List.length_append,
          List.length_cons]
        congr 2
        omega
    · rw [if_neg hmore, decode_last (by omega)]
      have hb : b.toNat % 128 = b.toNat := Nat.mod_eq_of_lt (by omega)
      simp only [ofNat_and_digit, hb, List.length_cons]
      congr 2
      omega

theorem shiftLeft_last (hwidth : width ≤ 64) (value : BitVec width) :
    (value &&& (BitVec.ofNat width 0x01)) <<< 63 = (value &&& (BitVec.ofNat width 0x7f)) <<< 63 := by
  ext j hj
  simp only [BitVec.getElem_shiftLeft]
  by_cases hlast : j < 63
  · simp [hlast]
  · obtain rfl : j = 63 := by omega
    obtain rfl : width = 64 := by omega
    simp

/-- What a step of `decode_varint` takes is the digit, as far as there is place for it. -/
theorem shiftLeft_fastStep (hwidth : width ≤ 64) (value : BitVec width) (i : Nat) :
    (value &&& (fastStep width i).2) <<< (fastStep width i).1 = (value &&& (BitVec.ofNat width 0x7f)) <<< (7 * i) := by
  by_cases hi : i = 9
  · subst hi
    exact shiftLeft_last hwidth value
  · rw [fastStep, if_neg hi]

theorem decodeFast_eq (hwidth : 8 ≤ width) (hle : width ≤ 64) (value : BitVec width) (i k : Nat)
    (data : List UInt8) (h : k ≤ data.length) :
    decodeFast value ((List.range' i k).map (fastStep width)) data = match decode data with
      | none => .error (.errc .valueTooLarge)
      | some (n, rest) =>
        if data.length - rest.length ≤ k then
          .ok (value ||| BitVec.ofNat width n <<< (7 * i), data.length - rest.length)
        else .error (.errc .valueTooLarge) := by
  induction k generalizing value i data with
  | zero =>
    cases hdecode : decode data with
    | none => rfl
    | some result =>
      obtain ⟨digits, hne, rfl, -⟩ := decode_eq_some hdecode
      have hpos := List.length_pos_iff.2 hne
      simp only [List.length_append]
      rw [if_neg (by omega)]
      rfl
  | succ k ih =>
    cases data with
    | nil => simp at h
    | cons b data =>
      rw [List.range'_succ, List.map_cons, decodeFast]
      simp only [toNat_ofNat_byte hwidth, shiftLeft_fastStep hle]
      by_cases hmore : b.toNat < 0x80
      · have hb : b.toNat % 128 = b.toNat := Nat.mod_eq_of_lt hmore
        have hcount : (b :: data).length - data.length = 1 := by simp
        rw [if_pos hmore, decode_last hmore]
        simp only [hcount]
        rw [if_pos (by omega), ofNat_and_digit, hb]
      · rw [if_neg hmore, ih _ _ _ (by simpa using h), decode_more (by omega)]
        cases hdecode : decode data with
        | none => rfl
        | some result =>
          obtain ⟨n, rest⟩ := result
          obtain ⟨digits, -, rfl, -⟩ := decode_eq_some hdecode
          have hcount : (b :: (digits ++ rest)).length - rest.length = digits.length + 1 := by simp; omega
          have hcount' : (digits ++ rest).length - rest.length = digits.length := by simp
          simp only [Option.map_some, hcount, hcount', Nat.add_le_add_iff_right, BitVec.or_assoc, Nat.mul_add,
            Nat.mul_one, shiftLeft_digit]
          split <;> rfl

/-- `decode_varint` finds the number that the bytes begin with, cut to the type, unless it has more bytes
than one of the type. The loop and the unrolled steps differ only in what they say of a number without end. -/
theorem decodeVarint_eq (hwidth : 8 ≤ width) (hle : width ≤ 64) (data : List UInt8) :
    decodeVarint width data = match decode data with
      | none => .error (.errc (if data.length < varintMaxSize width then .resultOutOfRange else .valueTooLarge))
      | some (n, rest) =>
        if data.length - rest.length ≤ varintMaxSize width then
          .ok (BitVec.ofNat width n, data.length - rest.length)
        else .error (.errc .valueTooLarge) := by
  rw [decodeVarint]
  by_cases hshort : data.length < varintMaxSize width
  · rw [if_pos hshort, decodeSlow_eq hwidth]
    cases hdecode : decode data with
    | none => rw [if_pos hshort]
    | some result => simp [show data.length - result.2.length ≤ varintMaxSize width by omega]
  · rw [if_neg hshort, List.range_eq_range', decodeFast_eq hwidth hle _ _ _ _ (by omega)]
    cases hdecode : decode data with
    | none => rw [if_neg hshort]
    | some result => simp

/-- The shortcut is what `decode_varint` does with such a byte. -/
theorem decodeFirst_eq (o : Options) (hwidth : 8 ≤ width) (hle : width ≤ 64) (data : List UInt8) :
    o.decodeFirst width data = decodeVarint width data := by
  cases data with
  | nil => rfl
  | cons b data =>
    rw [Options.decodeFirst]
    split
    · rename_i hfirst
      rw [Bool.and_eq_true, beq_iff_eq] at hfirst
      have hlast : b.toNat < 128 := by
        have hbyte := b.toNat_lt
        have hbit : b.toNat.testBit 7 = false := by
          have hand := congrArg (·.getLsbD 7) hfirst.2
          simp only [BitVec.getLsbD_and, BitVec.getLsbD_ofNat] at hand
          simpa [show 7 < width by omega, show Nat.testBit 128 7 = true from rfl] using hand
        rw [Nat.testBit_eq_decide_div_mod_eq, decide_eq_false_iff_not] at hbit
        omega
      have hcount : (b :: data).length - data.length = 1 := by simp
      rw [decodeVarint_eq hwidth hle, decode_last hlast]
      simp only [hcount]
      rw [if_pos (by rw [varintMaxSize]; omega)]
    · rfl

end

section

variable {width : Nat} (value : BitVec width)

theorem sshiftRight_sign (hwidth : 0 < width) :
    value.sshiftRight (width - 1) = if value.msb then BitVec.allOnes width else (BitVec.ofNat width 0) := by
  ext j hj
  rw [BitVec.getElem_sshiftRight]
  rcases Nat.eq_zero_or_pos j with rfl | hpos
  · rw [dif_pos (by omega)]
    simp only [Nat.add_zero]
    rw [← BitVec.getLsbD_eq_getElem, ← BitVec.msb_eq_getLsbD_last]
    cases value.msb <;> simp
  · rw [dif_neg (by omega)]
    cases value.msb <;> simp

/-- The sign goes to the lowest bit. -/
theorem zigZag_and_one (hwidth : 0 < width) :
    ((value <<< 1) ^^^ value.sshiftRight (width - 1)) &&& (BitVec.ofNat width 0x1) =
      if value.msb then (BitVec.ofNat width 0x1) else (BitVec.ofNat width 0) := by
  rw [sshiftRight_sign value hwidth]
  ext j hj
  rcases Nat.eq_zero_or_pos j with rfl | hpos
  · cases value.msb <;> simp
  · cases value.msb <;> simp <;> omega

theorem zigZag_inverse (hwidth : 0 < width) :
    (((value <<< 1) ^^^ value.sshiftRight (width - 1)) >>> 1) ^^^
      -(((value <<< 1) ^^^ value.sshiftRight (width - 1)) &&& (BitVec.ofNat width 0x1)) = value := by
  rw [zigZag_and_one value hwidth, sshiftRight_sign value hwidth]
  have hneg : -(BitVec.ofNat width 0x1) = BitVec.allOnes width := BitVec.neg_one_eq_allOnes
  cases hmsb : value.msb with
  | true =>
    rw [if_pos rfl, if_pos rfl, hneg]
    ext j hj
    simp only [BitVec.getElem_xor, BitVec.getElem_ushiftRight, BitVec.getElem_allOnes]
    rcases Nat.lt_or_ge (1 + j) width with hin | hin
    · simp [hin]
    · obtain rfl : j = width - 1 := by omega
      rw [← BitVec.getLsbD_eq_getElem, ← BitVec.msb_eq_getLsbD_last, hmsb]
      simp [hin]
  | false =>
    rw [if_neg (by simp), if_neg (by simp), BitVec.neg_zero, BitVec.xor_zero, BitVec.xor_zero]
    ext j hj
    rw [BitVec.getElem_ushiftRight]
    rcases Nat.lt_or_ge (1 + j) width with hin | hin
    · simp [hin]
    · obtain rfl : j = width - 1 := by omega
      rw [← BitVec.getLsbD_eq_getElem, ← BitVec.msb_eq_getLsbD_last, hmsb]
      simp [hin]

end

namespace VarintType

variable (type : VarintType)

theorem le_width : 8 ≤ type.width := by
  have := type.width_mem
  omega

theorem width_le : type.width ≤ 64 := by
  have := type.width_mem
  omega

theorem ofUnsigned_toUnsigned (value : BitVec type.width) : type.ofUnsigned (type.toUnsigned value) = value := by
  have hwidth := type.le_width
  rw [ofUnsigned, toUnsigned]
  cases type.encoding with
  | normal => rfl
  | zigZag => exact zigZag_inverse value (by omega)

end VarintType

/-! ### In an archive -/

section

variable {o : Options} (type : VarintType)

def varintRepresentation (value : BitVec type.width) : List UInt8 := encode (type.toUnsigned value).toNat

theorem reserves_varint (h : o.Sound) {width : Nat} (hwidth : 0 < width) (value : BitVec width) :
    Reserves o (o.reserveVarint value) (encode value.toNat).length := by
  have hmax := length_encode_le_maxSize value
  have hsize := varintSize_eq value hwidth
  cases hresizable : o.resizable with
  | true =>
    have hreserve : o.reserveVarint value = o.enlargeFor (varintMaxSize width) := by
      rw [Options.reserveVarint, if_pos hresizable]
    exact hreserve ▸ (reserves_enlargeFor h hresizable).mono hmax hresizable
  | false =>
    have hreserve (a : Archive) : o.reserveVarint value a =
        if a.room < varintSize value then .error (.errc .resultOutOfRange) a else .ok () a := by
      rw [Options.reserveVarint, if_neg (by simp [hresizable])]
      show (if a.room < varintMaxSize width ∧ a.room < varintSize value then _ else _ : Serialize Unit) a = _
      by_cases hroom : a.room < varintSize value
      · rw [if_pos ⟨by omega, hroom⟩, if_pos hroom]
        rfl
      · rw [if_neg fun h => hroom h.2, if_neg hroom]
        rfl
    refine ⟨fun {a a'} hvalid hok => ?_, fun {a a' e} hvalid herror => ?_, fun {a} hvalid _ hfits => ?_⟩
    · have hroom := Archive.room_eq hvalid
      have hposition := hvalid.position_le
      rw [hreserve] at hok
      split at hok
      · cases hok
      · cases hok
        exact ⟨Archive.extended_nil hvalid, by omega⟩
    · rw [hreserve] at herror
      split at herror
      · cases herror
        exact ⟨.inr (by simp [hresizable]), rfl⟩
      · cases herror
    · have hroom := Archive.room_eq hvalid
      exact ⟨a, by rw [hreserve, if_neg (by omega)]⟩

theorem writes_varint (h : o.Sound) (value : BitVec type.width) :
    Writes o (o.serializeVarint type value) (Representation.of (varintRepresentation type value)) := by
  have hbytes := varintBytes_eq (type.toUnsigned value) type.le_width
  have hwidth := type.le_width
  have hwrites := (reserves_varint h (by omega) (type.toUnsigned value)).writes_const
    (varintBytes (type.toUnsigned value)) (by rw [hbytes])
  rw [hbytes] at hwrites
  rw [Options.serializeVarint, hbytes]
  exact hwrites

theorem deserializeVarint_run (a : Archive) : o.deserializeVarint type a =
    match decodeVarint type.width a.remainingData with
    | .ok (value, n) => .ok (type.ofUnsigned value) ⟨a.data, a.position + n⟩
    | .error e => .error e a := by
  rw [← decodeFirst_eq o type.le_width type.width_le]
  show (match o.decodeFirst type.width a.remainingData with | .ok (value, n) => _ | .error e => _ :
    Serialize _) a = _
  cases o.decodeFirst type.width a.remainingData with
  | ok result => rfl
  | error e => rfl

theorem reads_varint (value : BitVec type.width) :
    Reads (o.deserializeVarint type) (varintRepresentation type value) value where
  whole := by
    intro a rest hvalid hremaining
    have hmax := length_encode_le_maxSize (type.toUnsigned value)
    have hcount (bytes : List UInt8) : (bytes ++ rest).length - rest.length = bytes.length := by simp
    rw [deserializeVarint_run, hremaining, decodeVarint_eq type.le_width type.width_le, varintRepresentation,
      decode_encode]
    simp only [hcount]
    rw [if_pos hmax, BitVec.ofNat_toNat, BitVec.setWidth_eq]
    simp only [type.ofUnsigned_toUnsigned]
  cut := by
    intro a hvalid hbegins hne
    have hmax := length_encode_le_maxSize (type.toUnsigned value)
    have hlt : a.remainingData.length < (varintRepresentation type value).length :=
      lt_of_le_of_ne hbegins.length_le fun heq => hne (hbegins.eq_of_length heq)
    rw [varintRepresentation] at hlt
    refine ⟨a, ?_⟩
    rw [deserializeVarint_run, decodeVarint_eq type.le_width type.width_le, decode_of_prefix hbegins hne,
      if_pos (by omega)]

theorem accepts_varint : Accepts (o.deserializeVarint type) fun _ => True where
  ok := by
    intro a value a' hvalid hok
    have hposition := hvalid.position_le
    have hlength := a.length_remainingData
    rw [deserializeVarint_run, decodeVarint_eq type.le_width type.width_le] at hok
    cases hdecode : decode a.remainingData with
    | none =>
      rw [hdecode] at hok
      cases hok
    | some result =>
      rw [hdecode] at hok
      dsimp only at hok
      split at hok
      · rename_i hcount
        split at hcount
        · cases hcount
          cases hok
          exact ⟨rfl, Nat.le_add_right _ _,
            ⟨by show a.position + (a.remainingData.length - _) ≤ a.data.length; omega, hvalid.length_lt⟩, trivial⟩
        · cases hcount
      · cases hok
  error := by
    intro a e a' hvalid herror
    rw [deserializeVarint_run, decodeVarint_eq type.le_width type.width_le] at herror
    cases hdecode : decode a.remainingData with
    | none =>
      rw [hdecode] at herror
      cases herror
      exact ⟨⟨_, rfl⟩, rfl, le_rfl, hvalid⟩
    | some result =>
      rw [hdecode] at herror
      dsimp only at herror
      split at herror
      · cases herror
      · rename_i hcode
        split at hcode
        · cases hcode
        · cases hcode
          cases herror
          exact ⟨⟨_, rfl⟩, rfl, le_rfl, hvalid⟩

/-- The unrolled steps, the loop and the shortcut agree: they read what the loop finds in as many bytes as a
number of the type can have. They differ in what they say of a number without end. -/
theorem decodeFirst_eq_decodeSlow (type : VarintType) (o : Options) (data : List UInt8) :
    o.decodeFirst type.width data =
      match decodeSlow (BitVec.ofNat type.width 0) 0 (data.take (varintMaxSize type.width)) with
      | .ok result => .ok result
      | .error _ =>
        .error (.errc (if data.length < varintMaxSize type.width then .resultOutOfRange else .valueTooLarge)) := by
  rw [decodeFirst_eq o type.le_width type.width_le, decodeVarint_eq type.le_width type.width_le,
    decodeSlow_eq type.le_width, decode_take]
  cases hdecode : decode data with
  | none => rfl
  | some result =>
    obtain ⟨n, rest⟩ := result
    obtain ⟨digits, -, rfl, -⟩ := decode_eq_some hdecode
    have hcount : (digits ++ rest).length - rest.length = digits.length := by simp
    dsimp only
    rw [hcount]
    by_cases hle : digits.length ≤ varintMaxSize type.width
    · have hcount' : ((digits ++ rest).take (varintMaxSize type.width)).length -
          (rest.take (varintMaxSize type.width - digits.length)).length = digits.length := by
        rw [List.take_append, List.take_of_length_le hle, List.length_append, Nat.add_sub_cancel]
      simp only [if_pos hle, hcount', BitVec.zero_or, BitVec.shiftLeft_zero]
    · have hlong : ¬ (digits ++ rest).length < varintMaxSize type.width := by
        rw [List.length_append]
        omega
      simp only [if_neg hle, if_neg hlong]

end

end LuPlatform.Reflection
