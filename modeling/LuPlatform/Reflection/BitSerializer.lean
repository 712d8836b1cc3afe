import LuPlatform.Library.Bytes
import LuPlatform.Reflection.Item

/-! `serialize_one` of the two archives, for each kind of type. What can be copied as bytes is; an archive
that swaps copies so only what has no byte order. -/

namespace LuPlatform.Reflection

open Bytes

namespace Options

variable (o : Options)

/-- `std::reverse_copy` where the archive swaps, and `std::memcpy` where it does not. -/
def ordered (bytes : List UInt8) : List UInt8 := if o.endianAware then bytes.reverse else bytes

def serializeAsBytes (item : Item) : Bool :=
  item.endianIndependentByteSerializable || (!o.endianAware && item.byteSerializable)

end Options

/-- `std::byte`. -/
def byte : Fundamental := ⟨1, true, Nat.one_pos, fun _ => rfl⟩

/-- `vsize_t`. -/
def vsize : VarintType := ⟨64, .normal, by decide⟩

def sizeofElement (type : ContainerType) (item : Item) : Nat :=
  if item.byteSerializable then item.imageSize else type.elementSize

def sizeInBytes (size : Nat) : Nat := (size + 7) / 8

/-! ### Writing -/

namespace Options

variable (o : Options)

def serializeFundamental (type : Fundamental) (value : Image type.size) : Serialize Unit := do
  o.reserve type.size
  put (o.ordered value.1)

def serializeBytes (bytes : List UInt8) : Serialize Unit := do
  if bytes.length ≠ 0 then
    o.reserve bytes.length
    put bytes

/-- The size is cast to its type. -/
def serializeSize (type : SizeType) (size : Nat) : Serialize Unit :=
  match type with
  | .fixed sizeof => do
    o.reserve sizeof
    put (o.ordered (toLittleEndian sizeof size))
  | .varint => o.serializeVarint vsize (BitVec.ofNat 64 size)

end Options

def orBit {size : Nat} (bitset : Fin size → Bool) (data : List UInt8) (i : Fin size) : List UInt8 :=
  data.modify (i / 8) fun value => value ||| (if bitset i then 1 else 0) <<< UInt8.ofNat (i % 8)

/-- Each bit is put into the byte that is there. -/
def orBits {size : Nat} (bitset : Fin size → Bool) (data : List UInt8) : List UInt8 :=
  (List.finRange size).foldl (orBit bitset) data

def Options.serializeBitset (o : Options) {size : Nat} (bitset : Fin size → Bool) : Serialize Unit := do
  o.reserve (sizeInBytes size)
  put (orBits bitset ((List.range (sizeInBytes size)).map (← get).ahead))

mutual

def serializeOne (o : Options) : (item : Item) → item.Value → Serialize Unit
  | .fundamental type, value => o.serializeFundamental type value
  | .varint type, value => o.serializeVarint type value
  | .aggregate packed members, values =>
    if o.serializeAsBytes (.aggregate packed members) then
      o.serializeBytes ((Item.aggregate packed members).image values)
    else serializeMany o members values
  | .tuple elements, values => serializeMany o elements values
  | .array _ item, values =>
    if o.serializeAsBytes item then o.serializeBytes (values.1.flatMap item.image)
    else values.1.forM (serializeOne o item)
  | .container type item, values => do
    o.serializeSize type.sizeType values.length
    if o.serializeAsBytes item && type.contiguous then o.serializeBytes (values.flatMap item.image)
    else values.forM (serializeOne o item)
  | .optional item, optional =>
    match optional with
    | none => o.serializeFundamental byte ⟨[0], rfl⟩
    | some value => do
      o.serializeFundamental byte ⟨[1], rfl⟩
      serializeOne o item value
  | .variant idType ids _ alternatives, variant =>
    match variant with
    | none => throw (.errc .invalidArgument)
    | some alternative => serializeAlternative o idType alternatives ids alternative
  | .owningPointer item, pointer =>
    match pointer with
    | none => throw (.errc .invalidArgument)
    | some value => serializeOne o item value
  | .bitset _, bitset => o.serializeBitset bitset

def serializeMany (o : Options) {n : Nat} : (items : Items n) → items.Values → Serialize Unit
  | .nil, _ => pure ()
  | .cons item items, values => do
    serializeOne o item values.1
    serializeMany o items values.2

/-- The id of the alternative that the variant holds, and the alternative. -/
def serializeAlternative (o : Options) (idType : Fundamental) {n : Nat} : (alternatives : Items n) →
    (Fin n → Image idType.size) → alternatives.Alternative → Serialize Unit
  | .cons item alternatives, ids, alternative =>
    match alternative with
    | .inl value => do
      o.serializeFundamental idType (ids 0)
      serializeOne o item value
    | .inr alternative => serializeAlternative o idType alternatives (fun i => ids i.succ) alternative

end

/-- What `out` does about the size of the view when it is through, also after an error. -/
def Options.fit (o : Options) (finish : Nat) (a : Archive) : Archive :=
  if o.resizable && !o.noFitSize && (o.multiplier, o.divisor) ≠ (1, 1) && finish ≤ a.position then
    a.resize a.position
  else a

/-- The call operator of `out`. -/
def Options.out (o : Options) {n : Nat} (items : Items n) (values : items.Values) : Serialize Unit :=
  fun a => match serializeMany o items values a with
    | .ok _ a' => .ok () (o.fit a.data.length a')
    | .error e a' => .error e (o.fit a.data.length a')

/-! ### Reading -/

namespace Options

variable (o : Options)

def deserializeFundamental (type : Fundamental) : Serialize (Image type.size) := do
  let bytes ← take type.size
  return type.ofImage (o.ordered bytes)

def deserializeSize : SizeType → Serialize Nat
  | .fixed sizeof => do
    let bytes ← take sizeof
    return ofLittleEndian (o.ordered bytes)
  | .varint => do return (← o.deserializeVarint vsize).toNat

/-- Before a container is resized. -/
def checkLimit (size sizeof : Nat) : Serialize Unit := do
  if o.allocationLimit ≠ 2 ^ 64 - 1 ∧ size > o.allocationLimit / sizeof then throw (.errc .messageSize)

end Options

def deserializeBytes (size : Nat) : Serialize (List UInt8) := if size = 0 then pure [] else take size

def bitAt (data : List UInt8) (i : Nat) : Bool := (data.getD (i / 8) 0 >>> UInt8.ofNat (i % 8)) &&& 1 ≠ 0

def deserializeBitset (size : Nat) : Serialize (Fin size → Bool) := do
  let data ← take (sizeInBytes size)
  return fun i => bitAt data i

/-- One after the other. -/
def deserializeItems {α : Type} (read : Serialize α) :
    (count : Nat) → Serialize { values : List α // values.length = count }
  | 0 => pure ⟨[], rfl⟩
  | count + 1 => do
    let value ← read
    let values ← deserializeItems read count
    return ⟨value :: values.1, congrArg (· + 1) values.2⟩

/-- The first alternative with the id. -/
def indexOfId {n : Nat} {Id : Type} [DecidableEq Id] (ids : Fin n → Id) (id : Id) : Option (Fin n) :=
  (List.finRange n).find? fun i => ids i = id

theorem byteSerializable_of_endianIndependent : (item : Item) →
    item.endianIndependentByteSerializable = true → item.byteSerializable = true
  | .fundamental _, _ => rfl
  | .array _ item, h => byteSerializable_of_endianIndependent item h

theorem Options.byteSerializable {o : Options} {item : Item} (h : o.serializeAsBytes item = true) :
    item.byteSerializable = true := by
  rcases Bool.or_eq_true_iff.1 h with hbyte | hnative
  · exact byteSerializable_of_endianIndependent item hbyte
  · exact (Bool.and_eq_true_iff.1 hnative).2

/-- `count` items, as a block or one by one. -/
def Options.deserializeBlock (o : Options) (item : Item) (contiguous : Bool) (count : Nat)
    (read : Serialize item.Value) : Serialize { values : List item.Value // values.length = count } :=
  if h : o.serializeAsBytes item = true ∧ contiguous = true then do
    let bytes ← deserializeBytes (count * item.imageSize)
    return ⟨ofImages item.imageSize (item.ofImage (o.byteSerializable h.1)) count bytes, length_ofImages⟩
  else deserializeItems read count

mutual

def deserializeOne (o : Options) : (item : Item) → Serialize item.Value
  | .fundamental type => o.deserializeFundamental type
  | .varint type => o.deserializeVarint type
  | .aggregate packed members =>
    if h : o.serializeAsBytes (.aggregate packed members) = true then do
      let bytes ← deserializeBytes (Item.aggregate packed members).imageSize
      return Item.ofImage (.aggregate packed members) (o.byteSerializable h) bytes
    else deserializeMany o members
  | .tuple elements => deserializeMany o elements
  | .array count item => o.deserializeBlock item true count (deserializeOne o item)
  | .container type item => do
    let size ← o.deserializeSize type.sizeType
    o.checkLimit size (sizeofElement type item)
    let values ← o.deserializeBlock item type.contiguous size (deserializeOne o item)
    return values.1
  | .optional item => do
    let hasValue ← o.deserializeFundamental byte
    if hasValue.1 = [0] then return none
    else return some (← deserializeOne o item)
  | .variant idType ids _ alternatives => do
    let id ← o.deserializeFundamental idType
    match indexOfId ids id with
    | none => throw (.errc .badMessage)
    | some index => return some (← deserializeAlternative o alternatives index)
  | .owningPointer item => do return some (← deserializeOne o item)
  | .bitset size => deserializeBitset size

def deserializeMany (o : Options) {n : Nat} : (items : Items n) → Serialize items.Values
  | .nil => pure ()
  | .cons item items => do
    let value ← deserializeOne o item
    let values ← deserializeMany o items
    return (value, values)

def deserializeAlternative (o : Options) {n : Nat} : (alternatives : Items n) → Fin n →
    Serialize alternatives.Alternative
  | .nil, index => index.elim0
  | .cons item alternatives, index =>
    index.cases (do return .inl (← deserializeOne o item))
      fun index => do return .inr (← deserializeAlternative o alternatives index)

end

/-- The call operator of `in`. -/
def Options.in (o : Options) {n : Nat} (items : Items n) : Serialize items.Values := deserializeMany o items

end LuPlatform.Reflection
