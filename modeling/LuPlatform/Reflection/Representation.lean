import LuPlatform.Reflection.BitSerializer

/-! What `out` writes of a value: one representation for each type, whatever way it is copied. -/

namespace LuPlatform.Reflection

def Representation.all {α : Type} (representation : α → Representation) : List α → Representation
  | [] => .of []
  | value :: values => (representation value).append (all representation values)

def SizeType.representation (o : Options) (size : Nat) : SizeType → List UInt8
  | .fixed sizeof => o.ordered (LuPlatform.Bytes.toLittleEndian sizeof size)
  | .varint => varintRepresentation vsize (BitVec.ofNat 64 size)

mutual

/-- Member by member. Only a bitset depends on what lies ahead of it. -/
def Item.representation (o : Options) : (item : Item) → item.Value → Representation
  | .fundamental _, value => .of (o.ordered value.1)
  | .varint type, value => .of (varintRepresentation type value)
  | .aggregate _ members, values => members.representation o values
  | .tuple elements, values => elements.representation o values
  | .array _ item, values => .all (item.representation o) values.1
  | .container type item, values =>
    (Representation.of (type.sizeType.representation o values.length)).append (.all (item.representation o) values)
  | .optional item, optional =>
    match optional with
    | none => .of [0]
    | some value => (Representation.of [1]).append (item.representation o value)
  | .variant _ ids _ alternatives, variant =>
    match variant with
    | none => fun _ => none
    | some alternative => alternatives.alternativeRepresentation o (fun i => o.ordered (ids i).1) alternative
  | .owningPointer item, pointer =>
    match pointer with
    | none => fun _ => none
    | some value => item.representation o value
  | .bitset size, bitset => fun ahead => some (orBits bitset ((List.range (sizeInBytes size)).map ahead))

def Items.representation (o : Options) {n : Nat} : (items : Items n) → items.Values → Representation
  | .nil, _ => .of []
  | .cons item items, values => (item.representation o values.1).append (items.representation o values.2)

def Items.alternativeRepresentation (o : Options) {n : Nat} : (alternatives : Items n) →
    (Fin n → List UInt8) → alternatives.Alternative → Representation
  | .cons item alternatives, ids, alternative =>
    match alternative with
    | .inl value => (Representation.of (ids 0)).append (item.representation o value)
    | .inr alternative => alternatives.alternativeRepresentation o (fun i => ids i.succ) alternative

end

section

variable {o : Options}

theorem Representation.of_append (bytes bytes' : List UInt8) :
    (Representation.of bytes).append (.of bytes') = .of (bytes ++ bytes') := rfl

theorem Representation.all_of {α : Type} {representation : α → Representation} {image : α → List UInt8}
    (h : ∀ value, representation value = .of (image value)) (values : List α) :
    Representation.all representation values = .of (values.flatMap image) := by
  induction values with
  | nil => rfl
  | cons value values ih => rw [Representation.all, h, ih, Representation.of_append, List.flatMap_cons]

theorem ordered_native (h : o.endianAware = false) (bytes : List UInt8) : o.ordered bytes = bytes := by
  rw [Options.ordered, h]
  rfl

theorem ordered_byte {bytes : List UInt8} (h : bytes.length = 1) : o.ordered bytes = bytes := by
  obtain ⟨b, rfl⟩ := List.length_eq_one_iff.1 h
  rw [Options.ordered]
  split <;> rfl

theorem ordered_ordered (bytes : List UInt8) : o.ordered (o.ordered bytes) = bytes := by
  rw [Options.ordered, Options.ordered]
  split
  · exact List.reverse_reverse _
  · rfl

theorem length_ordered (bytes : List UInt8) : (o.ordered bytes).length = bytes.length := by
  rw [Options.ordered]
  split
  · exact List.length_reverse
  · rfl

theorem independent_representation : (item : Item) → item.endianIndependentByteSerializable = true →
    (value : item.Value) → item.representation o value = .of (item.image value)
  | .fundamental type, h, value => by
    rw [Item.representation, Item.image, ordered_byte (value.2.trans (type.size_of_byteType h))]
  | .array _ item, h, values => by
    rw [Item.representation, Item.image, Representation.all_of (independent_representation item h)]

mutual

theorem Item.native_representation (ho : o.endianAware = false) : (item : Item) → item.byteSerializable = true →
    (value : item.Value) → item.representation o value = .of (item.image value)
  | .fundamental _, _, value => by rw [Item.representation, Item.image, ordered_native ho]
  | .aggregate _ members, h, values => by
    rw [Item.representation, Item.image, members.native_representation ho (Bool.and_eq_true_iff.1 h).2]
  | .array _ item, h, values => by
    rw [Item.representation, Item.image, Representation.all_of (item.native_representation ho h)]

theorem Items.native_representation (ho : o.endianAware = false) {n : Nat} : (items : Items n) →
    items.byteSerializable = true → (values : items.Values) →
    items.representation o values = .of (items.image values)
  | .nil, _, _ => rfl
  | .cons item items, h, values => by
    rw [Items.representation, Items.image, item.native_representation ho (Bool.and_eq_true_iff.1 h).1,
      items.native_representation ho (Bool.and_eq_true_iff.1 h).2, Representation.of_append]

end

/-- What is copied as bytes are the bytes that its members would be written as. -/
theorem image_representation {item : Item} (h : o.serializeAsBytes item = true) (value : item.Value) :
    item.representation o value = .of (item.image value) := by
  rcases Bool.or_eq_true_iff.1 h with hbyte | hnative
  · exact independent_representation item hbyte value
  · obtain ⟨hswapped, hbytes⟩ := Bool.and_eq_true_iff.1 hnative
    exact item.native_representation (by simpa using hswapped) hbytes value

end

/-! ### Each way of writing -/

theorem length_orBits {size : Nat} (bitset : Fin size → Bool) (data : List UInt8) :
    (orBits bitset data).length = data.length := by
  rw [orBits]
  induction List.finRange size generalizing data with
  | nil => rfl
  | cons i indices ih => rw [List.foldl_cons, ih, orBit, List.length_modify]

section

variable {o : Options} (h : o.Sound)
include h

theorem writes_fundamental (type : Fundamental) (value : Image type.size) :
    Writes o (o.serializeFundamental type value) (.of (o.ordered value.1)) :=
  (reserves_reserve h).writes_const _ ((length_ordered _).trans value.2)

theorem writes_bytes (bytes : List UInt8) : Writes o (o.serializeBytes bytes) (.of bytes) := by
  rw [Options.serializeBytes]
  by_cases hempty : bytes.length = 0
  · rw [if_neg (by simp [hempty]), List.length_eq_zero_iff.1 hempty]
    exact .nothing
  · rw [if_pos hempty]
    exact (reserves_reserve h).writes_const _ rfl

theorem writes_size (type : SizeType) (size : Nat) :
    Writes o (o.serializeSize type size) (.of (type.representation o size)) := by
  cases type with
  | fixed sizeof =>
    exact (reserves_reserve h).writes_const _
      ((length_ordered _).trans (LuPlatform.Bytes.length_toLittleEndian _ _))
  | varint => exact writes_varint vsize h _

theorem writes_bitset {size : Nat} (bitset : Fin size → Bool) :
    Writes o (o.serializeBitset bitset) ((Item.bitset size).representation o bitset) :=
  (reserves_reserve h).writes (fun ahead => orBits bitset ((List.range (sizeInBytes size)).map ahead))
    fun ahead => by rw [length_orBits, List.length_map, List.length_range]

end

theorem writes_forM {α : Type} {o : Options} {serialize : α → Serialize Unit}
    {representation : α → Representation} (h : ∀ value, Writes o (serialize value) (representation value))
    (values : List α) : Writes o (values.forM serialize) (.all representation values) := by
  induction values with
  | nil => exact .nothing
  | cons value values ih => exact (h value).seq ih

theorem writes_block {o : Options} (h : o.Sound) {item : Item} (hbytes : o.serializeAsBytes item = true)
    (values : List item.Value) :
    Writes o (o.serializeBytes (values.flatMap item.image)) (.all (item.representation o) values) := by
  rw [Representation.all_of (image_representation hbytes)]
  exact writes_bytes h _

mutual

theorem writes_one {o : Options} (h : o.Sound) : (item : Item) → (value : item.Value) →
    Writes o (serializeOne o item value) (item.representation o value)
  | .fundamental type, value => writes_fundamental h type value
  | .varint type, value => writes_varint type h value
  | .aggregate packed members, values => by
    rw [serializeOne]
    by_cases hbytes : o.serializeAsBytes (.aggregate packed members) = true
    · rw [if_pos hbytes, image_representation hbytes]
      exact writes_bytes h _
    · rw [if_neg hbytes, Item.representation]
      exact writes_many h members values
  | .tuple elements, values => by
    rw [serializeOne, Item.representation]
    exact writes_many h elements values
  | .array _ item, values => by
    rw [serializeOne, Item.representation]
    by_cases hbytes : o.serializeAsBytes item = true
    · rw [if_pos hbytes]
      exact writes_block h hbytes values.1
    · rw [if_neg hbytes]
      exact writes_forM (writes_one h item) values.1
  | .container type item, values => by
    rw [serializeOne, Item.representation]
    refine (writes_size h type.sizeType values.length).seq ?_
    by_cases hbytes : (o.serializeAsBytes item && type.contiguous) = true
    · rw [if_pos hbytes]
      exact writes_block h (Bool.and_eq_true_iff.1 hbytes).1 values
    · rw [if_neg hbytes]
      exact writes_forM (writes_one h item) values
  | .optional item, none => by
    rw [serializeOne, Item.representation]
    have hwrites := writes_fundamental h byte ⟨[0], rfl⟩
    rwa [ordered_byte rfl] at hwrites
  | .optional item, some value => by
    rw [serializeOne, Item.representation]
    have hwrites := writes_fundamental h byte ⟨[1], rfl⟩
    rw [ordered_byte rfl] at hwrites
    exact hwrites.seq (writes_one h item value)
  | .variant .., none => .invalidArgument
  | .variant idType ids _ alternatives, some alternative => writes_alternative h idType alternatives ids alternative
  | .owningPointer _, none => .invalidArgument
  | .owningPointer item, some value => writes_one h item value
  | .bitset _, bitset => writes_bitset h bitset

theorem writes_many {o : Options} (h : o.Sound) {n : Nat} : (items : Items n) → (values : items.Values) →
    Writes o (serializeMany o items values) (items.representation o values)
  | .nil, _ => .nothing
  | .cons item items, values => (writes_one h item values.1).seq (writes_many h items values.2)

theorem writes_alternative {o : Options} (h : o.Sound) (idType : Fundamental) {n : Nat} :
    (alternatives : Items n) → (ids : Fin n → Image idType.size) → (alternative : alternatives.Alternative) →
    Writes o (serializeAlternative o idType alternatives ids alternative)
      (alternatives.alternativeRepresentation o (fun i => o.ordered (ids i).1) alternative)
  | .cons item alternatives, ids, alternative => by
    cases alternative with
    | inl value => exact (writes_fundamental h idType (ids 0)).seq (writes_one h item value)
    | inr alternative => exact writes_alternative h idType alternatives (fun i => ids i.succ) alternative

end

end LuPlatform.Reflection
