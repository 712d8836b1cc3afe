import Mathlib.Data.Fin.Basic
import LuPlatform.Reflection.Varint

/-! The types that the archives take, as the overloads of `serialize_one` tell them apart, and their
values. The value of a type whose objects are copied byte by byte is also its object representation. -/

namespace LuPlatform.Reflection

/-- An arithmetic type or an enumeration. `char`, `unsigned char` and `std::byte` are byte types. -/
structure Fundamental where
  size : Nat
  byteType : Bool
  size_pos : 0 < size
  size_of_byteType : byteType = true → size = 1
deriving DecidableEq

/-- An object representation. -/
abbrev Image (size : Nat) := { bytes : List UInt8 // bytes.length = size }

/-- What a container puts in front of its elements. -/
inductive SizeType where
  | fixed (size : Nat)
  | varint

structure ContainerType where
  sizeType : SizeType
  /-- Random access iterators and `data()`. -/
  contiguous : Bool
  elementSize : Nat
  elementSize_pos : 0 < elementSize

mutual

/-- An aggregate is packed where it is trivially copyable, has no padding and no empty member. The ids of the
alternatives of a variant are different from each other. A `std::optional` and an `optional_ptr` are
represented in the same way. -/
inductive Item where
  | fundamental (type : Fundamental)
  | varint (type : VarintType)
  | aggregate {n : Nat} (packed : Bool) (members : Items (n + 1))
  | tuple {n : Nat} (elements : Items n)
  | array (count : Nat) (item : Item)
  | container (type : ContainerType) (item : Item)
  | optional (item : Item)
  | variant {n : Nat} (idType : Fundamental) (ids : Fin n → Image idType.size)
      (unique_ids : Function.Injective ids) (alternatives : Items n)
  | owningPointer (item : Item)
  | bitset (size : Nat)

inductive Items : Nat → Type where
  | nil : Items 0
  | cons {n : Nat} (item : Item) (items : Items n) : Items (n + 1)

end

mutual

/-- A variant can be valueless, and a pointer null. -/
@[reducible] def Item.Value : Item → Type
  | .fundamental type => Image type.size
  | .varint type => BitVec type.width
  | .aggregate _ members => members.Values
  | .tuple elements => elements.Values
  | .array count item => { values : List item.Value // values.length = count }
  | .container _ item => List item.Value
  | .optional item => Option item.Value
  | .variant _ _ _ alternatives => Option alternatives.Alternative
  | .owningPointer item => Option item.Value
  | .bitset size => Fin size → Bool

@[reducible] def Items.Values {n : Nat} : Items n → Type
  | .nil => Unit
  | .cons item items => item.Value × items.Values

@[reducible] def Items.Alternative {n : Nat} : Items n → Type
  | .nil => Empty
  | .cons item items => item.Value ⊕ items.Alternative

end

mutual

def Item.byteSerializable : Item → Bool
  | .fundamental _ => true
  | .aggregate packed members => packed && members.byteSerializable
  | .array _ item => item.byteSerializable
  | _ => false

def Items.byteSerializable {n : Nat} : Items n → Bool
  | .nil => true
  | .cons item items => item.byteSerializable && items.byteSerializable

end

def Item.endianIndependentByteSerializable : Item → Bool
  | .fundamental type => type.byteType
  | .array _ item => item.endianIndependentByteSerializable
  | _ => false

mutual

/-- `sizeof`, of the types that are copied byte by byte. -/
def Item.imageSize : Item → Nat
  | .fundamental type => type.size
  | .aggregate _ members => members.imageSize
  | .array count item => count * item.imageSize
  | _ => 0

def Items.imageSize {n : Nat} : Items n → Nat
  | .nil => 0
  | .cons item items => item.imageSize + items.imageSize

end

mutual

def Item.image : (item : Item) → item.Value → List UInt8
  | .fundamental _, value => value.1
  | .aggregate _ members, values => members.image values
  | .array _ item, values => values.1.flatMap item.image
  | _, _ => []

def Items.image {n : Nat} : (items : Items n) → items.Values → List UInt8
  | .nil, _ => []
  | .cons item items, values => item.image values.1 ++ items.image values.2

end

theorem length_takeD (n : Nat) (bytes : List UInt8) (b : UInt8) : (bytes.takeD n b).length = n := by
  induction n generalizing bytes with
  | zero => rfl
  | succ n ih => rw [List.takeD_succ, List.length_cons, ih]

theorem takeD_append (bytes rest : List UInt8) (b : UInt8) : (bytes ++ rest).takeD bytes.length b = bytes := by
  induction bytes with
  | nil => rfl
  | cons b' bytes ih => rw [List.length_cons, List.cons_append, List.takeD_succ, List.head?_cons,
      Option.getD_some, List.tail_cons, ih]

def Fundamental.ofImage (type : Fundamental) (bytes : List UInt8) : Image type.size :=
  ⟨bytes.takeD type.size 0, length_takeD _ _ _⟩

/-- The objects that stand one behind the other. -/
def ofImages {α : Type} (size : Nat) (ofImage : List UInt8 → α) (count : Nat) (bytes : List UInt8) : List α :=
  (List.range count).map fun i => ofImage (bytes.drop (i * size))

theorem length_ofImages {α : Type} {size count : Nat} {ofImage : List UInt8 → α} {bytes : List UInt8} :
    (ofImages size ofImage count bytes).length = count := by
  rw [ofImages, List.length_map, List.length_range]

theorem ofImages_images {α : Type} {size : Nat} {ofImage : List UInt8 → α} {image : α → List UInt8}
    (hsize : ∀ value, (image value).length = size) (himage : ∀ value rest, ofImage (image value ++ rest) = value)
    (values : List α) (rest : List UInt8) :
    ofImages size ofImage values.length (values.flatMap image ++ rest) = values := by
  induction values with
  | nil => rfl
  | cons value values ih =>
    have hdrop (i : Nat) : ((value :: values).flatMap image ++ rest).drop ((i + 1) * size) =
        (values.flatMap image ++ rest).drop (i * size) := by
      rw [List.flatMap_cons, List.append_assoc, Nat.succ_mul, Nat.add_comm, ← List.drop_drop,
        List.drop_append_of_le_length (hsize value).ge, List.drop_eq_nil_of_le (hsize value).le, List.nil_append]
    rw [ofImages] at ih ⊢
    rw [List.length_cons, List.range_succ_eq_map, List.map_cons, List.map_map, Nat.zero_mul, List.drop_zero,
      List.flatMap_cons, List.append_assoc, himage]
    congr 1
    rw [List.flatMap_cons, List.append_assoc] at hdrop
    simpa only [Function.comp_def, hdrop] using ih

mutual

def Item.ofImage : (item : Item) → item.byteSerializable = true → List UInt8 → item.Value
  | .fundamental type, _, bytes => type.ofImage bytes
  | .aggregate _ members, h, bytes => members.ofImage (Bool.and_eq_true_iff.1 h).2 bytes
  | .array count item, h, bytes =>
    ⟨ofImages item.imageSize (item.ofImage h) count bytes, length_ofImages⟩

def Items.ofImage {n : Nat} : (items : Items n) → items.byteSerializable = true → List UInt8 → items.Values
  | .nil, _, _ => ()
  | .cons item items, h, bytes =>
    (item.ofImage (Bool.and_eq_true_iff.1 h).1 bytes,
      items.ofImage (Bool.and_eq_true_iff.1 h).2 (bytes.drop item.imageSize))

end

theorem length_flatMap_image {α : Type} {size : Nat} {image : α → List UInt8}
    (hsize : ∀ value, (image value).length = size) (values : List α) :
    (values.flatMap image).length = values.length * size := by
  induction values with
  | nil => simp
  | cons value values ih => rw [List.flatMap_cons, List.length_append, hsize, ih, List.length_cons,
      Nat.succ_mul, Nat.add_comm]

mutual

theorem Item.length_image : (item : Item) → item.byteSerializable = true → (value : item.Value) →
    (item.image value).length = item.imageSize
  | .fundamental _, _, value => value.2
  | .aggregate _ members, h, values => members.length_image (Bool.and_eq_true_iff.1 h).2 values
  | .array _ item, h, values => by
    rw [Item.image, Item.imageSize, length_flatMap_image (item.length_image h), values.2]

theorem Items.length_image {n : Nat} : (items : Items n) → items.byteSerializable = true →
    (values : items.Values) → (items.image values).length = items.imageSize
  | .nil, _, _ => rfl
  | .cons item items, h, values => by
    rw [Items.image, Items.imageSize, List.length_append, item.length_image (Bool.and_eq_true_iff.1 h).1,
      items.length_image (Bool.and_eq_true_iff.1 h).2]

end

mutual

theorem Item.ofImage_image : (item : Item) → (h : item.byteSerializable = true) → (value : item.Value) →
    (rest : List UInt8) → item.ofImage h (item.image value ++ rest) = value
  | .fundamental _, _, value, rest => by
    rw [Item.ofImage, Item.image]
    have htake := takeD_append value.1 rest 0
    rw [value.2] at htake
    exact Subtype.ext htake
  | .aggregate _ members, h, values, rest => by
    rw [Item.ofImage, Item.image, members.ofImage_image]
  | .array _ item, h, values, rest => by
    rw [Item.ofImage, Item.image]
    have himages := ofImages_images (item.length_image h) (item.ofImage_image h) values.1 rest
    rw [values.2] at himages
    exact Subtype.ext himages

theorem Items.ofImage_image {n : Nat} : (items : Items n) → (h : items.byteSerializable = true) →
    (values : items.Values) → (rest : List UInt8) → items.ofImage h (items.image values ++ rest) = values
  | .nil, _, _, _ => rfl
  | .cons item items, h, values, rest => by
    have hlength := item.length_image (Bool.and_eq_true_iff.1 h).1 values.1
    rw [Items.ofImage, Items.image, List.append_assoc, item.ofImage_image, ← hlength, List.drop_left,
      items.ofImage_image]

end

end LuPlatform.Reflection
