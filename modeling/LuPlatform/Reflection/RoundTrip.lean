import LuPlatform.Reflection.Representation

/-! What `in` reads is what `out` wrote, for the values that the types can tell: a size that fits its type and
the limit, a variant with a value, a pointer to something. `in` gives out such values only. -/

namespace LuPlatform.Reflection

/-! ### Bits -/

theorem bitAt_eq (data : List UInt8) (i : Nat) : bitAt data i = (data.getD (i / 8) 0).toNat.testBit (i % 8) := by
  have hlt : i % 8 < 8 := Nat.mod_lt _ (by decide)
  rw [bitAt, Nat.testBit_eq_decide_div_mod_eq, Bool.eq_iff_iff, decide_eq_true_eq, decide_eq_true_eq, ne_eq,
    ← UInt8.toNat_inj]
  simp [UInt8.toNat_and, UInt8.toNat_shiftRight, Nat.shiftRight_eq_div_pow]

theorem toNat_bit {k : Nat} (h : k < 8) (b : Bool) :
    ((if b then 1 else 0 : UInt8) <<< UInt8.ofNat k).toNat = if b then 2 ^ k else 0 := by
  cases b
  · simp
  · revert k
    decide

theorem bitAt_orBit {size : Nat} (bitset : Fin size → Bool) {data : List UInt8} {i : Fin size}
    (h : i.1 / 8 < data.length) (q : Nat) :
    bitAt (orBit bitset data i) q = (bitAt data q || (decide (q = i) && bitset i)) := by
  have hlt : i.1 % 8 < 8 := Nat.mod_lt _ (by decide)
  have hsplit : q = i.1 ↔ i.1 / 8 = q / 8 ∧ i.1 % 8 = q % 8 := by omega
  rw [bitAt_eq, bitAt_eq, orBit, List.getD_eq_getElem?_getD, List.getElem?_modify, List.getD_eq_getElem?_getD]
  by_cases hbyte : i.1 / 8 = q / 8
  · obtain ⟨b, hb⟩ : ∃ b, data[q / 8]? = some b := ⟨_, List.getElem?_eq_getElem (hbyte ▸ h)⟩
    rw [hb, Option.map_eq_map, Option.map_some, if_pos hbyte, Option.getD_some, Option.getD_some,
      UInt8.toNat_or, toNat_bit hlt, Nat.testBit_or]
    congr 1
    cases bitset i with
    | true =>
      rw [if_pos rfl, Nat.testBit_two_pow, Bool.and_true]
      simp only [hsplit, hbyte, true_and]
    | false => simp
  · simp only [hbyte, if_false, id_map', hsplit, false_and, decide_false, Bool.false_and, Bool.or_false]

/-- The bits that were there before stay set. -/
theorem bitAt_orBits {size : Nat} (bitset : Fin size → Bool) (data : List UInt8)
    (h : sizeInBytes size ≤ data.length) (i : Fin size) :
    bitAt (orBits bitset data) i = (bitAt data i || bitset i) := by
  have hfold (indices : List (Fin size)) (data : List UInt8) (h : sizeInBytes size ≤ data.length) :
      bitAt (indices.foldl (orBit bitset) data) i = (bitAt data i || (decide (i ∈ indices) && bitset i)) := by
    induction indices generalizing data with
    | nil => simp
    | cons j indices ih =>
      have hj : j.1 / 8 < data.length := by
        have := j.2
        rw [sizeInBytes] at h
        omega
      rw [List.foldl_cons, ih _ (by rw [orBit, List.length_modify]; exact h), bitAt_orBit bitset hj, Bool.or_assoc]
      congr 1
      by_cases hij : i = j
      · subst hij
        simp
      · simp [hij, Fin.val_ne_of_ne hij]
  rw [orBits, hfold _ _ h, decide_eq_true (List.mem_finRange i), Bool.true_and]

/-! ### The values -/

mutual

def Item.hasBitset : Item → Bool
  | .aggregate _ members => members.hasBitset
  | .tuple elements => elements.hasBitset
  | .array _ item => item.hasBitset
  | .container _ item => item.hasBitset
  | .optional item => item.hasBitset
  | .variant _ _ _ alternatives => alternatives.hasBitset
  | .owningPointer item => item.hasBitset
  | .bitset _ => true
  | _ => false

def Items.hasBitset {n : Nat} : Items n → Bool
  | .nil => false
  | .cons item items => item.hasBitset || items.hasBitset

end

def SizeType.Fits (size : Nat) : SizeType → Prop
  | .fixed sizeof => size < 256 ^ sizeof
  | .varint => size < 2 ^ 64

def Options.WithinLimit (o : Options) (size sizeof : Nat) : Prop :=
  o.allocationLimit ≠ 2 ^ 64 - 1 → size ≤ o.allocationLimit / sizeof

mutual

/-- Nothing of the value is lost in its representation. -/
def Item.Encodable (o : Options) : (item : Item) → item.Value → Prop
  | .aggregate _ members, values => members.Encodable o values
  | .tuple elements, values => elements.Encodable o values
  | .array _ item, values => ∀ value ∈ values.1, item.Encodable o value
  | .container type item, values =>
    type.sizeType.Fits values.length ∧ o.WithinLimit values.length (sizeofElement type item) ∧
      ∀ value ∈ values, item.Encodable o value
  | .optional item, optional =>
    match optional with
    | none => True
    | some value => item.Encodable o value
  | .variant _ _ _ alternatives, variant =>
    match variant with
    | none => False
    | some alternative => alternatives.AlternativeEncodable o alternative
  | .owningPointer item, pointer =>
    match pointer with
    | none => False
    | some value => item.Encodable o value
  | _, _ => True

def Items.Encodable (o : Options) {n : Nat} : (items : Items n) → items.Values → Prop
  | .nil, _ => True
  | .cons item items, values => item.Encodable o values.1 ∧ items.Encodable o values.2

def Items.AlternativeEncodable (o : Options) {n : Nat} : (alternatives : Items n) →
    alternatives.Alternative → Prop
  | .cons item alternatives, alternative =>
    match alternative with
    | .inl value => item.Encodable o value
    | .inr alternative => alternatives.AlternativeEncodable o alternative

end

/-- A bitset needs zeros ahead. -/
def Blank (hasBitset : Bool) (ahead : Nat → UInt8) : Prop := hasBitset = true → ∀ i, ahead i = 0

theorem Blank.shift {p : Bool} {ahead : Nat → UInt8} (h : Blank p ahead) (n : Nat) :
    Blank p fun i => ahead (n + i) := fun hp i => h hp (n + i)

theorem Representation.append_eq_some {r r' : Representation} {ahead : Nat → UInt8} {bytes : List UInt8} :
    r.append r' ahead = some bytes ↔ ∃ first second, r ahead = some first ∧
      (r' fun i => ahead (first.length + i)) = some second ∧ bytes = first ++ second := by
  simp only [Representation.append, Option.bind_eq_bind, Option.bind_eq_some_iff, Option.pure_def, Option.some.injEq]
  constructor
  · rintro ⟨first, hfirst, second, hsecond, rfl⟩
    exact ⟨first, second, hfirst, hsecond, rfl⟩
  · rintro ⟨first, second, hfirst, hsecond, rfl⟩
    exact ⟨first, hfirst, second, hsecond, rfl⟩

/-! ### Each way of reading -/

section

variable {o : Options}

theorem ofImage_ordered (type : Fundamental) (value : Image type.size) :
    type.ofImage (o.ordered (o.ordered value.1)) = value := by
  have htake := takeD_append value.1 [] 0
  rw [value.2, List.append_nil] at htake
  rw [ordered_ordered]
  exact Subtype.ext htake

theorem reads_fundamental (type : Fundamental) (value : Image type.size) :
    Reads (o.deserializeFundamental type) (o.ordered value.1) value := by
  have hread := (reads_take (o.ordered value.1)).map fun bytes => type.ofImage (o.ordered bytes)
  rwa [length_ordered, value.2, ofImage_ordered] at hread

theorem accepts_fundamental (type : Fundamental) : Accepts (o.deserializeFundamental type) fun _ => True :=
  (accepts_take type.size).map fun _ _ => trivial

theorem reads_size {type : SizeType} {size : Nat} (h : type.Fits size) :
    Reads (o.deserializeSize type) (type.representation o size) size := by
  cases type with
  | fixed sizeof =>
    have hread := (reads_take (o.ordered (LuPlatform.Bytes.toLittleEndian sizeof size))).map fun bytes =>
      LuPlatform.Bytes.ofLittleEndian (o.ordered bytes)
    rwa [length_ordered, LuPlatform.Bytes.length_toLittleEndian, ordered_ordered,
      LuPlatform.Bytes.ofLittleEndian_toLittleEndian, Nat.mod_eq_of_lt h] at hread
  | varint =>
    have hread := (reads_varint (o := o) vsize (BitVec.ofNat vsize.width size)).map BitVec.toNat
    have hsize : (BitVec.ofNat vsize.width size).toNat = size := by
      rw [BitVec.toNat_ofNat]
      exact Nat.mod_eq_of_lt h
    rw [hsize] at hread
    exact hread

theorem accepts_size (type : SizeType) : Accepts (o.deserializeSize type) fun size => type.Fits size := by
  cases type with
  | fixed sizeof =>
    refine (accepts_take sizeof).map fun bytes hbytes => ?_
    have hlt := LuPlatform.Bytes.ofLittleEndian_lt (o.ordered bytes)
    rwa [length_ordered, hbytes] at hlt
  | varint => exact (accepts_varint vsize).map fun value _ => value.isLt

theorem reads_checkLimit {size sizeof : Nat} (h : o.WithinLimit size sizeof) :
    Reads (o.checkLimit size sizeof) [] () := by
  rw [Options.checkLimit, if_neg fun hlimit => absurd (h hlimit.1) (Nat.not_le.2 hlimit.2)]
  exact .pure ()

theorem accepts_checkLimit (size sizeof : Nat) :
    Accepts (o.checkLimit size sizeof) fun _ => o.WithinLimit size sizeof := by
  rw [Options.checkLimit]
  split
  · exact .throw _
  · rename_i hlimit
    exact .pure fun hne => Nat.not_lt.1 fun hgt => hlimit ⟨hne, hgt⟩

theorem reads_bytes (bytes : List UInt8) : Reads (deserializeBytes bytes.length) bytes bytes := by
  rw [deserializeBytes]
  split
  · rename_i hempty
    rw [List.length_eq_zero_iff.1 hempty]
    exact .pure []
  · exact reads_take bytes

theorem accepts_bytes (size : Nat) : Accepts (deserializeBytes size) fun _ => True := by
  rw [deserializeBytes]
  split
  · exact .pure trivial
  · exact (accepts_take size).mono fun _ _ => trivial

end

section

variable {α : Type} {read : Serialize α}

theorem reads_items {p : Bool} {representation : α → Representation} {values : List α} {count : Nat}
    (hcount : values.length = count) {ahead : Nat → UInt8} {bytes : List UInt8} (hblank : Blank p ahead)
    (hread : ∀ value ∈ values, ∀ ahead bytes, Blank p ahead → representation value ahead = some bytes →
      Reads read bytes value)
    (hbytes : Representation.all representation values ahead = some bytes) :
    Reads (deserializeItems read count) bytes ⟨values, hcount⟩ := by
  subst hcount
  induction values generalizing ahead bytes with
  | nil =>
    obtain rfl := Option.some.inj hbytes
    exact .pure _
  | cons value values ih =>
    obtain ⟨first, second, hfirst, hsecond, rfl⟩ := Representation.append_eq_some.1 hbytes
    rw [List.forall_mem_cons] at hread
    refine (hread.1 ahead first hblank hfirst).bind ?_
    exact (ih (hblank.shift first.length) hread.2 hsecond).map _

theorem accepts_items {Good : α → Prop} (h : Accepts read Good) (count : Nat) :
    Accepts (deserializeItems read count) fun values => ∀ value ∈ values.1, Good value := by
  induction count with
  | zero => exact .pure (by simp)
  | succ count ih =>
    refine h.bind fun value hvalue => ih.bind fun values hvalues => .pure ?_
    exact List.forall_mem_cons.2 ⟨hvalue, hvalues⟩

end

section

variable {o : Options}

theorem indexOfId_self {n : Nat} {Id : Type} [DecidableEq Id] {ids : Fin n → Id} (h : Function.Injective ids)
    (i : Fin n) : indexOfId ids (ids i) = some i := by
  rw [indexOfId]
  cases hfind : (List.finRange n).find? fun j => ids j = ids i with
  | none => exact absurd (List.mem_finRange i) fun hmem => by simpa using List.find?_eq_none.1 hfind i hmem
  | some j =>
    have hj := List.find?_some hfind
    rw [h (of_decide_eq_true hj)]

mutual

theorem Item.encodable_of_byteSerializable : (item : Item) → item.byteSerializable = true →
    (value : item.Value) → item.Encodable o value
  | .fundamental _, _, _ => trivial
  | .aggregate _ members, h, _ => members.encodable_of_byteSerializable (Bool.and_eq_true_iff.1 h).2 _
  | .array _ item, h, _ => fun value _ => item.encodable_of_byteSerializable h value

theorem Items.encodable_of_byteSerializable {n : Nat} : (items : Items n) → items.byteSerializable = true →
    (values : items.Values) → items.Encodable o values
  | .nil, _, _ => trivial
  | .cons item items, h, _ =>
    ⟨item.encodable_of_byteSerializable (Bool.and_eq_true_iff.1 h).1 _,
      items.encodable_of_byteSerializable (Bool.and_eq_true_iff.1 h).2 _⟩

end

theorem reads_image {item : Item} (h : o.serializeAsBytes item = true) {value : item.Value}
    {ahead : Nat → UInt8} {bytes : List UInt8} (hbytes : item.representation o value ahead = some bytes) :
    Reads (do
      let bytes ← deserializeBytes item.imageSize
      return item.ofImage (o.byteSerializable h) bytes) bytes value := by
  rw [image_representation h] at hbytes
  obtain rfl := Option.some.inj hbytes
  have hread := (reads_bytes (item.image value)).map (item.ofImage (o.byteSerializable h))
  have himage := item.ofImage_image (o.byteSerializable h) value []
  rw [List.append_nil] at himage
  rwa [item.length_image (o.byteSerializable h), himage] at hread

theorem reads_block {item : Item} {contiguous : Bool} {values : List item.Value} {count : Nat}
    (hcount : values.length = count) {ahead : Nat → UInt8} {bytes : List UInt8}
    (hblank : Blank item.hasBitset ahead) {read : Serialize item.Value}
    (hread : ∀ value ∈ values, ∀ ahead bytes, Blank item.hasBitset ahead →
      item.representation o value ahead = some bytes → Reads read bytes value)
    (hbytes : Representation.all (item.representation o) values ahead = some bytes) :
    Reads (o.deserializeBlock item contiguous count read) bytes ⟨values, hcount⟩ := by
  rw [Options.deserializeBlock]
  split
  · rename_i hblock
    subst hcount
    rw [Representation.all_of (image_representation hblock.1)] at hbytes
    obtain rfl := Option.some.inj hbytes
    have hlength := item.length_image (o.byteSerializable hblock.1)
    have himages := ofImages_images hlength (item.ofImage_image (o.byteSerializable hblock.1)) values []
    have hall := (reads_bytes (values.flatMap item.image)).map fun bytes =>
      (⟨ofImages item.imageSize (item.ofImage (o.byteSerializable hblock.1)) values.length bytes,
        length_ofImages⟩ : { values' : List item.Value // values'.length = values.length })
    rw [List.append_nil] at himages
    rw [length_flatMap_image hlength] at hall
    simp only [himages] at hall
    exact hall
  · exact reads_items hcount hblank hread hbytes

theorem accepts_block {item : Item} {contiguous : Bool} {count : Nat} {read : Serialize item.Value}
    (h : Accepts read (item.Encodable o)) :
    Accepts (o.deserializeBlock item contiguous count read) fun values => ∀ value ∈ values.1, item.Encodable o value := by
  rw [Options.deserializeBlock]
  split
  · rename_i hblock
    exact (accepts_bytes _).map fun _ _ value _ =>
      item.encodable_of_byteSerializable (o.byteSerializable hblock.1) value
  · exact accepts_items h count

theorem bitAt_blank {size : Nat} {ahead : Nat → UInt8} (hblank : ∀ i, ahead i = 0) (i : Nat) :
    bitAt ((List.range size).map ahead) i = false := by
  rw [bitAt_eq, List.getD_eq_getElem?_getD, List.getElem?_map]
  cases (List.range size)[i / 8]? <;> simp [hblank]

/-- The bits that lie ahead of a bitset come back with it. -/
theorem reads_bitset {size : Nat} (bitset : Fin size → Bool) (ahead : Nat → UInt8) :
    Reads (deserializeBitset size) (orBits bitset ((List.range (sizeInBytes size)).map ahead))
      fun i : Fin size => bitAt ((List.range (sizeInBytes size)).map ahead) i || bitset i := by
  have hread := (reads_take (orBits bitset ((List.range (sizeInBytes size)).map ahead))).map
    fun data => fun i : Fin size => bitAt data i
  have hbits : (fun i : Fin size => bitAt (orBits bitset ((List.range (sizeInBytes size)).map ahead)) i) =
      fun i : Fin size => bitAt ((List.range (sizeInBytes size)).map ahead) i || bitset i := by
    funext i
    exact bitAt_orBits _ _ (by simp) i
  rwa [length_orBits, List.length_map, List.length_range, hbits] at hread

end

/-! ### Any item -/

section

variable {o : Options}

theorem Blank.left {p q : Bool} {ahead : Nat → UInt8} (h : Blank (p || q) ahead) : Blank p ahead :=
  fun hp => h (by rw [hp, Bool.true_or])

theorem Blank.right {p q : Bool} {ahead : Nat → UInt8} (h : Blank (p || q) ahead) : Blank q ahead :=
  fun hq => h (by rw [hq, Bool.or_true])

mutual

theorem reads_one : (item : Item) → (value : item.Value) → {ahead : Nat → UInt8} → {bytes : List UInt8} →
    Blank item.hasBitset ahead → item.Encodable o value → item.representation o value ahead = some bytes →
    Reads (deserializeOne o item) bytes value
  | .fundamental type, value, _, _, _, _, hbytes => by
    obtain rfl := Option.some.inj hbytes
    exact reads_fundamental type value
  | .varint type, value, _, _, _, _, hbytes => by
    obtain rfl := Option.some.inj hbytes
    exact reads_varint type value
  | .aggregate packed members, values, _, _, hblank, hencodable, hbytes => by
    rw [deserializeOne]
    split
    · rename_i h
      exact reads_image h hbytes
    · exact reads_many members values hblank hencodable hbytes
  | .tuple elements, values, _, _, hblank, hencodable, hbytes => by
    rw [deserializeOne]
    exact reads_many elements values hblank hencodable hbytes
  | .array _ item, values, _, _, hblank, hencodable, hbytes => by
    rw [deserializeOne]
    exact reads_block values.2 hblank
      (fun value hmem _ _ hblank hbytes => reads_one item value hblank (hencodable value hmem) hbytes) hbytes
  | .container type item, values, ahead, _, hblank, hencodable, hbytes => by
    obtain ⟨hfits, hlimit, hvalues⟩ := hencodable
    replace hblank : Blank item.hasBitset ahead := hblank
    obtain ⟨_, second, hfirst, hsecond, rfl⟩ := Representation.append_eq_some.1 hbytes
    obtain rfl := Option.some.inj hfirst
    have hitems : Reads (o.deserializeBlock item type.contiguous values.length (deserializeOne o item)) second
        ⟨values, rfl⟩ :=
      reads_block rfl (hblank.shift _)
        (fun value hmem _ _ hblank hbytes => reads_one item value hblank (hvalues value hmem) hbytes) hsecond
    rw [deserializeOne]
    exact (reads_size hfits).bind ((reads_checkLimit hlimit).bind (hitems.map Subtype.val))
  | .optional item, none, _, _, _, _, hbytes => by
    obtain rfl := Option.some.inj hbytes
    have hread := reads_fundamental (o := o) byte ⟨[0], rfl⟩
    rw [ordered_byte rfl] at hread
    rw [deserializeOne]
    show Reads _ ([0] ++ []) none
    exact hread.bind (.pure _)
  | .optional item, some value, _, _, hblank, hencodable, hbytes => by
    obtain ⟨_, second, hfirst, hsecond, rfl⟩ := Representation.append_eq_some.1 hbytes
    obtain rfl := Option.some.inj hfirst
    have hread := reads_fundamental (o := o) byte ⟨[1], rfl⟩
    rw [ordered_byte rfl] at hread
    rw [deserializeOne]
    exact hread.bind ((reads_one item value (hblank.shift _) hencodable hsecond).map some)
  | .variant _ _ _ _, none, _, _, _, hencodable, _ => hencodable.elim
  | .variant idType ids unique_ids alternatives, some alternative, _, _, hblank, hencodable, hbytes => by
    obtain ⟨i, second, rfl, hread⟩ := reads_alternative alternatives (fun i => o.ordered (ids i).1) alternative
      hblank hencodable hbytes
    rw [deserializeOne]
    refine (reads_fundamental idType (ids i)).bind ?_
    rw [indexOfId_self unique_ids]
    exact hread.map some
  | .owningPointer _, none, _, _, _, hencodable, _ => hencodable.elim
  | .owningPointer item, some value, _, _, hblank, hencodable, hbytes => by
    rw [deserializeOne]
    exact (reads_one item value hblank hencodable hbytes).map some
  | .bitset _, bitset, ahead, _, hblank, _, hbytes => by
    obtain rfl := Option.some.inj hbytes
    have hread := reads_bitset bitset ahead
    simp only [bitAt_blank (hblank rfl), Bool.false_or] at hread
    rw [deserializeOne]
    exact hread

theorem reads_many {n : Nat} : (items : Items n) → (values : items.Values) → {ahead : Nat → UInt8} →
    {bytes : List UInt8} → Blank items.hasBitset ahead → items.Encodable o values →
    items.representation o values ahead = some bytes → Reads (deserializeMany o items) bytes values
  | .nil, _, _, _, _, _, hbytes => by
    obtain rfl := Option.some.inj hbytes
    exact .pure _
  | .cons item items, values, _, _, hblank, hencodable, hbytes => by
    obtain ⟨first, second, hfirst, hsecond, rfl⟩ := Representation.append_eq_some.1 hbytes
    exact (reads_one item values.1 hblank.left hencodable.1 hfirst).bind
      ((reads_many items values.2 (hblank.right.shift _) hencodable.2 hsecond).map fun rest => (values.1, rest))

/-- The bytes of an alternative are its id and itself. -/
theorem reads_alternative {n : Nat} : (alternatives : Items n) → (ids : Fin n → List UInt8) →
    (alternative : alternatives.Alternative) → {ahead : Nat → UInt8} → {bytes : List UInt8} →
    Blank alternatives.hasBitset ahead → alternatives.AlternativeEncodable o alternative →
    alternatives.alternativeRepresentation o ids alternative ahead = some bytes →
    ∃ i second, bytes = ids i ++ second ∧ Reads (deserializeAlternative o alternatives i) second alternative
  | .cons item alternatives, ids, alternative, _, _, hblank, hencodable, hbytes => by
    cases alternative with
    | inl value =>
      obtain ⟨_, second, hfirst, hsecond, rfl⟩ := Representation.append_eq_some.1 hbytes
      obtain rfl := Option.some.inj hfirst
      exact ⟨0, second, rfl, (reads_one item value (hblank.left.shift _) hencodable hsecond).map Sum.inl⟩
    | inr alternative =>
      obtain ⟨i, second, hfirst, hread⟩ :=
        reads_alternative alternatives (fun i => ids i.succ) alternative hblank.right hencodable hbytes
      exact ⟨i.succ, second, hfirst, hread.map Sum.inr⟩

end

mutual

theorem accepts_one : (item : Item) → Accepts (deserializeOne o item) (item.Encodable o)
  | .fundamental type => accepts_fundamental type
  | .varint type => accepts_varint type
  | .aggregate packed members => by
    rw [deserializeOne]
    split
    · rename_i h
      exact (accepts_bytes _).map fun _ _ =>
        Item.encodable_of_byteSerializable (.aggregate packed members) (o.byteSerializable h) _
    · exact accepts_many members
  | .tuple elements => by
    rw [deserializeOne]
    exact accepts_many elements
  | .array count item => by
    rw [deserializeOne]
    exact accepts_block (accepts_one item)
  | .container type item => by
    rw [deserializeOne]
    refine (accepts_size type.sizeType).bind fun size hfits => ?_
    refine (accepts_checkLimit size _).bind fun _ hlimit => ?_
    refine (accepts_block (accepts_one item)).bind fun values hvalues => .pure ?_
    refine ⟨?_, ?_, hvalues⟩
    · rwa [values.2]
    · rwa [values.2]
  | .optional item => by
    rw [deserializeOne]
    refine (accepts_fundamental byte).bind fun hasValue _ => ?_
    split
    · exact .pure trivial
    · exact (accepts_one item).map fun _ h => h
  | .variant idType ids _ alternatives => by
    rw [deserializeOne]
    refine (accepts_fundamental idType).bind fun id _ => ?_
    cases indexOfId ids id with
    | none => exact .throw _
    | some index => exact (accepts_alternative alternatives index).map fun _ h => h
  | .owningPointer item => by
    rw [deserializeOne]
    exact (accepts_one item).map fun _ h => h
  | .bitset size => by
    rw [deserializeOne]
    exact (accepts_take _).map fun _ _ => trivial

theorem accepts_many {n : Nat} : (items : Items n) → Accepts (deserializeMany o items) (items.Encodable o)
  | .nil => .pure trivial
  | .cons item items => by
    rw [deserializeMany]
    exact (accepts_one item).bind fun _ hvalue => (accepts_many items).map fun _ hvalues => ⟨hvalue, hvalues⟩

theorem accepts_alternative {n : Nat} : (alternatives : Items n) → (index : Fin n) →
    Accepts (deserializeAlternative o alternatives index) (alternatives.AlternativeEncodable o)
  | .cons item alternatives, index => by
    cases index using Fin.cases with
    | zero => exact (accepts_one item).map fun _ h => h
    | succ index => exact (accepts_alternative alternatives index).map fun _ h => h

end

end

end LuPlatform.Reflection
