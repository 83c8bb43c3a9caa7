import Libws.Core.ByteArrayTape
import Libws.Core.ByteArrays

/-!
# `ByteArray` as a stream of fields

`operator<<` of numbers and strings, and the reads that undo it.

* `writeFields_inv`, `writeFields_spec` — what is written for a sequence of fields;
* `readField_spec`, `readFields_spec` — reading what was written gives the fields back;
* `RoundTrips` — both together, and that fields of the same types have different bytes;
* `fields_round_trip_iff` — when that holds of an array of any capacity.
-/

set_option autoImplicit false

namespace Libws.Core.ByteArray

open Libws.Word

/-! ## Fields -/

/-- The widths of the integer types. -/
inductive Width where
  | one
  | two
  | four
  | eight
  deriving DecidableEq, Repr

def Width.bytes : Width → Nat
  | .one => 1
  | .two => 2
  | .four => 4
  | .eight => 8

inductive FieldType where
  | number (width : Width)
  | string
  deriving DecidableEq, Repr

/-- An integer, signed or not, or a string. -/
inductive Field where
  | number (width : Width) (value : BitVec (8 * width.bytes))
  | string (val : List UInt8)
  deriving DecidableEq, Repr

namespace Field

def type : Field → FieldType
  | .number width _ => .number width
  | .string _ => .string

/-- The length of a string has to fit in its prefix. -/
def Short : Field → Prop
  | .number .. => True
  | .string val => val.length ≤ 65535

/-- The bytes of a field in the stream. -/
def bytes : Field → List UInt8
  | .number width value => leBytes width.bytes value.toNat
  | .string val => stringBytes val

end Field

/-- A field to write, with what the allocator leaves in the bytes that it adds. -/
structure Write where
  fresh : Nat → UInt8
  field : Field

/-- `operator<<` of a field. -/
def operatorShlField (fresh : Nat → UInt8) (b : ByteArray) : Field → Option (Except String ByteArray)
  | .number width value => b.operatorShl fresh (leBytes width.bytes value.toNat)
  | .string val => b.operatorShlString fresh val

/-- `readNumber` of a width, and `readString()`. -/
def readField (b : ByteArray) : FieldType → Option (ByteArray × Field)
  | .number width =>
    (b.readNumber width.bytes).map fun (b, value) => (b, .number width (BitVec.ofNat _ (leNat value)))
  | .string => b.readStringPrefixed.map fun (b, val) => (b, .string val)

def writeFields (b : ByteArray) : List Write → Option (Except String ByteArray)
  | [] => some (.ok b)
  | write :: writes =>
    match b.operatorShlField write.fresh write.field with
    | none => none
    | some (.error e) => some (.error e)
    | some (.ok b) => b.writeFields writes

def readFields (b : ByteArray) : List FieldType → Option (ByteArray × List Field)
  | [] => some (b, [])
  | type :: types => do
    let (b, field) ← b.readField type
    let (b, fields) ← b.readFields types
    some (b, field :: fields)

/-- The bytes of all fields. -/
def fieldBytes (fields : List Field) : List UInt8 := fields.flatMap Field.bytes

variable {b : ByteArray} {t : Tape UInt8}

/-! ## Writing -/

theorem operatorShl_inv {fresh : Nat → UInt8} {b' : ByteArray} (h : Holds b t) {val : List UInt8}
    (hrun : b.operatorShl fresh val = some (.ok b')) : Holds b' (t.append val) := by
  simp only [operatorShl, h.owned.not_readOnly, Bool.false_eq_true, if_false] at hrun
  obtain ⟨b₁, happ, hb₁⟩ := Option.map_eq_some_iff.mp hrun
  obtain rfl := Except.ok.inj hb₁
  exact appendBytes_inv h happ

theorem append_append (t : Tape UInt8) (xs ys : List UInt8) : (t.append xs).append ys = t.append (xs ++ ys) :=
  Tape.ext (List.append_assoc ..) rfl

theorem operatorShlString_inv {fresh : Nat → UInt8} {b' : ByteArray} (h : Holds b t) {val : List UInt8}
    (hrun : b.operatorShlString fresh val = some (.ok b')) : Holds b' (t.append (stringBytes val)) := by
  obtain ⟨r, hlen, hrun⟩ := Option.bind_eq_some_iff.mp hrun
  cases r with
  | error e => cases hrun
  | ok b₁ =>
    obtain ⟨b₂, hdata, hb₂⟩ := Option.map_eq_some_iff.mp hrun
    obtain rfl := Except.ok.inj hb₂
    have h₂ := writeData_inv (operatorShl_inv h hlen) hdata
    rw [append_append] at h₂
    exact h₂

/-- Wherever a write ends, it appends the bytes of its field. -/
theorem operatorShlField_inv {fresh : Nat → UInt8} {b' : ByteArray} (h : Holds b t) {field : Field}
    (hrun : b.operatorShlField fresh field = some (.ok b')) : Holds b' (t.append field.bytes) := by
  cases field with
  | number width value => exact operatorShl_inv h hrun
  | string val => exact operatorShlString_inv h hrun

theorem operatorShlField_spec (fresh : Nat → UInt8) (h : Holds b t) (field : Field)
    (hsize : t.content.length + field.bytes.length < 2 ^ 62) :
    ∃ b', b.operatorShlField fresh field = some (.ok b') ∧ Holds b' (t.append field.bytes) := by
  cases field with
  | number width value => exact operatorShl_spec fresh h _ hsize
  | string val => exact operatorShlString_spec fresh h hsize

theorem append_nil (t : Tape UInt8) : t.append [] = t := Tape.ext (List.append_nil _) rfl

/-- Wherever the writes end, they append the bytes of their fields. -/
theorem writeFields_inv : ∀ {writes : List Write} {b b' : ByteArray} {t : Tape UInt8}, Holds b t →
    b.writeFields writes = some (.ok b') → Holds b' (t.append (fieldBytes (writes.map Write.field)))
  | [], b, b', t, h, hrun => by
    cases hrun
    rw [List.map_nil, fieldBytes, List.flatMap_nil, append_nil]
    exact h
  | write :: writes, b, b', t, h, hrun => by
    unfold writeFields at hrun
    split at hrun
    · cases hrun
    · cases hrun
    · rename_i b₁ hwrite
      have h' := writeFields_inv (operatorShlField_inv h hwrite) hrun
      rw [append_append] at h'
      exact h'

theorem writeFields_spec : ∀ (writes : List Write) {b : ByteArray} {t : Tape UInt8}, Holds b t →
    t.content.length + (fieldBytes (writes.map Write.field)).length < 2 ^ 62 →
    ∃ b', b.writeFields writes = some (.ok b') ∧ Holds b' (t.append (fieldBytes (writes.map Write.field)))
  | [], b, t, h, _ => ⟨b, rfl, @writeFields_inv [] b b t h rfl⟩
  | write :: writes, b, t, h, hsize => by
    have hbytes : fieldBytes ((write :: writes).map Write.field) =
        write.field.bytes ++ fieldBytes (writes.map Write.field) := rfl
    rw [hbytes, List.length_append] at hsize
    obtain ⟨b₁, hwrite, h₁⟩ := operatorShlField_spec write.fresh h write.field (by omega)
    obtain ⟨b', hrest, -⟩ := writeFields_spec writes h₁ (by
      simp only [Tape.append, List.length_append]
      omega)
    have hrun : b.writeFields (write :: writes) = some (.ok b') := by
      unfold writeFields
      rw [hwrite]
      exact hrest
    exact ⟨b', hrun, writeFields_inv h hrun⟩

/-! ## Reading -/

/-- Reading the first part of what is unread. -/
theorem unread_parts {t : Tape UInt8} {xs rest : List UInt8} (h : t.unread = xs ++ rest) :
    t.cursor + xs.length ≤ t.content.length ∧ t.peek xs.length = xs ∧ (t.advance xs.length).unread = rest := by
  have hlen := congrArg List.length h
  have hcur := t.cursor_le
  rw [Tape.unread_length, List.length_append] at hlen
  have hpeek : t.peek xs.length = xs := by rw [Tape.peek, h, List.take_left]
  have hrest := t.peek_append_rest xs.length
  rw [hpeek, h] at hrest
  exact ⟨by omega, hpeek, List.append_cancel_left hrest⟩

theorem readNumber_unread (h : Holds b t) {val rest : List UInt8} (hunread : t.unread = val ++ rest) :
    ∃ b', b.readNumber val.length = some (b', val) ∧ Holds b' (t.advance val.length) := by
  obtain ⟨hle, hpeek, -⟩ := unread_parts hunread
  obtain ⟨b', hb', h'⟩ := readNumber_spec h val.length
  simp only [typedRead, if_pos hle, hpeek] at hb' h'
  exact ⟨b', hb', h'⟩

theorem stringBytes_eq {val : List UInt8} (hval : val.length ≤ 65535) :
    stringBytes val = leBytes 2 val.length ++ val := by
  have hmod : val.length % 2 ^ 16 = val.length := Nat.mod_eq_of_lt (by omega)
  rw [stringBytes, hmod, List.take_length]

theorem readStringPrefixed_unread (h : Holds b t) {val rest : List UInt8} (hval : val.length ≤ 65535)
    (hunread : t.unread = stringBytes val ++ rest) :
    ∃ b', b.readStringPrefixed = some (b', val) ∧ ∃ u, Holds b' u ∧ u.unread = rest := by
  rw [stringBytes_eq hval, List.append_assoc] at hunread
  obtain ⟨b₁, hlen, h₁⟩ := readNumber_unread h hunread
  obtain ⟨-, -, hunread₁⟩ := unread_parts hunread
  obtain ⟨-, hpeek, hrest⟩ := unread_parts hunread₁
  rw [leBytes_length] at hlen
  obtain ⟨b', hdata, h'⟩ := readString_spec h₁ val.length
  rw [hpeek] at hdata
  refine ⟨b', ?_, _, h', hrest⟩
  simp only [readStringPrefixed, hlen, Option.bind_eq_bind, Option.bind_some]
  rw [leNat_leBytes 2 val.length (by omega)]
  exact hdata

/-- **A field is read back**, and what stands behind it is left. -/
theorem readField_spec (h : Holds b t) {field : Field} (hfield : field.Short) {rest : List UInt8}
    (hunread : t.unread = field.bytes ++ rest) :
    ∃ b', b.readField field.type = some (b', field) ∧ ∃ u, Holds b' u ∧ u.unread = rest := by
  cases field with
  | number width value =>
    have hlt : value.toNat < 256 ^ width.bytes := by
      rw [show (256 : Nat) = 2 ^ 8 from rfl, ← Nat.pow_mul]
      exact value.isLt
    have hvalue : BitVec.ofNat (8 * width.bytes) (leNat (leBytes width.bytes value.toNat)) = value := by
      rw [leNat_leBytes _ _ hlt, BitVec.ofNat_toNat, BitVec.setWidth_eq]
    have hlen : (leBytes width.bytes value.toNat).length = width.bytes := leBytes_length _ _
    have hfront : t.unread = leBytes width.bytes value.toNat ++ rest := hunread
    obtain ⟨b', hb', h'⟩ := readNumber_unread h hfront
    rw [hlen] at hb'
    refine ⟨b', ?_, _, h', (unread_parts hunread).2.2⟩
    simp only [Field.type, readField, hb', Option.map_some, hvalue]
  | string val =>
    obtain ⟨b', hb', hrest⟩ := readStringPrefixed_unread h hfield hunread
    exact ⟨b', by simp only [Field.type, readField, hb', Option.map_some], hrest⟩

/-- **All fields are read back.** -/
theorem readFields_spec : ∀ (fields : List Field) {b : ByteArray} {t : Tape UInt8}, Holds b t →
    (∀ field ∈ fields, field.Short) → ∀ {rest : List UInt8}, t.unread = fieldBytes fields ++ rest →
    ∃ b', b.readFields (fields.map Field.type) = some (b', fields) ∧ ∃ u, Holds b' u ∧ u.unread = rest
  | [], b, t, h, _, rest, hunread => ⟨b, rfl, t, h, hunread⟩
  | field :: fields, b, t, h, hshort, rest, hunread => by
    have hbytes : fieldBytes (field :: fields) ++ rest = field.bytes ++ (fieldBytes fields ++ rest) :=
      List.append_assoc ..
    obtain ⟨b₁, hread, u, h₁, hunread₁⟩ := readField_spec h (hshort field (List.mem_cons_self ..)) (hunread.trans hbytes)
    obtain ⟨b', hrest, hend⟩ := readFields_spec fields h₁
      (fun other hother => hshort other (List.mem_cons_of_mem field hother)) hunread₁
    refine ⟨b', ?_, hend⟩
    simp only [List.map_cons, readFields, hread, hrest, Option.bind_eq_bind, Option.bind_some]

/-- The bytes behind the write position of before. -/
theorem writeFields_content (h : Owned b) {writes : List Write} {b' : ByteArray}
    (hrun : b.writeFields writes = some (.ok b')) :
    b'.content.drop b.writePos = fieldBytes (writes.map Write.field) := by
  rw [(writeFields_inv (holds_tape h) hrun).content_eq]
  show (b.content ++ _).drop b.writePos = _
  rw [← h.content_length, List.drop_left]

/-! ## The round trip -/

/-- An array that manages its own block, of any capacity, and is writable. -/
structure Manages (b : ByteArray) : Prop where
  notAttached : b.isAttached = false
  writable : b.readOnlyFlag = false
  data_length : b.data.length = b.capacity
  capacity_lt : b.capacity < 2 ^ 64
  read_le : b.readPos ≤ b.writePos
  write_le : b.writePos ≤ b.capacity

theorem Manages.owned (h : Manages b) (hpos : 0 < b.capacity) : Owned b :=
  ⟨h.notAttached, h.writable, h.data_length, hpos, h.capacity_lt, h.read_le, h.write_le⟩

/-- The loop of `expand` does not end in an array of capacity 0. -/
theorem Manages.operatorShl_none (h : Manages b) (hzero : b.capacity = 0) (fresh : Nat → UInt8)
    {n : Nat} (hpos : 0 < n)
    (hlt : n < 2 ^ 64) (value : Nat) : b.operatorShl fresh (leBytes n value) = none := by
  have hwrite : b.writePos = 0 := Nat.le_zero.mp (hzero ▸ h.write_le)
  have hgrow : Block.growCap n 0 = none := Block.doubleUntil_zero hpos _
  have hadd : add64 0 n = n := by rw [add64_of_lt (by omega), Nat.zero_add]
  simp [operatorShl, readOnly, h.notAttached, h.writable, appendBytes, expand, leBytes_length, hwrite,
    hadd, hzero, hgrow]

theorem Manages.operatorShlField_none (h : Manages b) (hzero : b.capacity = 0) (fresh : Nat → UInt8)
    (field : Field) : b.operatorShlField fresh field = none := by
  cases field with
  | number width value =>
    refine h.operatorShl_none hzero fresh ?_ ?_ _
    · cases width <;> decide
    · cases width <;> decide
  | string val =>
    simp only [operatorShlField, operatorShlString]
    rw [h.operatorShl_none hzero fresh (by decide) (by decide)]
    rfl

theorem Manages.writeFields_none (h : Manages b) (hzero : b.capacity = 0) {writes : List Write}
    (hne : writes ≠ []) : b.writeFields writes = none := by
  cases writes with
  | nil => exact absurd rfl hne
  | cons write writes => rw [writeFields, h.operatorShlField_none hzero]

/-- Fields written to the array are read back, with nothing left to read; and other fields of the same types,
written to any array, have other bytes. -/
structure RoundTrips (b : ByteArray) (writes : List Write) : Prop where
  back : ∃ b' b'', b.writeFields writes = some (.ok b') ∧
    b'.readFields (writes.map fun write => write.field.type) = some (b'', writes.map Write.field) ∧
    b''.readAvailable = 0
  distinct : ∀ (c b' c' : ByteArray) (others : List Write), Manages c → (∀ write ∈ others, write.field.Short) →
    others.map (fun write => write.field.type) = writes.map (fun write => write.field.type) →
    b.writeFields writes = some (.ok b') → c.writeFields others = some (.ok c') →
    b'.content.drop b.writePos = c'.content.drop c.writePos → others.map Write.field = writes.map Write.field

/-- There is nothing to write. -/
theorem Manages.roundTrips_nil (h : Manages b) (hread : b.readPos = b.writePos) : RoundTrips b [] := by
  refine ⟨⟨b, b, rfl, rfl, ?_⟩, fun c b' c' others _ _ htypes _ _ _ => ?_⟩
  · rw [readAvailable, hread, sub64_of_le (Nat.le_refl _) (Nat.lt_of_le_of_lt h.write_le h.capacity_lt),
      Nat.sub_self]
  · rw [List.map_nil, List.map_eq_nil_iff] at htypes
    rw [htypes]

theorem Owned.roundTrips (h : Owned b) (hread : b.readPos = b.writePos) (writes : List Write)
    (hshort : ∀ write ∈ writes, write.field.Short)
    (hsize : b.content.length + (fieldBytes (writes.map Write.field)).length < 2 ^ 62) : RoundTrips b writes := by
  have hunread : ((b.tape h).append (fieldBytes (writes.map Write.field))).unread =
      fieldBytes (writes.map Write.field) ++ [] := by
    show (b.content ++ _).drop b.readPos = _
    rw [hread, ← h.content_length, List.drop_left, List.append_nil]
  have hback : ∀ {fields : List Field} {b' : ByteArray}, b.writeFields writes = some (.ok b') →
      (∀ field ∈ fields, field.Short) → fieldBytes fields = fieldBytes (writes.map Write.field) →
      ∃ b'', b'.readFields (fields.map Field.type) = some (b'', fields) ∧ ∃ u, Holds b'' u ∧ u.unread = [] := by
    intro fields b' hwrite hshort' heq
    exact readFields_spec fields (writeFields_inv (holds_tape h) hwrite) hshort' (heq ▸ hunread)
  have hfields : ∀ {writes : List Write}, (∀ write ∈ writes, write.field.Short) →
      ∀ field ∈ writes.map Write.field, field.Short := by
    intro writes hwrites field hfield
    obtain ⟨write, hwrite, rfl⟩ := List.mem_map.mp hfield
    exact hwrites write hwrite
  have htypes : ∀ writes : List Write, (writes.map Write.field).map Field.type =
      writes.map fun write => write.field.type := fun writes => List.map_map
  constructor
  · obtain ⟨b', hwrite, -⟩ := writeFields_spec writes (holds_tape h) hsize
    obtain ⟨b'', hrun, u, hu, hempty⟩ := hback hwrite (hfields hshort) rfl
    rw [htypes] at hrun
    refine ⟨b', b'', hwrite, hrun, ?_⟩
    rw [hu.readAvailable_eq, ← Tape.unread_length, hempty]
    rfl
  · intro c b' c' others hc hshort' hsame hwrite hwrite' hbytes
    by_cases hnil : others = []
    · rw [hnil, List.map_nil, eq_comm, List.map_eq_nil_iff] at hsame
      rw [hnil, hsame]
    have hpos : 0 < c.capacity := by
      refine Nat.pos_of_ne_zero fun hzero => ?_
      rw [hc.writeFields_none hzero hnil] at hwrite'
      cases hwrite'
    rw [writeFields_content h hwrite, writeFields_content (hc.owned hpos) hwrite'] at hbytes
    obtain ⟨b₁, hrun, -⟩ := hback hwrite (hfields hshort) rfl
    obtain ⟨b₂, hrun', -⟩ := hback hwrite (hfields hshort') hbytes.symm
    rw [htypes] at hrun hrun'
    rw [hsame, hrun] at hrun'
    exact (Prod.mk.inj (Option.some.inj hrun')).2.symm

/-- **The stream round trip.**  Short fields written to an owned, writable array that has nothing left to read
make the round trip exactly if its capacity is not 0, or there is nothing to write. -/
theorem fields_round_trip_iff (h : Manages b) (hread : b.readPos = b.writePos) (writes : List Write)
    (hshort : ∀ write ∈ writes, write.field.Short)
    (hsize : b.content.length + (fieldBytes (writes.map Write.field)).length < 2 ^ 62) :
    RoundTrips b writes ↔ 0 < b.capacity ∨ writes = [] := by
  constructor
  · rintro ⟨⟨b', b'', hwrite, -⟩, -⟩
    by_cases hnil : writes = []
    · exact Or.inr hnil
    · refine Or.inl (Nat.pos_of_ne_zero fun hzero => ?_)
      rw [h.writeFields_none hzero hnil] at hwrite
      cases hwrite
  · rintro (hpos | rfl)
    · exact (h.owned hpos).roundTrips hread writes hshort hsize
    · exact h.roundTrips_nil hread

theorem ofBytes_manages {bytes : List UInt8} (hlt : bytes.length < 2 ^ 64) : Manages (ofBytes bytes true) :=
  ⟨rfl, rfl, rfl, hlt, Nat.zero_le _, Nat.le_refl _⟩

/-- **A number for the copy of no bytes.** -/
theorem empty_copy_takes_none : ¬ ∀ (b : ByteArray) (writes : List Write), Manages b → b.readPos = b.writePos →
    (∀ write ∈ writes, write.field.Short) →
    b.content.length + (fieldBytes (writes.map Write.field)).length < 2 ^ 62 → RoundTrips b writes := by
  intro hclaim
  obtain ⟨b', b'', hwrite, -⟩ := (hclaim (ofBytes [] true) [⟨fun _ => 0, .number .one 7#8⟩] (ofBytes_manages (by decide))
    rfl (by simp [Field.Short]) (by decide)).back
  rw [(ofBytes_manages (by decide)).writeFields_none rfl (List.cons_ne_nil _ _)] at hwrite
  cases hwrite

/-- A number, an empty string and a string with a zero byte, through a block of one byte. -/
theorem fields_round_trip_three :
    ∃ b' b'', (ofLength 1).writeFields [⟨fun _ => 7, .number .two 0x1234#16⟩, ⟨fun _ => 7, .string []⟩,
        ⟨fun _ => 0, .string [65, 0, 66]⟩] = some (.ok b') ∧
      b'.readFields [.number .two, .string, .string] =
        some (b'', [.number .two 0x1234#16, .string [], .string [65, 0, 66]]) ∧
      b''.readAvailable = 0 :=
  have h : Manages (ofLength 1) := ⟨rfl, rfl, rfl, by decide, by decide, by decide⟩
  ((fields_round_trip_iff h rfl
    [⟨fun _ => 7, .number .two 0x1234#16⟩, ⟨fun _ => 7, .string []⟩, ⟨fun _ => 0, .string [65, 0, 66]⟩]
    (by simp [Field.Short]) (by decide)).mpr (Or.inl (by decide))).back

end Libws.Core.ByteArray
