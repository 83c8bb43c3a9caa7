import Libws.Lib.Outcome
import Libws.Core.ByteArrays

/-!
# The positions of a `ByteArray`

* `Ordered` — `_readPos <= _writePos <= _capacity`, in a block of that capacity;
* one `…_ordered` lemma for each member function: it keeps the order, and is undefined only if the loop of
  `expand` does not end;
* `Careful` — what the calls of a program have to avoid;
* `positions_ordered` — every run of such calls.
-/

set_option autoImplicit false

namespace Libws.Core

open Libws.Word

namespace ByteArray

structure Ordered (b : ByteArray) : Prop where
  read_le : b.readPos ≤ b.writePos
  write_le : b.writePos ≤ b.capacity
  data_length : b.data.length = b.capacity
  capacity_lt : b.capacity < 2 ^ 64

variable {b other : ByteArray} (fresh : Nat → UInt8)

theorem Ordered.readAvailable_eq (h : Ordered b) : b.readAvailable = b.writePos - b.readPos :=
  sub64_of_le h.read_le (Nat.lt_of_le_of_lt h.write_le h.capacity_lt)

theorem Ordered.writeAvailable_eq (h : Ordered b) : b.writeAvailable = b.capacity - b.writePos :=
  sub64_of_le h.write_le h.capacity_lt

/-! ## Positions and blocks -/

theorem Ordered.moveTo (h : Ordered b) {p : Nat} (hp : p ≤ b.writePos) : Ordered { b with readPos := p } :=
  ⟨hp, h.write_le, h.data_length, h.capacity_lt⟩

theorem Ordered.readPosition (h : Ordered b) (value : Nat) : Ordered (b.readPosition value) :=
  h.moveTo (by split <;> omega)

theorem Ordered.seek (h : Ordered b) (pos : Int) : Ordered (b.seek pos) := by
  unfold ByteArray.seek
  split
  · exact h.readPosition _
  · split
    · exact h.readPosition _
    · exact h

/-- Reading forward. -/
theorem Ordered.advance (h : Ordered b) {n : Nat} (hn : n ≤ b.readAvailable) :
    Ordered { b with readPos := add64 b.readPos n } := by
  have hread := h.read_le
  have hwrite := h.write_le
  have hlt := h.capacity_lt
  rw [h.readAvailable_eq] at hn
  rw [add64_of_lt (by omega)]
  exact h.moveTo (by omega)

theorem Ordered.read (h : Ordered b) (off len : Nat) (hle : off + len ≤ b.writePos) :
    ∃ xs, Block.read b.data off len = some xs ∧ xs.length = len := by
  have hwrite := h.write_le
  have hread : Block.read b.data off len = _ := Block.read_of_le (by rw [h.data_length]; omega)
  exact ⟨_, hread, Block.read_length hread⟩

theorem Ordered.read_available (h : Ordered b) {n : Nat} (hn : n ≤ b.readAvailable) :
    ∃ xs, Block.read b.data b.readPos n = some xs ∧ xs.length = n := by
  have hread := h.read_le
  rw [h.readAvailable_eq] at hn
  exact h.read _ _ (by omega)

theorem Ordered.clear (h : Ordered b) : Ordered b.clear :=
  ⟨Nat.le_refl 0, Nat.zero_le _, h.data_length, h.capacity_lt⟩

theorem Ordered.truncate (h : Ordered b) (resetSize : Nat) (hlt : resetSize < 2 ^ 64) :
    Ordered (b.truncate fresh resetSize) := by
  unfold ByteArray.truncate
  split
  · exact ⟨Nat.le_refl 0, Nat.zero_le _, Block.malloc_length _ _, hlt⟩
  · exact h.clear

theorem Ordered.dropHead (h : Ordered b) (length : Nat) (hle : length ≤ b.writePos) :
    ∃ b', b.dropHead length = some b' ∧ Ordered b' := by
  have hread := h.read_le
  have hwrite := h.write_le
  have hlt := h.capacity_lt
  have hdata := h.data_length
  have hsub : sub64 b.writePos length = b.writePos - length := sub64_of_le hle (by omega)
  obtain ⟨data, hmove⟩ : ∃ data, Block.move b.data 0 length (b.writePos - length) = some data :=
    ⟨_, Block.move_of_le _ _ _ _ (by omega) (by omega)⟩
  have hlen := Block.move_length hmove
  refine ⟨{ b with
    data := data
    writePos := b.writePos - length
    readPos := if b.readPos > length then sub64 b.readPos length else 0 }, ?_, ?_, ?_, hlen.trans hdata, hlt⟩
  · simp only [ByteArray.dropHead, hsub, hmove, Option.bind_eq_bind, Option.bind_some]
  · simp only
    split
    · rw [sub64_of_le (by omega) (by omega)]
      omega
    · exact Nat.zero_le _
  · simp only
    omega

theorem Ordered.dropTail (h : Ordered b) {writePos : Nat} (hle : writePos ≤ b.writePos) :
    Ordered (b.dropTail writePos) := by
  refine ⟨?_, Nat.le_trans hle h.write_le, h.data_length, h.capacity_lt⟩
  simp only [ByteArray.dropTail]
  split <;> omega

/-! ## Growth -/

/-- The loop of `expand` ends, and the block has the room asked for. -/
structure Expanded (b : ByteArray) (size : Nat) (b' : ByteArray) : Prop where
  ordered : Ordered b'
  readPos_eq : b'.readPos = b.readPos
  writePos_eq : b'.writePos = b.writePos
  readOnly_eq : b'.readOnly = b.readOnly
  size_le : size ≤ b'.capacity
  growCap_eq : Block.growCap size b.capacity = some b'.capacity

/-- The size is there. -/
theorem expand_self {size : Nat} (hle : size ≤ b.capacity) : b.expand fresh size = some b := by
  rw [expand, Block.growCap, Block.doubleUntil_of_le _ hle, Option.bind_eq_bind, Option.bind_some, if_pos rfl]

/-- A foreign block is not asked to grow. -/
def Spared (b : ByteArray) (size : Nat) : Prop := b.isAttached = true → size ≤ b.capacity

theorem spared_of_writable (hwritable : b.readOnly = false) (size : Nat) : Spared b size := fun hattached => by
  simp [readOnly, hattached] at hwritable

theorem expand_ordered (h : Ordered b) {size : Nat} (hspared : Spared b size) :
    Outcome (Block.growCap size b.capacity = none) (Expanded b size) (b.expand fresh size) := by
  unfold expand
  cases hgrow : Block.growCap size b.capacity with
  | none => exact rfl
  | some newCap =>
    obtain ⟨hroom, hgrown⟩ := Block.doubleUntil_inv _ _ hgrow
    simp only [Option.bind_eq_bind, Option.bind_some]
    split
    · rename_i hsame
      subst hsame
      exact ⟨h, rfl, rfl, rfl, hroom, hgrow⟩
    · rename_i hother
      have howned : b.isAttached = false := by
        refine Bool.eq_false_iff.mpr fun hattached => hother ?_
        have hself : Block.growCap size b.capacity = some b.capacity :=
          Block.doubleUntil_of_le _ (hspared hattached)
        exact Option.some.inj (hgrow.symm.trans hself)
      have hwrite := h.write_le
      rw [if_neg (by simp [howned])]
      refine ⟨⟨h.read_le, ?_, Block.realloc_length _ _ _, ?_⟩, rfl, rfl, rfl, hroom, hgrow⟩
      · simp only
        omega
      · simp only
        omega

/-- The bytes are appended. -/
structure Appended (b : ByteArray) (length : Nat) (b' : ByteArray) : Prop where
  ordered : Ordered b'
  readPos_eq : b'.readPos = b.readPos
  writePos_eq : b'.writePos = b.writePos + length
  readOnly_eq : b'.readOnly = b.readOnly
  growCap_eq : Block.growCap (b.writePos + length) b.capacity = some b'.capacity

theorem appendBytes_ordered (h : Ordered b) (xs : List UInt8) (hfits : b.writePos + xs.length < 2 ^ 64)
    (hspared : Spared b (b.writePos + xs.length)) :
    Outcome (Block.growCap (b.writePos + xs.length) b.capacity = none) (Appended b xs.length)
      (b.appendBytes fresh xs) := by
  rw [appendBytes, add64_of_lt hfits]
  refine (expand_ordered fresh h hspared).bind fun b' hb' => ?_
  have hroom := hb'.size_le
  have hdata := hb'.ordered.data_length
  rw [hb'.writePos_eq, add64_of_lt hfits, Block.write_of_le _ _ _ (by omega)]
  refine ⟨⟨?_, hroom, ?_, hb'.ordered.capacity_lt⟩, hb'.readPos_eq, rfl, hb'.readOnly_eq, hb'.growCap_eq⟩
  · simp only [hb'.readPos_eq]
    have := h.read_le
    omega
  · simp only [List.length_append, List.length_take, List.length_drop]
    omega

/-- The array and the size that `expand` is called with to append some bytes. -/
def asks (b : ByteArray) (length : Nat) : Option (ByteArray × Nat) :=
  if b.readOnly then none else some (b, b.writePos + length)

/-- The size is one of a machine word, and no foreign block is to grow. -/
def Fitting (asked : Option (ByteArray × Nat)) : Prop := ∀ q ∈ asked, q.2 < 2 ^ 64 ∧ Spared q.1 q.2

/-- The loop of `expand` does not end. -/
def Endless (asked : Option (ByteArray × Nat)) : Prop := ∃ q ∈ asked, Block.growCap q.2 q.1.capacity = none

theorem append_asked (h : Ordered b) (hwritable : b.readOnly = false) (xs : List UInt8)
    (hfits : Fitting (b.asks xs.length)) :
    Outcome (Endless (b.asks xs.length)) (Appended b xs.length) (b.appendBytes fresh xs) := by
  have hasks : b.asks xs.length = some (b, b.writePos + xs.length) := by simp [asks, hwritable]
  obtain ⟨hlt, hspared⟩ := hfits _ hasks
  refine (appendBytes_ordered fresh h xs hlt hspared).imp (fun hnone => ⟨_, hasks, hnone⟩) fun _ => id

theorem writeData_ordered (h : Ordered b) (xs : List UInt8) (hfits : Fitting (b.asks xs.length)) :
    Outcome (Endless (b.asks xs.length)) Ordered (b.writeData fresh (some xs)) := by
  unfold writeData
  by_cases hwritable : b.readOnly = false
  · simp only [hwritable, Bool.false_or]
    split
    · exact h
    · exact (append_asked fresh h hwritable xs hfits).imp id fun _ happ => happ.ordered
  · rw [Bool.not_eq_false] at hwritable
    simp only [hwritable, Bool.true_or, if_true]
    exact h

theorem writeEmptyData_ordered (h : Ordered b) (length : Nat) (hfits : Fitting (b.asks length)) :
    Outcome (Endless (b.asks length)) Ordered (b.writeEmptyData fresh length) := by
  have hlen : (List.replicate length (0 : UInt8)).length = length := List.length_replicate
  have hdata := writeData_ordered fresh h (List.replicate length 0) (by rwa [hlen])
  rw [hlen] at hdata
  unfold writeEmptyData
  cases length with
  | zero =>
    rw [beq_self_eq_true, Bool.or_true, if_pos rfl]
    exact h
  | succ n => simpa [writeData] using hdata

theorem emplace_ordered (h : Ordered b) (val : List UInt8) (hfits : Fitting (b.asks val.length)) :
    Outcome (Endless (b.asks val.length)) Ordered (b.emplace fresh val) := by
  unfold emplace
  split
  · exact h
  · rename_i hwritable
    exact (append_asked fresh h (Bool.not_eq_true _ ▸ hwritable) val hfits).imp id fun _ happ => happ.ordered

/-- What an exception leaves, too. -/
def OrderedResult (b : ByteArray) (r : Except String ByteArray) : Prop := Ordered (r.toOption.getD b)

theorem operatorShl_ordered (h : Ordered b) (val : List UInt8) (hfits : Fitting (b.asks val.length)) :
    Outcome (Endless (b.asks val.length)) (OrderedResult b) (b.operatorShl fresh val) := by
  unfold operatorShl
  split
  · exact h
  · rename_i hwritable
    exact (append_asked fresh h (Bool.not_eq_true _ ▸ hwritable) val hfits).map fun _ happ => happ.ordered

/-- The prefix, and then the bytes: the loop of the second `expand` does not end only if it would not have ended
in one. -/
theorem operatorShlString_ordered (h : Ordered b) (val : List UInt8)
    (hfits : Fitting (b.asks (2 + val.length % 2 ^ 16))) :
    Outcome (Endless (b.asks (2 + val.length % 2 ^ 16))) (OrderedResult b) (b.operatorShlString fresh val) := by
  unfold operatorShlString operatorShl
  by_cases hwritable : b.readOnly = false
  · have hasks : b.asks (2 + val.length % 2 ^ 16) = some (b, b.writePos + (2 + val.length % 2 ^ 16)) := by
      simp [asks, hwritable]
    have hlt := (hfits _ hasks).1
    have hlen : (val.take (val.length % 2 ^ 16)).length = val.length % 2 ^ 16 := by
      rw [List.length_take]
      exact Nat.min_eq_left (Nat.mod_le _ _)
    have hwhy : ∀ {size : Nat}, size ≤ b.writePos + (2 + val.length % 2 ^ 16) →
      Block.growCap size b.capacity = none →
        Endless (b.asks (2 + val.length % 2 ^ 16)) := fun hle hnone =>
      ⟨_, hasks, Block.doubleUntil_none_of_le hle _ _ hnone⟩
    have hhead := appendBytes_ordered fresh h (leBytes 2 (val.length % 2 ^ 16)) (by rw [leBytes_length]; omega)
      (spared_of_writable hwritable _)
    rw [leBytes_length] at hhead
    simp only [hwritable, Bool.false_eq_true, if_false, Option.bind_eq_bind, Option.bind_map]
    refine (hhead.imp (hwhy (by omega)) fun _ => id).bind fun b' hb' => ?_
    have hwritable' : b'.readOnly = false := hb'.readOnly_eq.trans hwritable
    have hasks' : b'.asks (val.length % 2 ^ 16) = some (b', b'.writePos + val.length % 2 ^ 16) := by
      simp [asks, hwritable']
    have hsize : b'.writePos + val.length % 2 ^ 16 = b.writePos + (2 + val.length % 2 ^ 16) := by
      rw [hb'.writePos_eq]
      omega
    have htail := writeData_ordered fresh hb'.ordered (val.take (val.length % 2 ^ 16)) (by
      rw [hlen]
      intro q hq
      cases hasks'.symm.trans hq
      refine ⟨?_, spared_of_writable hwritable' _⟩
      simp only at hlt ⊢
      omega)
    rw [hlen] at htail
    refine (htail.imp (fun hendless => ?_) fun _ => id).map fun _ hordered => hordered
    obtain ⟨q, hq, hnone⟩ := hendless
    cases hasks'.symm.trans hq
    simp only [hsize] at hnone
    exact ⟨_, hasks, Block.doubleUntil_none_of_trans (by omega) _ _ hb'.growCap_eq hnone⟩
  · rw [Bool.not_eq_false] at hwritable
    simp only [hwritable, if_true, Option.bind_eq_bind, Option.bind_some]
    exact h

theorem writePosition_ordered (h : Ordered b) (value : Nat) (hkeeps : b.readOnlyFlag = true ∨ b.readPos ≤ value)
    (hspared : Spared b value) : Outcome (Block.growCap value b.capacity =
      none) Ordered (b.writePosition fresh value) := by
  unfold writePosition
  split
  · exact h
  · rename_i hwritable
    refine (expand_ordered fresh h hspared).map fun b' hb' => ?_
    refine ⟨?_, hb'.size_le, hb'.ordered.data_length, hb'.ordered.capacity_lt⟩
    rw [hb'.readPos_eq]
    exact hkeeps.resolve_left hwritable

/-! ## Reading -/

/-- The limit on what is read. -/
theorem limit_eq_min (length available : Nat) :
    (if length > available then available else length) = min length available := by
  split <;> omega

section reading

variable {why : Prop}

theorem readNumber_ordered (h : Ordered b) (typeSize : Nat) :
    Outcome why (fun r => Ordered r.1) (b.readNumber typeSize) := by
  unfold readNumber
  split
  · rename_i hle
    obtain ⟨value, hread, -⟩ := h.read_available hle
    rw [hread]
    exact h.advance hle
  · exact h

theorem operatorShr_ordered (h : Ordered b) (val : List UInt8) :
    Outcome why (fun r => Ordered r.1) (b.operatorShr val) := by
  unfold operatorShr
  split
  · rename_i hle
    obtain ⟨value, hread, -⟩ := h.read_available hle
    rw [hread]
    exact h.advance hle
  · exact h

theorem readString_ordered (h : Ordered b) (length : Nat) :
    Outcome why (fun r => Ordered r.1) (b.readString length) := by
  unfold readString
  rw [limit_eq_min]
  have hle := Nat.min_le_right length b.readAvailable
  generalize min length b.readAvailable = n at hle
  obtain ⟨cstr, hread, -⟩ := h.read_available hle
  simp only [hread]
  split
  · exact h.advance hle
  · exact h

theorem readStringPrefixed_ordered (h : Ordered b) : Outcome why (fun r => Ordered r.1) b.readStringPrefixed :=
  (readNumber_ordered h 2).bind fun r hr => readString_ordered hr (leNat r.2)

theorem operatorShrString_ordered (h : Ordered b) (val : List UInt8) :
    Outcome why (fun r => Ordered r.1) (b.operatorShrString val) := by
  refine (readNumber_ordered h 2).bind fun r hr => ?_
  simp only
  split
  · rename_i hlen
    obtain ⟨value, hread, -⟩ := hr.read_available hlen.2
    rw [hread]
    exact hr.advance hlen.2
  · exact hr

/-- The caller's buffer does not hold the bytes. -/
def TooSmall (out : Option (List UInt8)) (length : Nat) : Prop := ∃ buf ∈ out, buf.length < length

theorem readData_ordered (h : Ordered b) (outData : Option (List UInt8)) (length : Nat) :
    Outcome (TooSmall outData (if length = 0 ∨ length > b.readAvailable then b.readAvailable else length))
      (fun r => Ordered r.1) (b.readData outData length) := by
  unfold readData
  cases outData with
  | none => exact h
  | some out =>
    have hle : (if length = 0 ∨ length > b.readAvailable then b.readAvailable else length) ≤ b.readAvailable := by
      split <;> omega
    generalize (if length = 0 ∨ length > b.readAvailable then b.readAvailable else length) = n at hle
    obtain ⟨xs, hread, hlen⟩ := h.read_available hle
    simp only [hread, Option.bind_eq_bind, Option.bind_some]
    split
    · rcases Nat.lt_or_ge out.length n with hsmall | hroom
      · have hnone : Block.write out 0 xs = none := if_neg (by omega)
        rw [hnone]
        exact ⟨out, rfl, hsmall⟩
      · rw [Block.write_of_le _ _ _ (by omega)]
        exact h.advance hle
    · exact h

theorem toHexString_ordered (h : Ordered b) (upperCase : Bool) :
    Outcome why (fun _ => True) (b.toHexString upperCase) := by
  have hwrite := h.write_le
  rw [toHexString_spec (by rw [h.data_length]; exact hwrite)]
  trivial

end reading

/-- What is read is appended to another array. -/
theorem readBytes_ordered (h : Ordered b) (hother : Ordered other) (length : Nat)
    (hfits : other.writePos + min length b.readAvailable < 2 ^ 64)
    (hspared : Spared other (other.writePos + min length b.readAvailable)) :
    Outcome (Block.growCap (other.writePos + min length b.readAvailable) other.capacity = none)
      (fun r => Ordered r.1 ∧ Ordered r.2.1) (b.readBytes fresh other length) := by
  unfold readBytes
  split
  · obtain ⟨xs, hread, hlen⟩ := h.read_available (Nat.min_le_right length b.readAvailable)
    simp only [limit_eq_min, hread, Option.bind_eq_bind, Option.bind_some]
    have happ := appendBytes_ordered fresh hother xs (by rwa [hlen]) (by rwa [hlen])
    rw [hlen] at happ
    exact happ.bind fun _ hout => ⟨h.advance (Nat.min_le_right _ _), hout.ordered⟩
  · exact ⟨h, hother⟩

/-! ## Cutting -/

theorem copyOut_outcome (out : Option (List UInt8)) (xs : List UInt8) :
    Outcome (TooSmall out xs.length) (fun _ => True) (copyOut out xs) := by
  cases out with
  | none => trivial
  | some buf =>
    rcases Nat.lt_or_ge buf.length xs.length with hsmall | hroom
    · have hnone : Block.write buf 0 xs = none := if_neg (by omega)
      rw [copyOut, hnone]
      exact ⟨buf, rfl, hsmall⟩
    · rw [copyOut, Block.write_of_le _ _ _ (by omega)]
      trivial

theorem cutHead_ordered (h : Ordered b) (length : Nat) (out : Option (List UInt8)) :
    Outcome (TooSmall out (min length b.writePos)) (fun r => Ordered r.1) (b.cutHead length out) := by
  unfold cutHead
  split
  · exact h
  split
  · rename_i hge
    obtain ⟨xs, hread, hlen⟩ := h.read 0 b.writePos (by omega)
    have hcopy := copyOut_outcome out xs
    rw [hlen, ← Nat.min_eq_right hge] at hcopy
    simp only [hread, Option.bind_eq_bind, Option.bind_some]
    exact hcopy.bind fun _ _ => h.clear
  · rename_i hlt
    obtain ⟨xs, hread, hlen⟩ := h.read 0 length (by omega)
    have hcopy := copyOut_outcome out xs
    obtain ⟨b', hdrop, hb'⟩ := h.dropHead length (by omega)
    rw [hlen, ← Nat.min_eq_left (Nat.le_of_not_ge hlt)] at hcopy
    simp only [hread, hdrop, Option.bind_eq_bind, Option.bind_some]
    exact hcopy.bind fun _ _ => hb'

theorem cutTail_ordered (h : Ordered b) (length : Nat) (out : Option (List UInt8)) :
    Outcome (TooSmall out (min length b.writePos)) (fun r => Ordered r.1) (b.cutTail length out) := by
  have hwrite := h.write_le
  have hcap := h.capacity_lt
  unfold cutTail
  split
  · exact h
  split
  · rename_i hge
    obtain ⟨xs, hread, hlen⟩ := h.read 0 b.writePos (by omega)
    have hcopy := copyOut_outcome out xs
    rw [hlen, ← Nat.min_eq_right hge] at hcopy
    simp only [hread, Option.bind_eq_bind, Option.bind_some]
    exact hcopy.bind fun _ _ => h.clear
  · rename_i hlt
    have hsub : sub64 b.writePos length = b.writePos - length := sub64_of_le (by omega) (by omega)
    obtain ⟨xs, hread, hlen⟩ := h.read (b.writePos - length) length (by omega)
    have hcopy := copyOut_outcome out xs
    rw [hlen, ← Nat.min_eq_left (Nat.le_of_not_ge hlt)] at hcopy
    simp only [hsub, hread, Option.bind_eq_bind, Option.bind_some]
    exact hcopy.bind fun _ _ => h.dropTail (Nat.sub_le _ _)

theorem cutHeadArray_ordered (h : Ordered b) (hother : Ordered other) (length : Nat)
    (hfits : Fitting (other.asks (min length b.writePos))) :
    Outcome (Endless (other.asks (min length b.writePos))) (fun r => Ordered r.1 ∧ Ordered r.2)
      (b.cutHeadArray fresh length other) := by
  unfold cutHeadArray
  split
  · exact ⟨h, hother⟩
  split
  · rename_i hge
    obtain ⟨xs, hread, hlen⟩ := h.read 0 b.writePos (by omega)
    have hdata := writeData_ordered fresh hother xs (by rwa [hlen, ← Nat.min_eq_right hge])
    rw [hlen, ← Nat.min_eq_right hge] at hdata
    simp only [hread, Option.bind_eq_bind, Option.bind_some]
    exact hdata.bind fun _ hout => ⟨h.clear, hout⟩
  · rename_i hlt
    obtain ⟨xs, hread, hlen⟩ := h.read 0 length (by omega)
    obtain ⟨b', hdrop, hb'⟩ := h.dropHead length (by omega)
    have hdata := writeData_ordered fresh hother xs (by rwa [hlen, ← Nat.min_eq_left (Nat.le_of_not_ge hlt)])
    rw [hlen, ← Nat.min_eq_left (Nat.le_of_not_ge hlt)] at hdata
    simp only [hread, hdrop, Option.bind_eq_bind, Option.bind_some]
    exact hdata.bind fun _ hout => ⟨hb', hout⟩

theorem cutTailArray_ordered (h : Ordered b) (hother : Ordered other) (length : Nat)
    (hfits : Fitting (other.asks (min length b.writePos))) :
    Outcome (Endless (other.asks (min length b.writePos))) (fun r => Ordered r.1 ∧ Ordered r.2)
      (b.cutTailArray fresh length other) := by
  have hwrite := h.write_le
  have hcap := h.capacity_lt
  unfold cutTailArray
  split
  · exact ⟨h, hother⟩
  split
  · rename_i hge
    obtain ⟨xs, hread, hlen⟩ := h.read 0 b.writePos (by omega)
    have hdata := writeData_ordered fresh hother xs (by rwa [hlen, ← Nat.min_eq_right hge])
    rw [hlen, ← Nat.min_eq_right hge] at hdata
    simp only [hread, Option.bind_eq_bind, Option.bind_some]
    exact hdata.bind fun _ hout => ⟨h.clear, hout⟩
  · rename_i hlt
    have hsub : sub64 b.writePos length = b.writePos - length := sub64_of_le (by omega) (by omega)
    obtain ⟨xs, hread, hlen⟩ := h.read (b.writePos - length) length (by omega)
    have hdata := writeData_ordered fresh hother xs (by rwa [hlen, ← Nat.min_eq_left (Nat.le_of_not_ge hlt)])
    rw [hlen, ← Nat.min_eq_left (Nat.le_of_not_ge hlt)] at hdata
    simp only [hsub, hread, Option.bind_eq_bind, Option.bind_some]
    exact hdata.bind fun _ hout => ⟨h.dropTail (Nat.sub_le _ _), hout⟩

/-! ## Construction -/

theorem ofLength_ordered (length : Size) : Ordered (ofLength length) := by
  refine ⟨Nat.le_refl 0, Nat.zero_le _, List.length_replicate, ?_⟩
  have := length.isLt
  simp only [ofLength, BYTES_DEFAULT_SIZE]
  split <;> omega

theorem ofBytes_ordered (bytes : Bytes) (copy : Bool) : Ordered (ofBytes bytes.val copy) :=
  ⟨Nat.zero_le _, Nat.le_refl _, rfl, bytes.property⟩

theorem attach_ordered (data : Bytes) : Ordered (b.attach data.val) :=
  ⟨Nat.zero_le _, Nat.le_refl _, rfl, data.property⟩

theorem moved_ordered : Ordered moved := ⟨Nat.le_refl 0, Nat.le_refl 0, rfl, by decide⟩

theorem copyOf_ordered (h : Ordered b) : ∃ b', copyOf b = some b' ∧ Ordered b' := by
  unfold copyOf
  split
  · exact ⟨b, rfl, h⟩
  · obtain ⟨data, hread⟩ : ∃ data, Block.read b.data 0 b.capacity = some data :=
      ⟨_, Block.read_of_le (Nat.le_of_eq ((Nat.zero_add _).trans h.data_length.symm))⟩
    exact ⟨{ b with data := data }, by rw [hread]; rfl, h.read_le, h.write_le, Block.read_length hread, h.capacity_lt⟩

theorem copyAssignSelf_ordered (h : Ordered b) : Ordered (b.copyAssignSelf fresh) := by
  unfold copyAssignSelf
  split
  · exact h
  · exact ⟨h.read_le, h.write_le, Block.malloc_length _ _, h.capacity_lt⟩

/-- An array that is attached keeps its block, and `fromHexString` writes as many bytes as it reads. -/
theorem fromHexString_ordered (h : Ordered b) (hexStr : List UInt8) (hlt : hexStr.length < 2 ^ 64)
    (hroom : hexStr.length % 2 = 0 → b.isAttached = true → Hex.leadingPairs hexStr ≤ b.capacity) :
    ∃ b' ok, b.fromHexString fresh hexStr = some (b', ok) ∧ Ordered b' := by
  unfold fromHexString
  by_cases heven : hexStr.length % 2 = 0
  · have hreset := h.truncate fresh (hexStr.length / 2) (by omega)
    have hpairs : 0 + Hex.leadingPairs hexStr ≤ (b.truncate fresh (hexStr.length / 2)).data.length := by
      have hle := Hex.leadingPairs_le hexStr
      cases hattached : b.isAttached with
      | true =>
        have hcap := hroom heven hattached
        simp only [truncate, hattached, not_true_eq_false, and_false, if_false, h.data_length]
        omega
      | false =>
        by_cases hzero : hexStr.length / 2 = 0
        · omega
        · simp [truncate, hzero, hattached, Block.malloc_length, hle]
    have hzero : (b.truncate fresh (hexStr.length / 2)).readPos = 0 := rfl
    simp only [heven, ne_eq, not_true_eq_false, if_false]
    generalize b.truncate fresh (hexStr.length / 2) = b₁ at hreset hpairs hzero
    obtain ⟨data, ok, hrun, hlen, hok, -⟩ := fromHexPairs_spec hexStr b₁.data 0 hpairs
    have hcap := hreset.data_length
    rw [hrun, Option.map_some]
    cases ok with
    | false => exact ⟨{ b₁ with data := data }, false, rfl, hreset.read_le, hreset.write_le, hlen.trans hcap, hreset.capacity_lt⟩
    | true =>
      have hall := Hex.leadingPairs_eq (hok.mp rfl)
      have hle : hexStr.length / 2 ≤ b₁.capacity := by omega
      exact ⟨{ b₁ with data := data, writePos := hexStr.length / 2 }, true, rfl, hzero ▸ Nat.zero_le _, hle,
        hlen.trans hcap, hreset.capacity_lt⟩
  · simp only [heven, ne_eq, not_false_eq_true, if_true]
    exact ⟨b, false, rfl, h⟩

/-! ## The array itself -/

/-- Bytes of the own block are appended without growth; the read position plays no part. -/
theorem writeOwn_spec (hdata : b.data.length = b.capacity) (hwrite : b.writePos ≤ b.capacity)
    (hcap : b.capacity < 2 ^ 64) (off length : Nat) (hread : off + length ≤ b.capacity)
    (hfits : b.readOnly = false → b.writePos + length ≤ b.capacity) :
    ∃ data writePos, b.writeOwn fresh off length = some { b with data := data, writePos := writePos } ∧
      data.length = b.capacity ∧ b.writePos ≤ writePos ∧ writePos ≤ b.writePos + length ∧
        writePos ≤ b.capacity := by
  unfold writeOwn
  by_cases hnothing : (b.readOnly || length == 0) = true
  · rw [if_pos hnothing]
    exact ⟨b.data, b.writePos, rfl, hdata, Nat.le_refl _, Nat.le_add_right _ _, hwrite⟩
  · have hwritable : b.readOnly = false := by
      rw [Bool.or_eq_true, not_or] at hnothing
      exact Bool.eq_false_iff.mpr hnothing.1
    have hroom := hfits hwritable
    have hadd : add64 b.writePos length = b.writePos + length := add64_of_lt (by omega)
    have hexpand : b.expand fresh (b.writePos + length) = some b := expand_self fresh hroom
    obtain ⟨xs, hxs⟩ : ∃ xs, Block.read b.data off length = some xs := ⟨_, Block.read_of_le (by omega)⟩
    have hlen := Block.read_length hxs
    obtain ⟨data, hdata'⟩ : ∃ data, Block.write b.data b.writePos xs = some data := ⟨_, Block.write_of_le _ _ _ (by omega)⟩
    rw [if_neg hnothing]
    refine ⟨data, b.writePos + length, ?_, (Block.write_length hdata').trans hdata, Nat.le_add_right _ _,
      Nat.le_refl _, hroom⟩
    simp [hadd, hexpand, hxs, appendBytes, hlen, hdata']

theorem readBytesSelf_ordered (h : Ordered b) (length : Nat)
    (hfits : b.writePos + min length b.readAvailable < 2 ^ 64)
    (hspared : Spared b (b.writePos + min length b.readAvailable)) :
    Outcome (Block.growCap (b.writePos + min length b.readAvailable) b.capacity = none) Ordered
      (b.readBytesSelf fresh length) := by
  have hread := h.read_le
  have havailable := h.readAvailable_eq
  unfold readBytesSelf
  split
  · simp only [limit_eq_min, add64_of_lt hfits, Option.bind_eq_bind]
    generalize hn : min length b.readAvailable = n at hfits hspared
    have hle : n ≤ b.readAvailable := hn ▸ Nat.min_le_right _ _
    refine (expand_ordered fresh h hspared).bind fun b' hb' => ?_
    have hroom := hb'.size_le
    have hdata := hb'.ordered.data_length
    have hread' := hb'.readPos_eq
    have hwrite' := hb'.writePos_eq
    obtain ⟨xs, hxs, hlen⟩ := hb'.ordered.read b'.readPos n (by omega)
    obtain ⟨data, hwrite⟩ : ∃ data, Block.write b'.data b'.writePos xs = some data :=
      ⟨_, Block.write_of_le _ _ _ (by omega)⟩
    rw [hxs, Option.bind_some, hwrite, Option.bind_some, add64_of_lt (by omega), add64_of_lt (by omega)]
    refine ⟨?_, ?_, (Block.write_length hwrite).trans hdata, hb'.ordered.capacity_lt⟩ <;> simp only <;> omega
  · exact h

theorem cutHeadSelf_ordered (h : Ordered b) (length : Nat)
    (hfits : b.readOnly = false → b.writePos + min length b.writePos ≤ b.capacity) :
    ∃ b', b.cutHeadSelf fresh length = some b' ∧ Ordered b' := by
  have hwrite := h.write_le
  have hdata := h.data_length
  have hcap := h.capacity_lt
  unfold cutHeadSelf
  split
  · exact ⟨b, rfl, h⟩
  split
  · rename_i hge
    rw [Nat.min_eq_right hge] at hfits
    obtain ⟨data, writePos, hrun, hlen, -⟩ :=
      writeOwn_spec fresh hdata hwrite hcap 0 b.writePos (by omega) hfits
    exact ⟨{ b with data := data, readPos := 0, writePos := 0 }, by rw [hrun]; rfl, Nat.le_refl 0, Nat.zero_le _, hlen, hcap⟩
  · rename_i hlt
    rw [Nat.min_eq_left (Nat.le_of_not_ge hlt)] at hfits
    obtain ⟨data, writePos, hrun, hlen, hgrown, -, hroom⟩ :=
      writeOwn_spec fresh hdata hwrite hcap 0 length (by omega) hfits
    have hown : Ordered { b with data := data, writePos := writePos } :=
      ⟨Nat.le_trans h.read_le hgrown, hroom, hlen, hcap⟩
    obtain ⟨b', hdrop, hb'⟩ := hown.dropHead length (by simp only; omega)
    exact ⟨b', by rw [hrun, Option.bind_some, hdrop], hb'⟩

/-- The bytes are written where they stand, if some remain. -/
theorem cutTailSelf_ordered (h : Ordered b) (length : Nat)
    (hfits : b.readOnly = false → b.writePos ≤ length → b.writePos + b.writePos ≤ b.capacity) :
    ∃ b', b.cutTailSelf fresh length = some b' ∧ Ordered b' := by
  have hread := h.read_le
  have hwrite := h.write_le
  have hdata := h.data_length
  have hcap := h.capacity_lt
  unfold cutTailSelf
  split
  · exact ⟨b, rfl, h⟩
  split
  · rename_i hge
    obtain ⟨data, writePos, hrun, hlen, -⟩ :=
      writeOwn_spec fresh hdata hwrite hcap 0 b.writePos (by omega) fun hwritable => hfits hwritable hge
    exact ⟨{ b with data := data, readPos := 0, writePos := 0 }, by rw [hrun]; rfl, Nat.le_refl 0, Nat.zero_le _, hlen, hcap⟩
  · rename_i hlt
    have hsub : sub64 b.writePos length = b.writePos - length := sub64_of_le (by omega) (by omega)
    obtain ⟨data, writePos, hrun, hlen, -, -, hroom⟩ :=
      writeOwn_spec (b := { b with writePos := b.writePos - length }) fresh hdata (Nat.le_trans (Nat.sub_le _ _) hwrite) hcap
        (b.writePos - length) length (by simp only; omega) fun _ => by simp only; omega
    refine ⟨{ b with
      data := data
      writePos := writePos
      readPos := if b.readPos > writePos then writePos else b.readPos }, ?_, ?_, hroom, hlen, hcap⟩
    · simp only [hsub, hrun, Option.map_some, ByteArray.dropTail]
    · simp only
      split <;> omega

end ByteArray

open Libws.Core.ByteArray Libws.Machine

/-! ## Careful calls -/

/-- What the call asks `expand` for: the array, and the size. -/
def Member.asks (b : ByteArray) : Member → Option (ByteArray × Nat)
  | .writePosition _ value => if b.readOnlyFlag then none else some (b, value)
  | .expand _ size => some (b, size)
  | .writeData _ inData => inData.bind fun bytes => b.asks bytes.val.length
  | .writeEmptyData _ length => b.asks length
  | .emplace _ val | .operatorShl _ val => b.asks val.val.length
  | .operatorShlString _ val => b.asks (2 + val.val.length % 2 ^ 16)
  | _ => none

def Pair.asks (b other : ByteArray) : Pair → Option (ByteArray × Nat)
  | .readBytes _ length => some (other, other.writePos + min length.val b.readAvailable)
  | .operatorShr _ => some (other, other.writePos + b.readAvailable)
  | .cutHead _ length | .cutTail _ length => other.asks (min length.val b.writePos)
  | .operatorShl _ => b.asks other.writePos
  | _ => none

/-- For a call with the array itself; where it does not read, it must not grow. -/
def Pair.asksSelf (b : ByteArray) : Pair → Option (ByteArray × Nat)
  | .readBytes _ length => some (b, b.writePos + min length.val b.readAvailable)
  | .operatorShr _ => some (b, b.writePos + b.readAvailable)
  | _ => none

/-- The call writes bytes of the own block behind the others: how many. -/
def Pair.repeats (b : ByteArray) : Pair → Nat
  | .cutHead _ length => min length.val b.writePos
  | .cutTail _ length => if length.val ≥ b.writePos then b.writePos else 0
  | .operatorShl _ => b.writePos
  | _ => 0

def ArrayCall.asks (w : World) : ArrayCall → Option (ByteArray × Nat)
  | .construct _ _ => none
  | .member i m => m.asks (w i)
  | .pair i j p => if i = j then p.asksSelf (w i) else p.asks (w i) (w j)

/-- `writePosition` does not go below the read position, and `fromHexString` has room for the digits in a block that
the array does not own. -/
def Member.Keeps (b : ByteArray) : Member → Prop
  | .writePosition _ value => b.readOnlyFlag = true ∨ b.readPos ≤ value
  | .fromHexString _ hexStr =>
    hexStr.val.length % 2 = 0 → b.isAttached = true → Hex.leadingPairs hexStr.val ≤ b.capacity
  | _ => True

/-- The size that `expand` is asked for does not wrap and lies within a foreign block, and an array is appended
to itself only where it does not grow. -/
def Careful (w : World) (a : ArrayCall) : Prop :=
  Fitting (a.asks w) ∧
    match a with
    | .construct _ _ => True
    | .member i m => m.Keeps (w i)
    | .pair i j p => i = j → (w i).readOnly = false → (w i).writePos + p.repeats (w i) ≤ (w i).capacity

/-- The caller's buffers hold what is copied into them, and a constructor copies another array. -/
def Supplied (w : World) : ArrayCall → Prop
  | .construct i (.copyOf other) | .construct i (.moveOf other) => other ≠ i
  | .member i (.readData outData length) =>
    ¬ TooSmall outData (if length.val = 0 ∨ length.val > (w i).readAvailable then (w i).readAvailable else length.val)
  | .member i (.cutHead length out) | .member i (.cutTail length out) =>
    ¬ TooSmall out (min length.val (w i).writePos)
  | .member i (.outside data) => data.length = (w i).data.length
  | _ => True

/-- Why a call has no outcome: its loop does not end, or its arguments are none. -/
def Undefined (w : World) (a : ArrayCall) : Prop := Endless (a.asks w) ∨ ¬ Supplied w a

/-! ## Steps -/

variable {w w' : World} {a : ArrayCall}

theorem memberStep_ordered {i : Nat} (h : Ordered (w i)) (m : Member) (hcareful : Careful w (.member i m)) :
    Outcome (Undefined w (.member i m)) Ordered (memberStep (w i) m) := by
  obtain ⟨hfits, hkeeps⟩ := hcareful
  have hlate : Endless (m.asks (w i)) → Undefined w (.member i m) := Or.inl
  have hcopied : ∀ {small : Prop}, (small → ¬ Supplied w (.member i m)) → small → Undefined w (.member i m) :=
    fun himp hsmall => Or.inr (himp hsmall)
  cases m with
  | readPosition value => exact h.readPosition _
  | writePosition fresh value =>
    by_cases hflag : (w i).readOnlyFlag = true
    · exact Outcome.of_some (by rw [memberStep, writePosition, if_pos hflag]) h
    · have hasks : (Member.writePosition fresh value).asks (w i) = some (w i, value.val) := by
        rw [Member.asks, if_neg hflag]
      have hspared := (hfits _ hasks).2
      exact (writePosition_ordered fresh h value hkeeps hspared).because fun hnone => hlate ⟨_, hasks, hnone⟩
  | seek pos => exact h.seek pos
  | readOnly v => exact ⟨h.read_le, h.write_le, h.data_length, h.capacity_lt⟩
  | truncate fresh resetSize => exact h.truncate fresh _ resetSize.isLt
  | cutHead length out =>
    exact ((cutHead_ordered h _ out).because (hcopied fun hsmall hsupplied => hsupplied hsmall)).map fun _ => id
  | cutTail length out =>
    exact ((cutTail_ordered h _ out).because (hcopied fun hsmall hsupplied => hsupplied hsmall)).map fun _ => id
  | toHexString upperCase => exact (toHexString_ordered h upperCase).map fun _ _ => h
  | fromHexString fresh hexStr =>
    obtain ⟨b', ok, hrun, hb'⟩ := fromHexString_ordered fresh h hexStr.val hexStr.property hkeeps
    exact Outcome.of_some (by rw [memberStep, hrun]; rfl) hb'
  | attach data => exact attach_ordered data
  | readNumber typeSize => exact (readNumber_ordered h _).map fun _ => id
  | operatorShr val => exact (operatorShr_ordered h val).map fun _ => id
  | operatorShrString val => exact (operatorShrString_ordered h val).map fun _ => id
  | readData outData length =>
    exact ((readData_ordered h outData _).because (hcopied fun hsmall hsupplied => hsupplied hsmall)).map fun _ => id
  | readString length => exact (readString_ordered h _).map fun _ => id
  | readStringPrefixed => exact (readStringPrefixed_ordered h).map fun _ => id
  | expand fresh size =>
    exact (expand_ordered fresh h (hfits _ rfl).2).imp (fun hnone => hlate ⟨_, rfl, hnone⟩) fun _ hexpanded =>
      hexpanded.ordered
  | writeData fresh inData =>
    cases inData with
    | none => exact h
    | some bytes => exact (writeData_ordered fresh h bytes.val hfits).because hlate
  | writeEmptyData fresh length => exact (writeEmptyData_ordered fresh h _ hfits).because hlate
  | emplace fresh val => exact (emplace_ordered fresh h _ hfits).because hlate
  | operatorShl fresh val => exact ((operatorShl_ordered fresh h _ hfits).because hlate).map fun _ => id
  | operatorShlString fresh val => exact ((operatorShlString_ordered fresh h _ hfits).because hlate).map fun _ => id
  | outside data =>
    rw [memberStep]
    split
    · rename_i hlen
      exact ⟨h.read_le, h.write_le, hlen.trans h.data_length, h.capacity_lt⟩
    · rename_i hlen
      exact Or.inr hlen

theorem pairStep_ordered {i j : Nat} (hi : Ordered (w i)) (hj : Ordered (w j)) (hne : i ≠ j) (p : Pair)
    (hcareful : Careful w (.pair i j p)) :
    Outcome (Undefined w (.pair i j p)) (fun r => Ordered r.1 ∧ Ordered r.2) (pairStep (w i) (w j) p) := by
  have hasks : (ArrayCall.pair i j p).asks w = p.asks (w i) (w j) := by rw [ArrayCall.asks, if_neg hne]
  have hfits : Fitting (p.asks (w i) (w j)) := hasks ▸ hcareful.1
  have hlate : Endless (p.asks (w i) (w j)) → Undefined w (.pair i j p) := fun hendless => Or.inl (hasks ▸ hendless)
  cases p with
  | copyAssign fresh =>
    obtain ⟨b', hcopy, hb'⟩ := copyOf_ordered hj
    exact Outcome.of_some (by rw [pairStep, hcopy]; rfl) ⟨hb', hj⟩
  | moveAssign => exact ⟨hj, moved_ordered⟩
  | swap => exact ⟨hj, hi⟩
  | readBytes fresh length =>
    obtain ⟨hlt, hspared⟩ := hfits _ rfl
    exact ((readBytes_ordered fresh hi hj _ hlt hspared).because fun hnone => hlate ⟨_, rfl, hnone⟩).map fun _ => id
  | operatorShr fresh =>
    have hmin := Nat.min_self (w i).readAvailable
    have hread := readBytes_ordered fresh hi hj (w i).readAvailable (by rw [hmin]; exact (hfits _ rfl).1)
      (by rw [hmin]; exact (hfits _ rfl).2)
    rw [hmin] at hread
    exact (hread.because fun hnone => hlate ⟨_, rfl, hnone⟩).map fun _ => id
  | cutHead fresh length => exact (cutHeadArray_ordered fresh hi hj _ hfits).because hlate
  | cutTail fresh length => exact (cutTailArray_ordered fresh hi hj _ hfits).because hlate
  | operatorShl fresh =>
    obtain ⟨xs, hread, hlen⟩ := hj.read 0 ((w j).writePos) (Nat.le_of_eq (Nat.zero_add _))
    have hdata := writeData_ordered fresh hi xs (by rw [hlen]; exact hfits)
    rw [hlen] at hdata
    refine Outcome.map (P := Ordered) ?_ fun _ hb => ⟨hb, hj⟩
    rw [operatorShlArray, size, hread]
    exact hdata.because hlate

theorem selfStep_ordered {i : Nat} (h : Ordered (w i)) (p : Pair) (hcareful : Careful w (.pair i i p)) :
    Outcome (Undefined w (.pair i i p)) Ordered (selfStep (w i) p) := by
  have hwrite := h.write_le
  have hcap := h.capacity_lt
  have hdata := h.data_length
  have hasks : (ArrayCall.pair i i p).asks w = p.asksSelf (w i) := by rw [ArrayCall.asks, if_pos rfl]
  have hfits : Fitting (p.asksSelf (w i)) := hasks ▸ hcareful.1
  have hlate : Endless (p.asksSelf (w i)) → Undefined w (.pair i i p) := fun hendless => Or.inl (hasks ▸ hendless)
  have hroom := hcareful.2 rfl
  cases p with
  | copyAssign fresh => exact copyAssignSelf_ordered fresh h
  | moveAssign => exact moved_ordered
  | swap => exact h
  | readBytes fresh length =>
    obtain ⟨hlt, hspared⟩ := hfits _ rfl
    exact (readBytesSelf_ordered fresh h _ hlt hspared).because fun hnone => hlate ⟨_, rfl, hnone⟩
  | operatorShr fresh =>
    have hmin := Nat.min_self (w i).readAvailable
    have hread := readBytesSelf_ordered fresh h (w i).readAvailable (by rw [hmin]; exact (hfits _ rfl).1)
      (by rw [hmin]; exact (hfits _ rfl).2)
    rw [hmin] at hread
    exact hread.because fun hnone => hlate ⟨_, rfl, hnone⟩
  | cutHead fresh length =>
    obtain ⟨b', hrun, hb'⟩ := cutHeadSelf_ordered fresh h length hroom
    exact Outcome.of_some hrun hb'
  | cutTail fresh length =>
    obtain ⟨b', hrun, hb'⟩ := cutTailSelf_ordered fresh h length fun hwritable hge => by
      have hown := hroom hwritable
      rwa [Pair.repeats, if_pos hge] at hown
    exact Outcome.of_some hrun hb'
  | operatorShl fresh =>
    obtain ⟨data, writePos, hrun, hlen, hgrown, -, hle⟩ :=
      writeOwn_spec fresh hdata hwrite hcap 0 ((w i).writePos) (by omega) hroom
    exact Outcome.of_some hrun ⟨Nat.le_trans h.read_le hgrown, hle, hlen, hcap⟩

theorem ordered_update (h : ∀ k, Ordered (w k)) (i : Nat) {b : ByteArray} (hb : Ordered b) :
    ∀ k, Ordered (Function.update w i b k) :=
  (Function.forall_update_iff w fun _ b => Ordered b).mpr ⟨hb, fun k _ => h k⟩

theorem constructStep_ordered (h : ∀ k, Ordered (w k)) (i : Nat) (c : Construct) :
    Outcome (¬ Supplied w (.construct i c)) (fun w' => ∀ k, Ordered (w' k)) (constructStep w i c) := by
  cases c with
  | ofLength length => exact ordered_update h i (ofLength_ordered length)
  | ofBytes bytes copy => exact ordered_update h i (ofBytes_ordered bytes copy)
  | copyOf other =>
    rw [constructStep]
    split
    · rename_i hsame
      exact fun hother => hother hsame
    · obtain ⟨b, hcopy, hb⟩ := copyOf_ordered (h other)
      exact Outcome.of_some (by rw [hcopy]; rfl) (ordered_update h i hb)
  | moveOf other =>
    rw [constructStep]
    split
    · rename_i hsame
      exact fun hother => hother hsame
    · exact ordered_update (ordered_update h i (h other)) other moved_ordered

/-- **One call.** -/
theorem worldStep_ordered (h : ∀ k, Ordered (w k)) (hcareful : Careful w a) :
    Outcome (Undefined w a) (fun r => ∀ k, Ordered (r.1 k)) (worldStep w a) := by
  cases a with
  | construct i c => exact ((constructStep_ordered h i c).because Or.inr).map fun _ => id
  | member i m => exact (memberStep_ordered (h i) m hcareful).map fun _ hb => ordered_update h i hb
  | pair i j p =>
    rw [worldStep]
    split
    · rename_i hsame
      subst hsame
      exact (selfStep_ordered (h i) p hcareful).map fun _ hb => ordered_update h i hb
    · rename_i hne
      exact (pairStep_ordered (h i) (h j) hne p hcareful).map fun _ hb =>
        ordered_update (ordered_update h i hb.1) j hb.2

/-! ## Runs -/

/-- The positions are in order, the differences do not wrap, and a careful call that has no outcome did not
leave the block: its loop does not end, or its arguments are none. -/
structure Positions (w : World) : Prop where
  ordered : ∀ k, Ordered (w k)
  readAvailable_eq : ∀ k, (w k).readAvailable = (w k).writePos - (w k).readPos
  writeAvailable_eq : ∀ k, (w k).writeAvailable = (w k).capacity - (w k).writePos
  undefined : ∀ a, Careful w a → worldStep w a = none → Undefined w a

/-- **The positions are in order in every run of careful calls.** -/
theorem positions_ordered (calls : List ArrayCall) (w : World) (out : List (Option Nat))
    (hrun : runOps worldStep World.new calls = some (w, out)) (hcareful : Along worldStep Careful World.new calls) :
    Positions w := by
  have hnew : ∀ k, Ordered (World.new k) := fun k => ofLength_ordered ⟨BYTES_DEFAULT_SIZE, by decide⟩
  have hstep : ∀ (w : World) (_ : List ArrayCall) (_ : List (Option Nat)) (a : ArrayCall) (w' : World) (r : Option Nat),
      (∀ k, Ordered (w k)) → Careful w a → worldStep w a = some (w', r) → ∀ k, Ordered (w' k) :=
    fun w _ _ a w' r h hok hstep => (worldStep_ordered h hok).result hstep
  have hall := runOps_trace (fun w _ _ => ∀ k, Ordered (w k)) hstep calls World.new w [] [] out hnew hcareful hrun
  exact ⟨hall, fun k => (hall k).readAvailable_eq, fun k => (hall k).writeAvailable_eq, fun a hok hnone =>
    (worldStep_ordered hall hok).reason hnone⟩

instance (b : ByteArray) (size : Nat) : Decidable (Spared b size) :=
  inferInstanceAs (Decidable (b.isAttached = true → size ≤ b.capacity))

instance (asked : Option (ByteArray × Nat)) : Decidable (Fitting asked) :=
  inferInstanceAs (Decidable (∀ q ∈ asked, q.2 < 2 ^ 64 ∧ Spared q.1 q.2))

instance (b : ByteArray) : DecidablePred (Member.Keeps b)
  | .writePosition _ value => inferInstanceAs (Decidable (b.readOnlyFlag = true ∨ b.readPos ≤ value))
  | .fromHexString _ hexStr =>
    inferInstanceAs (Decidable (hexStr.val.length % 2 = 0 → b.isAttached = true →
      Hex.leadingPairs hexStr.val ≤ b.capacity))
  | .readPosition _ | .seek _ | .readOnly _ | .truncate .. | .cutHead .. | .cutTail .. | .toHexString _ | .attach _
  | .readNumber _ | .operatorShr _ | .operatorShrString _ | .readData .. | .readString _ | .readStringPrefixed
  | .expand .. | .writeData .. | .writeEmptyData .. | .emplace .. | .operatorShl .. | .operatorShlString ..
  | .outside _ => isTrue trivial

instance (w : World) : DecidablePred (Careful w)
  | .construct i c => inferInstanceAs (Decidable (Fitting (ArrayCall.asks w (.construct i c)) ∧ True))
  | .member i m => inferInstanceAs (Decidable (Fitting (ArrayCall.asks w (.member i m)) ∧ m.Keeps (w i)))
  | .pair i j p =>
    inferInstanceAs (Decidable (Fitting (ArrayCall.asks w (.pair i j p)) ∧
      (i = j → (w i).readOnly = false → (w i).writePos + p.repeats (w i) ≤ (w i).capacity)))

/-- Four bytes are written and read, and then the write position is set. -/
def writeAndRead (value : Size) : List ArrayCall :=
  [.construct 0 (.ofLength 4), .member 0 (.writeData (fun _ => 0) (some ⟨[1, 2, 3, 4], by decide⟩)),
    .member 0 (.readNumber 4), .member 0 (.writePosition (fun _ => 0) value)]

theorem positions_ordered_end : ∃ w out, runOps worldStep World.new (writeAndRead 4) = some (w, out) ∧
    Positions w := by
  have hdefined : (runOps worldStep World.new (writeAndRead 4)).isSome := by decide +kernel
  obtain ⟨⟨w, out⟩, hrun⟩ := Option.isSome_iff_exists.mp hdefined
  exact ⟨w, out, hrun, positions_ordered _ w out hrun (by decide +kernel)⟩

/-- **The write position is set below the read position.** -/
theorem writePosition_below : ¬ ∀ (calls : List ArrayCall) (w : World) (out : List (Option Nat)),
    runOps worldStep World.new calls = some (w, out) →
      ∀ k, (w k).readPos ≤ (w k).writePos ∧ (w k).writePos ≤ (w k).capacity := by
  intro hclaim
  have hrun : (runOps worldStep World.new (writeAndRead 1)).map (fun r => ((r.1 0).readPos, (r.1 0).writePos)) =
      some (4, 1) := by decide +kernel
  obtain ⟨⟨w, out⟩, hrun, hpositions⟩ := Option.map_eq_some_iff.mp hrun
  obtain ⟨hread, hwrite⟩ := Prod.mk.inj hpositions
  have hle := (hclaim _ w out hrun 0).1
  rw [hread, hwrite] at hle
  exact absurd hle (by decide)

end Libws.Core
