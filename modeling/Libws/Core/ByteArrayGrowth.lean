import Libws.Core.ByteArrayReadOnly

/-!
# The growth of a `ByteArray`

* `Sized` — the block is as long as the capacity says: in every state, after whatever calls;
* one `…_sizes` lemma for each member function: it keeps that, and empties no block;
* `Fills` — the calls that leave no array without a block;
* `expand_grows_iff` — in which states `expand` ends with the room asked for.
-/

set_option autoImplicit false

namespace Libws.Core

open Libws.Core.ByteArray Libws.Machine Libws.Word

structure Sized (b : ByteArray) : Prop where
  data_length : b.data.length = b.capacity
  capacity_lt : b.capacity < 2 ^ 64

theorem ByteArray.Ordered.sized {b : ByteArray} (h : Ordered b) : Sized b := ⟨h.data_length, h.capacity_lt⟩

/-! ## One call of `expand` -/

/-- The loop of `expand` ends; then there is the room asked for, with the bytes that fit unchanged. -/
structure Grows (fresh : Nat → UInt8) (b : ByteArray) (size : Nat) : Prop where
  ends : ∃ fuel newCap, Block.doubleUntil size fuel b.capacity = some newCap
  grown : ∃ b', b.expand fresh size = some b' ∧ size ≤ b'.capacity ∧
    b'.data.take (min b.capacity b'.capacity) = b.data.take (min b.capacity b'.capacity)

/-- A size within the capacity. -/
theorem grows_of_le {b : ByteArray} (fresh : Nat → UInt8) {size : Nat} (hle : size ≤ b.capacity) :
    Grows fresh b size :=
  ⟨⟨65, b.capacity, Block.doubleUntil_of_le _ hle⟩, b, expand_self fresh hle, hle, rfl⟩

/-- An own block that is not empty. -/
theorem Sized.grows {b : ByteArray} (h : Sized b) (fresh : Nat → UInt8) {size : Nat} (hsize : size ≤ 2 ^ 63)
    (howned : b.isAttached = false) (hcap : 0 < b.capacity) : Grows fresh b size := by
  obtain ⟨newCap, hgrow, hle, -⟩ := Block.growCap_spec size b.capacity hsize hcap
  refine ⟨⟨_, newCap, hgrow⟩, ?_⟩
  by_cases hsame : newCap = b.capacity
  · exact ⟨b, expand_self fresh (hsame ▸ hle), hsame ▸ hle, rfl⟩
  · refine ⟨{ b with data := Block.realloc fresh b.data newCap, capacity := newCap }, ?_, hle, ?_⟩
    · simp [expand, hgrow, hsame, howned]
    · exact Block.take_realloc fresh (by rw [h.data_length]; exact Nat.min_le_left _ _) (Nat.min_le_right _ _)

/-- **From a capacity of 0 the loop does not end**: twice 0 is 0. -/
theorem not_grows {b : ByteArray} (hzero : b.capacity = 0) (fresh : Nat → UInt8) {size : Nat} (hsize : size ≠ 0) :
    ¬ Grows fresh b size := by
  rintro ⟨⟨fuel, newCap, hends⟩, -⟩
  rw [hzero, Block.doubleUntil_zero (Nat.pos_of_ne_zero hsize)] at hends
  cases hends

/-- **A foreign block is not reallocated.** -/
theorem not_grows_attached {b : ByteArray} (hattached : b.isAttached = true) (fresh : Nat → UInt8) {size : Nat}
    (hsize : b.capacity < size) : ¬ Grows fresh b size := by
  rintro ⟨-, b', hrun, hroom, -⟩
  obtain ⟨newCap, hgrow, hb'⟩ := Option.bind_eq_some_iff.mp hrun
  obtain ⟨hle, -⟩ := Block.doubleUntil_inv _ _ hgrow
  rw [if_neg (by omega), if_pos hattached] at hb'
  cases hb'

theorem Sized.grows_iff {b : ByteArray} (h : Sized b) (fresh : Nat → UInt8) {size : Nat} (hsize : size ≤ 2 ^ 63) :
    Grows fresh b size ↔ size ≤ b.capacity ∨ (b.isAttached = false ∧ 0 < b.capacity) := by
  constructor
  · intro hgrows
    by_cases hle : size ≤ b.capacity
    · exact Or.inl hle
    · refine Or.inr ⟨Bool.eq_false_iff.mpr fun hattached => ?_, Nat.pos_of_ne_zero fun hzero => ?_⟩
      · exact not_grows_attached hattached fresh (Nat.lt_of_not_le hle) hgrows
      · exact not_grows hzero fresh (by omega) hgrows
  · rintro (hle | ⟨howned, hcap⟩)
    · exact grows_of_le fresh hle
    · exact h.grows fresh hsize howned hcap

/-! ## Member functions -/

/-- What a call makes of a block that is sized. -/
structure Sizes (b b' : ByteArray) : Prop where
  sized : Sized b'
  pos : 0 < b.capacity → 0 < b'.capacity

theorem Sizes.trans {b₁ b₂ b₃ : ByteArray} (h : Sizes b₁ b₂) (h' : Sizes b₂ b₃) : Sizes b₁ b₃ :=
  ⟨h'.sized, fun hpos => h'.pos (h.pos hpos)⟩

variable {b other : ByteArray} (fresh : Nat → UInt8)

/-- Other bytes in a block of the same length. -/
theorem Sized.rewrite (h : Sized b) {b' : ByteArray} (hdata : b'.data.length = b.data.length)
    (hcap : b'.capacity = b.capacity) : Sizes b b' :=
  ⟨⟨hdata.trans (h.data_length.trans hcap.symm), hcap ▸ h.capacity_lt⟩, fun hpos => hcap ▸ hpos⟩

theorem Sized.same (h : Sized b) {b' : ByteArray} (hsame : SameBlock b b') : Sizes b b' :=
  h.rewrite (congrArg List.length hsame.data_eq) hsame.capacity_eq

theorem Sized.self (h : Sized b) : Sizes b b := h.same (SameBlock.refl b)

theorem expand_sizes (h : Sized b) (size : Nat) : Outcome True (Sizes b) (b.expand fresh size) := by
  unfold expand
  cases hgrow : Block.growCap size b.capacity with
  | none => trivial
  | some newCap =>
    obtain ⟨hle, hgrown⟩ := Block.doubleUntil_inv _ _ hgrow
    simp only [Option.bind_eq_bind, Option.bind_some]
    split
    · exact h.self
    split
    · trivial
    · refine ⟨⟨Block.realloc_length _ _ _, ?_⟩, fun hpos => ?_⟩
      · simp only
        omega
      · simp only
        omega

theorem write_sizes (h : Sized b) (off : Nat) (xs : List UInt8) (writePos readPos : Nat) :
    Outcome True (fun data => Sizes b { b with data := data, writePos := writePos, readPos := readPos })
      (Block.write b.data off xs) := by
  cases hwrite : Block.write b.data off xs with
  | none => trivial
  | some data => exact h.rewrite (Block.write_length hwrite) rfl

theorem appendBytes_sizes (h : Sized b) (xs : List UInt8) : Outcome True (Sizes b) (b.appendBytes fresh xs) := by
  refine (expand_sizes fresh h _).bind fun b₁ h₁ => ?_
  exact (write_sizes h₁.sized b₁.writePos xs _ b₁.readPos).bind fun _ h₂ => h₁.trans h₂

theorem writeData_sizes (h : Sized b) (inData : Option (List UInt8)) :
    Outcome True (Sizes b) (b.writeData fresh inData) := by
  cases inData with
  | none => exact h.self
  | some xs =>
    rw [writeData]
    split
    · exact h.self
    · exact appendBytes_sizes fresh h xs

theorem writeEmptyData_sizes (h : Sized b) (length : Nat) :
    Outcome True (Sizes b) (b.writeEmptyData fresh length) := by
  rw [writeEmptyData]
  split
  · exact h.self
  · exact appendBytes_sizes fresh h _

theorem emplace_sizes (h : Sized b) (val : List UInt8) : Outcome True (Sizes b) (b.emplace fresh val) := by
  rw [emplace]
  split
  · exact h.self
  · exact appendBytes_sizes fresh h val

/-- What an exception leaves, too. -/
def SizesResult (b : ByteArray) (r : Except String ByteArray) : Prop := Sizes b (r.toOption.getD b)

theorem operatorShl_sizes (h : Sized b) (val : List UInt8) :
    Outcome True (SizesResult b) (b.operatorShl fresh val) := by
  rw [operatorShl]
  split
  · exact h.self
  · exact (appendBytes_sizes fresh h val).map fun _ h₁ => h₁

theorem operatorShlString_sizes (h : Sized b) (val : List UInt8) :
    Outcome True (SizesResult b) (b.operatorShlString fresh val) := by
  refine (operatorShl_sizes fresh h _).bind fun r hr => ?_
  cases r with
  | error e => exact h.self
  | ok b₁ =>
    have h₁ : Sizes b b₁ := hr
    exact (writeData_sizes fresh h₁.sized _).map fun _ h₂ => h₁.trans h₂

theorem writePosition_sizes (h : Sized b) (value : Nat) : Outcome True (Sizes b) (b.writePosition fresh value) := by
  rw [ByteArray.writePosition]
  split
  · exact h.self
  · exact (expand_sizes fresh h value).map fun _ h₁ => ⟨⟨h₁.sized.data_length, h₁.sized.capacity_lt⟩, h₁.pos⟩

theorem truncate_sizes (h : Sized b) {resetSize : Nat} (hlt : resetSize < 2 ^ 64) :
    Sizes b (b.truncate fresh resetSize) := by
  unfold ByteArray.truncate
  split
  · rename_i hreset
    exact ⟨⟨Block.malloc_length _ _, hlt⟩, fun _ => Nat.pos_of_ne_zero hreset.1⟩
  · exact h.same ⟨rfl, rfl⟩

theorem dropHead_sizes (h : Sized b) (length : Nat) : Outcome True (Sizes b) (b.dropHead length) := by
  have hmove : Outcome True (fun data => data.length = b.data.length)
      (Block.move b.data 0 length (sub64 b.writePos length)) := by
    cases hmove : Block.move b.data 0 length (sub64 b.writePos length) with
    | none => trivial
    | some data => exact Block.move_length hmove
  exact hmove.bind fun _ hlen => h.rewrite hlen rfl

theorem cutHead_sizes (h : Sized b) (length : Nat) (out : Option (List UInt8)) :
    Outcome True (fun r => Sizes b r.1) (b.cutHead length out) := by
  unfold cutHead
  split
  · exact h.self
  split
  · exact (any_outcome _).bind fun _ _ => (any_outcome _).bind fun _ _ => h.same ⟨rfl, rfl⟩
  · exact (any_outcome _).bind fun _ _ => (any_outcome _).bind fun _ _ =>
      (dropHead_sizes h length).bind fun _ h₁ => h₁

theorem fromHexPairs_length : ∀ (hexStr data : List UInt8) (byte : Nat),
    Outcome True (fun r => r.1.length = data.length) (fromHexPairs data byte hexStr)
  | [], data, byte => rfl
  | [_], data, byte => rfl
  | high :: low :: hexStr, data, byte => by
    cases hchars : fromChars [high, low] with
    | none =>
      simp only [fromHexPairs, hchars]
      exact rfl
    | some value =>
      simp only [fromHexPairs, hchars]
      cases hwrite : Block.write data byte [value] with
      | none => trivial
      | some data₁ =>
        exact (fromHexPairs_length hexStr data₁ (byte + 1)).imp id
          fun _ hlen => hlen.trans (Block.write_length hwrite)

theorem fromHexString_sizes (h : Sized b) {hexStr : List UInt8} (hlt : hexStr.length < 2 ^ 64) :
    Outcome True (fun r => Sizes b r.1) (b.fromHexString fresh hexStr) := by
  unfold fromHexString
  simp only
  split
  · exact h.self
  · have h₁ := truncate_sizes fresh h (show hexStr.length / 2 < 2 ^ 64 by omega)
    refine (fromHexPairs_length hexStr (b.truncate fresh (hexStr.length / 2)).data 0).map fun r hr => ?_
    obtain ⟨data, ok⟩ := r
    cases ok
    · exact h₁.trans (h₁.sized.rewrite hr rfl)
    · exact h₁.trans (h₁.sized.rewrite hr rfl)

/-! ## With another array, and with itself -/

/-- What a call makes of two blocks. -/
abbrev SizesBoth (b other : ByteArray) (r : ByteArray × ByteArray) : Prop := Sizes b r.1 ∧ Sizes other r.2

theorem readBytes_sizes (h : Sized b) (hother : Sized other) (length : Nat) :
    Outcome True (fun r => Sizes b r.1 ∧ Sizes other r.2.1) (b.readBytes fresh other length) := by
  unfold readBytes
  split
  · refine (any_outcome _).bind fun xs _ => ?_
    exact (appendBytes_sizes fresh hother xs).bind fun _ h₁ => ⟨h.same ⟨rfl, rfl⟩, h₁⟩
  · exact ⟨h.self, hother.self⟩

theorem cutHeadArray_sizes (h : Sized b) (hother : Sized other) (length : Nat) :
    Outcome True (SizesBoth b other) (b.cutHeadArray fresh length other) := by
  unfold cutHeadArray
  split
  · exact ⟨h.self, hother.self⟩
  split
  · refine (any_outcome _).bind fun xs _ => ?_
    exact (writeData_sizes fresh hother (some xs)).bind fun _ h₁ => ⟨h.same ⟨rfl, rfl⟩, h₁⟩
  · refine (any_outcome _).bind fun xs _ => ?_
    refine (writeData_sizes fresh hother (some xs)).bind fun _ h₁ => ?_
    exact (dropHead_sizes h length).bind fun _ h₂ => ⟨h₂, h₁⟩

theorem cutTailArray_sizes (h : Sized b) (hother : Sized other) (length : Nat) :
    Outcome True (SizesBoth b other) (b.cutTailArray fresh length other) := by
  unfold cutTailArray
  split
  · exact ⟨h.self, hother.self⟩
  split
  · refine (any_outcome _).bind fun xs _ => ?_
    exact (writeData_sizes fresh hother (some xs)).bind fun _ h₁ => ⟨h.same ⟨rfl, rfl⟩, h₁⟩
  · refine (any_outcome _).bind fun xs _ => ?_
    exact (writeData_sizes fresh hother (some xs)).bind fun _ h₁ => ⟨h.same ⟨rfl, rfl⟩, h₁⟩

theorem copyOf_sizes (h : Sized other) : Outcome True (Sizes other) (copyOf other) := by
  unfold copyOf
  split
  · exact h.self
  · cases hread : Block.read other.data 0 other.capacity with
    | none => trivial
    | some data => exact h.rewrite ((Block.read_length hread).trans h.data_length.symm) rfl

theorem writeOwn_sizes (h : Sized b) (off length : Nat) : Outcome True (Sizes b) (b.writeOwn fresh off length) := by
  unfold writeOwn
  split
  · exact h.self
  · refine (any_outcome _).bind fun grown _ => ?_
    split
    · trivial
    · exact (any_outcome _).bind fun xs _ => appendBytes_sizes fresh h xs

theorem readBytesSelf_sizes (h : Sized b) (length : Nat) :
    Outcome True (Sizes b) (b.readBytesSelf fresh length) := by
  unfold readBytesSelf
  split
  · refine (expand_sizes fresh h _).bind fun b₁ h₁ => (any_outcome _).bind fun xs _ => ?_
    exact (write_sizes h₁.sized b₁.writePos xs _ _).bind fun _ h₂ => h₁.trans h₂
  · exact h.self

theorem cutHeadSelf_sizes (h : Sized b) (length : Nat) : Outcome True (Sizes b) (b.cutHeadSelf fresh length) := by
  unfold cutHeadSelf
  split
  · exact h.self
  split
  · exact (writeOwn_sizes fresh h _ _).map fun _ h₁ => h₁.trans (h₁.sized.same ⟨rfl, rfl⟩)
  · refine (writeOwn_sizes fresh h _ _).bind fun b₁ h₁ => ?_
    exact (dropHead_sizes h₁.sized length).imp id fun _ h₂ => h₁.trans h₂

theorem cutTailSelf_sizes (h : Sized b) (length : Nat) : Outcome True (Sizes b) (b.cutTailSelf fresh length) := by
  unfold cutTailSelf
  split
  · exact h.self
  split
  · exact (writeOwn_sizes fresh h _ _).map fun _ h₁ => h₁.trans (h₁.sized.same ⟨rfl, rfl⟩)
  · have hlower : Sizes b { b with writePos := sub64 b.writePos length } := h.same ⟨rfl, rfl⟩
    refine (writeOwn_sizes fresh hlower.sized _ _).map fun _ h₁ => ?_
    exact (hlower.trans h₁).trans (h₁.sized.same ⟨rfl, rfl⟩)

/-! ## Steps -/

def Construct.Fills : Construct → Prop
  | .ofBytes bytes _ => bytes.val ≠ []
  | .moveOf _ => False
  | .ofLength _ | .copyOf _ => True

def Member.Fills : Member → Prop
  | .attach data => data.val ≠ []
  | _ => True

def Pair.Fills : Pair → Prop
  | .moveAssign => False
  | _ => True

/-- The call makes no array of no bytes, and moves none away. -/
def ArrayCall.Fills : ArrayCall → Prop
  | .construct _ c => c.Fills
  | .member _ m => m.Fills
  | .pair _ _ p => p.Fills

theorem length_pos_of_ne {bytes : List UInt8} (h : bytes ≠ []) : 0 < bytes.length := List.length_pos_iff.mpr h

theorem memberStep_sizes (h : Sized b) (m : Member) :
    Outcome True (fun b' => Sized b' ∧ (m.Fills → 0 < b.capacity → 0 < b'.capacity)) (memberStep b m) := by
  have hsizes : ∀ {b' : ByteArray}, Sizes b b' → Sized b' ∧ (m.Fills → 0 < b.capacity → 0 < b'.capacity) :=
    fun hb => ⟨hb.sized, fun _ => hb.pos⟩
  have hsame : ∀ {b' : ByteArray}, SameBlock b b' → Sized b' ∧ (m.Fills → 0 < b.capacity → 0 < b'.capacity) :=
    fun hb => hsizes (h.same hb)
  cases m with
  | readPosition value => exact hsame ⟨rfl, rfl⟩
  | writePosition fresh value => exact (writePosition_sizes fresh h value).imp id fun _ => hsizes
  | seek pos => exact hsame (seek_same b pos)
  | readOnly v => exact hsame ⟨rfl, rfl⟩
  | truncate fresh resetSize => exact hsizes (truncate_sizes fresh h resetSize.isLt)
  | cutHead length out => exact (cutHead_sizes h length out).map fun _ => hsizes
  | cutTail length out => exact (cutTail_same b length out).map fun _ => hsame
  | toHexString upperCase => exact (any_outcome _).map fun _ _ => hsizes h.self
  | fromHexString fresh hexStr => exact (fromHexString_sizes fresh h hexStr.property).map fun _ => hsizes
  | attach data => exact ⟨⟨rfl, data.property⟩, fun hfills _ => length_pos_of_ne hfills⟩
  | readNumber typeSize => exact (readNumber_same b typeSize).map fun _ => hsame
  | operatorShr val => exact (operatorShr_same b val).map fun _ => hsame
  | operatorShrString val => exact (operatorShrString_same b val).map fun _ => hsame
  | readData outData length => exact (readData_same b outData length).map fun _ => hsame
  | readString length => exact (readString_same b length).map fun _ => hsame
  | readStringPrefixed => exact (readStringPrefixed_same b).map fun _ => hsame
  | expand fresh size => exact (expand_sizes fresh h size).imp id fun _ => hsizes
  | writeData fresh inData => exact (writeData_sizes fresh h _).imp id fun _ => hsizes
  | writeEmptyData fresh length => exact (writeEmptyData_sizes fresh h length).imp id fun _ => hsizes
  | emplace fresh val => exact (emplace_sizes fresh h val.val).imp id fun _ => hsizes
  | operatorShl fresh val => exact (operatorShl_sizes fresh h val.val).map fun _ => hsizes
  | operatorShlString fresh val => exact (operatorShlString_sizes fresh h val.val).map fun _ => hsizes
  | outside data =>
    rw [memberStep]
    split
    · rename_i hlen
      exact hsizes (h.rewrite hlen rfl)
    · trivial

theorem selfStep_sizes (h : Sized b) (p : Pair) :
    Outcome True (fun b' => Sized b' ∧ (p.Fills → 0 < b.capacity → 0 < b'.capacity)) (selfStep b p) := by
  have hsizes : ∀ {b' : ByteArray}, Sizes b b' → Sized b' ∧ (p.Fills → 0 < b.capacity → 0 < b'.capacity) :=
    fun hb => ⟨hb.sized, fun _ => hb.pos⟩
  cases p with
  | copyAssign fresh =>
    rw [selfStep, copyAssignSelf]
    split
    · exact hsizes h.self
    · exact ⟨⟨Block.malloc_length _ _, h.capacity_lt⟩, fun _ => id⟩
  | moveAssign => exact ⟨moved_ordered.sized, False.elim⟩
  | swap => exact hsizes h.self
  | readBytes fresh length => exact (readBytesSelf_sizes fresh h length).imp id fun _ => hsizes
  | operatorShr fresh => exact (readBytesSelf_sizes fresh h _).imp id fun _ => hsizes
  | cutHead fresh length => exact (cutHeadSelf_sizes fresh h length).imp id fun _ => hsizes
  | cutTail fresh length => exact (cutTailSelf_sizes fresh h length).imp id fun _ => hsizes
  | operatorShl fresh => exact (writeOwn_sizes fresh h 0 b.size).imp id fun _ => hsizes

theorem pairStep_sizes (h : Sized b) (hother : Sized other) (p : Pair) :
    Outcome True (fun r => (Sized r.1 ∧ Sized r.2) ∧
      (p.Fills → 0 < b.capacity → 0 < other.capacity → 0 < r.1.capacity ∧ 0 < r.2.capacity))
        (pairStep b other p) := by
  have hboth : ∀ {b' other' : ByteArray}, Sizes b b' → Sizes other other' → (Sized b' ∧ Sized other') ∧
      (p.Fills → 0 < b.capacity → 0 < other.capacity → 0 < b'.capacity ∧ 0 < other'.capacity) :=
    fun hb ho => ⟨⟨hb.sized, ho.sized⟩, fun _ hpos hopos => ⟨hb.pos hpos, ho.pos hopos⟩⟩
  cases p with
  | copyAssign fresh =>
    exact (copyOf_sizes hother).map fun _ hb => ⟨⟨hb.sized, hother⟩, fun _ _ hpos => ⟨hb.pos hpos, hpos⟩⟩
  | moveAssign => exact ⟨⟨hother, moved_ordered.sized⟩, False.elim⟩
  | swap => exact ⟨⟨hother, h⟩, fun _ hpos hopos => ⟨hopos, hpos⟩⟩
  | readBytes fresh length => exact (readBytes_sizes fresh h hother length).map fun _ hr => hboth hr.1 hr.2
  | operatorShr fresh =>
    exact ((readBytes_sizes fresh h hother b.readAvailable).map (Q := SizesBoth b other) fun _ => id).imp id
      fun _ hr => hboth hr.1 hr.2
  | cutHead fresh length => exact (cutHeadArray_sizes fresh h hother length).imp id fun _ hr => hboth hr.1 hr.2
  | cutTail fresh length => exact (cutTailArray_sizes fresh h hother length).imp id fun _ hr => hboth hr.1 hr.2
  | operatorShl fresh =>
    refine Outcome.map (P := Sizes b) ?_ fun _ hb => hboth hb hother.self
    exact (any_outcome _).bind fun xs _ => writeData_sizes fresh h (some xs)

/-- All blocks are sized, and after a call that fills them none is empty. -/
structure Blocks (w : World) (fills : Prop) (w' : World) : Prop where
  sized : ∀ k, Sized (w' k)
  pos : fills → (∀ k, 0 < (w k).capacity) → ∀ k, 0 < (w' k).capacity

variable {w : World}

/-- One array changes. -/
theorem Blocks.update {fills : Prop} {w' : World} (h : Blocks w fills w') (i : Nat) {b : ByteArray} (hb : Sized b)
    (hpos : fills → (∀ k, 0 < (w k).capacity) → 0 < b.capacity) : Blocks w fills (Function.update w' i b) :=
  ⟨(Function.forall_update_iff w' fun _ b => Sized b).mpr ⟨hb, fun k _ => h.sized k⟩, fun hfills hall =>
    (Function.forall_update_iff w' fun _ (b : ByteArray) => 0 < b.capacity).mpr
      ⟨hpos hfills hall, fun k _ => h.pos hfills hall k⟩⟩

theorem Blocks.refl {fills : Prop} (h : ∀ k, Sized (w k)) : Blocks w fills w := ⟨h, fun _ => id⟩

theorem constructStep_sizes (h : ∀ k, Sized (w k)) (i : Nat) (c : Construct) :
    Outcome True (Blocks w c.Fills) (constructStep w i c) := by
  cases c with
  | ofLength length =>
    refine (Blocks.refl h).update i (ofLength_ordered length).sized fun _ _ => ?_
    show 0 < if length.val = 0 then 4096 else length.val
    split <;> omega
  | ofBytes bytes copy =>
    exact (Blocks.refl h).update i (ofBytes_ordered bytes copy).sized fun hfills _ => length_pos_of_ne hfills
  | copyOf other =>
    rw [constructStep]
    split
    · trivial
    · exact (copyOf_sizes (h other)).map fun _ hb =>
        (Blocks.refl h).update i hb.sized fun _ hall => hb.pos (hall other)
  | moveOf other =>
    rw [constructStep]
    split
    · trivial
    · exact ((Blocks.refl h).update i (h other) fun hfills => hfills.elim).update other moved_ordered.sized
        fun hfills => hfills.elim

/-- **One call.** -/
theorem worldStep_sizes (h : ∀ k, Sized (w k)) (a : ArrayCall) :
    Outcome True (fun r => Blocks w a.Fills r.1) (worldStep w a) := by
  cases a with
  | construct i c => exact (constructStep_sizes h i c).map fun _ => id
  | member i m =>
    exact (memberStep_sizes (h i) m).map fun _ hb =>
      (Blocks.refl h).update i hb.1 fun hfills hall => hb.2 hfills (hall i)
  | pair i j p =>
    rw [worldStep]
    split
    · exact (selfStep_sizes (h i) p).map fun _ hb =>
        (Blocks.refl h).update i hb.1 fun hfills hall => hb.2 hfills (hall i)
    · exact (pairStep_sizes (h i) (h j) p).map fun _ hb =>
        ((Blocks.refl h).update i hb.1.1 fun hfills hall => (hb.2 hfills (hall i) (hall j)).1).update j hb.1.2
          fun hfills hall => (hb.2 hfills (hall i) (hall j)).2

/-! ## Runs -/

/-- **`expand` ends with the room asked for exactly if the room is there, or the block is the array's own and
not empty**, in every state that any calls reach; and calls that make no array of no bytes, and move none away,
leave no block empty. -/
theorem expand_grows_iff (calls : List ArrayCall) (w : World) (out : List (Option Nat))
    (hrun : runOps worldStep World.new calls = some (w, out)) :
    (∀ (k : Nat) (fresh : Nat → UInt8) (size : Nat), size ≤ 2 ^ 63 →
      (Grows fresh (w k) size ↔ size ≤ (w k).capacity ∨ ((w k).isAttached = false ∧ 0 < (w k).capacity))) ∧
    ((∀ a ∈ calls, a.Fills) → ∀ k, 0 < (w k).capacity) := by
  have hnew : ∀ k, Sized (World.new k) := fun k => (ofLength_ordered ⟨BYTES_DEFAULT_SIZE, by decide⟩).sized
  constructor
  · intro k fresh size hsize
    have hsized := runOps_inv (fun (w : World) _ _ => ∀ k, Sized (w k))
      (fun w _ _ a w' r h hstep => ((worldStep_sizes h a).result hstep).sized) hnew hrun
    exact (hsized k).grows_iff fresh hsize
  · intro hfills
    have halong : Along worldStep (fun _ a => a.Fills) World.new calls :=
      along_of_forall (fun a ha _ => hfills a ha) _
    exact (runOps_trace (fun (w : World) _ _ => (∀ k, Sized (w k)) ∧ ∀ k, 0 < (w k).capacity)
      (fun w _ _ a w' r h hok hstep =>
        have hblocks := (worldStep_sizes h.1 a).result hstep
        ⟨hblocks.sized, hblocks.pos hok h.2⟩)
      calls World.new w [] [] out
        ⟨hnew, fun _ => (by decide : 0 < (ofLength BYTES_DEFAULT_SIZE).capacity)⟩ halong hrun).2

/-- An array grows from 1 byte to 5. -/
theorem expand_grows_iff_five : ∃ w out,
    runOps worldStep World.new
      [.construct 0 (.ofLength 1), .member 0 (.writeData (fun _ => 0) (some ⟨[7], by decide⟩))] =
      some (w, out) ∧ Grows (fun _ => 0) (w 0) 5 := by
  have hdefined : (runOps worldStep World.new
      [.construct 0 (.ofLength 1), .member 0 (.writeData (fun _ => 0) (some ⟨[7], by decide⟩))]).map
        (fun r => (r.1 0).isAttached) = some false := by
    decide +kernel
  obtain ⟨⟨w, out⟩, hrun, howned⟩ := Option.map_eq_some_iff.mp hdefined
  obtain ⟨hiff, hfills⟩ := expand_grows_iff _ w out hrun
  refine ⟨w, out, hrun, (hiff 0 (fun _ => 0) 5 (by decide)).mpr (Or.inr ⟨howned, hfills ?_ 0⟩)⟩
  simp [ArrayCall.Fills, Construct.Fills, Member.Fills]

/-- **A byte for an array that has been moved from.** -/
theorem moved_never_grows : ¬ ∀ (calls : List ArrayCall) (w : World) (out : List (Option Nat)),
    runOps worldStep World.new calls = some (w, out) →
      ∀ (k : Nat) (fresh : Nat → UInt8) (size : Nat), size ≤ 2 ^ 63 → Grows fresh (w k) size := by
  intro hclaim
  have hrun : (runOps worldStep World.new [.construct 0 (.moveOf 1)]).map (fun r => (r.1 1).capacity) = some 0 := by
    decide +kernel
  obtain ⟨⟨w, out⟩, hrun, hcapacity⟩ := Option.map_eq_some_iff.mp hrun
  exact not_grows hcapacity (fun _ => 0) (by decide : 1 ≠ 0) (hclaim _ w out hrun 1 (fun _ => 0) 1 (by decide))

end Libws.Core
