import Libws.Core.ByteArrayPositions

/-!
# The block of a read-only `ByteArray`

* `ArrayCall.Keeps` — the calls after which an array has the block that it had;
* `Spares` — what such calls have to avoid on a read-only array;
* `readOnly_block_kept` — in every run of such calls, the bytes stay and no call reallocates the block.
-/

set_option autoImplicit false

namespace Libws.Core

open Libws.Core.ByteArray Libws.Machine Libws.Word

/-- The call does not give the array `i` another block, nor its block to another array, and it is no change from
outside. -/
def ArrayCall.Keeps (i : Nat) : ArrayCall → Prop
  | .construct k (.moveOf other) => k ≠ i ∧ other ≠ i
  | .construct k _ => k ≠ i
  | .member k (.attach _) | .member k (.outside _) => k ≠ i
  | .member .. => True
  | .pair k _ (.copyAssign _) => k ≠ i
  | .pair k j .moveAssign | .pair k j .swap => k ≠ i ∧ j ≠ i
  | .pair .. => True

/-- Nothing is moved inside the block. -/
def CutsAll (b : ByteArray) (length : Nat) : Prop := length = 0 ∨ b.writePos ≤ length

/-- On one array. -/
def Member.Spares (b : ByteArray) : Member → Prop
  | .writePosition _ value => b.readOnlyFlag = true ∨ value.val ≤ b.capacity
  | .truncate _ resetSize => resetSize.val = 0 ∨ b.isAttached = true
  | .cutHead length _ => CutsAll b length
  | .fromHexString _ hexStr =>
    hexStr.val.length % 2 = 0 → hexStr.val = [] ∨ b.isAttached = true ∧ Hex.leadingPairs hexStr.val = 0
  | .expand _ size => size.val ≤ b.capacity
  | _ => True

/-- With another array. -/
def Pair.Spares (b : ByteArray) : Pair → Prop
  | .cutHead _ length => CutsAll b length
  | _ => True

/-- As the target of another array, or of itself. -/
def Pair.SparesTarget (b other : ByteArray) : Pair → Prop
  | .readBytes _ length => length.val = 0 ∨ b.readAvailable = 0 ∧ other.writePos ≤ other.capacity
  | .operatorShr _ => b.readAvailable = 0
  | _ => True

/-- On the array `i`. -/
def Spares (i : Nat) (w : World) : ArrayCall → Prop
  | .construct .. => True
  | .member k m => k = i → m.Spares (w i)
  | .pair k j p => (k = i → p.Spares (w i)) ∧ (j = i → p.SparesTarget (w k) (w i))

/-! ## Member functions -/

/-- The bytes and the capacity of the block. -/
structure SameBlock (b b' : ByteArray) : Prop where
  data_eq : b'.data = b.data
  capacity_eq : b'.capacity = b.capacity

theorem SameBlock.refl (b : ByteArray) : SameBlock b b := ⟨rfl, rfl⟩

theorem SameBlock.trans {b₁ b₂ b₃ : ByteArray} (h : SameBlock b₁ b₂) (h' : SameBlock b₂ b₃) : SameBlock b₁ b₃ :=
  ⟨h'.data_eq.trans h.data_eq, h'.capacity_eq.trans h.capacity_eq⟩

theorem any_outcome {α : Type} (r : Option α) : Outcome True (fun _ => True) r := by
  cases r <;> trivial

variable {b other : ByteArray}

theorem seek_same (b : ByteArray) (pos : Int) : SameBlock b (b.seek pos) := by
  unfold ByteArray.seek
  split
  · exact ⟨rfl, rfl⟩
  · split <;> exact ⟨rfl, rfl⟩

theorem readNumber_same (b : ByteArray) (typeSize : Nat) :
    Outcome True (fun r => SameBlock b r.1) (b.readNumber typeSize) := by
  unfold readNumber
  split
  · exact (any_outcome _).map fun _ _ => ⟨rfl, rfl⟩
  · exact SameBlock.refl b

theorem operatorShr_same (b : ByteArray) (val : List UInt8) :
    Outcome True (fun r => SameBlock b r.1) (b.operatorShr val) := by
  unfold operatorShr
  split
  · exact (any_outcome _).map fun _ _ => ⟨rfl, rfl⟩
  · exact SameBlock.refl b

theorem readString_same (b : ByteArray) (length : Nat) :
    Outcome True (fun r => SameBlock b r.1) (b.readString length) := by
  unfold readString
  generalize (if length > b.readAvailable then b.readAvailable else length) = n
  simp only
  split
  · exact (any_outcome _).map fun _ _ => ⟨rfl, rfl⟩
  · exact SameBlock.refl b

theorem readStringPrefixed_same (b : ByteArray) : Outcome True (fun r => SameBlock b r.1) b.readStringPrefixed :=
  (readNumber_same b 2).bind fun r hr =>
    (readString_same r.1 (leNat r.2)).imp id fun _ hs => hr.trans hs

theorem operatorShrString_same (b : ByteArray) (val : List UInt8) :
    Outcome True (fun r => SameBlock b r.1) (b.operatorShrString val) := by
  refine (readNumber_same b 2).bind fun r hr => ?_
  simp only
  split
  · exact (any_outcome _).bind fun _ _ => ⟨hr.data_eq, hr.capacity_eq⟩
  · exact hr

theorem readData_same (b : ByteArray) (outData : Option (List UInt8)) (length : Nat) :
    Outcome True (fun r => SameBlock b r.1) (b.readData outData length) := by
  unfold readData
  cases outData with
  | none => exact SameBlock.refl b
  | some out =>
    generalize (if length = 0 ∨ length > b.readAvailable then b.readAvailable else length) = n
    simp only
    split
    · exact (any_outcome _).bind fun _ _ => (any_outcome _).bind fun _ _ => ⟨rfl, rfl⟩
    · exact SameBlock.refl b

theorem cutTail_same (b : ByteArray) (length : Nat) (out : Option (List UInt8)) :
    Outcome True (fun r => SameBlock b r.1) (b.cutTail length out) := by
  unfold cutTail
  split
  · exact SameBlock.refl b
  split
  · exact (any_outcome _).bind fun _ _ => (any_outcome _).bind fun _ _ => ⟨rfl, rfl⟩
  · exact (any_outcome _).bind fun _ _ => (any_outcome _).bind fun _ _ => ⟨rfl, rfl⟩

theorem cutHead_same {length : Nat} (hall : CutsAll b length) (out : Option (List UInt8)) :
    Outcome True (fun r => SameBlock b r.1) (b.cutHead length out) := by
  unfold cutHead
  split
  · exact SameBlock.refl b
  split
  · exact (any_outcome _).bind fun _ _ => (any_outcome _).bind fun _ _ => ⟨rfl, rfl⟩
  · rename_i hsome hlt
    exact absurd (hall.resolve_left fun hzero => hsome (Or.inr hzero)) hlt

theorem truncate_same (fresh : Nat → UInt8) {resetSize : Nat} (hkeeps : resetSize = 0 ∨ b.isAttached = true) :
    SameBlock b (b.truncate fresh resetSize) := by
  unfold ByteArray.truncate
  rw [if_neg fun h => hkeeps.elim h.1 h.2]
  exact ⟨rfl, rfl⟩


theorem writePosition_same (fresh : Nat → UInt8) {value : Nat} (hkeeps : b.readOnlyFlag = true ∨
    value ≤ b.capacity) : Outcome True (SameBlock b) (b.writePosition fresh value) := by
  unfold writePosition
  split
  · exact SameBlock.refl b
  · rename_i hflag
    rw [expand_self fresh (hkeeps.resolve_left hflag)]
    exact ⟨rfl, rfl⟩

/-- No digits are written. -/
theorem fromHexPairs_same {hexStr : List UInt8} (hnone : Hex.leadingPairs hexStr = 0)
    (data : List UInt8) (byte : Nat) : ∃ ok, fromHexPairs data byte hexStr = some (data, ok) := by
  match hexStr with
  | [] | [_] => exact ⟨true, rfl⟩
  | high :: low :: hexStr =>
    have hhigh : ¬ Hex.IsDigit high := fun hdigit => by simp [Hex.leadingPairs, hdigit] at hnone
    have hchars := (fromChars_isSome high low).not.mpr hhigh
    rw [Option.not_isSome_iff_eq_none] at hchars
    exact ⟨false, by simp only [fromHexPairs, hchars]⟩

theorem fromHexString_same (fresh : Nat → UInt8) {hexStr : List UInt8}
    (hkeeps : hexStr.length % 2 = 0 → hexStr = [] ∨ b.isAttached = true ∧ Hex.leadingPairs hexStr = 0) :
    Outcome True (fun r => SameBlock b r.1) (b.fromHexString fresh hexStr) := by
  unfold fromHexString
  by_cases heven : hexStr.length % 2 = 0
  · have hnone : Hex.leadingPairs hexStr = 0 := by
      rcases hkeeps heven with rfl | ⟨-, hnone⟩
      · rfl
      · exact hnone
    have hreset : SameBlock b (b.truncate fresh (hexStr.length / 2)) := truncate_same fresh (by
      rcases hkeeps heven with rfl | ⟨hattached, -⟩
      · exact Or.inl rfl
      · exact Or.inr hattached)
    obtain ⟨ok, hpairs⟩ := fromHexPairs_same hnone (b.truncate fresh (hexStr.length / 2)).data 0
    simp only [heven, ne_eq, not_true_eq_false, if_false, hpairs, Option.map_some]
    cases ok <;> exact ⟨hreset.data_eq, hreset.capacity_eq⟩
  · simp only [heven, ne_eq, not_false_eq_true, if_true]
    exact SameBlock.refl b

section readOnly

variable (fresh : Nat → UInt8) (hreadOnly : b.readOnly = true)
include hreadOnly

theorem writeData_readOnly (inData : Option (List UInt8)) : b.writeData fresh inData = some b := by
  cases inData with
  | none => rfl
  | some xs => simp [writeData, hreadOnly]

theorem writeEmptyData_readOnly (length : Nat) : b.writeEmptyData fresh length = some b := by
  simp [writeEmptyData, hreadOnly]

theorem emplace_readOnly (val : List UInt8) : b.emplace fresh val = some b := by simp [emplace, hreadOnly]

theorem operatorShl_readOnly (val : List UInt8) :
    b.operatorShl fresh val = some (.error "read only memory blocks!!") := by
  simp [operatorShl, hreadOnly]

theorem operatorShlString_readOnly (val : List UInt8) :
    b.operatorShlString fresh val = some (.error "read only memory blocks!!") := by
  simp [operatorShlString, operatorShl_readOnly fresh hreadOnly]

theorem writeOwn_readOnly (off length : Nat) : b.writeOwn fresh off length = some b := by
  simp [writeOwn, hreadOnly]

end readOnly

/-! ## Steps -/

/-- The call keeps the block and does not reallocate it. -/
def Untouched (b : ByteArray) (m : Member) (b' : ByteArray) : Prop := SameBlock b b' ∧ m.reallocates b b' = false

theorem memberStep_spares (hreadOnly : b.readOnly = true) {m : Member}
    (hkeeps : (∀ data, m ≠ .attach data) ∧ ∀ data, m ≠ .outside data) (hspares : m.Spares b) :
    Outcome True (Untouched b m) (memberStep b m) := by
  have hcapacity : ∀ {b' : ByteArray}, SameBlock b b' → decide (b'.capacity ≠ b.capacity) = false := fun hsame => by
    simp [hsame.capacity_eq]
  have hself : decide (b.capacity ≠ b.capacity) = false := hcapacity (SameBlock.refl b)
  cases m with
  | readPosition value => exact ⟨⟨rfl, rfl⟩, hself⟩
  | writePosition fresh value =>
    exact (writePosition_same fresh hspares).imp id fun _ hsame => ⟨hsame, hcapacity hsame⟩
  | seek pos =>
    have hsame := seek_same b pos
    exact ⟨hsame, hcapacity hsame⟩
  | readOnly v => exact ⟨⟨rfl, rfl⟩, hself⟩
  | truncate fresh resetSize =>
    refine ⟨truncate_same fresh hspares, ?_⟩
    rcases hspares with hzero | hattached
    · simp [Member.reallocates, hzero]
    · simp [Member.reallocates, hattached]
  | cutHead length out => exact (cutHead_same hspares out).map fun _ hsame => ⟨hsame, hcapacity hsame⟩
  | cutTail length out => exact (cutTail_same b _ out).map fun _ hsame => ⟨hsame, hcapacity hsame⟩
  | toHexString upperCase => exact (any_outcome _).map fun _ _ => ⟨SameBlock.refl b, hself⟩
  | fromHexString fresh hexStr =>
    refine (fromHexString_same fresh hspares).map fun _ hsame => ⟨hsame, ?_⟩
    by_cases heven : hexStr.val.length % 2 = 0
    · rcases hspares heven with hempty | ⟨hattached, -⟩
      · simp [Member.reallocates, hempty]
      · simp [Member.reallocates, hattached]
    · simp [Member.reallocates, heven]
  | attach data => exact absurd rfl (hkeeps.1 data)
  | readNumber typeSize => exact (readNumber_same b _).map fun _ hsame => ⟨hsame, hcapacity hsame⟩
  | operatorShr val => exact (operatorShr_same b val).map fun _ hsame => ⟨hsame, hcapacity hsame⟩
  | operatorShrString val => exact (operatorShrString_same b val).map fun _ hsame => ⟨hsame, hcapacity hsame⟩
  | readData outData length => exact (readData_same b outData _).map fun _ hsame => ⟨hsame, hcapacity hsame⟩
  | readString length => exact (readString_same b _).map fun _ hsame => ⟨hsame, hcapacity hsame⟩
  | readStringPrefixed => exact (readStringPrefixed_same b).map fun _ hsame => ⟨hsame, hcapacity hsame⟩
  | expand fresh size => exact Outcome.of_some (expand_self fresh hspares) ⟨SameBlock.refl b, hself⟩
  | writeData fresh inData => exact Outcome.of_some (writeData_readOnly fresh hreadOnly _) ⟨SameBlock.refl b, hself⟩
  | writeEmptyData fresh length =>
    exact Outcome.of_some (writeEmptyData_readOnly fresh hreadOnly _) ⟨SameBlock.refl b, hself⟩
  | emplace fresh val => exact Outcome.of_some (emplace_readOnly fresh hreadOnly _) ⟨SameBlock.refl b, hself⟩
  | operatorShl fresh val =>
    refine Outcome.of_some (x := b) ?_ ⟨SameBlock.refl b, hself⟩
    rw [memberStep, operatorShl_readOnly fresh hreadOnly]
    rfl
  | operatorShlString fresh val =>
    refine Outcome.of_some (x := b) ?_ ⟨SameBlock.refl b, hself⟩
    rw [memberStep, operatorShlString_readOnly fresh hreadOnly]
    rfl
  | outside data => exact absurd rfl (hkeeps.2 data)

/-- Nothing is appended. -/
theorem appendBytes_nil (fresh : Nat → UInt8) (hle : b.writePos ≤ b.capacity) :
    Outcome True (SameBlock b) (b.appendBytes fresh []) := by
  have hadd : add64 b.writePos ([] : List UInt8).length ≤ b.capacity := Nat.le_trans (Nat.mod_le _ _) hle
  simp only [appendBytes, expand_self fresh hadd, Option.bind_eq_bind, Option.bind_some]
  cases hwrite : Block.write b.data b.writePos [] with
  | none => trivial
  | some data => exact ⟨Block.write_nil hwrite, rfl⟩

theorem readBytes_same (fresh : Nat → UInt8) (b other : ByteArray) (length : Nat) :
    Outcome True (fun r => SameBlock b r.1) (b.readBytes fresh other length) := by
  unfold readBytes
  split
  · exact (any_outcome _).bind fun _ _ => (any_outcome _).bind fun _ _ => ⟨rfl, rfl⟩
  · exact SameBlock.refl b

theorem readBytes_target {length : Nat} (fresh : Nat → UInt8)
    (hspares : length = 0 ∨ b.readAvailable = 0 ∧ other.writePos ≤ other.capacity) :
    Outcome True (fun r => SameBlock other r.2.1) (b.readBytes fresh other length) := by
  unfold readBytes
  split
  · rename_i hpos
    obtain ⟨hnothing, hle⟩ := hspares.resolve_left (Nat.ne_of_gt hpos)
    simp only [hnothing, if_pos hpos]
    cases hread : Block.read b.data b.readPos 0 with
    | none => trivial
    | some xs =>
      cases List.length_eq_zero_iff.mp (Block.read_length hread)
      exact (appendBytes_nil fresh hle).bind fun _ hsame => hsame
  · exact SameBlock.refl other

/-- The array whose call it is. -/
theorem pairStep_object (hreadOnly : b.readOnly = true) {p : Pair} (hkeeps : p.rebinds = false)
    (hspares : p.Spares b) : Outcome True (fun r => SameBlock b r.1) (pairStep b other p) := by
  cases p with
  | copyAssign | moveAssign | swap => cases hkeeps
  | readBytes fresh length => exact (readBytes_same fresh b other length).map fun _ => id
  | operatorShr fresh => exact (readBytes_same fresh b other _).map fun _ => id
  | cutHead fresh length =>
    rw [pairStep, cutHeadArray]
    split
    · exact SameBlock.refl b
    split
    · exact (any_outcome _).bind fun _ _ => (any_outcome _).bind fun _ _ => ⟨rfl, rfl⟩
    · rename_i hsome hlt
      exact absurd (hspares.resolve_left fun hzero => hsome (Or.inr hzero)) hlt
  | cutTail fresh length =>
    rw [pairStep, cutTailArray]
    split
    · exact SameBlock.refl b
    split
    · exact (any_outcome _).bind fun _ _ => (any_outcome _).bind fun _ _ => ⟨rfl, rfl⟩
    · exact (any_outcome _).bind fun _ _ => (any_outcome _).bind fun _ _ => ⟨rfl, rfl⟩
  | operatorShl fresh =>
    rw [pairStep, operatorShlArray]
    simp only [writeData_readOnly fresh hreadOnly]
    cases Block.read other.data 0 other.size with
    | none => trivial
    | some xs => exact SameBlock.refl b

/-- The other array. -/
theorem pairStep_target (hreadOnly : other.readOnly = true) {p : Pair} (hkeeps : p ≠ .moveAssign ∧ p ≠ .swap)
    (hspares : p.SparesTarget b other) : Outcome True (fun r => SameBlock other r.2) (pairStep b other p) := by
  cases p with
  | copyAssign fresh => exact (any_outcome _).map fun _ _ => SameBlock.refl other
  | moveAssign => exact absurd rfl hkeeps.1
  | swap => exact absurd rfl hkeeps.2
  | readBytes fresh length => exact (readBytes_target fresh hspares).map fun _ => id
  | operatorShr fresh => exact (readBytes_target fresh (Or.inl hspares)).map fun _ => id
  | cutHead fresh length =>
    rw [pairStep, cutHeadArray]
    simp only [writeData_readOnly fresh hreadOnly]
    split
    · exact SameBlock.refl other
    split
    · exact (any_outcome _).bind fun _ _ => SameBlock.refl other
    · refine (any_outcome _).bind fun _ _ => ?_
      exact (any_outcome (b.dropHead length)).bind fun _ _ => SameBlock.refl other
  | cutTail fresh length =>
    rw [pairStep, cutTailArray]
    simp only [writeData_readOnly fresh hreadOnly]
    split
    · exact SameBlock.refl other
    split
    · exact (any_outcome _).bind fun _ _ => SameBlock.refl other
    · exact (any_outcome _).bind fun _ _ => SameBlock.refl other
  | operatorShl fresh => exact (any_outcome _).map fun _ _ => SameBlock.refl other

theorem readBytesSelf_same (fresh : Nat → UInt8) {length : Nat}
    (hnothing : length = 0 ∨ b.readAvailable = 0 ∧ b.writePos ≤ b.capacity) :
    Outcome True (SameBlock b) (b.readBytesSelf fresh length) := by
  unfold readBytesSelf
  split
  · rename_i hpos
    obtain ⟨hzero, hle⟩ := hnothing.resolve_left (Nat.ne_of_gt hpos)
    have hadd : add64 b.writePos 0 ≤ b.capacity := Nat.le_trans (Nat.mod_le _ _) hle
    simp only [hzero, if_pos hpos, expand_self fresh hadd, Option.bind_eq_bind, Option.bind_some]
    cases hread : Block.read b.data b.readPos 0 with
    | none => trivial
    | some xs =>
      cases List.length_eq_zero_iff.mp (Block.read_length hread)
      cases hwrite : Block.write b.data b.writePos [] with
      | none => simp only [Option.bind_some, hwrite]; trivial
      | some data =>
        simp only [Option.bind_some, hwrite]
        exact ⟨Block.write_nil hwrite, rfl⟩
  · exact SameBlock.refl b

theorem selfStep_spares (hreadOnly : b.readOnly = true) {p : Pair} (hkeeps : p.rebinds = false)
    (hspares : p.Spares b) (htarget : p.SparesTarget b b) : Outcome True (SameBlock b) (selfStep b p) := by
  cases p with
  | copyAssign | moveAssign | swap => cases hkeeps
  | readBytes fresh length => exact readBytesSelf_same fresh htarget
  | operatorShr fresh => exact readBytesSelf_same fresh (Or.inl htarget)
  | cutHead fresh length =>
    rw [selfStep, cutHeadSelf]
    simp only [writeOwn_readOnly fresh hreadOnly]
    split
    · exact SameBlock.refl b
    split
    · exact ⟨rfl, rfl⟩
    · rename_i hsome hlt
      exact absurd (hspares.resolve_left fun hzero => hsome (Or.inr hzero)) hlt
  | cutTail fresh length =>
    rw [selfStep, cutTailSelf]
    simp only [writeOwn_readOnly fresh hreadOnly]
    split
    · exact SameBlock.refl b
    split
    · exact ⟨rfl, rfl⟩
    · rw [writeOwn_readOnly fresh (b := { b with writePos := sub64 b.writePos length }) hreadOnly]
      exact ⟨rfl, rfl⟩
  | operatorShl fresh => exact Outcome.of_some (writeOwn_readOnly fresh hreadOnly _ _) (SameBlock.refl b)

/-! ## Runs -/

section keeps

variable {i k j : Nat}

theorem keeps_member {m : Member} (h : (ArrayCall.member i m).Keeps i) :
    (∀ data, m ≠ .attach data) ∧ ∀ data, m ≠ .outside data := by
  constructor
  · rintro data rfl
    exact h rfl
  · rintro data rfl
    exact h rfl

theorem keeps_object {p : Pair} (h : (ArrayCall.pair i j p).Keeps i) : p.rebinds = false := by
  cases p with
  | copyAssign fresh => exact absurd rfl h
  | moveAssign | swap => exact absurd rfl h.1
  | readBytes | operatorShr | cutHead | cutTail | operatorShl => rfl

theorem keeps_target {p : Pair} (h : (ArrayCall.pair k i p).Keeps i) : p ≠ .moveAssign ∧ p ≠ .swap := by
  constructor
  · rintro rfl
    exact h.2 rfl
  · rintro rfl
    exact h.2 rfl

end keeps

variable {i : Nat} {w w' : World} {a : ArrayCall} {r : Option Nat}

theorem constructStep_keeps {k : Nat} {c : Construct} (hkeeps : (ArrayCall.construct k c).Keeps i)
    (hstep : constructStep w k c = some w') : w' i = w i := by
  cases c with
  | ofLength | ofBytes =>
    cases hstep
    exact Function.update_of_ne (Ne.symm hkeeps) _ _
  | copyOf other =>
    rw [constructStep] at hstep
    split at hstep
    · cases hstep
    · obtain ⟨b, -, rfl⟩ := Option.map_eq_some_iff.mp hstep
      exact Function.update_of_ne (Ne.symm hkeeps) _ _
  | moveOf other =>
    rw [constructStep] at hstep
    split at hstep
    · cases hstep
    · cases hstep
      rw [Function.update_of_ne (Ne.symm hkeeps.2), Function.update_of_ne (Ne.symm hkeeps.1)]

theorem ite_ne_some {c : Prop} [Decidable c] {k : Nat} {o : Option Nat} (hk : c → k ≠ i) (ho : o ≠ some i) :
    (if c then some k else o) ≠ some i := by
  split
  · rename_i hc
    exact fun heq => hk hc (Option.some.inj heq)
  · exact ho

/-- **One call** on or with a read-only array. -/
theorem worldStep_spares (hreadOnly : (w i).readOnly = true) (hkeeps : a.Keeps i) (hspares : Spares i w a)
    (hstep : worldStep w a = some (w', r)) : SameBlock (w i) (w' i) ∧ r ≠ some i := by
  cases a with
  | construct k c =>
    obtain ⟨w₁, hconstruct, hresult⟩ := Option.map_eq_some_iff.mp hstep
    cases hresult
    rw [constructStep_keeps hkeeps hconstruct]
    exact ⟨SameBlock.refl _, nofun⟩
  | member k m =>
    obtain ⟨b, hmember, hresult⟩ := Option.map_eq_some_iff.mp hstep
    cases hresult
    by_cases hk : k = i
    · subst hk
      obtain ⟨hsame, hold⟩ := (memberStep_spares hreadOnly (keeps_member hkeeps) (hspares rfl)).result hmember
      rw [Function.update_self, hold]
      exact ⟨hsame, nofun⟩
    · rw [Function.update_of_ne (Ne.symm hk)]
      exact ⟨SameBlock.refl _, ite_ne_some (fun _ => hk) nofun⟩
  | pair k j p =>
    rw [worldStep] at hstep
    split at hstep
    · rename_i hself
      subst hself
      obtain ⟨b, hpair, hresult⟩ := Option.map_eq_some_iff.mp hstep
      cases hresult
      by_cases hk : k = i
      · subst hk
        have hsame := (selfStep_spares hreadOnly (keeps_object hkeeps) (hspares.1 rfl) (hspares.2 rfl)).result hpair
        rw [Function.update_self, if_neg fun h => h.2 hsame.capacity_eq]
        exact ⟨hsame, nofun⟩
      · rw [Function.update_of_ne (Ne.symm hk)]
        exact ⟨SameBlock.refl _, ite_ne_some (fun _ => hk) nofun⟩
    · rename_i hne
      obtain ⟨⟨b, other⟩, hpair, hresult⟩ := Option.map_eq_some_iff.mp hstep
      cases hresult
      by_cases hk : k = i
      · subst hk
        have hsame := (pairStep_object hreadOnly (keeps_object hkeeps) (hspares.1 rfl)).result hpair
        rw [Function.update_of_ne hne, Function.update_self]
        refine ⟨hsame, ?_⟩
        split
        · nofun
        · exact ite_ne_some (fun hc => absurd hsame.capacity_eq hc) (ite_ne_some (fun _ => Ne.symm hne) nofun)
      by_cases hj : j = i
      · subst hj
        have hsame := (pairStep_target hreadOnly (keeps_target hkeeps) (hspares.2 rfl)).result hpair
        rw [Function.update_self]
        refine ⟨hsame, ?_⟩
        split
        · nofun
        · exact ite_ne_some (fun _ => hk) (ite_ne_some (fun hc => absurd hsame.capacity_eq hc) nofun)
      · rw [Function.update_of_ne (Ne.symm hj), Function.update_of_ne (Ne.symm hk)]
        refine ⟨SameBlock.refl _, ?_⟩
        split
        · nofun
        · exact ite_ne_some (fun _ => hk) (ite_ne_some (fun _ => hj) nofun)

/-- **The block of a read-only array is kept**, byte for byte and where it is, in every run of calls that spare
it. -/
theorem readOnly_block_kept (i : Nat) (calls : List ArrayCall) (w w' : World) (out : List (Option Nat))
    (hrun : runOps worldStep w calls = some (w', out))
    (hreadOnly : Always worldStep (fun w => (w i).readOnly = true) w calls) (hkeeps : ∀ a ∈ calls, a.Keeps i)
    (hspares : Along worldStep (Spares i) w calls) : SameBlock (w i) (w' i) ∧ some i ∉ out := by
  induction calls generalizing w out with
  | nil =>
    cases hrun
    exact ⟨SameBlock.refl _, nofun⟩
  | cons a calls ih =>
    obtain ⟨w₁, r, rs, hstep, hrest, rfl⟩ := runOps_cons.mp hrun
    obtain ⟨hsame, hold⟩ := worldStep_spares hreadOnly.1 (hkeeps a (List.mem_cons_self ..)) hspares.1 hstep
    obtain ⟨hsame', hold'⟩ := ih w₁ rs hrest (hreadOnly.2 w₁ r hstep) (fun a ha => hkeeps a (List.mem_cons_of_mem _ ha))
      (hspares.2 w₁ r hstep)
    exact ⟨hsame.trans hsame', List.not_mem_cons_of_ne_of_not_mem (Ne.symm hold) hold'⟩

instance (b : ByteArray) (length : Nat) : Decidable (CutsAll b length) :=
  inferInstanceAs (Decidable (length = 0 ∨ b.writePos ≤ length))

instance (b : ByteArray) : DecidablePred (Member.Spares b)
  | .writePosition _ value => inferInstanceAs (Decidable (b.readOnlyFlag = true ∨ value.val ≤ b.capacity))
  | .truncate _ resetSize => inferInstanceAs (Decidable (resetSize.val = 0 ∨ b.isAttached = true))
  | .cutHead length _ => inferInstanceAs (Decidable (CutsAll b length))
  | .fromHexString _ hexStr =>
    inferInstanceAs (Decidable (hexStr.val.length % 2 = 0 →
      hexStr.val = [] ∨ b.isAttached = true ∧ Hex.leadingPairs hexStr.val = 0))
  | .expand _ size => inferInstanceAs (Decidable (size.val ≤ b.capacity))
  | .readPosition _ | .seek _ | .readOnly _ | .cutTail .. | .toHexString _ | .attach _ | .readNumber _ | .operatorShr _
  | .operatorShrString _ | .readData .. | .readString _ | .readStringPrefixed | .writeData .. | .writeEmptyData ..
  | .emplace .. | .operatorShl .. | .operatorShlString .. | .outside _ => isTrue trivial

instance (b : ByteArray) : DecidablePred (Pair.Spares b)
  | .cutHead _ length => inferInstanceAs (Decidable (CutsAll b length))
  | .copyAssign _ | .moveAssign | .swap | .readBytes .. | .operatorShr _ | .cutTail .. | .operatorShl _ =>
    isTrue trivial

instance (b other : ByteArray) : DecidablePred (Pair.SparesTarget b other)
  | .readBytes _ length =>
    inferInstanceAs (Decidable (length.val = 0 ∨ b.readAvailable = 0 ∧ other.writePos ≤ other.capacity))
  | .operatorShr _ => inferInstanceAs (Decidable (b.readAvailable = 0))
  | .copyAssign _ | .moveAssign | .swap | .cutHead .. | .cutTail .. | .operatorShl _ => isTrue trivial

instance (i : Nat) (w : World) : DecidablePred (Spares i w)
  | .construct .. => isTrue trivial
  | .member k m => inferInstanceAs (Decidable (k = i → m.Spares (w i)))
  | .pair k j p => inferInstanceAs (Decidable ((k = i → p.Spares (w i)) ∧ (j = i → p.SparesTarget (w k) (w i))))

/-- Every array is attached to three bytes. -/
def attachedWorld : World := fun _ => ByteArray.ofBytes [1, 2, 3] false

/-- `cutTail(1)`, `readOnly(false)`, and the write position goes back inside the block. -/
theorem readOnly_block_kept_attached : ∃ w out,
    runOps worldStep attachedWorld [.member 0 (.cutTail 1 none), .member 0 (.readOnly false),
      .member 0 (.writePosition (fun _ => 0) 3)] = some (w, out) ∧
      SameBlock (attachedWorld 0) (w 0) ∧ some 0 ∉ out := by
  have hdefined : (runOps worldStep attachedWorld [.member 0 (.cutTail 1 none), .member 0 (.readOnly false),
      .member 0 (.writePosition (fun _ => 0) 3)]).isSome := by decide +kernel
  obtain ⟨⟨w, out⟩, hrun⟩ := Option.isSome_iff_exists.mp hdefined
  refine ⟨w, out, hrun, readOnly_block_kept 0 _ attachedWorld w out hrun (by decide +kernel) ?_ (by decide +kernel)⟩
  simp [ArrayCall.Keeps]

/-- **`cutHead(1)` moves the bytes of a block that the array does not own.** -/
theorem cutHead_moves : ¬ ∀ (i : Nat) (calls : List ArrayCall) (w w' : World) (out : List (Option Nat)),
    runOps worldStep w calls = some (w', out) → Always worldStep (fun w => (w i).readOnly = true) w calls →
      (∀ a ∈ calls, a.Keeps i) → SameBlock (w i) (w' i) ∧ some i ∉ out := by
  intro hclaim
  have hrun : (runOps worldStep attachedWorld [.member 0 (.cutHead 1 none)]).map (fun r => (r.1 0).data) =
      some [2, 3, 3] := by decide +kernel
  obtain ⟨⟨w, out⟩, hrun, hdata⟩ := Option.map_eq_some_iff.mp hrun
  have hsame := (hclaim 0 _ attachedWorld w out hrun (by decide +kernel) (by simp [ArrayCall.Keeps])).1.data_eq
  rw [show (w 0).data = [2, 3, 3] from hdata] at hsame
  exact absurd hsame (by decide)

end Libws.Core
