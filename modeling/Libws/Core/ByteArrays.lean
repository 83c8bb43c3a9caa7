import Mathlib.Logic.Function.Basic
import Libws.Lib.Machine
import Libws.Core.ByteArrayHex

/-!
# All public calls of `ByteArray`, on any number of arrays

The rest of `include/ws/core/ByteArray.h` and `wsCore/src/ByteArray.cpp`, and the program as a machine
whose steps are the calls.

* The arrays are numbered.  One that is built takes the place of the one that had the number.
* An array has its block to itself: what happens to a block that is shared, or through `data()`, is the
  step `outside`.  A block lives as long as an array is attached to it.
* A step tells whose block `expand` or `truncate` has reallocated; `expand` does so exactly when it
  changes the capacity.
-/

set_option autoImplicit false

namespace Libws.Core

open Libws.Word

/-- `size_t`. -/
abbrev Size := Fin (2 ^ 64)

/-- What a pointer and a `size_t` pass. -/
abbrev Bytes := { bytes : List UInt8 // bytes.length < 2 ^ 64 }

namespace ByteArray

/-! ## Construction and assignment -/

/-- `ByteArray(const void*, size_t, bool)`. -/
def ofBytes (bytes : List UInt8) (copy : Bool) : ByteArray :=
  { isAttached := !copy, readOnlyFlag := !copy, data := bytes, readPos := 0, writePos := bytes.length,
    capacity := bytes.length }

/-- What the copy constructor and `operator=(const ByteArray&)` make of another array. -/
def copyOf (other : ByteArray) : Option ByteArray :=
  if other.isAttached then some other
  else (Block.read other.data 0 other.capacity).map ({ other with data := · })

/-- `b = b`: the new block is copied to itself. -/
def copyAssignSelf (fresh : Nat → UInt8) (b : ByteArray) : ByteArray :=
  if b.isAttached then b else { b with data := Block.malloc fresh b.capacity }

/-- What a move leaves behind: no block. -/
def moved : ByteArray :=
  { isAttached := false, readOnlyFlag := false, data := [], readPos := 0, writePos := 0, capacity := 0 }

def attach (_b : ByteArray) (data : List UInt8) : ByteArray :=
  { isAttached := true, readOnlyFlag := true, data := data, readPos := 0, writePos := data.length,
    capacity := data.length }

/-! ## Positions -/

def writeAvailable (b : ByteArray) : Nat := sub64 b.capacity b.writePos

/-- The setter `writePosition(size_t)`. -/
def writePosition (fresh : Nat → UInt8) (b : ByteArray) (value : Nat) : Option ByteArray :=
  if b.readOnlyFlag then some b else (b.expand fresh value).map ({ · with writePos := value })

/-- The setter `readOnly(bool)`. -/
def setReadOnly (b : ByteArray) (v : Bool) : ByteArray := { b with readOnlyFlag := v }

/-! ## Reading and writing -/

/-- `emplace<T>()`; `val` is what the constructor of `T` leaves. -/
def emplace (fresh : Nat → UInt8) (b : ByteArray) (val : List UInt8) : Option ByteArray :=
  if b.readOnly then some b else b.appendBytes fresh val

/-- `operator>>(std::string&)`. -/
def operatorShrString (b : ByteArray) (val : List UInt8) : Option (ByteArray × List UInt8) := do
  let (b, len) ← b.readNumber 2
  let len := leNat len
  if len ≠ 0 ∧ b.readAvailable ≥ len then
    let val ← Block.read b.data b.readPos len
    some ({ b with readPos := add64 b.readPos len }, val)
  else some (b, val)

/-- `operator>>(ByteArray&)`. -/
def operatorShrArray (fresh : Nat → UInt8) (b outBytes : ByteArray) : Option (ByteArray × ByteArray) :=
  (b.readBytes fresh outBytes b.readAvailable).map fun (b, outBytes, _) => (b, outBytes)

/-! ## The array itself as the other one -/

/-- `writeData` of bytes of the own block, which a reallocation frees. -/
def writeOwn (fresh : Nat → UInt8) (b : ByteArray) (off length : Nat) : Option ByteArray :=
  if b.readOnly || length == 0 then some b
  else do
    let grown ← b.expand fresh (add64 b.writePos length)
    if grown.capacity ≠ b.capacity then none
    else
      let xs ← Block.read b.data off length
      b.appendBytes fresh xs

def readBytesSelf (fresh : Nat → UInt8) (b : ByteArray) (length : Nat) : Option ByteArray :=
  if length > 0 then do
    let length := if length > b.readAvailable then b.readAvailable else length
    let b ← b.expand fresh (add64 b.writePos length)
    let xs ← Block.read b.data b.readPos length
    let data ← Block.write b.data b.writePos xs
    some { b with data := data, writePos := add64 b.writePos length, readPos := add64 b.readPos length }
  else some b

def cutHeadSelf (fresh : Nat → UInt8) (b : ByteArray) (length : Nat) : Option ByteArray :=
  if b.writePos = 0 ∨ length = 0 then some b
  else if length ≥ b.writePos then (b.writeOwn fresh 0 b.writePos).map clear
  else (b.writeOwn fresh 0 length).bind (·.dropHead length)

def cutTailSelf (fresh : Nat → UInt8) (b : ByteArray) (length : Nat) : Option ByteArray :=
  if b.writePos = 0 then some b
  else if length ≥ b.writePos then (b.writeOwn fresh 0 b.writePos).map clear
  else
    let writePos := sub64 b.writePos length
    (writeOwn fresh { b with writePos := writePos } writePos length).map fun b => b.dropTail b.writePos

end ByteArray

/-! ## The program -/

inductive Construct where
  | ofLength (length : Size)
  | ofBytes (bytes : Bytes) (copy : Bool)
  | copyOf (other : Nat)
  | moveOf (other : Nat)

/-- The calls on one array. -/
inductive Member where
  | readPosition (value : Size)
  | writePosition (fresh : Nat → UInt8) (value : Size)
  | seek (pos : Int)
  | readOnly (v : Bool)
  | truncate (fresh : Nat → UInt8) (resetSize : Size)
  | cutHead (length : Size) (out : Option (List UInt8))
  | cutTail (length : Size) (out : Option (List UInt8))
  | toHexString (upperCase : Bool)
  | fromHexString (fresh : Nat → UInt8) (hexStr : Bytes)
  | attach (data : Bytes)
  | readNumber (typeSize : Size)
  | operatorShr (val : List UInt8)
  | operatorShrString (val : List UInt8)
  | readData (outData : Option (List UInt8)) (length : Size)
  | readString (length : Size)
  | readStringPrefixed
  | expand (fresh : Nat → UInt8) (size : Size)
  | writeData (fresh : Nat → UInt8) (inData : Option Bytes)
  | writeEmptyData (fresh : Nat → UInt8) (length : Size)
  | emplace (fresh : Nat → UInt8) (val : Bytes)
  | operatorShl (fresh : Nat → UInt8) (val : Bytes)
  | operatorShlString (fresh : Nat → UInt8) (val : Bytes)
  /-- no call: the bytes of the block change -/
  | outside (data : List UInt8)

/-- The calls on an array with another one. -/
inductive Pair where
  | copyAssign (fresh : Nat → UInt8)
  | moveAssign
  | swap
  | readBytes (fresh : Nat → UInt8) (length : Size)
  | operatorShr (fresh : Nat → UInt8)
  | cutHead (fresh : Nat → UInt8) (length : Size)
  | cutTail (fresh : Nat → UInt8) (length : Size)
  | operatorShl (fresh : Nat → UInt8)

inductive ArrayCall where
  | construct (i : Nat) (c : Construct)
  | member (i : Nat) (m : Member)
  | pair (i j : Nat) (p : Pair)

def memberStep (b : ByteArray) : Member → Option ByteArray
  | .readPosition value => some (b.readPosition value)
  | .writePosition fresh value => b.writePosition fresh value
  | .seek pos => some (b.seek pos)
  | .readOnly v => some (b.setReadOnly v)
  | .truncate fresh resetSize => some (b.truncate fresh resetSize)
  | .cutHead length out => (b.cutHead length out).map (·.1)
  | .cutTail length out => (b.cutTail length out).map (·.1)
  | .toHexString upperCase => (b.toHexString upperCase).map fun _ => b
  | .fromHexString fresh hexStr => (b.fromHexString fresh hexStr.val).map (·.1)
  | .attach data => some (b.attach data.val)
  | .readNumber typeSize => (b.readNumber typeSize).map (·.1)
  | .operatorShr val => (b.operatorShr val).map (·.1)
  | .operatorShrString val => (b.operatorShrString val).map (·.1)
  | .readData outData length => (b.readData outData length).map (·.1)
  | .readString length => (b.readString length).map (·.1)
  | .readStringPrefixed => b.readStringPrefixed.map (·.1)
  | .expand fresh size => b.expand fresh size
  | .writeData fresh inData => b.writeData fresh (inData.map (·.val))
  | .writeEmptyData fresh length => b.writeEmptyData fresh length
  | .emplace fresh val => b.emplace fresh val.val
  -- an exception leaves the array as it was
  | .operatorShl fresh val => (b.operatorShl fresh val.val).map fun r => r.toOption.getD b
  | .operatorShlString fresh val => (b.operatorShlString fresh val.val).map fun r => r.toOption.getD b
  | .outside data => if data.length = b.data.length then some { b with data := data } else none

def pairStep (b other : ByteArray) : Pair → Option (ByteArray × ByteArray)
  | .copyAssign _ => (ByteArray.copyOf other).map (·, other)
  | .moveAssign => some (other, ByteArray.moved)
  | .swap => some (other, b)
  | .readBytes fresh length => (b.readBytes fresh other length).map fun (b, other, _) => (b, other)
  | .operatorShr fresh => b.operatorShrArray fresh other
  | .cutHead fresh length => b.cutHeadArray fresh length other
  | .cutTail fresh length => b.cutTailArray fresh length other
  | .operatorShl fresh => (b.operatorShlArray fresh other).map (·, other)

def selfStep (b : ByteArray) : Pair → Option ByteArray
  | .copyAssign fresh => some (b.copyAssignSelf fresh)
  | .moveAssign => some ByteArray.moved
  | .swap => some b
  | .readBytes fresh length => b.readBytesSelf fresh length
  | .operatorShr fresh => b.readBytesSelf fresh b.readAvailable
  | .cutHead fresh length => b.cutHeadSelf fresh length
  | .cutTail fresh length => b.cutTailSelf fresh length
  | .operatorShl fresh => b.writeOwn fresh 0 b.size

/-- The call has reallocated the block of `b`, which is `b'` then. -/
def Member.reallocates (b b' : ByteArray) : Member → Bool
  | .attach _ => false
  | .truncate _ resetSize => resetSize.val ≠ 0 && !b.isAttached
  | .fromHexString _ hexStr => hexStr.val.length % 2 = 0 && hexStr.val.length / 2 ≠ 0 && !b.isAttached
  | _ => b'.capacity ≠ b.capacity

/-- The call gives the array another block. -/
def Pair.rebinds : Pair → Bool
  | .copyAssign _ | .moveAssign | .swap => true
  | _ => false

abbrev World := Nat → ByteArray

/-- `ByteArray()`. -/
def World.new : World := fun _ => ByteArray.ofLength BYTES_DEFAULT_SIZE

open Function (update)

def constructStep (w : World) (i : Nat) : Construct → Option World
  | .ofLength length => some (update w i (ByteArray.ofLength length))
  | .ofBytes bytes copy => some (update w i (ByteArray.ofBytes bytes.val copy))
  | .copyOf other => if other = i then none else (ByteArray.copyOf (w other)).map (update w i)
  | .moveOf other => if other = i then none else some (update (update w i (w other)) other ByteArray.moved)

/-- The arrays, and whose block was reallocated. -/
def worldStep (w : World) : ArrayCall → Option (World × Option Nat)
  | .construct i c => (constructStep w i c).map (·, none)
  | .member i m =>
    (memberStep (w i) m).map fun b => (update w i b, if m.reallocates (w i) b then some i else none)
  | .pair i j p =>
    if i = j then
      (selfStep (w i) p).map fun b =>
        (update w i b, if ¬ p.rebinds ∧ b.capacity ≠ (w i).capacity then some i else none)
    else
      (pairStep (w i) (w j) p).map fun (b, other) =>
        (update (update w i b) j other,
          if p.rebinds then none
          else if b.capacity ≠ (w i).capacity then some i
          else if other.capacity ≠ (w j).capacity then some j
          else none)

end Libws.Core
