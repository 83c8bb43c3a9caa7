import Libws.Lib.Block
import Libws.Lib.Word

/-!
# `ws::core::ByteArray`

Model of `include/ws/core/ByteArray.h` and `wsCore/src/ByteArray.cpp`, one definition for each
member function, under its name; `operator<<` is `operatorShl…` and `operator>>` is
`operatorShr…`, one name for each overload.

* The block `_data` is a list of bytes, accessed through `Libws.Block`; a call that would leave
  the block, or whose growth loop does not end, or that passes a foreign block to `realloc`, has
  no defined outcome (`none`).
* `size_t` arithmetic wraps at `2 ^ 64`.  Allocation succeeds.
* `fresh` is what `malloc` and `realloc` leave at each offset of the bytes that they add.
* A pointer argument is an `Option`: `none` is the null pointer, `some xs` the bytes it points to.
* A typed value is its object representation.
-/

set_option autoImplicit false

namespace Libws.Core

open Libws.Word

structure ByteArray where
  isAttached : Bool
  readOnlyFlag : Bool
  data : List UInt8
  readPos : Nat
  writePos : Nat
  capacity : Nat
  deriving DecidableEq, Repr

def BYTES_DEFAULT_SIZE : Nat := 4096

namespace ByteArray

/-- `ByteArray(size_t length)`. -/
def ofLength (length : Nat) : ByteArray :=
  let capacity := if length = 0 then BYTES_DEFAULT_SIZE else length
  { isAttached := false, readOnlyFlag := false, data := List.replicate capacity 0,
    readPos := 0, writePos := 0, capacity := capacity }

/-! ## Positions -/

def size (b : ByteArray) : Nat := b.writePos

def readAvailable (b : ByteArray) : Nat := sub64 b.writePos b.readPos

def readOnly (b : ByteArray) : Bool := b.isAttached || b.readOnlyFlag

/-- The setter `readPosition(size_t)`. -/
def readPosition (b : ByteArray) (value : Nat) : ByteArray :=
  { b with readPos := if value > b.writePos then b.writePos else value }

def seek (b : ByteArray) (pos : Int) : ByteArray :=
  if pos > 0 then b.readPosition (add64 b.readPos pos.toNat)
  else if pos < 0 then b.readPosition (sub64 b.readPos (-pos).toNat)
  else b

/-- The bytes in front of the write position. -/
def content (b : ByteArray) : List UInt8 := b.data.take b.writePos

/-! ## Writing -/

def expand (fresh : Nat → UInt8) (b : ByteArray) (size : Nat) : Option ByteArray := do
  let newCap ← Block.growCap size b.capacity
  if newCap = b.capacity then some b
  else if b.isAttached then none
  else some { b with data := Block.realloc fresh b.data newCap, capacity := newCap }

/-- `expand(_writePos + length)`, the copy of `length` bytes to `writerPointer()`, and
    `_writePos += length`: the common tail of all writing functions. -/
def appendBytes (fresh : Nat → UInt8) (b : ByteArray) (xs : List UInt8) : Option ByteArray := do
  let b ← b.expand fresh (add64 b.writePos xs.length)
  let data ← Block.write b.data b.writePos xs
  some { b with data := data, writePos := add64 b.writePos xs.length }

def writeData (fresh : Nat → UInt8) (b : ByteArray) (inData : Option (List UInt8)) :
    Option ByteArray :=
  match inData with
  | none => some b
  | some xs => if b.readOnly || xs.isEmpty then some b else b.appendBytes fresh xs

def writeEmptyData (fresh : Nat → UInt8) (b : ByteArray) (length : Nat) : Option ByteArray :=
  if b.readOnly || length == 0 then some b else b.appendBytes fresh (List.replicate length 0)

/-- `operator<<(const T&)`; `error` is the `runtime_error` thrown on a read-only array. -/
def operatorShl (fresh : Nat → UInt8) (b : ByteArray) (val : List UInt8) :
    Option (Except String ByteArray) :=
  if b.readOnly then some (.error "read only memory blocks!!")
  else (b.appendBytes fresh val).map .ok

/-- `operator<<(const ByteArray&)`. -/
def operatorShlArray (fresh : Nat → UInt8) (b other : ByteArray) : Option ByteArray := do
  let xs ← Block.read other.data 0 other.size
  b.writeData fresh (some xs)

/-- `operator<<(const std::string&)`. -/
def operatorShlString (fresh : Nat → UInt8) (b : ByteArray) (val : List UInt8) :
    Option (Except String ByteArray) := do
  let len := val.length % 2 ^ 16
  match ← b.operatorShl fresh (leBytes 2 len) with
  | .error e => some (.error e)
  | .ok b' => (b'.writeData fresh (some (val.take len))).map .ok

/-! ## Reading -/

/-- `readNumber<T>()` for a type of `typeSize` bytes. -/
def readNumber (b : ByteArray) (typeSize : Nat) : Option (ByteArray × List UInt8) :=
  if typeSize ≤ b.readAvailable then
    (Block.read b.data b.readPos typeSize).map fun value =>
      ({ b with readPos := add64 b.readPos typeSize }, value)
  else some (b, List.replicate typeSize 0)

/-- `operator>>(T&)`; the target's old representation in, its new one out. -/
def operatorShr (b : ByteArray) (val : List UInt8) : Option (ByteArray × List UInt8) :=
  if val.length ≤ b.readAvailable then
    (Block.read b.data b.readPos val.length).map fun value =>
      ({ b with readPos := add64 b.readPos val.length }, value)
  else some (b, val)

/-- `readData(void*, size_t)`: the bytes at `outData` afterwards, and the count returned. -/
def readData (b : ByteArray) (outData : Option (List UInt8)) (length : Nat) :
    Option (ByteArray × Option (List UInt8) × Nat) :=
  match outData with
  | none => some (b, none, 0)
  | some out =>
    let length := if length = 0 ∨ length > b.readAvailable then b.readAvailable else length
    if length > 0 then do
      let xs ← Block.read b.data b.readPos length
      let out ← Block.write out 0 xs
      some ({ b with readPos := add64 b.readPos length }, some out, length)
    else some (b, some out, length)

/-- `readString(size_t)`. -/
def readString (b : ByteArray) (length : Nat) : Option (ByteArray × List UInt8) :=
  let length := if length > b.readAvailable then b.readAvailable else length
  if length > 0 then
    (Block.read b.data b.readPos length).map fun cstr =>
      ({ b with readPos := add64 b.readPos length }, cstr)
  else some (b, [])

/-- `readString()`: a string with a prefix of 2 bytes. -/
def readStringPrefixed (b : ByteArray) : Option (ByteArray × List UInt8) := do
  let (b, len) ← b.readNumber 2
  b.readString (leNat len)

/-- `readBytes(ByteArray&, size_t)`: this array, the target and the count returned. -/
def readBytes (fresh : Nat → UInt8) (b outBytes : ByteArray) (length : Nat) :
    Option (ByteArray × ByteArray × Nat) :=
  if length > 0 then do
    let length := if length > b.readAvailable then b.readAvailable else length
    let xs ← Block.read b.data b.readPos length
    let outBytes ← outBytes.appendBytes fresh xs
    some ({ b with readPos := add64 b.readPos length }, outBytes, length)
  else some (b, outBytes, length)

/-! ## Cutting -/

def truncate (fresh : Nat → UInt8) (b : ByteArray) (resetSize : Nat) : ByteArray :=
  let b := if resetSize ≠ 0 ∧ ¬ b.isAttached then
      { b with data := Block.malloc fresh resetSize, capacity := resetSize }
    else b
  { b with readPos := 0, writePos := 0 }

/-- `truncate()`, the default argument. -/
def clear (b : ByteArray) : ByteArray := { b with readPos := 0, writePos := 0 }

/-- `if (out) memcpy(out, xs, …)`. -/
def copyOut (out : Option (List UInt8)) (xs : List UInt8) : Option (Option (List UInt8)) :=
  match out with
  | none => some none
  | some buf => (Block.write buf 0 xs).map some

/-- Drop the first `length` bytes, `0 < length < _writePos`: the shared tail of both `cutHead`. -/
def dropHead (b : ByteArray) (length : Nat) : Option ByteArray := do
  let writePos := sub64 b.writePos length
  let data ← Block.move b.data 0 length writePos
  some { b with data := data, writePos := writePos
                readPos := if b.readPos > length then sub64 b.readPos length else 0 }

/-- `cutHead(size_t, char*)`. -/
def cutHead (b : ByteArray) (length : Nat) (out : Option (List UInt8)) :
    Option (ByteArray × Option (List UInt8)) :=
  if b.writePos = 0 ∨ length = 0 then some (b, out)
  else if length ≥ b.writePos then do
    let xs ← Block.read b.data 0 b.writePos
    let out ← copyOut out xs
    some (b.clear, out)
  else do
    let xs ← Block.read b.data 0 length
    let out ← copyOut out xs
    let b ← b.dropHead length
    some (b, out)

/-- `cutHead(size_t, ByteArray&)`. -/
def cutHeadArray (fresh : Nat → UInt8) (b : ByteArray) (length : Nat) (out : ByteArray) :
    Option (ByteArray × ByteArray) :=
  if b.writePos = 0 ∨ length = 0 then some (b, out)
  else if length ≥ b.writePos then do
    let xs ← Block.read b.data 0 b.writePos
    let out ← out.writeData fresh (some xs)
    some (b.clear, out)
  else do
    let xs ← Block.read b.data 0 length
    let out ← out.writeData fresh (some xs)
    let b ← b.dropHead length
    some (b, out)

/-- Drop the last bytes, down to the write position `writePos`. -/
def dropTail (b : ByteArray) (writePos : Nat) : ByteArray :=
  { b with writePos := writePos, readPos := if b.readPos > writePos then writePos else b.readPos }

/-- `cutTail(size_t, char*)`. -/
def cutTail (b : ByteArray) (length : Nat) (out : Option (List UInt8)) :
    Option (ByteArray × Option (List UInt8)) :=
  if b.writePos = 0 then some (b, out)
  else if length ≥ b.writePos then do
    let xs ← Block.read b.data 0 b.writePos
    let out ← copyOut out xs
    some (b.clear, out)
  else do
    let writePos := sub64 b.writePos length
    let xs ← Block.read b.data writePos length
    let out ← copyOut out xs
    some (b.dropTail writePos, out)

/-- `cutTail(size_t, ByteArray&)`. -/
def cutTailArray (fresh : Nat → UInt8) (b : ByteArray) (length : Nat) (out : ByteArray) :
    Option (ByteArray × ByteArray) :=
  if b.writePos = 0 then some (b, out)
  else if length ≥ b.writePos then do
    let xs ← Block.read b.data 0 b.writePos
    let out ← out.writeData fresh (some xs)
    some (b.clear, out)
  else do
    let writePos := sub64 b.writePos length
    let xs ← Block.read b.data writePos length
    let out ← out.writeData fresh (some xs)
    some (b.dropTail writePos, out)

end ByteArray

end Libws.Core
