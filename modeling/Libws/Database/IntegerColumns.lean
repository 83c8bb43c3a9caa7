import Libws.Lib.Outcome
import Libws.Database.Binding

/-!
# Integer columns of `ws::database::DBStatement`

`operator>>(T&)` reads as many bytes as the C++ type has, from a buffer that is as wide as the column.

`operatorShrArithmetic_iff` — a value that the type can hold is read exactly where the type is not wider than
the column.
-/

set_option autoImplicit false

namespace Libws.Binding

open Libws.Block Libws.Indeterminate Libws.Integer

variable {platform : Platform}

/-- The columns of integers. -/
def integerColumn : Width → FieldType
  | .w8 => .TINY
  | .w16 => .SHORT
  | .w32 => .LONG
  | .w64 => .LONGLONG

theorem bufferLength_integerColumn {field : Field} {w : Width} (h : field.type = integerColumn w) :
    field.bufferLength platform = w.bytes := by
  cases w <;> simp only [Field.bufferLength, h, integerColumn, Width.bytes]

/-- The column after the client has stored a value of its type. -/
def storedColumn (platform : Platform) (field : Field) (w : Width) (v : Int) (length : Nat) : ResultBind :=
  (ResultBind.new platform field).fetch (.value (toBytes w.bytes v) length)

theorem storedColumn_buffer {field : Field} {w : Width} (h : field.type = integerColumn w)
    (v : Int) (length : Nat) :
    (storedColumn platform field w v length).buffer = (toBytes w.bytes v).map some := by
  simp only [storedColumn, ResultBind.fetch, ResultBind.new, bufferLength_integerColumn h, List.length_replicate]
  rw [List.take_of_length_le (Nat.le_of_eq (toBytes_length _ _)), overwrite, List.length_map, toBytes_length,
    List.drop_of_length_le (by simp), List.append_nil]

/-- The branch for integers. -/
theorem getArithmetic_storedColumn {field : Field} {w : Width} (h : field.type = integerColumn w)
    (v : Int) (length : Nat) (T : Arithmetic) (value : Number) :
    (storedColumn platform field w v length).getArithmetic platform T value =
      (storedColumn platform field w v length).readAs T := by
  have htype : (storedColumn platform field w v length).buffer_type = integerColumn w := h
  have hnull : (storedColumn platform field w v length).is_null = false := rfl
  unfold ResultBind.getArithmetic
  rw [htype, hnull]
  cases w <;> rfl

/-- The bytes of the type, if the buffer has as many. -/
theorem readAs_storedColumn {field : Field} {w : Width} (h : field.type = integerColumn w) {v : Int} (length : Nat)
    {T : IntType} (hT : T.Represents v) :
    (storedColumn platform field w v length).readAs (.integer T) = some (.integer v) ↔ T.size ≤ w.bytes := by
  unfold ResultBind.readAs
  rw [storedColumn_buffer h]
  constructor
  · intro hread
    obtain ⟨xs, hbytes, -⟩ := Option.bind_eq_some_iff.mp hread
    obtain ⟨bytes, hbuffer, -⟩ := Option.bind_eq_some_iff.mp hbytes
    unfold Block.read at hbuffer
    split at hbuffer
    · rename_i hle
      simpa [toBytes_length, Arithmetic.size] using hle
    · cases hbuffer
  · intro hsize
    have hle : 0 + T.size ≤ ((toBytes w.bytes v).map some).length := by
      rw [List.length_map, toBytes_length]
      omega
    rw [Arithmetic.size, Block.read_of_le hle, List.drop_zero, ← List.map_take, Option.bind_some, known_map_some,
      Option.bind_some, Arithmetic.ofBytes, ofBytes_take_toBytes hsize hT, Option.map_some]

/-- **Integer columns.**  Whatever value the column holds and the type can represent, it is read if and only if
the type is not wider than the column; of a wider type, bytes behind the buffer are read. -/
theorem operatorShrArithmetic_iff (platform : Platform) {field : Field} {w : Width}
    (hfield : field.type = integerColumn w)
    (v : (IntType.int (!field.unsigned) w).Value) {T : IntType} (hT : T.Represents v)
    {s : DBStatement} {length : Nat}
    (hcolumn : s.column = some (storedColumn platform field w v length)) (value : Number) :
    (∃ s', s.operatorShrArithmetic platform (.integer T) value = some (s', .integer v)) ↔ T.size ≤ w.bytes := by
  rw [← readAs_storedColumn hfield length hT, ← getArithmetic_storedColumn hfield v length (.integer T) value]
  unfold DBStatement.operatorShrArithmetic DBStatement.readNext
  rw [hcolumn]
  exact exists_map_prod_iff _

/-- A statement in front of a column. -/
def atColumn (b : ResultBind) : DBStatement :=
  { paramIndex := 0, resultIndex := 0, numRows := 0, lastInsertId := 0, stored := [], lastUseTime := 0, sql := ""
    paramBind := [], resultBind := [b] }

/-- A negative number of one byte, into `int8_t`. -/
theorem operatorShrArithmetic_tiny :
    ∃ s', (atColumn (storedColumn .x64 ⟨.TINY, 4, false, 1⟩ .w8 (-5) 1)).operatorShrArithmetic .x64
      (.integer (.int true .w8)) (.integer 0) = some (s', .integer (-5)) :=
  (operatorShrArithmetic_iff .x64 rfl ⟨-5, by decide⟩ (by decide) rfl (.integer 0)).mpr (by decide)

/-- `int64_t` from a column of four bytes. -/
theorem reads_behind_buffer :
    ¬ ∀ (platform : Platform) (field : Field) (w : Width), field.type = integerColumn w →
      ∀ (v : (IntType.int (!field.unsigned) w).Value) (T : IntType), T.Represents v → ∀ (s : DBStatement) (length : Nat),
        s.column = some (storedColumn platform field w v length) →
          ∀ value, ∃ s', s.operatorShrArithmetic platform (.integer T) value = some (s', .integer v) := by
  intro hall
  obtain ⟨s', hread⟩ := hall .x64 ⟨.LONG, 11, false, 4⟩ .w32 rfl ⟨7, by decide⟩ (.int true .w64) (by decide)
    (atColumn (storedColumn .x64 ⟨.LONG, 11, false, 4⟩ .w32 7 4)) 4 rfl (.integer 0)
  cases hread

end Libws.Binding
