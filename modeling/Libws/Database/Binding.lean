import Libws.Lib.Indeterminate
import Libws.Lib.Integer
import Libws.Lib.Machine
import Libws.Database.Statement

/-!
# `ws::database::DBStatement`: buffers, parameters and results

Model of the whole of `DBStatement` of `include/ws/database/Database.h` and `wsDatabase/src/Database.cpp`, down
to the bytes of the buffers.

* `malloc` leaves a buffer indeterminate; a read outside of a buffer, or of an indeterminate value, has no
  defined outcome.
* What the server and the client library answer comes with the calls: which of them fail, the rows that are
  stored, and what a fetch puts into a column.  The library keeps the stored rows until the statement is
  executed again.
* A parameter points to a copy, or into memory of the caller; what the client is given is the result of a
  call of `execute`.  The overloads for enumerations are those of their underlying type.

`HoldsTimes` joins this model to the one of the times, which has the `MYSQL_TIME` in place of the bytes.
-/

set_option autoImplicit false

namespace Libws.Binding

open Libws.Block Libws.Indeterminate Libws.Integer Libws.Word
open Libws.Calendar (Civil)
open Libws.Database (MYSQL_TIME TimePoint Duration)
open Libws.Database.DBStatement (datetimeOf timeOf timeOfDay timePointOf)

/-- `enum_field_types`. -/
inductive FieldType where
  | DECIMAL | TINY | SHORT | LONG | FLOAT | DOUBLE | NULL | TIMESTAMP | LONGLONG | INT24 | DATE | TIME | DATETIME | YEAR
  | VARCHAR | BIT | JSON | NEWDECIMAL | ENUM | SET | TINY_BLOB | MEDIUM_BLOB | LONG_BLOB | BLOB | VAR_STRING | STRING
  | GEOMETRY
  deriving DecidableEq, Repr

/-- The macro `IS_NUM`. -/
def FieldType.isNum (type : FieldType) : Bool :=
  type ∈ [.DECIMAL, .TINY, .SHORT, .LONG, .FLOAT, .DOUBLE, .NULL, .LONGLONG, .INT24, .YEAR, .NEWDECIMAL]

/-- What a fetch does to a column. -/
inductive Cell where
  | null
  | value (bytes : List UInt8) (length : Nat)
  deriving DecidableEq, Repr

/-- A stored row; the columns behind its end are not bound and left as they are. -/
abbrev Row := List Cell

/-- `MYSQL_FIELD`, with what `mysql_stmt_bind_result` leaves in `*length`. -/
structure Field where
  type : FieldType
  length : Nat
  unsigned : Bool
  bound : Nat
  deriving DecidableEq, Repr

/-- What `mysql_stmt_prepare` finds in a text; `mysql_num_fields` is an `unsigned int`. -/
structure Prepared where
  numParams : Nat
  fields : List Field
  fields_lt : fields.length < 2 ^ 32

/-- The answers to one `execute`. -/
structure Executed where
  bindParam : Bool
  execute : Bool
  storeResult : Bool
  rows : List Row
  affectedRows : Nat
  insertId : Nat
  deriving DecidableEq, Repr

/-- `std::is_arithmetic`. -/
inductive Arithmetic where
  | integer (T : IntType)
  | float
  | double
  deriving DecidableEq, Repr

/-- A value of an arithmetic type; a floating-point number is its representation. -/
inductive Number where
  | integer (v : Int)
  | real (bytes : List UInt8)
  deriving DecidableEq, Repr

def Arithmetic.size : Arithmetic → Nat
  | .integer T => T.size
  | .float => 4
  | .double => 8

/-- `value = 0`. -/
def Arithmetic.zero : Arithmetic → Number
  | .integer _ => .integer 0
  | .float => .real (List.replicate 4 0)
  | .double => .real (List.replicate 8 0)

def Arithmetic.ofBytes : Arithmetic → List UInt8 → Option Number
  | .integer T, bytes => (T.ofBytes bytes).map .integer
  | .float, bytes | .double, bytes => some (.real bytes)

/-- The headers of the client, and the C library. -/
structure Platform where
  sizeofTime : Nat
  sizeofTime_pos : 0 < sizeofTime
  encodeTime : MYSQL_TIME → List UInt8
  decodeTime : List UInt8 → MYSQL_TIME
  decodeTime_zero : decodeTime (List.replicate sizeofTime 0) = .zero
  /-- `static_cast<T>(std::strtod(text, nullptr))`, where it is defined. -/
  fromDecimal : Arithmetic → List UInt8 → Option Number

/-- An unsigned number of that many bytes in a structure. -/
def member (bytes : List UInt8) (offset size : Nat) : Nat := leNat ((bytes.drop offset).take size)

/-- `MYSQL_TIME` on 64-bit Linux; the texts of numbers are left out. -/
def Platform.x64 : Platform where
  sizeofTime := 40
  sizeofTime_pos := by decide
  encodeTime t :=
    leBytes 4 t.year ++ leBytes 4 t.month ++ leBytes 4 t.day ++ leBytes 4 t.hour ++ leBytes 4 t.minute ++
      leBytes 4 t.second ++ leBytes 8 t.second_part ++ leBytes 4 t.neg.toNat ++
      leBytes 4 (match t.time_type with | .DATE => 0 | .DATETIME => 1 | .TIME => 2)
  decodeTime bytes :=
    { year := member bytes 0 4
      month := member bytes 4 4
      day := member bytes 8 4
      hour := member bytes 12 4
      minute := member bytes 16 4
      second := member bytes 20 4
      second_part := member bytes 24 8
      neg := member bytes 32 1 ≠ 0
      time_type := match member bytes 36 4 with | 0 => .DATE | 1 => .DATETIME | _ => .TIME }
  decodeTime_zero := by decide
  fromDecimal _ _ := none

/-! ## Parameters -/

/-- Where a parameter points: nowhere, into `paramsBuffer`, or to a value of the caller. -/
inductive Pointer where
  | null
  | copy (bytes : List UInt8)
  | caller (address : Nat)
  deriving DecidableEq, Repr

/-- `MYSQL_BIND` of a parameter; its `length` points to `buffer_length`. -/
structure ParamBind where
  buffer_type : FieldType
  buffer : Pointer
  buffer_length : Nat
  is_unsigned : Bool
  deriving DecidableEq, Repr

/-- A binding of zeros. -/
def ParamBind.zero : ParamBind := ⟨.DECIMAL, .null, 0, false⟩

/-- `MYSQL_BIND` of a result; `buffer_length` is the length of the buffer. -/
structure ResultBind where
  buffer_type : FieldType
  is_unsigned : Bool
  buffer : List Byte
  is_null : Bool
  length : Nat
  deriving DecidableEq, Repr

structure DBStatement where
  paramIndex : Nat
  resultIndex : Nat
  numRows : Nat
  lastInsertId : Nat
  /-- The rows that the client holds and that were not fetched. -/
  stored : List Row
  lastUseTime : Int
  sql : String
  paramBind : List ParamBind
  resultBind : List ResultBind
  deriving DecidableEq, Repr

variable (platform : Platform)

/-- The buffer that the constructor allocates for a column. -/
def Field.bufferLength (field : Field) : Nat :=
  match field.type with
  | .TINY => 1
  | .SHORT => 2
  | .LONG => 4
  | .LONGLONG => 8
  | .FLOAT => 4
  | .DOUBLE => 8
  | .TIME | .DATE | .DATETIME | .TIMESTAMP => platform.sizeofTime
  | _ => field.length

def ResultBind.new (field : Field) : ResultBind :=
  ⟨field.type, field.unsigned, List.replicate (field.bufferLength platform) none, false, field.bound⟩

namespace DBStatement

/-- The constructor. -/
def new (prepared : Prepared) (sql : String) : DBStatement :=
  { paramIndex := 0, resultIndex := 0, numRows := 0, lastInsertId := 0, stored := [], lastUseTime := 0, sql := sql
    paramBind := List.replicate prepared.numParams .zero
    resultBind := prepared.fields.map (.new platform) }

def numParams (s : DBStatement) : Nat := s.paramBind.length % 2 ^ 32

def numResultFields (s : DBStatement) : Nat := s.resultBind.length % 2 ^ 32

/-- The frame of `operator<<`: set up the next parameter, if there is one. -/
def bindNext (s : DBStatement) (setUp : ParamBind → ParamBind) : DBStatement :=
  if s.paramIndex < s.numParams then
    { s with paramBind := s.paramBind.modify s.paramIndex setUp, paramIndex := s.paramIndex + 1 }
  else s

/-- The type of an integer parameter, by its size. -/
def integerType : IntType → FieldType
  | .bool | .int _ .w8 => .TINY
  | .int _ .w16 => .SHORT
  | .int _ .w32 => .LONG
  | .int _ .w64 => .LONGLONG

/-- `std::is_unsigned`. -/
def isUnsigned : IntType → Bool
  | .bool => true
  | .int signed _ => !signed

/-- The overloads for numbers set every field. -/
def setNumber (type : FieldType) (buffer : Pointer) (size : Nat) (unsigned : Bool) (_ : ParamBind) : ParamBind :=
  ⟨type, buffer, size, unsigned⟩

/-- The overloads that leave `is_unsigned` as it is. -/
def setBuffer (type : FieldType) (buffer : Pointer) (size : Nat) (b : ParamBind) : ParamBind :=
  { b with buffer_type := type, buffer := buffer, buffer_length := size }

/-- `operator<<(const T&)` for integers. -/
def operatorShlInteger (s : DBStatement) (T : IntType) (value : Nat) : DBStatement :=
  s.bindNext (setNumber (integerType T) (.caller value) T.size (isUnsigned T))

/-- `operator<<(T&&)` for integers. -/
def operatorShlIntegerRvalue (s : DBStatement) {T : IntType} (value : T.Value) : DBStatement :=
  s.bindNext (setNumber (integerType T) (.copy (toBytes T.size value)) T.size (isUnsigned T))

/-- `operator<<(const float&)`. -/
def operatorShlFloat (s : DBStatement) (value : Nat) : DBStatement :=
  s.bindNext (setNumber .FLOAT (.caller value) 4 false)

/-- `operator<<(float&&)`. -/
def operatorShlFloatRvalue (s : DBStatement) (value : List UInt8) : DBStatement :=
  s.bindNext (setNumber .FLOAT (.copy value) 4 false)

/-- `operator<<(const double&)`. -/
def operatorShlDouble (s : DBStatement) (value : Nat) : DBStatement :=
  s.bindNext (setNumber .DOUBLE (.caller value) 8 false)

/-- `operator<<(double&&)`. -/
def operatorShlDoubleRvalue (s : DBStatement) (value : List UInt8) : DBStatement :=
  s.bindNext (setNumber .DOUBLE (.copy value) 8 false)

/-- `operator<<(const std::string&)`, of a string of that size whose characters are at the address. -/
def operatorShlString (s : DBStatement) (data size : Nat) : DBStatement :=
  s.bindNext (setBuffer .STRING (.caller data) size)

/-- `bindString`; the value is none for a null pointer. -/
def bindString (s : DBStatement) (value : Option (List UInt8)) : DBStatement :=
  s.bindNext fun b =>
    match value with
    | some (c :: cs) => setBuffer .STRING (.copy (c :: cs)) (c :: cs).length b
    -- the buffer of an earlier binding stays
    | some [] | none => { b with buffer_type := .STRING, buffer_length := 0 }

/-- `operator<<(year_month_day&&)`. -/
def operatorShlDate (s : DBStatement) (ymd : Civil) : DBStatement :=
  let mytime : MYSQL_TIME :=
    { MYSQL_TIME.zero with
      time_type := .DATE
      year := (ymd.year % 2 ^ 32).toNat
      month := (ymd.month % 2 ^ 32).toNat
      day := (ymd.day % 2 ^ 32).toNat }
  s.bindNext (setBuffer .DATE (.copy (platform.encodeTime mytime)) platform.sizeofTime)

/-- `operator<<(const time_point<C, D>&)`. -/
def operatorShlTimePoint (s : DBStatement) (value : TimePoint) : DBStatement :=
  s.bindNext (setBuffer .DATETIME (.copy (platform.encodeTime (datetimeOf value))) platform.sizeofTime)

/-- `operator<<(Duration&&)`. -/
def operatorShlDuration (s : DBStatement) (value : Duration) : DBStatement :=
  s.bindNext (setBuffer .TIME (.copy (platform.encodeTime (timeOf value))) platform.sizeofTime)

/-- `operator<<(const ByteArray&)`, of that size and with its data at the address. -/
def operatorShlByteArray (s : DBStatement) (data size : Nat) : DBStatement :=
  s.bindNext fun b => if size ≠ 0 then setBuffer .BLOB (.caller data) size b else { b with buffer_type := .NULL }

/-- `bindBlob`; the data is none for a null pointer. -/
def bindBlob (s : DBStatement) (data : Option (List UInt8)) : DBStatement :=
  s.bindNext fun b =>
    match data with
    | some bytes => setBuffer .BLOB (.copy bytes) bytes.length b
    | none => { b with buffer_type := .NULL }

/-- `operator<<(std::nullptr_t)`. -/
def operatorShlNull (s : DBStatement) : DBStatement := s.bindNext fun b => { b with buffer_type := .NULL }

end DBStatement

/-! ## Execution -/

/-- What a fetch does to a column. -/
def ResultBind.fetch (b : ResultBind) : Cell → ResultBind
  | .null => { b with is_null := true }
  | .value bytes length =>
    { b with
      is_null := false
      length := length
      buffer := overwrite b.buffer ((bytes.take b.buffer.length).map some) }

def fetchRow : List ResultBind → Row → List ResultBind
  | b :: bs, cell :: cells => b.fetch cell :: fetchRow bs cells
  | bs, _ => bs

/-- `memset(bind.buffer, 0, bind.buffer_length)`. -/
def ResultBind.clear (b : ResultBind) : ResultBind := { b with buffer := List.replicate b.buffer.length (some 0) }

namespace DBStatement

def execute (s : DBStatement) (answer : Executed) : DBStatement × Bool :=
  let s := { s with numRows := 0, lastInsertId := 0 }
  if s.paramBind ≠ [] ∧ ¬ answer.bindParam then (s, false)
  else if ¬ answer.execute then ({ s with stored := [] }, false)
  else if s.resultBind ≠ [] ∧ ¬ answer.storeResult then ({ s with stored := [] }, false)
  else
    ({ s with
        stored := if s.resultBind = [] then [] else answer.rows
        numRows := answer.affectedRows
        lastInsertId := answer.insertId }, true)

/-- A truncated row counts as one; an error, as the end of the rows. -/
def nextRow (s : DBStatement) : DBStatement × Bool :=
  let s := { s with resultIndex := 0 }
  match s.stored with
  | [] => (s, false)
  | row :: rows => ({ s with stored := rows, resultBind := fetchRow s.resultBind row }, true)

def clear (s : DBStatement) : DBStatement :=
  { s with
    paramBind := List.replicate s.paramBind.length .zero
    resultBind := s.resultBind.map .clear
    paramIndex := 0
    resultIndex := 0 }

def skipFields (s : DBStatement) (num : Int) : DBStatement :=
  { s with resultIndex := ((s.resultIndex + num) % 2 ^ 32).toNat }

/-! ## Results -/

/-- The column that the next `operator>>` reads. -/
def column (s : DBStatement) : Option ResultBind :=
  if s.resultIndex < s.numResultFields then s.resultBind[s.resultIndex]? else none

/-- The frame of `operator>>`: read the next column, if there is one; none is a read without a defined outcome. -/
def readNext {α : Type} (s : DBStatement) (value : α) (read : ResultBind → Option α) : Option (DBStatement × α) :=
  match s.column with
  | none => some (s, value)
  | some b => (read b).map fun value => ({ s with resultIndex := s.resultIndex + 1 }, value)

end DBStatement

namespace ResultBind

/-- `*(T*)b.buffer`. -/
def readAs (b : ResultBind) (T : Arithmetic) : Option Number :=
  ((Block.read b.buffer 0 T.size).bind known).bind T.ofBytes

/-- `*(MYSQL_TIME*)b.buffer`. -/
def readTime (b : ResultBind) : Option MYSQL_TIME :=
  ((Block.read b.buffer 0 platform.sizeofTime).bind known).map platform.decodeTime

/-- The first `*b.length` bytes of the buffer. -/
def readData (b : ResultBind) : Option (List Byte) := Block.read b.buffer 0 b.length

def getArithmetic (b : ResultBind) (T : Arithmetic) (value : Number) : Option Number :=
  if b.buffer_type.isNum then
    if b.is_null then some T.zero
    else if b.buffer_type = .DECIMAL ∨ b.buffer_type = .NEWDECIMAL then
      (cString b.buffer).bind (platform.fromDecimal T)
    else b.readAs T
  else some value

def getData (b : ResultBind) : Option (List Byte) := if b.is_null then some [] else b.readData

def getTimePoint (b : ResultBind) (value : TimePoint) : Option TimePoint :=
  if ¬ b.is_null ∧ (b.buffer_type = .DATE ∨ b.buffer_type = .DATETIME ∨ b.buffer_type = .TIMESTAMP) then
    (b.readTime platform).map (timePointOf value.precision)
  else some value

def getMicroseconds (b : ResultBind) (value : Int) : Option Int :=
  if b.is_null then some 0
  else if b.buffer_type = .TIME then (b.readTime platform).map timeOfDay
  else some value

def getBlob (b : ResultBind) : Option (Nat × Option (List Byte)) :=
  if ¬ b.is_null ∧ b.length > 0 then b.readData.map fun data => (b.length, some data) else some (b.length, none)

end ResultBind

namespace DBStatement

/-- `operator>>(T&)` for arithmetic types. -/
def operatorShrArithmetic (s : DBStatement) (T : Arithmetic) (value : Number) : Option (DBStatement × Number) :=
  s.readNext value (·.getArithmetic platform T value)

/-- `operator>>(std::string&)`. -/
def operatorShrString (s : DBStatement) (value : List Byte) : Option (DBStatement × List Byte) :=
  s.readNext value (·.getData)

/-- `operator>>(time_point<C, D>&)`. -/
def operatorShrTimePoint (s : DBStatement) (value : TimePoint) : Option (DBStatement × TimePoint) :=
  s.readNext value (·.getTimePoint platform value)

/-- `operator>>(microseconds&)`. -/
def operatorShrMicroseconds (s : DBStatement) (value : Int) : Option (DBStatement × Int) :=
  s.readNext value (·.getMicroseconds platform value)

/-- `operator>>(ByteArray&)`, with the bytes that are written to the array. -/
def operatorShrByteArray (s : DBStatement) : Option (DBStatement × List Byte) := s.readNext [] (·.getData)

/-- `getBlob`, with the length that is returned in `datasize` and the data. -/
def getBlob (s : DBStatement) (datasize : Nat) : Option (DBStatement × (Nat × Option (List Byte))) :=
  s.readNext (datasize, none) (·.getBlob)

/-- The branch of `Database::prepare` for a cached statement. -/
def hit (s : DBStatement) (now : Int) : DBStatement := { s with lastUseTime := now }.clear

end DBStatement

/-! ## Calls -/

/-- The overloads of `operator<<` and the two functions next to them. -/
inductive Param where
  | integer (T : IntType) (value : Nat)
  | integerRvalue {T : IntType} (value : T.Value)
  | float (value : Nat)
  | floatRvalue (value : List UInt8)
  | double (value : Nat)
  | doubleRvalue (value : List UInt8)
  | string (data size : Nat)
  | bindString (value : Option (List UInt8))
  | date (ymd : Civil)
  | timePoint (value : TimePoint)
  | duration (value : Duration)
  | byteArray (data size : Nat)
  | bindBlob (data : Option (List UInt8))
  | null

def DBStatement.bind (s : DBStatement) : Param → DBStatement
  | .integer T value => s.operatorShlInteger T value
  | .integerRvalue value => s.operatorShlIntegerRvalue value
  | .float value => s.operatorShlFloat value
  | .floatRvalue value => s.operatorShlFloatRvalue value
  | .double value => s.operatorShlDouble value
  | .doubleRvalue value => s.operatorShlDoubleRvalue value
  | .string data size => s.operatorShlString data size
  | .bindString value => s.bindString value
  | .date ymd => s.operatorShlDate platform ymd
  | .timePoint value => s.operatorShlTimePoint platform value
  | .duration value => s.operatorShlDuration platform value
  | .byteArray data size => s.operatorShlByteArray data size
  | .bindBlob data => s.bindBlob data
  | .null => s.operatorShlNull

/-- The public functions of a statement. -/
inductive Call where
  | bind (param : Param)
  | execute (answer : Executed)
  | nextRow
  | clear
  | skipFields (num : Int)
  | arithmetic (T : Arithmetic) (value : Number)
  | string (value : List Byte)
  | timePoint (value : TimePoint)
  | microseconds (value : Int)
  | byteArray
  | getBlob (datasize : Nat)
  | numRows
  | lastInsertId
  | numParams
  | numResultFields
  | sql

/-- What a call returns, or stores in its argument. -/
inductive Result where
  | done
  | executed (sent : List ParamBind) (ok : Bool)
  | flag (ok : Bool)
  | number (value : Number)
  | data (bytes : List Byte)
  | timePoint (value : TimePoint)
  | microseconds (value : Int)
  | blob (datasize : Nat) (data : Option (List Byte))
  | count (n : Nat)
  | text (sql : String)
  deriving DecidableEq

def step (s : DBStatement) : Call → Option (DBStatement × Result)
  | .bind param => some (s.bind platform param, .done)
  | .execute answer => some ((s.execute answer).1, .executed s.paramBind (s.execute answer).2)
  | .nextRow => some (s.nextRow.1, .flag s.nextRow.2)
  | .clear => some (s.clear, .done)
  | .skipFields num => some (s.skipFields num, .done)
  | .arithmetic T value => (s.operatorShrArithmetic platform T value).map fun (s, value) => (s, .number value)
  | .string value => (s.operatorShrString value).map fun (s, value) => (s, .data value)
  | .timePoint value => (s.operatorShrTimePoint platform value).map fun (s, value) => (s, .timePoint value)
  | .microseconds value => (s.operatorShrMicroseconds platform value).map fun (s, value) => (s, .microseconds value)
  | .byteArray => s.operatorShrByteArray.map fun (s, bytes) => (s, .data bytes)
  | .getBlob datasize => (s.getBlob datasize).map fun (s, blob) => (s, .blob blob.1 blob.2)
  | .numRows => some (s, .count s.numRows)
  | .lastInsertId => some (s, .count s.lastInsertId)
  | .numParams => some (s, .count s.numParams)
  | .numResultFields => some (s, .count s.numResultFields)
  | .sql => some (s, .text s.sql)

/-! ## Times

`Libws.Database.DBStatement` is this statement with the times that stand in its buffers. -/

/-- The name of a type there. -/
def ofTime : Database.FieldType → FieldType
  | .DECIMAL => .DECIMAL
  | .TINY => .TINY
  | .SHORT => .SHORT
  | .LONG => .LONG
  | .LONGLONG => .LONGLONG
  | .FLOAT => .FLOAT
  | .DOUBLE => .DOUBLE
  | .STRING => .STRING
  | .BLOB => .BLOB
  | .NULL => .NULL
  | .DATE => .DATE
  | .TIME => .TIME
  | .DATETIME => .DATETIME
  | .TIMESTAMP => .TIMESTAMP

structure TimeParam (b : ParamBind) (p : Database.ParamBind) : Prop where
  type : b.buffer_type = ofTime p.buffer_type
  time : ∀ mytime, p.buffer = some mytime → b.buffer = .copy (platform.encodeTime mytime)

structure TimeColumn (b : ResultBind) (c : Database.ResultBind) : Prop where
  type : b.buffer_type = ofTime c.buffer_type
  null : b.is_null = c.is_null
  time : b.readTime platform = some c.buffer

/-- The buffers of the statement hold the times of the other one. -/
structure HoldsTimes (s : DBStatement) (t : Database.DBStatement) : Prop where
  paramIndex : s.paramIndex = t.paramIndex
  resultIndex : s.resultIndex = t.resultIndex
  params : List.Forall₂ (TimeParam platform) s.paramBind t.paramBind
  results : List.Forall₂ (TimeColumn platform) s.resultBind t.resultBind
  few : s.paramBind.length < 2 ^ 32 ∧ s.resultBind.length < 2 ^ 32

section Times

variable {platform} {s : DBStatement} {t : Database.DBStatement}

theorem forall₂_modify_set {α β : Type} {R : α → β → Prop} {f : α → α} {b : β} (hf : ∀ a, R (f a) b) {l : List α}
    {l' : List β} (h : List.Forall₂ R l l') (i : Nat) : List.Forall₂ R (l.modify i f) (l'.set i b) := by
  induction h generalizing i with
  | nil => simp
  | cons hab hrest ih =>
    cases i with
    | zero => simpa using ⟨hf _, hrest⟩
    | succ i => simpa using ⟨hab, ih i⟩

/-- A time is bound in both. -/
theorem HoldsTimes.bindTime (h : HoldsTimes platform s t) (type : Database.FieldType) (mytime : MYSQL_TIME) :
    HoldsTimes platform
      (s.bindNext (DBStatement.setBuffer (ofTime type) (.copy (platform.encodeTime mytime)) platform.sizeofTime))
      (t.bindTime type mytime) := by
  have hnum : s.paramIndex < s.numParams ↔ t.paramIndex < t.numParams := by
    rw [DBStatement.numParams, Nat.mod_eq_of_lt h.few.1, h.params.length_eq, h.paramIndex,
      Database.DBStatement.numParams]
  unfold DBStatement.bindNext Database.DBStatement.bindTime
  by_cases hlt : s.paramIndex < s.numParams
  · rw [if_pos hlt, if_pos (hnum.mp hlt)]
    refine ⟨congrArg (· + 1) h.paramIndex, h.resultIndex, ?_, h.results, ?_, h.few.2⟩
    · rw [h.paramIndex]
      exact forall₂_modify_set (fun b => ⟨rfl, fun _ hmytime => by rw [← Option.some.inj hmytime]; rfl⟩) h.params _
    · simp only [List.length_modify]
      exact h.few.1
  · rw [if_neg hlt, if_neg (mt hnum.mpr hlt)]
    exact h

theorem HoldsTimes.operatorShlTimePoint (h : HoldsTimes platform s t) (value : TimePoint) :
    HoldsTimes platform (s.operatorShlTimePoint platform value) (t.operatorShlTimePoint value) :=
  h.bindTime .DATETIME (datetimeOf value)

theorem HoldsTimes.operatorShlDuration (h : HoldsTimes platform s t) (value : Duration) :
    HoldsTimes platform (s.operatorShlDuration platform value) (t.operatorShlDuration value) :=
  h.bindTime .TIME (timeOf value)

/-- The next column is read in both, or there is none. -/
theorem HoldsTimes.column (h : HoldsTimes platform s t) :
    (s.column = none ∧ t.resultBind[t.resultIndex]? = none) ∨
      ∃ b c, s.column = some b ∧ t.resultBind[t.resultIndex]? = some c ∧ TimeColumn platform b c := by
  have hlength := h.results.length_eq
  unfold DBStatement.column
  rw [DBStatement.numResultFields, Nat.mod_eq_of_lt h.few.2, h.resultIndex]
  by_cases hlt : t.resultIndex < s.resultBind.length
  · have hlt' : t.resultIndex < t.resultBind.length := hlength ▸ hlt
    refine Or.inr ⟨s.resultBind[t.resultIndex], t.resultBind[t.resultIndex], ?_, List.getElem?_eq_getElem hlt',
      h.results.get hlt hlt'⟩
    rw [if_pos hlt, List.getElem?_eq_getElem hlt]
  · exact Or.inl ⟨if_neg hlt, List.getElem?_eq_none (by omega)⟩

theorem TimeColumn.isTime {b : ResultBind} {c : Database.ResultBind} (h : TimeColumn platform b c) :
    (b.buffer_type = .TIME ↔ c.buffer_type = .TIME) ∧
      (b.buffer_type = .DATE ∨ b.buffer_type = .DATETIME ∨ b.buffer_type = .TIMESTAMP ↔
        c.buffer_type = .DATE ∨ c.buffer_type = .DATETIME ∨ c.buffer_type = .TIMESTAMP) := by
  rw [h.type]
  cases c.buffer_type <;> simp [ofTime]

theorem TimeColumn.getTimePoint {b : ResultBind} {c : Database.ResultBind} (h : TimeColumn platform b c)
    (value : TimePoint) : b.getTimePoint platform value =
      some (if ¬ c.is_null ∧ (c.buffer_type = .DATE ∨ c.buffer_type = .DATETIME ∨ c.buffer_type = .TIMESTAMP) then
        timePointOf value.precision c.buffer else value) := by
  unfold ResultBind.getTimePoint
  simp only [h.null, h.isTime.2, h.time, Option.map_some]
  split <;> rfl

theorem TimeColumn.getMicroseconds {b : ResultBind} {c : Database.ResultBind} (h : TimeColumn platform b c)
    (value : Int) : b.getMicroseconds platform value =
      some (if c.is_null then 0 else if c.buffer_type = .TIME then timeOfDay c.buffer else value) := by
  unfold ResultBind.getMicroseconds
  simp only [h.null, h.isTime.1, h.time, Option.map_some]
  split
  · rfl
  · split <;> rfl

/-- What is read from both is the same. -/
theorem HoldsTimes.operatorShrTimePoint (h : HoldsTimes platform s t) (value : TimePoint) :
    ∃ s', s.operatorShrTimePoint platform value = some (s', (t.operatorShrTimePoint value).2) ∧
      HoldsTimes platform s' (t.operatorShrTimePoint value).1 := by
  unfold DBStatement.operatorShrTimePoint DBStatement.readNext Database.DBStatement.operatorShrTimePoint
  rcases h.column with ⟨hnone, hnone'⟩ | ⟨b, c, hb, hc, hcolumn⟩
  · rw [hnone, hnone']
    exact ⟨s, rfl, h⟩
  · rw [hb, hc]
    simp only [hcolumn.getTimePoint, Option.map_some]
    exact ⟨_, rfl, h.paramIndex, congrArg (· + 1) h.resultIndex, h.params, h.results, h.few⟩

theorem HoldsTimes.operatorShrMicroseconds (h : HoldsTimes platform s t) (value : Int) :
    ∃ s', s.operatorShrMicroseconds platform value = some (s', (t.operatorShrMicroseconds value).2) ∧
      HoldsTimes platform s' (t.operatorShrMicroseconds value).1 := by
  unfold DBStatement.operatorShrMicroseconds DBStatement.readNext Database.DBStatement.operatorShrMicroseconds
  rcases h.column with ⟨hnone, hnone'⟩ | ⟨b, c, hb, hc, hcolumn⟩
  · rw [hnone, hnone']
    exact ⟨s, rfl, h⟩
  · rw [hb, hc]
    simp only [hcolumn.getMicroseconds, Option.map_some]
    exact ⟨_, rfl, h.paramIndex, congrArg (· + 1) h.resultIndex, h.params, h.results, h.few⟩

end Times

end Libws.Binding
