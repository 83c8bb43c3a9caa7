import Libws.Database.Binding

/-!
# A cached statement of `ws::database::Database`, used again

What `clear` leaves of an earlier use, and which calls can tell.

* `Built` — what no call changes: the text, and the numbers, types and buffers of the columns.
* `Sees` — the reused statement shows whatever the new one shows; an indeterminate byte of the new one may be
  any byte.  `step_sees` is the simulation of one call.
* `reused_behavesAsNew_iff` — the exact states from which a hit returns a statement that behaves as a new one.
-/

set_option autoImplicit false

namespace Libws.Binding

open Libws.Block Libws.Machine
open Libws.Indeterminate (Byte known cString)
open Libws.Database.DBStatement (timeOfDay timePointOf)

/-- The results are the same, up to bytes that are indeterminate in the second one. -/
inductive Result.Refines : Result → Result → Prop
  | refl (r : Result) : Refines r r
  | data {bytes fresh : List Byte} (h : Indeterminate.Refines bytes fresh) : Refines (.data bytes) (.data fresh)
  | blob {n : Nat} {bytes fresh : List Byte} (h : Indeterminate.Refines bytes fresh) :
      Refines (.blob n (some bytes)) (.blob n (some fresh))

theorem Result.Refines.blob_iff {n m : Nat} {bytes fresh : Option (List Byte)}
    (h : Result.Refines (.blob n bytes) (.blob m fresh)) : n = m ∧ bytes.isSome = fresh.isSome := by
  cases h <;> exact ⟨rfl, rfl⟩

theorem Result.Refines.eq_count {r : Result} {n : Nat} (h : Result.Refines r (.count n)) : r = .count n := by
  cases h
  rfl

/-- The column is as the constructor left it.  A NULL flag that was left in a column for a time is not seen where no
call reads the data of the buffer. -/
def AsNew (b fresh : ResultBind) : Prop :=
  b.length = fresh.length ∧
    (b.is_null = true → b.buffer_type = .TIME ∧ ¬ (0 < fresh.length ∧ fresh.length ≤ fresh.buffer.length))

/-- An earlier use has left nothing that `clear` does not reset. -/
structure Clean (s fresh : DBStatement) : Prop where
  numRows : s.numRows = 0
  lastInsertId : s.lastInsertId = 0
  stored : s.stored = []
  columns : List.Forall₂ AsNew s.resultBind fresh.resultBind

/-- The reused statement shows what the new one shows, in every sequence of calls. -/
abbrev BehavesAsNew (platform : Platform) (fresh reused : DBStatement) : Prop :=
  Follows (step platform) (step platform) Result.Refines fresh reused

variable {platform : Platform}

/-! ## What no call changes -/

/-- The same binding, up to what a fetch writes. -/
def SameColumn (b fresh : ResultBind) : Prop :=
  b.buffer_type = fresh.buffer_type ∧ b.is_unsigned = fresh.is_unsigned ∧ b.buffer.length = fresh.buffer.length

structure Built (platform : Platform) (prepared : Prepared) (sql : String) (s : DBStatement) : Prop where
  params : s.paramBind.length = prepared.numParams
  sql : s.sql = sql
  columns : List.Forall₂ SameColumn s.resultBind (prepared.fields.map (.new platform))

theorem overwrite_length {b xs : List Byte} (h : xs.length ≤ b.length) : (overwrite b xs).length = b.length := by
  simp only [overwrite, List.length_append, List.length_drop]
  omega

theorem fetch_buffer_length (b : ResultBind) (cell : Cell) : (b.fetch cell).buffer.length = b.buffer.length := by
  cases cell with
  | null => rfl
  | value bytes length =>
    refine overwrite_length ?_
    rw [List.length_map, List.length_take]
    exact Nat.min_le_left ..

theorem sameColumn_fetch {b fresh : ResultBind} (h : SameColumn b fresh) (cell : Cell) :
    SameColumn (b.fetch cell) fresh := by
  obtain ⟨htype, hunsigned, hlength⟩ := h
  refine ⟨?_, ?_, (fetch_buffer_length b cell).trans hlength⟩
  · cases cell <;> exact htype
  · cases cell <;> exact hunsigned

theorem sameColumn_clear {b fresh : ResultBind} (h : SameColumn b fresh) : SameColumn b.clear fresh :=
  ⟨h.1, h.2.1, (List.length_replicate ..).trans h.2.2⟩

theorem sameColumns_fetchRow {bs fresh : List ResultBind} (h : List.Forall₂ SameColumn bs fresh) :
    ∀ row : Row, List.Forall₂ SameColumn (fetchRow bs row) fresh := by
  induction h with
  | nil => intro row; cases row <;> exact .nil
  | cons hb hrest ih =>
    intro row
    cases row with
    | nil => exact .cons hb hrest
    | cons cell cells => exact .cons (sameColumn_fetch hb cell) (ih cells)

namespace DBStatement

/-- An overload of `operator<<` sets up the next parameter. -/
theorem bind_eq (platform : Platform) (param : Param) :
    ∃ setUp, ∀ s : DBStatement, s.bind platform param = s.bindNext setUp := by
  cases param <;> exact ⟨_, fun _ => rfl⟩

theorem bindNext_eq (s : DBStatement) (setUp : ParamBind → ParamBind) :
    ∃ paramBind paramIndex, paramBind.length = s.paramBind.length ∧
      s.bindNext setUp = { s with paramBind := paramBind, paramIndex := paramIndex } := by
  unfold bindNext
  split
  · exact ⟨_, _, List.length_modify .., rfl⟩
  · exact ⟨_, _, rfl, rfl⟩

/-- A read moves on by one column, at most. -/
theorem readNext_state {α : Type} {s s' : DBStatement} {value v : α} {read : ResultBind → Option α}
    (h : s.readNext value read = some (s', v)) : ∃ resultIndex, s' = { s with resultIndex := resultIndex } := by
  unfold readNext at h
  split at h
  · cases h
    exact ⟨_, rfl⟩
  · obtain ⟨_, -, heq⟩ := Option.map_eq_some_iff.mp h
    cases heq
    exact ⟨_, rfl⟩

/-- What `execute` writes. -/
theorem execute_state (s : DBStatement) (answer : Executed) :
    ∃ numRows lastInsertId stored, (s.execute answer).1 =
      { s with numRows := numRows, lastInsertId := lastInsertId, stored := stored } := by
  simp only [execute]
  split_ifs <;> exact ⟨_, _, _, rfl⟩

/-- What `nextRow` writes. -/
theorem nextRow_state (s : DBStatement) :
    ∃ stored row, s.nextRow.1 =
      { s with resultIndex := 0, stored := stored, resultBind := fetchRow s.resultBind row } := by
  unfold nextRow
  cases hstored : s.stored with
  | nil => exact ⟨[], [], by cases s; simp_all [fetchRow]⟩
  | cons row rows => exact ⟨rows, row, by cases s; simp_all⟩

theorem stored_of_nextRow {s : DBStatement} (h : s.nextRow.2 = false) : s.stored = [] := by
  unfold nextRow at h
  cases hstored : s.stored with
  | nil => rfl
  | cons row rows =>
    simp only [hstored] at h
    cases h

end DBStatement

theorem built_new (prepared : Prepared) (sql : String) :
    Built platform prepared sql (.new platform prepared sql) where
  params := List.length_replicate ..
  sql := rfl
  columns := List.forall₂_same.mpr fun _ _ => ⟨rfl, rfl, rfl⟩

/-- No call changes the text or the bindings of the columns. -/
theorem built_step {prepared : Prepared} {sql : String} {s s' : DBStatement} {call : Call} {r : Result}
    (h : Built platform prepared sql s) (hstep : step platform s call = some (s', r)) :
    Built platform prepared sql s' := by
  obtain ⟨hparams, hsql, hcolumns⟩ := h
  -- the reads move the index only
  have hread : ∀ {α : Type} {value v : α} {read : ResultBind → Option α},
      s.readNext value read = some (s', v) → Built platform prepared sql s' := fun hread => by
    obtain ⟨_, rfl⟩ := DBStatement.readNext_state hread
    exact ⟨hparams, hsql, hcolumns⟩
  cases call with
  | bind param =>
    cases hstep
    obtain ⟨setUp, hbind⟩ := DBStatement.bind_eq platform param
    obtain ⟨paramBind, paramIndex, hlength, heq⟩ := s.bindNext_eq setUp
    rw [hbind, heq]
    exact ⟨hlength.trans hparams, hsql, hcolumns⟩
  | execute answer =>
    cases hstep
    obtain ⟨_, _, _, heq⟩ := s.execute_state answer
    rw [heq]
    exact ⟨hparams, hsql, hcolumns⟩
  | nextRow =>
    cases hstep
    obtain ⟨stored, row, heq⟩ := s.nextRow_state
    rw [heq]
    exact ⟨hparams, hsql, sameColumns_fetchRow hcolumns row⟩
  | clear =>
    cases hstep
    refine ⟨(List.length_replicate ..).trans hparams, hsql, ?_⟩
    exact List.forall₂_map_left_iff.mpr (hcolumns.imp fun _ _ => sameColumn_clear)
  | arithmetic | string | timePoint | microseconds | byteArray | getBlob =>
    obtain ⟨_, h, heq⟩ := Option.map_eq_some_iff.mp hstep
    cases heq
    exact hread h
  | skipFields | numRows | lastInsertId | numParams | numResultFields | sql =>
    cases hstep
    exact ⟨hparams, hsql, hcolumns⟩

theorem built_of_run {prepared : Prepared} {sql : String} {s : DBStatement} {calls : List Call}
    {results : List Result}
    (hrun : runOps (step platform) (.new platform prepared sql) calls = some (s, results)) :
    Built platform prepared sql s :=
  runOps_inv (fun s _ _ => Built platform prepared sql s) (fun _ _ _ _ _ _ h hstep => built_step h hstep)
    (built_new prepared sql) hrun

/-! ## What the calls see -/

/-- A NULL flag that is left in a column for a time whose data no call can read. -/
structure Blank (platform : Platform) (b fresh : ResultBind) : Prop where
  null : b.is_null = true
  value : fresh.is_null = false
  type : fresh.buffer_type = .TIME
  buffer : fresh.buffer = List.replicate platform.sizeofTime none ∨
    fresh.buffer = List.replicate platform.sizeofTime (some 0)
  length : ¬ (0 < fresh.length ∧ fresh.length ≤ fresh.buffer.length)

structure SeesColumn (platform : Platform) (b fresh : ResultBind) : Prop where
  type : b.buffer_type = fresh.buffer_type
  unsigned : b.is_unsigned = fresh.is_unsigned
  length : b.length = fresh.length
  buffer : Indeterminate.Refines b.buffer fresh.buffer
  null : b.is_null = fresh.is_null ∨ Blank platform b fresh

/-- The reused statement and the new one. -/
structure Sees (platform : Platform) (fresh s : DBStatement) : Prop where
  paramIndex : s.paramIndex = fresh.paramIndex
  resultIndex : s.resultIndex = fresh.resultIndex
  numRows : s.numRows = fresh.numRows
  lastInsertId : s.lastInsertId = fresh.lastInsertId
  stored : s.stored = fresh.stored
  sql : s.sql = fresh.sql
  paramBind : s.paramBind = fresh.paramBind
  columns : List.Forall₂ (SeesColumn platform) s.resultBind fresh.resultBind

variable {b fresh : ResultBind}

theorem readData_sees (h : SeesColumn platform b fresh) {data : List Byte} (hread : fresh.readData = some data) :
    ∃ data', b.readData = some data' ∧ Indeterminate.Refines data' data := by
  unfold ResultBind.readData at hread ⊢
  rw [h.length]
  exact Indeterminate.read_refines h.buffer hread

/-- Where the flag cannot be seen, there is no data to read. -/
theorem Blank.readData (h : Blank platform b fresh) {data : List Byte} (hread : fresh.readData = some data) :
    data = [] := by
  unfold ResultBind.readData Block.read at hread
  have hlength := h.length
  split at hread
  · have hzero : fresh.length = 0 := by omega
    rw [hzero, List.take_zero] at hread
    exact (Option.some.inj hread).symm
  · cases hread

/-- The bytes that are read as a value. -/
theorem known_sees (h : SeesColumn platform b fresh) {size : Nat} {xs : List UInt8}
    (hread : (Block.read fresh.buffer 0 size).bind known = some xs) :
    (Block.read b.buffer 0 size).bind known = some xs := by
  obtain ⟨bytes, hfresh, hknown⟩ := Option.bind_eq_some_iff.mp hread
  obtain ⟨bytes', hb, hrefines⟩ := Indeterminate.read_refines h.buffer hfresh
  rw [hb, Option.bind_some, Indeterminate.known_of_refines hrefines hknown]

theorem readTime_sees (h : SeesColumn platform b fresh) {mytime : Database.MYSQL_TIME}
    (hread : fresh.readTime platform = some mytime) : b.readTime platform = some mytime := by
  obtain ⟨xs, hbytes, hvalue⟩ := Option.map_eq_some_iff.mp hread
  rw [ResultBind.readTime, known_sees h hbytes, Option.map_some, hvalue]

/-- The time that is read there is zero. -/
theorem Blank.readTime (h : Blank platform b fresh) {mytime : Database.MYSQL_TIME}
    (hread : fresh.readTime platform = some mytime) : mytime = .zero := by
  obtain ⟨xs, hbytes, hvalue⟩ := Option.map_eq_some_iff.mp hread
  obtain ⟨bytes, hfresh, hknown⟩ := Option.bind_eq_some_iff.mp hbytes
  rcases h.buffer with hbuffer | hbuffer
  · rw [hbuffer, Block.read_of_le (by simp), List.drop_zero, List.take_replicate, Nat.min_self] at hfresh
    rw [← Option.some.inj hfresh, Indeterminate.known_replicate_none platform.sizeofTime_pos] at hknown
    cases hknown
  · rw [hbuffer, Block.read_of_le (by simp), List.drop_zero, List.take_replicate, Nat.min_self] at hfresh
    rw [← Option.some.inj hfresh, ← List.map_replicate, Indeterminate.known_map_some] at hknown
    rw [← hvalue, ← Option.some.inj hknown, platform.decodeTime_zero]

/-! ## The reads of one column -/

theorem getData_sees (h : SeesColumn platform b fresh) {data : List Byte} (hread : fresh.getData = some data) :
    ∃ data', b.getData = some data' ∧ Indeterminate.Refines data' data := by
  unfold ResultBind.getData at hread ⊢
  rcases h.null with hnull | hblank
  · rw [hnull]
    split_ifs at hread ⊢
    · exact ⟨[], rfl, by rw [← Option.some.inj hread]; exact .nil⟩
    · exact readData_sees h hread
  · rw [hblank.value, if_neg (by decide)] at hread
    rw [if_pos hblank.null, hblank.readData hread]
    exact ⟨[], rfl, .nil⟩

theorem getArithmetic_sees (h : SeesColumn platform b fresh) {T : Arithmetic} {value v : Number}
    (hread : fresh.getArithmetic platform T value = some v) : b.getArithmetic platform T value = some v := by
  unfold ResultBind.getArithmetic at hread ⊢
  rw [h.type]
  rcases h.null with hnull | hblank
  · rw [hnull]
    split_ifs at hread ⊢
    · exact hread
    · obtain ⟨text, htext, hvalue⟩ := Option.bind_eq_some_iff.mp hread
      rw [Indeterminate.cString_of_refines h.buffer htext, Option.bind_some, hvalue]
    · obtain ⟨bytes, hbytes, hvalue⟩ := Option.bind_eq_some_iff.mp hread
      rw [ResultBind.readAs, known_sees h hbytes, Option.bind_some, hvalue]
    · exact hread
  · rw [hblank.type] at hread ⊢
    exact hread

theorem getTimePoint_sees (h : SeesColumn platform b fresh) {value v : Database.TimePoint}
    (hread : fresh.getTimePoint platform value = some v) : b.getTimePoint platform value = some v := by
  unfold ResultBind.getTimePoint at hread ⊢
  rw [h.type]
  rcases h.null with hnull | hblank
  · rw [hnull]
    split_ifs at hread ⊢
    · obtain ⟨mytime, htime, hvalue⟩ := Option.map_eq_some_iff.mp hread
      rw [readTime_sees h htime, Option.map_some, hvalue]
    · exact hread
  · rw [if_neg (by simp [hblank.type])] at hread
    rw [if_neg (by simp [hblank.type]), hread]

theorem getMicroseconds_sees (h : SeesColumn platform b fresh) {value v : Int}
    (hread : fresh.getMicroseconds platform value = some v) : b.getMicroseconds platform value = some v := by
  unfold ResultBind.getMicroseconds at hread ⊢
  rw [h.type]
  rcases h.null with hnull | hblank
  · rw [hnull]
    split_ifs at hread ⊢
    · exact hread
    · obtain ⟨mytime, htime, hvalue⟩ := Option.map_eq_some_iff.mp hread
      rw [readTime_sees h htime, Option.map_some, hvalue]
    · exact hread
  · rw [hblank.value, if_neg (by decide), if_pos hblank.type] at hread
    obtain ⟨mytime, htime, hvalue⟩ := Option.map_eq_some_iff.mp hread
    rw [hblank.readTime htime] at hvalue
    rw [if_pos hblank.null, ← hvalue]
    rfl

theorem getBlob_sees (h : SeesColumn platform b fresh) {blob : Nat × Option (List Byte)}
    (hread : fresh.getBlob = some blob) :
    ∃ blob', b.getBlob = some blob' ∧ Result.Refines (.blob blob'.1 blob'.2) (.blob blob.1 blob.2) := by
  unfold ResultBind.getBlob at hread ⊢
  rcases h.null with hnull | hblank
  · rw [hnull, h.length]
    split_ifs at hread ⊢
    · obtain ⟨data, hdata, rfl⟩ := Option.map_eq_some_iff.mp hread
      obtain ⟨data', hdata', hrefines⟩ := readData_sees h hdata
      exact ⟨_, by rw [hdata', Option.map_some], .blob hrefines⟩
    · exact ⟨_, rfl, by rw [← Option.some.inj hread]; exact .refl _⟩
  · rw [if_neg (by simp [hblank.null]), h.length]
    refine ⟨_, rfl, ?_⟩
    split_ifs at hread with hdata
    · obtain ⟨data, hdata', rfl⟩ := Option.map_eq_some_iff.mp hread
      have hlength := Block.read_length hdata'
      rw [hblank.readData hdata'] at hlength
      exact absurd hlength.symm (Nat.ne_of_gt hdata.2)
    · rw [← Option.some.inj hread]
      exact .refl _

/-! ## One call -/

/-- The members of two related lists. -/
theorem forall₂_getElem? {α β : Type} {R : α → β → Prop} :
    ∀ {l : List α} {l' : List β}, List.Forall₂ R l l' → ∀ i : Nat,
      (l[i]? = none ∧ l'[i]? = none) ∨ ∃ a b, l[i]? = some a ∧ l'[i]? = some b ∧ R a b
  | [], [], _, _ => .inl ⟨rfl, rfl⟩
  | a :: _, b :: _, .cons h _, 0 => .inr ⟨a, b, rfl, rfl, h⟩
  | _ :: _, _ :: _, .cons _ h, i + 1 => by simpa using forall₂_getElem? h i

/-- The column that is read next. -/
theorem column_sees {fresh s : DBStatement} (h : Sees platform fresh s) :
    (s.column = none ∧ fresh.column = none) ∨
      ∃ b c, s.column = some b ∧ fresh.column = some c ∧ SeesColumn platform b c := by
  have hlength := h.columns.length_eq
  unfold DBStatement.column DBStatement.numResultFields
  rw [h.resultIndex, hlength]
  split
  · exact forall₂_getElem? h.columns _
  · exact .inl ⟨rfl, rfl⟩

/-- A read in its frame, from a read of one column. -/
theorem readNext_sees {α : Type} (toResult : α → Result) {read : ResultBind → Option α}
    {fresh fresh' s : DBStatement} {value : α} {r : Result} (h : Sees platform fresh s)
    (hcolumn : ∀ b c v, SeesColumn platform b c → read c = some v →
      ∃ v', read b = some v' ∧ Result.Refines (toResult v') (toResult v))
    (hread : (fresh.readNext value read).map (fun (s, v) => (s, toResult v)) = some (fresh', r)) :
    ∃ s' r', (s.readNext value read).map (fun (s, v) => (s, toResult v)) = some (s', r') ∧
      Sees platform fresh' s' ∧ Result.Refines r' r := by
  unfold DBStatement.readNext at hread ⊢
  rcases column_sees h with ⟨hs, hfresh⟩ | ⟨b, c, hs, hfresh, hbc⟩
  · rw [hfresh] at hread
    cases hread
    rw [hs]
    exact ⟨s, _, rfl, h, .refl _⟩
  · rw [hfresh] at hread
    obtain ⟨_, hnext, heq⟩ := Option.map_eq_some_iff.mp hread
    obtain ⟨v, hv, rfl⟩ := Option.map_eq_some_iff.mp hnext
    cases heq
    obtain ⟨v', hv', hrefines⟩ := hcolumn b c v hbc hv
    simp only [hs, hv', Option.map_some]
    refine ⟨_, _, rfl, ?_, hrefines⟩
    exact { h with resultIndex := congrArg (· + 1) h.resultIndex }

theorem fetch_sees (h : SeesColumn platform b fresh) (cell : Cell) :
    SeesColumn platform (b.fetch cell) (fresh.fetch cell) := by
  cases cell with
  | null => exact ⟨h.type, h.unsigned, h.length, h.buffer, .inl rfl⟩
  | value bytes length =>
    refine ⟨h.type, h.unsigned, rfl, ?_, .inl rfl⟩
    simp only [ResultBind.fetch, h.buffer.length_eq]
    exact Indeterminate.overwrite_refines h.buffer _

theorem fetchRow_sees {bs fresh : List ResultBind} (h : List.Forall₂ (SeesColumn platform) bs fresh) :
    ∀ row : Row, List.Forall₂ (SeesColumn platform) (fetchRow bs row) (fetchRow fresh row) := by
  induction h with
  | nil => intro row; cases row <;> exact .nil
  | cons hb hrest ih =>
    intro row
    cases row with
    | nil => exact .cons hb hrest
    | cons cell cells => exact .cons (fetch_sees hb cell) (ih cells)

theorem clear_sees (h : SeesColumn platform b fresh) : SeesColumn platform b.clear fresh.clear := by
  have hlength := h.buffer.length_eq
  refine ⟨h.type, h.unsigned, h.length, ?_, h.null.imp_right fun hblank => ?_⟩
  · simp only [ResultBind.clear, hlength]
    exact .refl _
  · have hsize : fresh.buffer.length = platform.sizeofTime := by rcases hblank.buffer with heq | heq <;> simp [heq]
    refine ⟨hblank.null, hblank.value, hblank.type, .inr ?_, ?_⟩
    · simp only [ResultBind.clear, hsize]
    · simpa only [ResultBind.clear, List.length_replicate] using hblank.length

theorem bindNext_sees {fresh s : DBStatement} (h : Sees platform fresh s) (setUp : ParamBind → ParamBind) :
    Sees platform (fresh.bindNext setUp) (s.bindNext setUp) := by
  unfold DBStatement.bindNext DBStatement.numParams
  rw [h.paramIndex, h.paramBind]
  split
  · exact { h with paramIndex := rfl, paramBind := rfl }
  · exact h

theorem execute_sees {fresh s : DBStatement} (h : Sees platform fresh s) (answer : Executed) :
    Sees platform (fresh.execute answer).1 (s.execute answer).1 ∧
      (s.execute answer).2 = (fresh.execute answer).2 := by
  have hnil : s.resultBind = [] ↔ fresh.resultBind = [] := by
    rw [← List.length_eq_zero_iff, ← List.length_eq_zero_iff, h.columns.length_eq]
  simp only [DBStatement.execute, h.paramBind, ne_eq, hnil]
  split_ifs
  · exact ⟨{ h with numRows := rfl, lastInsertId := rfl, paramBind := rfl }, rfl⟩
  all_goals exact ⟨{ h with numRows := rfl, lastInsertId := rfl, stored := rfl, paramBind := rfl }, rfl⟩

theorem nextRow_sees {fresh s : DBStatement} (h : Sees platform fresh s) :
    Sees platform fresh.nextRow.1 s.nextRow.1 ∧ s.nextRow.2 = fresh.nextRow.2 := by
  simp only [DBStatement.nextRow, h.stored]
  cases hstored : fresh.stored with
  | nil => exact ⟨{ h with resultIndex := rfl, stored := rfl }, rfl⟩
  | cons row rows =>
    exact ⟨{ h with resultIndex := rfl, stored := rfl, columns := fetchRow_sees h.columns row }, rfl⟩

theorem clearAll_sees {fresh s : DBStatement} (h : Sees platform fresh s) : Sees platform fresh.clear s.clear where
  paramIndex := rfl
  resultIndex := rfl
  numRows := h.numRows
  lastInsertId := h.lastInsertId
  stored := h.stored
  sql := h.sql
  paramBind := by simp only [DBStatement.clear, h.paramBind]
  columns := List.forall₂_map_left_iff.mpr (List.forall₂_map_right_iff.mpr (h.columns.imp fun _ _ => clear_sees))

/-- **One call**: what is defined for the new statement is defined for the reused one, with the same result. -/
theorem step_sees {fresh fresh' s : DBStatement} {call : Call} {r : Result} (h : Sees platform fresh s)
    (hstep : step platform fresh call = some (fresh', r)) :
    ∃ s' r', step platform s call = some (s', r') ∧ Sees platform fresh' s' ∧ Result.Refines r' r := by
  cases call with
  | bind param =>
    cases hstep
    obtain ⟨setUp, hbind⟩ := DBStatement.bind_eq platform param
    refine ⟨_, _, rfl, ?_, .refl _⟩
    rw [hbind, hbind]
    exact bindNext_sees h setUp
  | execute answer =>
    cases hstep
    obtain ⟨hsees, hok⟩ := execute_sees h answer
    exact ⟨_, _, rfl, hsees, by rw [h.paramBind, hok]; exact .refl _⟩
  | nextRow =>
    cases hstep
    obtain ⟨hsees, hok⟩ := nextRow_sees h
    exact ⟨_, _, rfl, hsees, by rw [hok]; exact .refl _⟩
  | clear =>
    cases hstep
    exact ⟨_, _, rfl, clearAll_sees h, .refl _⟩
  | skipFields num =>
    cases hstep
    exact ⟨_, _, rfl, { h with resultIndex := by simp only [DBStatement.skipFields, h.resultIndex] }, .refl _⟩
  | arithmetic T value =>
    exact readNext_sees .number h (fun _ _ v hbc hc => ⟨v, getArithmetic_sees hbc hc, .refl _⟩) hstep
  | string value =>
    refine readNext_sees .data h (fun _ _ v hbc hc => ?_) hstep
    obtain ⟨data, hdata, hrefines⟩ := getData_sees hbc hc
    exact ⟨data, hdata, .data hrefines⟩
  | timePoint value =>
    exact readNext_sees .timePoint h (fun _ _ v hbc hc => ⟨v, getTimePoint_sees hbc hc, .refl _⟩) hstep
  | microseconds value =>
    exact readNext_sees .microseconds h (fun _ _ v hbc hc => ⟨v, getMicroseconds_sees hbc hc, .refl _⟩) hstep
  | byteArray =>
    refine readNext_sees .data h (fun _ _ v hbc hc => ?_) hstep
    obtain ⟨data, hdata, hrefines⟩ := getData_sees hbc hc
    exact ⟨data, hdata, .data hrefines⟩
  | getBlob datasize =>
    exact readNext_sees (fun blob : Nat × Option (List Byte) => .blob blob.1 blob.2) h
      (fun _ _ _ hbc hc => getBlob_sees hbc hc) hstep
  | numRows =>
    cases hstep
    exact ⟨s, _, rfl, h, by rw [h.numRows]; exact .refl _⟩
  | lastInsertId =>
    cases hstep
    exact ⟨s, _, rfl, h, by rw [h.lastInsertId]; exact .refl _⟩
  | numParams =>
    cases hstep
    exact ⟨s, _, rfl, h, by rw [DBStatement.numParams, h.paramBind]; exact .refl _⟩
  | numResultFields =>
    cases hstep
    exact ⟨s, _, rfl, h, by rw [DBStatement.numResultFields, h.columns.length_eq]; exact .refl _⟩
  | sql =>
    cases hstep
    exact ⟨s, _, rfl, h, by rw [h.sql]; exact .refl _⟩

/-! ## A hit -/

variable {prepared : Prepared} {sql : String} {s : DBStatement}

/-- A cleared buffer, and one that was never written. -/
theorem clear_sees_new {b fresh : ResultBind} (hsame : SameColumn b fresh) (h : AsNew b fresh)
    (hnew : ∃ field, fresh = .new platform field) : SeesColumn platform b.clear fresh := by
  obtain ⟨field, rfl⟩ := hnew
  obtain ⟨htype, hunsigned, hsize⟩ := hsame
  refine ⟨htype, hunsigned, h.1, ?_, ?_⟩
  · exact Indeterminate.refines_replicate_none _ (by simpa [ResultBind.clear, ResultBind.new] using hsize)
  · cases hnull : b.is_null with
    | false => exact .inl hnull
    | true =>
      obtain ⟨htime, hunseen⟩ := h.2 hnull
      refine .inr ⟨hnull, rfl, htype ▸ htime, .inl ?_, hunseen⟩
      have hfield : field.type = .TIME := htype.symm.trans htime
      simp only [ResultBind.new, Field.bufferLength, hfield]

/-- **Enough**: a clean statement is cleared to one that behaves as a new one. -/
theorem sees_of_clean (hbuilt : Built platform prepared sql s)
    (h : Clean s (.new platform prepared sql)) (now : Int) :
    Sees platform (.new platform prepared sql) (s.hit now) where
  paramIndex := rfl
  resultIndex := rfl
  numRows := h.numRows
  lastInsertId := h.lastInsertId
  stored := h.stored
  sql := hbuilt.sql
  paramBind := congrArg (List.replicate · ParamBind.zero) hbuilt.params
  columns := by
    refine List.forall₂_map_left_iff.mpr (List.forall₂_iff_get.mpr ⟨h.columns.length_eq, fun i hi hi' => ?_⟩)
    refine clear_sees_new (hbuilt.columns.get hi hi') (h.columns.get hi hi') ?_
    exact ⟨prepared.fields.get ⟨i, by simpa [DBStatement.new] using hi'⟩, by simp [DBStatement.new]⟩

/-! ## What the calls tell -/

/-- Skip fields one by one. -/
theorem run_skip (platform : Platform) :
    ∀ (i : Nat) (s : DBStatement), s.resultIndex + i < 2 ^ 32 →
      runOps (step platform) s (List.replicate i (.skipFields 1)) =
        some ({ s with resultIndex := s.resultIndex + i }, List.replicate i .done)
  | 0, _, _ => rfl
  | i + 1, s, h => by
    have hskip : s.skipFields 1 = { s with resultIndex := s.resultIndex + 1 } := by
      simp only [DBStatement.skipFields, DBStatement.mk.injEq, true_and, and_true]
      omega
    have hrest := run_skip platform i { s with resultIndex := s.resultIndex + 1 } (by simp only; omega)
    refine runOps_cons.mpr ⟨{ s with resultIndex := s.resultIndex + 1 }, .done, List.replicate i .done, ?_, ?_, rfl⟩
    · rw [step, hskip]
    · rw [hrest, Nat.add_assoc, Nat.add_comm 1 i]

/-- Fetch a row of NULL, and skip to a column of it. -/
def nullRow (i : Nat) : List Call :=
  [.execute ⟨true, true, true, [List.replicate (i + 1) .null], 0, 0⟩, .nextRow] ++ List.replicate i (.skipFields 1)

theorem fetchRow_null :
    ∀ (bs : List ResultBind) (i : Nat) (b : ResultBind), bs[i]? = some b →
      (fetchRow bs (List.replicate (i + 1) .null))[i]? = some { b with is_null := true }
  | c :: bs, 0, b, h => by
    cases h
    rfl
  | c :: bs, i + 1, b, h => by
    rw [List.replicate_succ, fetchRow, List.getElem?_cons_succ]
    exact fetchRow_null bs i b h

theorem fetchRow_length : ∀ (bs : List ResultBind) (row : Row), (fetchRow bs row).length = bs.length
  | [], row => by cases row <;> rfl
  | _ :: _, [] => rfl
  | _ :: bs, _ :: cells => congrArg (· + 1) (fetchRow_length bs cells)

theorem column_of_getElem? {i : Nat} {b : ResultBind} (hindex : s.resultIndex = i)
    (hlt : s.resultBind.length < 2 ^ 32) (hcolumn : s.resultBind[i]? = some b) : s.column = some b := by
  have hi : i < s.resultBind.length := (List.getElem?_eq_some_iff.mp hcolumn).1
  rw [DBStatement.column, DBStatement.numResultFields, Nat.mod_eq_of_lt hlt, hindex, if_pos hi, hcolumn]

theorem run_nullRow (platform : Platform) {i : Nat} {b : ResultBind} (hlt : s.resultBind.length < 2 ^ 32)
    (hcolumn : s.resultBind[i]? = some b) :
    ∃ s' rs, runOps (step platform) s (nullRow i) = some (s', rs) ∧
      s'.column = some { b with is_null := true } := by
  have hi : i < s.resultBind.length := (List.getElem?_eq_some_iff.mp hcolumn).1
  have hne : s.resultBind ≠ [] := List.ne_nil_of_length_pos (by omega)
  let row : Row := List.replicate (i + 1) .null
  let executed : DBStatement := { s with numRows := 0, lastInsertId := 0, stored := [row] }
  let fetched : DBStatement := { executed with resultIndex := 0, stored := [], resultBind := fetchRow s.resultBind row }
  have hexecute : s.execute ⟨true, true, true, [row], 0,
    0⟩ = (executed, true) := by simp [DBStatement.execute, hne, executed]
  have hfetch : runOps (step platform) s [.execute ⟨true, true, true, [row], 0, 0⟩, .nextRow] =
      some (fetched, [.executed s.paramBind true, .flag true]) := by
    simp only [runOps, step, hexecute]
    rfl
  have hskip := run_skip platform i fetched (by simp only [fetched]; omega)
  refine ⟨_, _, runOps_concat hfetch hskip, column_of_getElem? (Nat.zero_add i) ?_ (fetchRow_null _ i b hcolumn)⟩
  rw [fetchRow_length]
  exact hlt

/-- The length that an earlier use has left shows in a row of NULL. -/
theorem length_of_behavesAsNew {fresh : DBStatement} (h : BehavesAsNew platform fresh s) {i : Nat}
    {b c : ResultBind}
    (hlt : s.resultBind.length < 2 ^ 32) (hlt' : fresh.resultBind.length < 2 ^ 32) (hb : s.resultBind[i]? = some b)
    (hc : fresh.resultBind[i]? = some c) : b.length = c.length := by
  obtain ⟨s', rs, hrun, hcolumn⟩ := run_nullRow platform hlt hb
  obtain ⟨fresh', rs', hrun', hcolumn'⟩ := run_nullRow platform hlt' hc
  have hblob : ∀ {t : DBStatement} {d : ResultBind}, t.column = some { d with is_null := true } →
      step platform t (.getBlob 0) = some ({ t with resultIndex := t.resultIndex + 1 }, .blob d.length none) := by
    intro t d ht
    simp only [step, DBStatement.getBlob, DBStatement.readNext, ht]
    rfl
  exact ((h.run hrun' hrun).next (hblob hcolumn') (hblob hcolumn)).1.blob_iff.1

/-- A NULL flag that an earlier use has left shows as a time of zero, or as no data. -/
theorem null_of_behavesAsNew {fresh : DBStatement} (h : BehavesAsNew platform fresh s) {i : Nat} {b c : ResultBind}
    (hindex : s.resultIndex = 0) (hindex' : fresh.resultIndex = 0) (hlt : s.resultBind.length < 2 ^ 32)
    (hlt' : fresh.resultBind.length < 2 ^ 32) (hb : s.resultBind[i]? = some b) (hc : fresh.resultBind[i]? = some c)
    (htype : b.buffer_type = c.buffer_type) (hvalue : c.is_null = false) (hnull : b.is_null = true) :
    b.buffer_type = .TIME ∧ ¬ (0 < c.length ∧ c.length ≤ c.buffer.length) := by
  have hi : i < s.resultBind.length := (List.getElem?_eq_some_iff.mp hb).1
  have hskip := run_skip platform i s (by omega)
  have hskip' := run_skip platform i fresh (by omega)
  set t : DBStatement := { s with resultIndex := s.resultIndex + i } with ht
  set t' : DBStatement := { fresh with resultIndex := fresh.resultIndex + i } with ht'
  have hcolumn : t.column = some b := column_of_getElem? (by rw [ht, hindex]; exact Nat.zero_add i) hlt hb
  have hcolumn' : t'.column = some c := column_of_getElem? (by rw [ht', hindex']; exact Nat.zero_add i) hlt' hc
  have hfollows := h.run hskip' hskip
  have htime : b.buffer_type = .TIME := by
    by_contra hother
    have hzero : step platform t (.microseconds 1) =
      some ({ t with resultIndex := t.resultIndex + 1 }, .microseconds 0) := by
      simp [step, DBStatement.operatorShrMicroseconds, DBStatement.readNext, hcolumn,
        ResultBind.getMicroseconds, hnull]
    have hone : step platform t' (.microseconds 1) =
        some ({ t' with resultIndex := t'.resultIndex + 1 }, .microseconds 1) := by
      simp [step, DBStatement.operatorShrMicroseconds, DBStatement.readNext, hcolumn', ResultBind.getMicroseconds,
        hvalue, ← htype, hother]
    cases (hfollows.next hone hzero).1
  refine ⟨htime, fun hdata => ?_⟩
  have hnone : step platform t (.getBlob 0) =
    some ({ t with resultIndex := t.resultIndex + 1 }, .blob b.length none) := by
    simp [step, DBStatement.getBlob, DBStatement.readNext, hcolumn, ResultBind.getBlob, hnull]
  have hsome : step platform t' (.getBlob 0) =
      some ({ t' with resultIndex := t'.resultIndex + 1 }, .blob c.length (some (c.buffer.take c.length))) := by
    simp [step, DBStatement.getBlob, DBStatement.readNext, hcolumn', ResultBind.getBlob, hvalue, hdata.1,
      ResultBind.readData, Block.read, hdata.2]
  cases (hfollows.next hsome hnone).1.blob_iff.2

/-- **Needed**: a statement that behaves as a new one was clean. -/
theorem clean_of_behavesAsNew (hbuilt : Built platform prepared sql s) {now : Int}
    (h : BehavesAsNew platform (.new platform prepared sql) (s.hit now)) :
    Clean s (.new platform prepared sql) := by
  have hlength : s.resultBind.length = prepared.fields.length := by
    rw [hbuilt.columns.length_eq, List.length_map]
  have hlt := prepared.fields_lt
  refine ⟨?_, ?_, ?_, List.forall₂_iff_get.mpr ⟨hbuilt.columns.length_eq, fun i hi hi' => ?_⟩⟩
  · have hcount := (h.next (i := .numRows) rfl rfl).1.eq_count
    exact Result.count.inj hcount
  · have hcount := (h.next (i := .lastInsertId) rfl rfl).1.eq_count
    exact Result.count.inj hcount
  · have hflag : (s.hit now).nextRow.2 = false := by
      have hresult := (h.next (i := .nextRow) rfl rfl).1
      generalize (s.hit now).nextRow.2 = ok at hresult
      cases hresult
      rfl
    exact (DBStatement.stored_of_nextRow hflag : (s.hit now).stored = [])
  · have hb : (s.hit now).resultBind[i]? = some (s.resultBind.get ⟨i, hi⟩).clear := by
      simp [DBStatement.hit, DBStatement.clear, hi]
    have hc : (DBStatement.new platform prepared sql).resultBind[i]? =
        some ((DBStatement.new platform prepared sql).resultBind.get ⟨i, hi'⟩) := by simp [hi']
    have hlt' : (DBStatement.new platform prepared sql).resultBind.length < 2 ^ 32 := by
      rw [DBStatement.new, List.length_map]
      exact hlt
    have hlt'' : (s.hit now).resultBind.length < 2 ^ 32 := by
      rw [DBStatement.hit, DBStatement.clear, List.length_map, hlength]
      exact hlt
    have hvalue : ((DBStatement.new platform prepared sql).resultBind.get ⟨i, hi'⟩).is_null = false := by
      simp [DBStatement.new, ResultBind.new]
    have hlen := length_of_behavesAsNew h hlt'' hlt' hb hc
    refine ⟨hlen, fun hnull => ?_⟩
    have hseen := null_of_behavesAsNew h rfl rfl hlt'' hlt' hb hc (hbuilt.columns.get hi hi').1 hvalue hnull
    exact hseen

/-- **A hit.**  After any history of a statement, a hit returns a statement that behaves as a new one if and only if
the row count and the insert id are zero, no stored row is left, and no column has a length or a NULL flag that
shows. -/
theorem reused_behavesAsNew_iff (platform : Platform) (prepared : Prepared) (sql : String) (history : List Call)
    {results : List Result} (hrun : runOps (step platform) (.new platform prepared sql) history = some (s, results))
    (now : Int) :
    BehavesAsNew platform (.new platform prepared sql) (s.hit now) ↔ Clean s (.new platform prepared sql) :=
  have hbuilt := built_of_run hrun
  have hsimulation : ∀ fresh s call fresh' r, Sees platform fresh s → step platform fresh call = some (fresh', r) →
      ∃ s' r', step platform s call = some (s', r') ∧ Sees platform fresh' s' ∧ Result.Refines r' r :=
    fun _ _ _ _ _ hsees hstep => step_sees hsees hstep
  ⟨clean_of_behavesAsNew hbuilt, fun h => follows_of_simulation hsimulation (sees_of_clean hbuilt h now)⟩

/-- A statement that was prepared, and read once without being executed. -/
theorem reused_behavesAsNew_unused :
    BehavesAsNew .x64 (.new .x64 ⟨0, [⟨.LONG, 11, false, 4⟩], by decide⟩ "SELECT id FROM item_config")
      ((DBStatement.new .x64 ⟨0, [⟨.LONG, 11, false, 4⟩], by decide⟩ "SELECT id FROM item_config").nextRow.1.hit 1) :=
  (reused_behavesAsNew_iff .x64 ⟨0, [⟨.LONG, 11, false, 4⟩], by decide⟩ "SELECT id FROM item_config" [.nextRow] rfl 1).mpr
    ⟨rfl, rfl, rfl, .cons ⟨rfl, fun h => by cases h⟩ .nil⟩

/-- A row that was stored and not fetched is fetched after the hit. -/
theorem reused_fetches_old_row :
    ¬ ∀ (platform : Platform) (prepared : Prepared) (sql : String) (history : List Call) (s : DBStatement)
      (results : List Result), runOps (step platform) (.new platform prepared sql) history = some (s, results) →
      ∀ now, BehavesAsNew platform (.new platform prepared sql) (s.hit now) := by
  intro hall
  let prepared : Prepared := ⟨0, [⟨.LONG, 11, false, 4⟩], by decide⟩
  have hbehaves := hall .x64 prepared "SELECT id FROM item_config"
    [.execute ⟨true, true, true, [[.value [7, 0, 0, 0] 4]], 1, 0⟩] _ _ rfl 1
  have hflag := (hbehaves.next (i := .nextRow) rfl rfl).1
  cases hflag

end Libws.Binding
