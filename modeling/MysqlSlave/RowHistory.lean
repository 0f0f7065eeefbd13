import MysqlSlave.RowBounds
import MysqlSlave.RowBuffer

/-!
# The row buffer over a history of events

A table decodes the rows of all its rows events into one buffer.  Whatever events
it has taken since its TABLE_MAP, the buffer keeps its length and the positions of
its values, and the rows of the next event with all columns are the same.
-/

namespace MysqlSlave

open Region

/-- A row of a table, with values at these positions. -/
structure CRow.Shaped (table : Option Address) (positions : List Nat)
    (row : CRow) : Prop where
  table : row.table = table
  positions : row.data.map CValue.pos = positions

namespace CRow.Shaped

variable {table : Option Address} {positions : List Nat} {row : CRow}

theorem self (row : CRow) :
    Shaped row.table (row.data.map CValue.pos) row := ⟨rfl, rfl⟩

theorem length (shaped : Shaped table positions row) :
    row.data.length = positions.length := by
  rw [← shaped.positions, List.length_map]

theorem put (shaped : Shaped table positions row) {i : Nat}
    {value other : CValue} (there : row.data[i]? = some value)
    (same : other.pos = value.pos) : Shaped table positions (row.put i other) := by
  refine ⟨shaped.table, ?_⟩
  have at_ : (row.data.map CValue.pos)[i]? = some value.pos := by
    simp [there]
  rw [CRow.put, List.map_set, same, ← shaped.positions]
  obtain ⟨inside, here⟩ := List.getElem?_eq_some_iff.mp at_
  rw [← here, List.set_getElem_self]

end CRow.Shaped

namespace CTable

variable {self : CTable} {memory : Bytes} {rlev : CRowLogEvent}
  {table : Option Address} {positions : List Nat}

section Shaped

theorem updateColumn_shaped {used nulls : BitVec 64} {i : Nat}
    {cursor next : RowCursor}
    (shaped : CRow.Shaped table positions cursor.row)
    (run : self.updateColumn memory used nulls i cursor = .ok next) :
    CRow.Shaped table positions next.row := by
  cases updateColumn_iff.mp run with
  | spent there spent => exact shaped.put there rfl
  | skipped there unspent typeRead metadataRead unselected =>
      exact shaped.put there rfl
  | framed there unspent typeRead metadataRead selected size tuned =>
      exact shaped.put there (CValue.tune_storage tuned).2

theorem updateColumns_shaped {used nulls : BitVec 64} {todo i : Nat}
    {cursor final : RowCursor}
    (shaped : CRow.Shaped table positions cursor.row)
    (run : self.updateColumns memory used nulls todo i cursor = .ok final) :
    CRow.Shaped table positions final.row := by
  induction todo generalizing i cursor with
  | zero =>
      cases run
      exact shaped
  | succ todo induction =>
      obtain ⟨next, first, rest⟩ := Exec.bind_eq_ok.mp run
      exact induction (updateColumn_shaped shaped first) rest

theorem updateImage_shaped {row : CRow} {pfields len usedCount : Nat}
    {mask : BitVec 64} {result : RowUpdate}
    (shaped : CRow.Shaped table positions row)
    (run : self.updateImage memory rlev row pfields len usedCount mask =
      .ok result) :
    CRow.Shaped table positions result.row := by
  obtain ⟨nulls, _, run⟩ := Exec.bind_eq_ok.mp run
  obtain ⟨cursor, columns, run⟩ := Exec.bind_eq_ok.mp run
  cases run
  exact updateColumns_shaped shaped columns

/-- The buffer and the rows copied from it so far. -/
structure RowsCursor.Shaped (table : Option Address) (positions : List Nat)
    (cursor : RowsCursor) : Prop where
  row : CRow.Shaped table positions cursor.row
  rows : ∀ row ∈ cursor.rows, CRow.Shaped table positions row
  newRows : ∀ row ∈ cursor.newRows, CRow.Shaped table positions row

theorem forall_mem_snoc {rows : List CRow} {row : CRow}
    (all : ∀ row ∈ rows, CRow.Shaped table positions row)
    (shaped : CRow.Shaped table positions row) :
    ∀ other ∈ rows ++ [row], CRow.Shaped table positions other := by
  intro other member
  rcases List.mem_append.mp member with old | new
  · exact all other old
  · rw [List.mem_singleton.mp new]
    exact shaped

theorem updateRound_shaped {cursor next : RowsCursor}
    (shaped : RowsCursor.Shaped table positions cursor)
    (run : self.updateRound memory rlev cursor = .ok next) :
    RowsCursor.Shaped table positions next := by
  cases updateRound_iff.mp run with
  | single beforeRun last =>
      have before := updateImage_shaped shaped.row beforeRun
      exact ⟨before, forall_mem_snoc shaped.rows before, shaped.newRows⟩
  | pair beforeRun more update afterRun =>
      have before := updateImage_shaped shaped.row beforeRun
      have after := updateImage_shaped before afterRun
      exact ⟨after, forall_mem_snoc shaped.rows before,
        forall_mem_snoc shaped.newRows after⟩

theorem updateRounds_shaped {rounds : Nat} {cursor final : RowsCursor}
    (shaped : RowsCursor.Shaped table positions cursor)
    (run : self.updateRounds memory rlev rounds cursor = .ok final) :
    RowsCursor.Shaped table positions final := by
  induction rounds generalizing cursor with
  | zero =>
      unfold updateRounds at run
      split at run
      · cases run
        exact shaped
      · cases run
  | succ rounds induction =>
      unfold updateRounds at run
      split at run
      · cases run
        exact shaped
      · obtain ⟨next, first, rest⟩ := Exec.bind_eq_ok.mp run
        exact induction (updateRound_shaped shaped first) rest

end Shaped

/-- What `update` changes: nothing, or the row buffer and the rows, which are
copies of the buffer. -/
inductive Updated (before after : CTable) : Prop where
  | refused : after = before → Updated before after
  | decoded {cursor : RowsCursor} :
      RowsCursor.Shaped before.row.table (before.row.data.map CValue.pos)
        cursor →
      after = { before with
        row := cursor.row, rows := cursor.rows, newRows := cursor.newRows } →
      Updated before after

theorem update_updated {after : CTable} {rc : Int}
    (run : self.update memory rlev = .ok (rc, after)) :
    Updated self after := by
  unfold update at run
  split at run
  · cases run
    exact .refused rfl
  · obtain ⟨cursor, rounds, run⟩ := Exec.bind_eq_ok.mp run
    cases run
    exact .decoded (updateRounds_shaped ⟨.self self.row, by simp, by simp⟩
      rounds) rfl

section Schema

variable {left right : CTable}

/-- The column loop looks at nothing of the table but the TABLE_MAP event. -/
theorem updateColumn_congr
    (same : left.toCTableMapLogEvent = right.toCTableMapLogEvent)
    (used nulls : BitVec 64) (i : Nat) (cursor : RowCursor) :
    left.updateColumn memory used nulls i cursor =
      right.updateColumn memory used nulls i cursor := by
  obtain ⟨event, _, _, _, _, _⟩ := left
  obtain ⟨event', _, _, _, _, _⟩ := right
  cases same
  rfl

theorem updateColumns_congr
    (same : left.toCTableMapLogEvent = right.toCTableMapLogEvent)
    (used nulls : BitVec 64) (todo i : Nat) (cursor : RowCursor) :
    left.updateColumns memory used nulls todo i cursor =
      right.updateColumns memory used nulls todo i cursor := by
  induction todo generalizing i cursor with
  | zero => rfl
  | succ todo induction =>
      exact Exec.bind_congr (updateColumn_congr same used nulls i cursor)
        fun next _ => induction (i + 1) next

theorem updateImage_congr
    (same : left.toCTableMapLogEvent = right.toCTableMapLogEvent)
    (row : CRow) (pfields len usedCount : Nat) (mask : BitVec 64) :
    left.updateImage memory rlev row pfields len usedCount mask =
      right.updateImage memory rlev row pfields len usedCount mask := by
  have metadata : left.metadata = right.metadata := by rw [same]
  unfold updateImage updateRow
  refine Exec.bind_congr rfl fun nulls _ => ?_
  rw [metadata]
  exact Exec.bind_congr (updateColumns_congr same _ _ _ _ _) fun _ _ => rfl

theorem updateRound_congr
    (same : left.toCTableMapLogEvent = right.toCTableMapLogEvent)
    (cursor : RowsCursor) :
    left.updateRound memory rlev cursor =
      right.updateRound memory rlev cursor := by
  unfold updateRound
  refine Exec.bind_congr (updateImage_congr same _ _ _ _ _) fun before _ => ?_
  dsimp only
  split
  · exact Exec.bind_congr (updateImage_congr same _ _ _ _ _) fun _ _ => rfl
  · rfl

theorem updateRounds_congr
    (same : left.toCTableMapLogEvent = right.toCTableMapLogEvent)
    (rounds : Nat) (cursor : RowsCursor) :
    left.updateRounds memory rlev rounds cursor =
      right.updateRounds memory rlev rounds cursor := by
  induction rounds generalizing cursor with
  | zero => rfl
  | succ rounds induction =>
      unfold updateRounds
      split
      · rfl
      · exact Exec.bind_congr (updateRound_congr same cursor)
          fun next _ => induction next

end Schema

/-- The table as a TABLE_MAP event that it took has left it. -/
def Mapped (table : CTable) : Prop :=
  table.tuned = true ∧
    ∃ (before : CTable) (this : Address) (data : Bytes) (size : Nat)
      (fmt : CFormatDescriptionLogEvent),
      before.tuned = false ∧
        before.tune this data size fmt = .ok (.code 0, table)

theorem Mapped.length {table : CTable} (mapped : table.Mapped) :
    table.row.data.length = table.columnCount := by
  obtain ⟨tuned, before, this, data, size, fmt, untuned, run⟩ := mapped
  exact tune_width untuned run tuned

/-- What becomes of a table while it takes rows events and TABLE_MAP events in
any order.  It has a schema, so that `tune` leaves it alone. -/
inductive History (table : CTable) : CTable → Prop where
  | start : History table table
  | updated {before after : CTable} {memory : Bytes} {rlev : CRowLogEvent}
      {rc : Int} :
      History table before →
      before.update memory rlev = .ok (rc, after) →
      History table after
  | mapped {before after : CTable} {this : Address} {data : Bytes}
      {size : Nat} {fmt : CFormatDescriptionLogEvent} {rc : Return} :
      History table before →
      before.tune this data size fmt = .ok (rc, after) →
      History table after

/-- Nothing of the table changes but the values of the buffer and the rows. -/
structure History.Kept (table later : CTable) : Prop where
  event : later.toCTableMapLogEvent = table.toCTableMapLogEvent
  tuned : later.tuned = table.tuned
  columns : later.columns = table.columns
  row : CRow.Shaped table.row.table (table.row.data.map CValue.pos) later.row

theorem History.kept {table later : CTable} (tuned : table.tuned = true)
    (history : table.History later) : History.Kept table later := by
  induction history with
  | start => exact ⟨rfl, rfl, rfl, .self table.row⟩
  | updated earlier run induction =>
      obtain ⟨event, stays, columns, row⟩ := induction
      cases update_updated run with
      | refused same =>
          rw [same]
          exact ⟨event, stays, columns, row⟩
      | decoded shaped same =>
          rw [row.table, row.positions] at shaped
          rw [same]
          exact ⟨event, stays, columns, shaped.row⟩
  | mapped earlier run induction =>
      rw [tune, if_pos (induction.tuned.trans tuned)] at run
      cases run
      exact induction

/-- What a caller of `update` sees: the result code and the rows. -/
def delivery (self : CTable) (memory : Bytes) (rlev : CRowLogEvent) :
    Exec (Int × List CRow × List CRow) := do
  let (rc, after) ← self.update memory rlev
  return (rc, after.rows, after.newRows)

theorem eq_of_alike {count : Nat} {left right : CRow}
    (alike : CRow.Alike count [] [] count left right) : left = right := by
  have split := List.take_append_drop count left.data
  rw [alike.front, alike.leftBack, ← alike.rightBack,
    List.take_append_drop] at split
  obtain ⟨table, data⟩ := left
  obtain ⟨table', data'⟩ := right
  have tables : table = table' := alike.table
  rw [tables]
  exact congrArg (CRow.mk table') split.symm

theorem rows_eq_of_alike {count : Nat} {left right : List CRow}
    (alike : List.Forall₂ (CRow.Alike count [] [] count) left right) :
    left = right := by
  induction alike with
  | nil => rfl
  | cons pair _ induction => rw [eq_of_alike pair, induction]

section Independence

variable {left right : CTable}

/-- Two states of one table decode an event with all its columns alike. -/
theorem delivery_congr {table : CTable}
    (leftKept : History.Kept table left) (rightKept : History.Kept table right)
    (full : table.row.data.length ≤ rlev.ncolumns)
    (valid : rlev.valid = true) (id : rlev.tableId = table.tableId) :
    left.delivery memory rlev = right.delivery memory rlev := by
  have same : left.toCTableMapLogEvent = right.toCTableMapLogEvent :=
    leftKept.event.trans rightKept.event.symm
  have leftId : left.tableId = rlev.tableId := by rw [id, leftKept.event]
  have rightId : right.tableId = rlev.tableId := by rw [id, rightKept.event]
  have positions := leftKept.row.positions.trans rightKept.row.positions.symm
  have leftLength := leftKept.row.length
  have rightLength := rightKept.row.length
  rw [List.length_map] at leftLength rightLength
  have start : RowsCursor.Alike rlev.ncolumns [] []
      (left.firstRound rlev) (right.firstRound rlev) := by
    refine ⟨rfl, rfl, ⟨?_, positions, rfl, ?_, ?_⟩, .nil, .nil⟩
    · exact leftKept.row.table.trans rightKept.row.table.symm
    · exact List.drop_eq_nil_of_le (leftLength.trans_le (by simpa using full))
    · exact List.drop_eq_nil_of_le (rightLength.trans_le (by simpa using full))
  have related : Exec.Related (RowsCursor.Alike rlev.ncolumns [] [])
      (left.updateRounds memory rlev rlev.rowsLen (left.firstRound rlev))
      (right.updateRounds memory rlev rlev.rowsLen (right.firstRound rlev)) := by
    rw [updateRounds_congr same]
    exact updateRounds_alike start
  unfold delivery update
  rw [if_neg (by simp [valid, leftId]), if_neg (by simp [valid, rightId])]
  change (left.updateRounds memory rlev rlev.rowsLen (left.firstRound rlev) >>=
      _) >>= _ =
    (right.updateRounds memory rlev rlev.rowsLen (right.firstRound rlev) >>=
      _) >>= _
  generalize left.updateRounds memory rlev rlev.rowsLen _ = ran at related ⊢
  generalize right.updateRounds memory rlev rlev.rowsLen _ = ran' at related ⊢
  cases related with
  | error fault => rfl
  | ok alike =>
      simp only [Exec.ok_bind, Exec.pure_eq_ok, alike.len,
        rows_eq_of_alike alike.rows, rows_eq_of_alike alike.newRows]

/-- For every table and any two histories of it, `update` comes to the same result
and the same rows for every rows event of the table with all its columns. -/
theorem update_independent {table : CTable} {before : CRowLogEvent}
    {size : Nat} {fmt : CFormatDescriptionLogEvent} (mapped : table.Mapped)
    (leftHistory : table.History left) (rightHistory : table.History right)
    (accepted : before.tune memory size fmt = .ok (0, rlev))
    (id : rlev.tableId = table.tableId)
    (count : rlev.ncolumns = table.columnCount)
    (used : 1 ≤ rlev.usedColumns1bitCount) :
    (left.update memory rlev).Settles ∧
      left.delivery memory rlev = right.delivery memory rlev := by
  have leftKept := leftHistory.kept mapped.1
  have rightKept := rightHistory.kept mapped.1
  constructor
  · exact update_settles (counted_of_accepted accepted)
      (CRowLogEvent.tune_valid accepted) (by rw [id, leftKept.event])
      (Or.inr (Or.inr (Or.inl used)))
  · exact delivery_congr leftKept rightKept (by rw [mapped.length, count])
      (CRowLogEvent.tune_valid accepted) id

/-- A TABLE_MAP event of a table with one TINYINT column. -/
def oneTinyMap : Bytes :=
  [0, 0, 0, 0, 19] ++ List.replicate 14 0 ++
    [1, 0, 0, 0, 0, 0, 1, 0, 1, 100, 0, 1, 116, 0, 1, 1, 0, 1]

/-- What `tune` makes of it. -/
def mappedTiny : CTable where
  tableId := 1
  data := oneTinyMap
  size := 37
  dbName := [100]
  tableName := [116]
  columnCount := 1
  columnTypes := some 34
  row := ⟨some 0, [{ type := .tiny }]⟩
  tuned := true

/-- The row (7). -/
def sevenRow : CRow := ⟨some 0, [⟨.tiny, some 30, 1, 0, false, 0⟩]⟩

/-- The same table with this row. -/
def filledTiny : CTable :=
  { mappedTiny with row := sevenRow, rows := [sevenRow] }

/-- Two rows whose column is NULL. -/
def nullRows : Bytes := (oneTinyRows 1).take 29 ++ [1, 1]

theorem mappedTiny_mapped : mappedTiny.Mapped :=
  ⟨rfl, {}, 0, oneTinyMap, 37, .ofServer [53] false, rfl, by decide +kernel⟩

theorem mappedTiny_filled : mappedTiny.History filledTiny := by
  have run : mappedTiny.update (oneTinyRows 1)
      (oneTinyEvent 0x0100000000000001#64) = .ok (0, filledTiny) := by
    decide +kernel
  exact .updated .start run

theorem update_independent_oneTiny :
    (filledTiny.update nullRows
        (oneTinyEvent 0x0100000000000001#64)).Settles ∧
      filledTiny.delivery nullRows (oneTinyEvent 0x0100000000000001#64) =
        mappedTiny.delivery nullRows
          (oneTinyEvent 0x0100000000000001#64) := by
  have accepted : ({} : CRowLogEvent).tune nullRows 31 (.ofServer [53] false) =
      .ok (0, oneTinyEvent 0x0100000000000001#64) := by
    decide +kernel
  exact update_independent mappedTiny_mapped mappedTiny_filled .start accepted
    rfl rfl (by decide)

end Independence

end CTable

end MysqlSlave
