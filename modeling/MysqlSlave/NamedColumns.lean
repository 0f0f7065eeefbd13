import MysqlSlave.RowRoundTrip
import MysqlSlave.ServerSchema
import MysqlSlave.TableInvariants

/-!
# Columns by name in a handler

Over a whole session the names of the columns stay what `prepare` has read, and
every row that a handler gets belongs to the table that it gets.
-/

namespace MysqlSlave

open Region

/-- The value of a row at the place that a list of columns has for a name. -/
def CRow.columnNamed (self : CRow) (columns : List (Bytes × Bytes))
    (name : Bytes) : CValue :=
  match columns.findIdx? fun column => folded column.1 = folded name with
  | none => {}
  | some i => self.data.getD i {}

theorem lastFor_columnEntries {columns : List (Bytes × Bytes)}
    (different : (columns.map fun column => folded column.1).Nodup)
    (name : Bytes) :
    (OrderedMap.lastFor caseIgnorer name (columnEntries columns)).map
        CColumnDesc.position =
      columns.findIdx? fun column => folded column.1 = folded name := by
  induction columns using List.reverseRecOn with
  | nil => rfl
  | append_singleton columns column induction =>
      rw [List.map_append, List.nodup_append] at different
      obtain ⟨earlier, _, apart⟩ := different
      have entries : columnEntries (columns ++ [column]) =
          columnEntries columns ++
            [(column.1,
              ({} : CColumnDesc).update columns.length column.2)] := by
        simp [columnEntries, List.zipIdx_append]
      rw [entries, OrderedMap.lastFor_snoc, List.findIdx?_append,
        ← induction earlier]
      simp only [sameKey_caseIgnorer]
      by_cases same : folded column.1 = folded name
      · have none : OrderedMap.lastFor caseIgnorer name
            (columnEntries columns) = none := by
          rw [← Option.map_eq_none_iff, induction earlier,
            List.findIdx?_eq_none_iff]
          intro other member
          rw [decide_eq_false_iff_not, ← same]
          exact apart _ (List.mem_map_of_mem member) _ (by simp)
        simp [same, none]
      · simp [same]

theorem CRow.byName_of_holds {row : CRow} {this : Address}
    (holds : CTable.Holds this row) (tables : Address → CTable)
    (name : Bytes) :
    row.byName tables name =
      match ((tables this).findColumn name).map CColumnDesc.position with
      | none => {}
      | some i => row.data.getD i {} := by
  rcases holds.table with mine | empty
  · rw [CRow.byName, mine]
    dsimp only
    cases (tables this).findColumn name <;> rfl
  · have nothing : row.byName tables name = {} := by
      unfold CRow.byName
      split
      · rfl
      · split
        · rfl
        · rw [empty]
          rfl
    rw [nothing, empty]
    split <;> rfl

/-- The table has these columns, and its rows are its own. -/
structure CTable.Owned (this : Address)
    (names : OrderedMap Bytes CColumnDesc) (table : CTable) : Prop where
  columns : table.columns = names
  row : CTable.Holds this table.row
  rows : ∀ row ∈ table.rows, CTable.Holds this row
  newRows : ∀ row ∈ table.newRows, CTable.Holds this row

namespace CTable.Owned

variable {this : Address} {names : OrderedMap Bytes CColumnDesc}
  {table after : CTable}

theorem new (names : OrderedMap Bytes CColumnDesc) (this : Address) :
    Owned this names { columns := names } :=
  ⟨rfl, ⟨Or.inr rfl, Nat.zero_le _⟩, by simp, by simp⟩

theorem setTuned (owned : table.Owned this names) (tuned : Bool) :
    (table.setTuned tuned).Owned this names :=
  ⟨owned.columns, owned.row, owned.rows, owned.newRows⟩

theorem tune (owned : table.Owned this names) {data : Bytes} {size : Nat}
    {fmt : CFormatDescriptionLogEvent} {rc : Return}
    (run : table.tune this data size fmt = .ok (rc, after)) :
    after.Owned this names := by
  obtain ⟨columns, rows, newRows, row⟩ := tune_kept run owned.row
  refine ⟨columns.trans owned.columns, row, ?_, ?_⟩
  · rw [rows]
    exact owned.rows
  · rw [newRows]
    exact owned.newRows

theorem update (owned : table.Owned this names) {memory : Bytes}
    {rlev : CRowLogEvent} {rc : Int}
    (run : table.update memory rlev = .ok (rc, after)) :
    after.Owned this names := by
  cases update_updated run with
  | refused same =>
      rw [same]
      exact owned
  | decoded shaped same =>
      rw [same]
      exact ⟨owned.columns, owned.row.shaped shaped.row,
        fun other member => owned.row.shaped (shaped.rows other member),
        fun other member => owned.row.shaped (shaped.newRows other member)⟩

theorem invariant (names : Address → OrderedMap Bytes CColumnDesc) :
    Invariant fun this table => table.Owned this (names this) where
  setTuned tuned owned := owned.setTuned tuned
  tune owned run := owned.tune run
  update owned _ run := owned.update run

theorem called (owned : table.Owned this names) (type : LogEventType) :
    ∀ row ∈ (CLogParser.handlerCall type this table).rows, CTable.Holds this row := by
  intro row member
  unfold CLogParser.handlerCall at member
  split at member
  · exact owned.rows row member
  · split at member
    · rcases List.mem_append.mp member with new | old
      · exact owned.newRows row new
      · exact owned.rows row old
    · exact owned.rows row member

end CTable.Owned

namespace Conversation

open CLogParser

variable {calls : List Setup} {answers : Answers} {crc : Bytes → Nat}
  {final : Loop} {taken : List (Taken Loop Input Effect)}

/-- In every session, from the calls that set the parser up through `prepare` to
any step of the loop: a row that a handler gets gives for a name, in any mix of
letter case and from then on, the value at the place where the server has listed
that column of the table. -/
theorem rows_byName
    (done : ((fresh calls).prepare answers).2.exit = .done)
    (run : Run (Loop.step crc) ((fresh calls).prepare answers).1.loop taken
      final) :
    ∃ databases, answers.databases = some databases ∧
      ∀ next ∈ taken, ∀ call ∈ next.effect.calls,
        ∃ dbName tableName,
          (setUp calls).watched dbName tableName = some call.table ∧
          ∀ columns,
            listed databases (foldedName dbName tableName) = [columns] →
            (columns.map fun column => folded column.1).Nodup →
              ∀ row ∈ call.rows, ∀ name,
                row.byName final.parser.tables name =
                  row.columnNamed columns name := by
  obtain ⟨sees, unmapped, new, databases, given, described⟩ :=
    prepare_tables rfl done
  generalize ((fresh calls).prepare answers).1.loop = start at *
  have same : ∀ dbName tableName, start.parser.watched dbName tableName =
      (setUp calls).watched dbName tableName := by
    intro dbName tableName
    rw [watched, sees, ← watched]
  have owns : start.parser.Owns fun address table =>
      table.Owned address (start.parser.tables address).columns := by
    refine ⟨fun address => ?_, fun id address mapped => ?_⟩
    · obtain ⟨columns, table⟩ := new address
      rw [table]
      exact .new columns address
    · rw [unmapped] at mapped
      cases mapped
  obtain ⟨keeps, called⟩ := Loop.run_owns (CTable.Owned.invariant _) owns run
  refine ⟨databases, given, fun next member call made => ?_⟩
  obtain @⟨tbl, type, table, ⟨dbName, tableName, watched⟩, owned⟩ :=
    called next member call made
  have rows := owned.called type
  rw [handlerCall_table]
  rw [same] at watched
  refine ⟨dbName, tableName, watched, ?_⟩
  intro columns only different row inside name
  have described := described dbName tableName tbl watched
  rw [only, foldl_describe] at described
  have found : (final.parser.tables tbl).findColumn name =
      OrderedMap.lastFor caseIgnorer name (columnEntries columns) := by
    rw [CTable.findColumn, (keeps.tables tbl).columns, described]
    dsimp only
    rw [OrderedMap.find?_assignAll, List.flatMap_singleton]
    exact Option.or_none
  rw [CRow.byName_of_holds (rows row inside), found,
    lastFor_columnEntries different]
  rfl

/-- The TABLE_MAP event of `d.t` in this session. -/
def listedMapStep : Taken Loop Input Effect :=
  Loop.mapStep ((fresh watchPair).prepare listPair).1.loop pairMap

/-- An UPDATE event behind it. -/
def listedRowsStep : Taken Loop Input Effect :=
  Loop.rowsStep listedMapStep.after pairRows

theorem listedSteps_run :
    Run (Loop.step fun _ => 0) ((fresh watchPair).prepare listPair).1.loop
      [listedMapStep, listedRowsStep] listedRowsStep.after :=
  Loop.run_readStep _ (Loop.run_readStep _ .refl (by decide +kernel))
    (by decide +kernel)

/-- The column `ID` is found as `id`. -/
theorem rows_byName_pair :
    (listedRowsStep.effect.calls.flatMap HandlerCall.rows).length = 2 ∧
      (listedRowsStep.effect.calls.flatMap HandlerCall.rows).map
          (·.byName listedRowsStep.after.parser.tables [105, 100]) =
        (listedRowsStep.effect.calls.flatMap HandlerCall.rows).map
          (·.columnNamed pairColumns [105, 100]) := by
  refine ⟨by decide +kernel, List.map_congr_left fun row member => ?_⟩
  obtain ⟨call, made, inside⟩ := List.mem_flatMap.mp member
  obtain ⟨databases, given, named⟩ :=
    rows_byName (by decide +kernel) listedSteps_run
  cases given
  obtain ⟨dbName, tableName, watched, byName⟩ :=
    named listedRowsStep (by simp) call made
  have only : registerAll (watchPair.filterMap Setup.names) =
      [foldedName [100] [116]] := by decide
  have spelled : foldedName dbName tableName = foldedName [100] [116] := by
    have place := ((setUp_registers watchPair).watched ..).mp watched
    rw [only] at place
    exact List.mem_singleton.mp (List.mem_of_getElem? place)
  exact byName pairColumns (spelled ▸ rfl) (by decide) row inside _

end Conversation

end MysqlSlave
