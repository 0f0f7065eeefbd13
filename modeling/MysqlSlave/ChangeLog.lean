import MysqlSlave.FieldFraming
import MysqlSlave.Lib.Simulation
import MysqlSlave.LogParser
import MysqlSlave.RowRoundTrip

/-!
# The changes in a log

A log read plainly: a ROWS event is a list of changes of the table that the
TABLE_MAP event in front of it names.  `Delivery` is what an application has of a
handler call when it copies the values while the packet is in memory.
-/

namespace MysqlSlave

open Region

/-- A cell as an application sees it: nothing for NULL, and else the type and the
bytes. -/
abbrev ShownCell := Option (EColumnType × Bytes)

/-- The rows of one handler call. -/
structure Delivery where
  table : Address
  op : RowsOp
  rows : List (List ShownCell)
  newRows : List (List ShownCell) := []
  deriving DecidableEq, Repr

section Copies

/-- The copy of a value, taken by `as_blob`. -/
def CValue.copied (memory : Bytes) (value : CValue) : Exec ShownCell :=
  if value.isNull then .ok none
  else
    match value.asBlob with
    | (some start, size) => do
        let bytes ← readBytes memory start size
        return some (value.type, bytes)
    | (none, _) => .ok (some (value.type, []))

def CRow.copied (memory : Bytes) (row : CRow) : Exec (List ShownCell) :=
  row.data.mapM (CValue.copied memory)

def HandlerCall.copied (memory : Bytes) : HandlerCall → Exec Delivery
  | .onInsert table newrows => do
      let rows ← newrows.mapM (CRow.copied memory)
      return { table, op := .write, rows }
  | .onUpdate table newrows oldrows => do
      let rows ← oldrows.mapM (CRow.copied memory)
      let newRows ← newrows.mapM (CRow.copied memory)
      return { table, op := .update, rows, newRows }
  | .onDelete table rows => do
      let rows ← rows.mapM (CRow.copied memory)
      return { table, op := .delete, rows }

end Copies

section Shown

variable {table : TableSpec} {memory : Bytes}

def Cell.shown (column : ColumnSpec) : Cell → ShownCell
  | .field payload => some (column.realType, payload)
  | _ => none

def RowImage.shown (image : RowImage table) : List ShownCell :=
  List.zipWith Cell.shown table.columns image.cells

theorem copied_of_showsCell {column : ColumnSpec} {cell : Cell} {pos : Nat}
    {value : CValue} (shows : ShowsCell memory column cell pos value) :
    value.copied memory = .ok (cell.shown column) := by
  obtain ⟨_, shows⟩ := shows
  cases cell with
  | absent => simp [CValue.copied, show value.isNull = true from shows, Cell.shown]
  | null => simp [CValue.copied, show value.isNull = true from shows, Cell.shown]
  | field payload =>
      obtain ⟨notNull, type, start, storage, size, stored⟩ := shows
      have exposed := asBlob_eq notNull storage
      by_cases empty : value.size = 0
      · rw [if_pos empty] at exposed
        have nothing : payload = [] := by
          rw [size] at empty
          exact List.eq_nil_of_length_eq_zero empty
        simp [CValue.copied, notNull, exposed, Cell.shown, type, nothing]
      · rw [if_neg empty, size] at exposed
        simp [CValue.copied, notNull, exposed, readBytes_of_stored stored,
          Cell.shown, type]

theorem copied_of_shows {image : RowImage table} {row : CRow}
    (shows : Shows memory image row) :
    row.copied memory = .ok image.shown := by
  obtain ⟨length, values⟩ := shows
  have cells := image.fits.length
  refine Exec.mapM_eq_ok (List.forall₂_iff_get.mpr ⟨?_, ?_⟩)
  · rw [RowImage.shown, List.length_zipWith, length, cells, Nat.min_self]
  · intro i inside _
    have here : i < table.columns.length := length ▸ inside
    have column := List.getElem?_eq_getElem here
    have cell := List.getElem?_eq_getElem (cells.symm ▸ here)
    obtain ⟨value, at_, shown⟩ := values i _ _ column cell
    rw [List.getElem?_eq_getElem inside, Option.some.injEq] at at_
    have copied := copied_of_showsCell shown
    simpa [RowImage.shown, at_] using copied

theorem mapM_copied {images : List (RowImage table)} {rows : List CRow}
    (shown : List.Forall₂ (Shows memory) images rows) :
    rows.mapM (CRow.copied memory) = .ok (images.map RowImage.shown) := by
  refine Exec.mapM_eq_ok ?_
  rw [List.forall₂_map_right_iff]
  exact (shown.imp fun _ _ => copied_of_shows).flip

end Shown

/-- A ROWS event with all columns, the TABLE_MAP event it refers to, and the
changes it carries. -/
structure TableChanges where
  map : TableMapEvent
  event : RowsEvent
  table : TableSpec
  changes : List (RowChange table event.kind.op)
  describes : map.Describes table
  supported : ∀ column ∈ table.columns, column.Supported
  carries : event.CarriesFull changes
  sameId : event.tableId = map.tableId

/-- What an event of the log says.  `foreignRows` is a ROWS event of which only
the table id is known. -/
inductive MasterEvent
  | tableMap (map : TableMapEvent)
  | rows (change : TableChanges)
  | foreignRows (tableId : Nat)
  | other

/-- The TABLE_MAP event that an event is or refers to. -/
def MasterEvent.map? : MasterEvent → Option TableMapEvent
  | .tableMap map => some map
  | .rows change => some change.map
  | _ => none

/-- Two TABLE_MAP events of one definition of a table. -/
structure TableMapEvent.SameTable (left right : TableMapEvent) : Prop where
  tableId : left.tableId = right.tableId
  dbName : left.dbName = right.dbName
  tableName : left.tableName = right.tableName
  types : left.types = right.types
  metadata : left.metadata = right.metadata

theorem TableMapEvent.SameTable.symm {left right : TableMapEvent}
    (same : left.SameTable right) : right.SameTable left :=
  ⟨same.tableId.symm, same.dbName.symm, same.tableName.symm, same.types.symm,
    same.metadata.symm⟩

section Reading

variable (watched : Bytes → Bytes → Option Address)

/-- The watched table that the event names. -/
def TableMapEvent.target (map : TableMapEvent) : Option Address :=
  watched map.dbName map.tableName

def TableChanges.delivery (change : TableChanges) (tbl : Address) :
    Delivery where
  table := tbl
  op := change.event.kind.op
  rows := change.changes.map fun entry => entry.before.shown
  newRows := (change.changes.filterMap RowChange.after).map RowImage.shown

/-- What the event tells an application that watches these tables. -/
def MasterEvent.meaning : MasterEvent → List Delivery
  | .rows change => (change.map.target watched).toList.map change.delivery
  | _ => []

/-- The TABLE_MAP event of a table. -/
def MasterEvent.mapOf (tbl : Address) : MasterEvent → Option TableMapEvent
  | .tableMap map =>
      if map.target watched = some tbl then some map else none
  | _ => none

/-- The last TABLE_MAP event of a table. -/
def lastMap (tbl : Address) (log : List MasterEvent) :
    Option TableMapEvent :=
  (log.filterMap (MasterEvent.mapOf watched tbl)).getLast?

/-- An id stands for one definition of one table, and no two watched tables have
names that differ in case only. -/
structure WellNamed (log : List MasterEvent) : Prop where
  ids : ∀ left ∈ log.filterMap MasterEvent.map?,
    ∀ right ∈ log.filterMap MasterEvent.map?,
      left.tableId = right.tableId → left.SameTable right
  spelling : ∀ left ∈ log.filterMap MasterEvent.map?,
    ∀ right ∈ log.filterMap MasterEvent.map?, ∀ tbl,
      left.target watched = some tbl → right.target watched = some tbl →
        left.tableName = right.tableName
  foreign : ∀ tableId, .foreignRows tableId ∈ log →
    ∀ map ∈ log.filterMap MasterEvent.map?, map.tableId = tableId →
      map.target watched = none

/-- The last TABLE_MAP event of a table in front of a ROWS event is the one it
refers to. -/
structure Coherent (log : List MasterEvent) : Prop extends
    WellNamed watched log where
  announced : ∀ front change back, log = front ++ .rows change :: back →
    ∀ tbl, change.map.target watched = some tbl →
      ∃ map, lastMap watched tbl front = some map ∧ map.SameTable change.map

variable {watched}

theorem TableMapEvent.SameTable.target {left right : TableMapEvent}
    (same : left.SameTable right) :
    left.target watched = right.target watched := by
  rw [TableMapEvent.target, TableMapEvent.target, same.dbName, same.tableName]

/-- What is said about tables in a part of a well-named log is well named. -/
theorem WellNamed.of_subset {log part : List MasterEvent}
    (named : WellNamed watched log)
    (inside : ∀ event ∈ part, event = .other ∨ event ∈ log) :
    WellNamed watched part := by
  have maps : ∀ map ∈ part.filterMap MasterEvent.map?,
      map ∈ log.filterMap MasterEvent.map? := by
    intro map member
    obtain ⟨event, here, about⟩ := List.mem_filterMap.mp member
    rcases inside event here with rfl | there
    · cases about
    · exact List.mem_filterMap.mpr ⟨event, there, about⟩
  refine ⟨?_, ?_, ?_⟩
  · exact fun left leftMem right rightMem =>
      named.ids left (maps left leftMem) right (maps right rightMem)
  · exact fun left leftMem right rightMem =>
      named.spelling left (maps left leftMem) right (maps right rightMem)
  · intro tableId member map mapMem
    rcases inside _ member with impossible | there
    · cases impossible
    · exact named.foreign tableId there map (maps map mapMem)

theorem lastMap_snoc (tbl : Address) (log : List MasterEvent)
    (event : MasterEvent) :
    lastMap watched tbl (log ++ [event]) =
      (event.mapOf watched tbl).or (lastMap watched tbl log) := by
  rw [lastMap, List.filterMap_append, List.getLast?_append, lastMap]
  cases mapped : event.mapOf watched tbl with
  | none => simp [mapped]
  | some map => simp [mapped]

theorem mapOf_eq_some {tbl : Address} {event : MasterEvent}
    {map : TableMapEvent} :
    event.mapOf watched tbl = some map ↔
      event = .tableMap map ∧ map.target watched = some tbl := by
  cases event with
  | tableMap other =>
      simp only [MasterEvent.mapOf, Option.ite_none_right_eq_some,
        Option.some.injEq, MasterEvent.tableMap.injEq]
      constructor
      · rintro ⟨target, rfl⟩
        exact ⟨rfl, target⟩
      · rintro ⟨rfl, target⟩
        exact ⟨target, rfl⟩
  | _ => simp [MasterEvent.mapOf]

theorem lastMap_mem {tbl : Address} {log : List MasterEvent}
    {map : TableMapEvent} (last : lastMap watched tbl log = some map) :
    .tableMap map ∈ log ∧ map.target watched = some tbl := by
  have member := List.mem_of_getLast? last
  obtain ⟨event, inside, mapped⟩ := List.mem_filterMap.mp member
  obtain ⟨rfl, target⟩ := mapOf_eq_some.mp mapped
  exact ⟨inside, target⟩

end Reading

end MysqlSlave
