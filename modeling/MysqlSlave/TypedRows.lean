import MysqlSlave.ChangeStream
import MysqlSlave.TypedColumns

/-!
# What clients have stored

From the log to the accessors: whatever clients have put into the columns of the
watched tables, a handler that reads the rows of its call gets it back.
-/

namespace MysqlSlave

open Region

/-- What the accessors give for a cell: NULL where there is no field, and else
every value that the field stands for. -/
def CValue.Gives (value : CValue) (memory : Bytes) (column : ColumnSpec) :
    Cell → Prop
  | .field payload => value.isNull = false ∧
      ∀ datum : Datum column, datum.encode = payload →
        datum.GivenBack value memory
  | _ => value.isNull = true

/-- The row gives the cells of the image, each at its column. -/
structure CRow.GivesImage {table : TableSpec} (row : CRow) (memory : Bytes)
    (image : RowImage table) : Prop where
  length : row.data.length = table.columns.length
  cells : ∀ (i : Nat) (column : ColumnSpec) (cell : Cell),
    table.columns[i]? = some column → image.cells[i]? = some cell →
    ∃ value, row.data[i]? = some value ∧ value.pos = i ∧
      value.Gives memory column cell

section Decoded

variable {table : TableSpec} {op : RowsOp} {owner : Option Address}
  {short : Bytes} {last : UInt8}

/-- A field of the row has the metadata of its column. -/
def CRow.Described (table : TableSpec) (row : CRow) : Prop :=
  ∀ (i : Nat) (column : ColumnSpec) (value : CValue),
    table.columns[i]? = some column → row.data[i]? = some value →
    value.isNull = false → value.metadata = littleEndian column.metadataBytes

theorem decodedRow_metadata {columns : List ColumnSpec} {cells : List Cell}
    {address pos i : Nat} {column : ColumnSpec} {value : CValue}
    (columnAt : columns[i]? = some column)
    (valueAt : (decodedRow columns cells address pos)[i]? = some value)
    (notNull : value.isNull = false) :
    value.metadata = littleEndian column.metadataBytes := by
  induction columns generalizing cells address pos i with
  | nil => simp at columnAt
  | cons head columns induction =>
      cases cells with
      | nil => simp [decodedRow] at valueAt
      | cons cell cells =>
      cases i with
      | zero =>
          simp only [List.getElem?_cons_zero, Option.some.injEq, decodedRow]
            at columnAt valueAt
          subst columnAt valueAt
          cases cell with
          | field payload => rfl
          | absent => cases notNull
          | null => cases notNull
      | succ i =>
          simp only [List.getElem?_cons_succ, decodedRow] at columnAt valueAt
          exact induction columnAt valueAt

theorem described_decodedRows (changes : List (RowChange table op))
    (address : Nat) :
    ∀ row ∈ decodedRows owner changes address, row.Described table := by
  induction changes generalizing address with
  | nil => simp [decodedRows]
  | cons change changes induction =>
      intro row member
      rcases List.mem_cons.mp member with rfl | later
      · intro i column value columnAt valueAt
        exact decodedRow_metadata columnAt valueAt
      · exact induction _ row later

theorem described_decodedNewRows (changes : List (RowChange table op))
    (address : Nat) :
    ∀ row ∈ decodedNewRows owner changes address, row.Described table := by
  induction changes generalizing address with
  | nil => simp [decodedNewRows]
  | cons change changes induction =>
      intro row member
      rcases List.mem_append.mp member with here | later
      · rw [Option.mem_toList, Option.map_eq_some_iff] at here
        obtain ⟨image, _, rfl⟩ := here
        intro i column value columnAt valueAt
        exact decodedRow_metadata columnAt valueAt
      · exact induction _ row later

/-- A field that is shown without the last byte of the memory has a byte behind
it. -/
theorem gives_of_showsCell {column : ColumnSpec} {cell : Cell} {pos : Nat}
    {value : CValue} (shows : ShowsCell short column cell pos value)
    (described : value.isNull = false →
      value.metadata = littleEndian column.metadataBytes) :
    value.Gives (short ++ [last]) column cell := by
  obtain ⟨_, shows⟩ := shows
  cases cell with
  | absent => exact shows
  | null => exact shows
  | field payload =>
      obtain ⟨notNull, type, start, storage, size, before, after, rfl, at_⟩ :=
        shows
      have stored : Stored (before ++ payload ++ after ++ [last]) start
          payload :=
        ⟨before, after ++ [last], List.append_assoc _ _ _, at_⟩
      have behind : start + payload.length <
          (before ++ payload ++ after ++ [last]).length := by
        simp only [List.length_append, List.length_singleton]
        omega
      have null : value.null = false := (Bool.or_eq_false_iff.mp notNull).1
      refine ⟨notNull, ?_⟩
      rintro datum rfl
      exact datum.givenBack ⟨null, type, described notNull, size, start,
        storage, stored, behind⟩

theorem givesImage_of_shows {image : RowImage table} {row : CRow}
    (shows : Shows short image row) (described : row.Described table) :
    row.GivesImage (short ++ [last]) image := by
  refine ⟨shows.1, ?_⟩
  intro i column cell columnAt cellAt
  obtain ⟨value, valueAt, shown⟩ := shows.2 i column cell columnAt cellAt
  exact ⟨value, valueAt, shown.1, gives_of_showsCell shown
    (described i column value columnAt valueAt)⟩

theorem forall₂_givesImage {images : List (RowImage table)} {rows : List CRow}
    (shown : List.Forall₂ (Shows short) images rows)
    (described : ∀ row ∈ rows, row.Described table) :
    List.Forall₂ (fun image row => row.GivesImage (short ++ [last]) image)
      images rows := by
  induction shown with
  | nil => exact .nil
  | cons shows _ induction =>
      obtain ⟨here, later⟩ := List.forall_mem_cons.mp described
      exact .cons (givesImage_of_shows shows here) (induction later)

end Decoded

/-- The rows of the table give the changes. -/
structure CTable.GivesChange (table : CTable) (memory : Bytes)
    (change : TableChanges) : Prop where
  rows : List.Forall₂ (fun image row => row.GivesImage memory image)
    (change.changes.map RowChange.before) table.rows
  newRows : List.Forall₂ (fun image row => row.GivesImage memory image)
    (change.changes.filterMap RowChange.after) table.newRows

theorem CTable.Decodes.gives {table : CTable} {memory : Bytes}
    {change : TableChanges} (decodes : table.Decodes memory change) :
    table.GivesChange memory change := by
  obtain ⟨owner, address, behind, room, stored, rows, newRows⟩ := decodes
  obtain ⟨before, after, rfl, length⟩ := stored
  -- the images stand in the memory without its last byte
  obtain ⟨front, last, split⟩ : ∃ front last, behind ++ after =
      front ++ [last] := by
    have more : behind ++ after ≠ [] := List.append_ne_nil_of_left_ne_nil room _
    exact ⟨_, _, (List.dropLast_append_getLast more).symm⟩
  have memory : before ++ (encodeChanges change.changes ++ behind) ++ after =
      before ++ encodeChanges change.changes ++ front ++ [last] := by
    simp only [List.append_assoc, split]
  have images : Stored (before ++ encodeChanges change.changes ++ front) address
      (encodeChanges change.changes ++ []) :=
    ⟨before, front, by rw [List.append_nil], length⟩
  obtain ⟨shown, newShown⟩ := decodedRows_show owner images
  rw [memory]
  constructor
  · rw [rows]
    exact forall₂_givesImage shown (described_decodedRows _ _)
  · rw [newRows]
    exact forall₂_givesImage newShown (described_decodedNewRows _ _)

namespace Loop

variable {crc : Bytes → Nat} {start final : Loop}
  {taken : List (Taken Loop Input Effect)} {log : List MasterEvent}

/-- The step tells what has been put into the columns: for the changes of a
watched table there is one call, whose rows give them. -/
def Tells (watched : Bytes → Bytes → Option Address)
    (next : Taken Loop Input Effect) : MasterEvent → Prop
  | .rows change =>
      match change.map.target watched with
      | some tbl => ∃ table : CTable,
          next.effect.calls =
            [CLogParser.handlerCall change.event.kind.type tbl table] ∧
          table.GivesChange next.input.memory change
      | none => next.effect.calls = []
  | _ => next.effect.calls = []

/-- In every run that reads a coherent log, the handlers read what clients have
put into the columns of the watched tables. -/
theorem gives_values (fresh : start.parser.Fresh)
    (run : Run (step crc) start taken final)
    (reads : List.Forall₂ Reads taken log)
    (coherent : Coherent start.parser.watched log) :
    List.Forall₂ (Tells start.parser.watched) taken log := by
  refine (run_decodes fresh run reads coherent).imp fun next event decodes => ?_
  cases event with
  | rows change =>
      dsimp only [Decodes] at decodes
      dsimp only [Tells]
      split
      · rename_i tbl target
        rw [target] at decodes
        obtain ⟨table, calls, decodes⟩ := decodes
        exact ⟨table, calls, decodes.gives⟩
      · rename_i target
        rw [target] at decodes
        exact decodes
  | _ => exact decodes

/-- The INT value 1. -/
def oneInt : IntegerValue .long where
  signed := true
  number := 1
  fits := by decide

/-- The first column of the updated row is read as 1. -/
theorem gives_values_pair :
    ∃ (table : CTable) (row : CRow) (value : CValue),
      pairRowsStep.effect.calls = [.onUpdate 0 table.newRows table.rows] ∧
      table.rows = [row] ∧ row.data[0]? = some value ∧
      value.asSigned 32 pairRowsStep.input.memory = .ok 1 := by
  have told := gives_values (sampleLoop_prepared _ _).fresh pairSteps_run
    pairSteps_read (pairLog_coherent _)
  obtain ⟨_, rest⟩ := List.forall₂_cons.mp told
  have target : pairUpdate.map.target
      (sampleLoop false [([100], [116])]).parser.watched = some 0 := by
    decide
  have tells := (List.forall₂_cons.mp rest).1
  simp only [Tells, target] at tells
  obtain ⟨table, calls, given⟩ := tells
  have rows : List.Forall₂ (fun image row =>
      row.GivesImage pairRowsStep.input.memory image) [pairChange.before]
      table.rows := given.rows
  cases found : table.rows with
  | nil => rw [found] at rows; cases rows
  | cons row more =>
  rw [found] at rows
  obtain ⟨gives, none⟩ := List.forall₂_cons.mp rows
  obtain ⟨value, valueAt, _, _, back⟩ := gives.cells 0 .long
    (.field [1, 0, 0, 0]) rfl rfl
  have one := back (@Datum.integer .long oneInt (by decide)) (by decide)
  have single : table.rows = [row] := by
    rw [found, List.forall₂_nil_left_iff.mp none]
  exact ⟨table, row, value, calls, single, valueAt, one⟩

end Loop

end MysqlSlave
