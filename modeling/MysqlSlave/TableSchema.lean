import MysqlSlave.EventFormat
import MysqlSlave.RowFormat

/-!
# The schema of a table

`CTable::tune` on a TABLE_MAP event: the table holds the columns the event
describes, and its row buffer is framed.
-/

namespace MysqlSlave

open Region

/-- The event describes the columns of the table. -/
structure TableMapEvent.Describes (event : TableMapEvent)
    (table : TableSpec) : Prop where
  types : event.types = table.columns.map ColumnSpec.code
  metadata : event.metadata = table.columns.flatMap ColumnSpec.metadataBytes

theorem ColumnSpec.calcMetadataSize_code {spec : ColumnSpec}
    (supported : spec.Supported) :
    CValue.calcMetadataSize (.ofCode spec.code) =
      spec.metadataBytes.length := by
  cases spec with
  | time2 fsp => cases supported
  | newdecimal precision scale =>
      simp [code, metadataBytes, EColumnType.ofCode, EColumnType.high,
        CValue.calcMetadataSize]
  | blob lengthBytes =>
      simp [code, metadataBytes, EColumnType.ofCode, EColumnType.high,
        CValue.calcMetadataSize]
  | char maxLength =>
      simp [code, metadataBytes, EColumnType.ofCode, EColumnType.high,
        CValue.calcMetadataSize]
  | enum packLength =>
      simp [code, metadataBytes, EColumnType.ofCode, EColumnType.high,
        CValue.calcMetadataSize]
  | set packLength =>
      simp [code, metadataBytes, EColumnType.ofCode, EColumnType.high,
        CValue.calcMetadataSize]
  | _ => rfl

namespace CTable

/-- The metadata cursor stands in front of `bytes`. -/
def MetadataAt (self : CTable) (pmetadata : Option Nat) (bytes : Bytes) :
    Prop :=
  bytes = [] ∨ ∃ p, pmetadata = some p ∧ Stored self.data p bytes

theorem readMetadata_at {self : CTable} {pmetadata : Option Nat}
    {front back : Bytes} (stands : self.MetadataAt pmetadata (front ++ back)) :
    ∃ behind, readMetadata self.data pmetadata front.length =
        .ok (littleEndian front, behind) ∧
      self.MetadataAt behind back := by
  cases front with
  | nil => exact ⟨pmetadata, rfl, stands⟩
  | cons byte rest =>
      rcases stands with none | ⟨p, pointer, stored⟩
      · simp at none
      · refine ⟨some (p + (rest.length + 1)), ?_, Or.inr ⟨_, rfl, stored.right⟩⟩
        have read := readLE_of_stored stored.left
        rw [List.length_cons] at read
        simp only [readMetadata, pointer, List.length_cons, read, Exec.ok_bind,
          Exec.pure_eq_ok]

theorem hasColumnsFrom_of_stored {self : CTable} {columns : List ColumnSpec}
    {i columnTypes : Nat} {pmetadata : Option Nat}
    (supported : ∀ column ∈ columns, column.Supported)
    (types : self.columnTypes = some columnTypes)
    (typesStored :
      Stored self.data (columnTypes + i) (columns.map ColumnSpec.code))
    (metadata : self.MetadataAt pmetadata
      (columns.flatMap ColumnSpec.metadataBytes)) :
    self.HasColumnsFrom (columns.map ColumnSpec.column) i pmetadata := by
  induction columns generalizing i pmetadata with
  | nil => trivial
  | cons column columns induction =>
      rw [List.flatMap_cons] at metadata
      obtain ⟨behind, read, later⟩ := readMetadata_at metadata
      refine ⟨behind, ?_, ?_, ?_⟩
      · simp [columnType, types, readByte_of_stored typesStored]
      · rw [ColumnSpec.calcMetadataSize_code
          (supported column List.mem_cons_self)]
        exact read
      · exact induction
          (fun other member => supported other (List.mem_cons_of_mem _ member))
          (typesStored.tail.relocate (by omega)) later

theorem hasColumns_of_parsed {self : CTable} {event : TableMapEvent}
    {table : TableSpec} {content : Bytes} (describes : event.Describes table)
    (supported : ∀ column ∈ table.columns, column.Supported)
    (parsed : event.Parsed content self.toCTableMapLogEvent)
    (placed : event.Placed content) :
    self.HasColumns (table.columns.map ColumnSpec.column) := by
  refine ⟨by rw [parsed.columnCount, describes.types]; simp, ?_⟩
  have types := placed.types
  have metadata := placed.metadata
  rw [describes.types] at types
  refine hasColumnsFrom_of_stored supported parsed.columnTypes
    (by rw [parsed.data]; exact types) ?_
  rw [MetadataAt, parsed.metadata, parsed.data, ← describes.metadata]
  by_cases none : event.metadata = []
  · exact Or.inl none
  · rw [if_pos (by simpa using none)]
    exact Or.inr ⟨_, rfl, metadata⟩

theorem tuneRow_framed {data : Bytes} {columnTypes todo i : Nat} {row : CRow}
    (length : row.data.length = i + todo)
    (front : (row.data.take i).map CValue.pos = List.range i)
    (readable : columnTypes + (i + todo) ≤ data.length) :
    ∃ row', tuneRow data columnTypes todo i row = .ok row' ∧
      row'.Framed (i + todo) ∧ row'.table = row.table := by
  induction todo generalizing i row with
  | zero =>
      refine ⟨row, rfl, ?_, rfl⟩
      rw [List.take_of_length_le (by omega)] at front
      exact front
  | succ todo induction =>
      obtain ⟨byte, read⟩ :
          ∃ byte, readByte data (columnTypes + i) = .ok byte :=
        ⟨_, readByte_eq_ok (by omega)⟩
      obtain ⟨value, valueAt⟩ : ∃ value, row.data[i]? = some value :=
        ⟨_, List.getElem?_eq_getElem (by omega)⟩
      let typed : CValue := { value with pos := i, type := .ofCode byte }
      let next : CRow := { row with data := row.data.set i typed }
      have modified : row.modifyAt i (fun value =>
          .ok { value with pos := i, type := .ofCode byte }) = .ok next := by
        simp [CRow.modifyAt, valueAt, next, typed]
      have nextFront :
          (next.data.take (i + 1)).map CValue.pos = List.range (i + 1) := by
        have inside : i < row.data.length := by omega
        rw [List.range_succ, ← front]
        simp [next, typed, List.take_add_one, inside, List.take_set_of_le]
      have nextLength : next.data.length = i + 1 + todo := by
        simp only [next, List.length_set]
        omega
      obtain ⟨row', run, framed, table⟩ :=
        induction nextLength nextFront (by omega)
      refine ⟨row', ?_, ?_, table⟩
      · simp only [tuneRow, read, Exec.ok_bind, modified, run]
      · rwa [Nat.add_right_comm, Nat.add_assoc] at framed

/-- What `tune` leaves in a table that had no schema. -/
structure TunedWith (event : TableMapEvent) (content : Bytes) (this : Address)
    (before after : CTable) : Prop where
  tuned : after.tuned = true
  parsed : event.Parsed content after.toCTableMapLogEvent
  framed : after.row.Framed event.types.length
  table : after.row.table = some this
  columns : after.columns = before.columns
  rows : after.rows = before.rows
  newRows : after.newRows = before.newRows

theorem tune_encode {self : CTable} {fmt : CFormatDescriptionLogEvent}
    {event : TableMapEvent} {memory checksum : Bytes} (this : Address)
    (untuned : self.tuned = false) (tuned : fmt.Tuned)
    (stored : Stored memory 0 (event.encode checksum))
    (trailer : checksum.length = fmt.trailerLen)
    (small : (event.encode checksum).length < 4294967296) :
    ∃ after,
      self.tune this memory (event.encode checksum).length fmt =
          .ok (.code 0, after) ∧
        TunedWith event (event.content checksum) this self after := by
  obtain ⟨result, run, parsed⟩ :=
    TableMapEvent.tune_encode tuned stored trailer (small.trans (by decide))
  have fits : ¬result.columnCount > maxRowSize := by
    have typesFit := event.typesFit
    rw [parsed.columnCount, maxRowSize]
    omega
  have placed := event.content_placed checksum
  have resized : ({ self.row with table := some this }.resize
      result.columnCount).data.length = 0 + result.columnCount := by
    simp only [CRow.resize, List.length_append, List.length_take,
      List.length_replicate]
    omega
  have readable : event.typesOffset + (0 + result.columnCount) ≤
      result.data.length := by
    have fits := placed.types.fits
    rw [parsed.columnCount, parsed.data]
    omega
  obtain ⟨row, rowRun, framed, table⟩ :=
    tuneRow_framed resized rfl readable
  rw [Nat.zero_add, parsed.columnCount] at framed
  simp only [tune, untuned, run, Exec.ok_bind, parsed.isValid, fits, if_false,
    and_self, if_true, parsed.columnTypes, Option.getD_some, rowRun,
    Exec.pure_eq_ok]
  exact ⟨_, rfl, rfl, parsed, framed, table, rfl, rfl, rfl⟩

end CTable

end MysqlSlave
