import MysqlSlave.PartialImage

/-!
# Columns with fractions of seconds

A TABLE_MAP event has a metadata byte for each TIMESTAMP2, TIME2 and DATETIME2
column, and a value of such a column is longer when it has fraction digits.  The
decoder skips the byte of a TIME2 column, so that every later column gets the
metadata of an earlier place, and it has one size for TIMESTAMP2 and TIME2.
-/

namespace MysqlSlave

open Region

namespace ColumnSpec

/-- The number of metadata bytes that the decoder takes for the column. -/
def bytesTaken (spec : ColumnSpec) : Nat :=
  CValue.calcMetadataSize (.ofCode spec.code)

/-- A column that has fraction digits only in a type whose size the decoder takes
from the metadata. -/
def SizeKnown : ColumnSpec → Prop
  | timestamp2 fsp => fsp = 0
  | time2 fsp => fsp = 0
  | _ => True

def isTime2 : ColumnSpec → Bool
  | time2 _ => true
  | _ => false

/-- Only of a TIME2 column is a metadata byte left. -/
theorem bytesTaken_add (spec : ColumnSpec) :
    spec.bytesTaken + spec.isTime2.toNat = spec.metadataBytes.length := by
  by_cases supported : spec.Supported
  · have other : spec.isTime2 = false := by
      cases spec with
      | time2 fsp => cases supported
      | _ => rfl
    rw [other, Bool.toNat_false, Nat.add_zero]
    exact calcMetadataSize_code supported
  · cases spec with
    | timestamp2 fsp => rfl
    | time2 fsp => rfl
    | _ => exact absurd trivial supported

theorem bytesTaken_le (spec : ColumnSpec) :
    spec.bytesTaken ≤ spec.metadataBytes.length := by
  have taken := spec.bytesTaken_add
  omega

end ColumnSpec

/-- The columns that the decoder sees when it takes their metadata one after the
other from `bytes`. -/
def columnsTaken : List ColumnSpec → Bytes → List Column
  | [], _ => []
  | spec :: specs, bytes =>
      (.ofCode spec.code, littleEndian (bytes.take spec.bytesTaken)) ::
        columnsTaken specs (bytes.drop spec.bytesTaken)

/-- Every column that is not NULL gets its own metadata from `bytes`, and has a
size that the decoder knows. -/
def MetadataTaken : List ColumnSpec → List Cell → Bytes → Prop
  | spec :: specs, cell :: cells, bytes =>
      (cell.hasField = true →
        littleEndian (bytes.take spec.bytesTaken) =
            littleEndian spec.metadataBytes ∧
          spec.SizeKnown) ∧
        MetadataTaken specs cells (bytes.drop spec.bytesTaken)
  | _, _, _ => True

/-- The metadata of the column at index `i` less one byte for each TIME2 column in
front of it. -/
def metadataPlace (specs : List ColumnSpec) (i : Nat) : Nat :=
  ((specs.take i).flatMap ColumnSpec.metadataBytes).length -
    (specs.take i).countP ColumnSpec.isTime2

/-- Every column that is not NULL has a size that the decoder knows and, a TIME2
column apart, finds its own metadata as many bytes too early in the metadata of
the table as there are TIME2 columns in front of it. -/
def MetadataInPlace (specs : List ColumnSpec) (cells : List Cell) : Prop :=
  ∀ i spec cell, specs[i]? = some spec → cells[i]? = some cell →
    cell.hasField = true →
    spec.SizeKnown ∧
      (spec.isTime2 = false →
        ((specs.flatMap ColumnSpec.metadataBytes).drop
          (metadataPlace specs i)).take spec.metadataBytes.length =
            spec.metadataBytes)

/-- The table was tuned with a TABLE_MAP event for these columns. -/
structure CTable.HoldsSchema (tuned : CTable) (specs : List ColumnSpec)
    (columnTypes : Nat) : Prop where
  count : tuned.columnCount = specs.length
  types : tuned.columnTypes = some columnTypes
  typesStored : Stored tuned.data columnTypes (specs.map ColumnSpec.code)
  metadata :
    tuned.MetadataAt tuned.metadata (specs.flatMap ColumnSpec.metadataBytes)

theorem bytesTaken_sum (specs : List ColumnSpec) :
    (specs.map ColumnSpec.bytesTaken).sum + specs.countP ColumnSpec.isTime2 =
      (specs.flatMap ColumnSpec.metadataBytes).length := by
  induction specs with
  | nil => rfl
  | cons spec specs induction =>
      have taken := spec.bytesTaken_add
      rw [List.map_cons, List.sum_cons, List.flatMap_cons, List.length_append,
        ← induction, ← taken]
      cases time2 : spec.isTime2 with
      | false =>
          rw [List.countP_cons_of_neg (by simp [time2]), Bool.toNat_false]
          omega
      | true =>
          rw [List.countP_cons_of_pos time2, Bool.toNat_true]
          omega

theorem metadataTaken_iff {specs : List ColumnSpec} {cells : List Cell}
    {bytes : Bytes} :
    MetadataTaken specs cells bytes ↔
      ∀ i spec cell, specs[i]? = some spec → cells[i]? = some cell →
        cell.hasField = true →
        littleEndian ((bytes.drop
            ((specs.take i).map ColumnSpec.bytesTaken).sum).take
              spec.bytesTaken) = littleEndian spec.metadataBytes ∧
          spec.SizeKnown := by
  induction specs generalizing cells bytes with
  | nil => simp [MetadataTaken]
  | cons spec specs induction =>
      cases cells with
      | nil => simp [MetadataTaken]
      | cons cell cells =>
          rw [MetadataTaken, induction]
          constructor
          · intro taken i other otherCell specAt cellAt
            cases i with
            | zero =>
                cases specAt
                cases cellAt
                exact taken.1
            | succ i =>
                have later := taken.2 i other otherCell specAt cellAt
                rwa [List.drop_drop] at later
          · intro taken
            refine ⟨taken 0 spec cell rfl rfl, ?_⟩
            intro i other otherCell specAt cellAt
            have later := taken (i + 1) other otherCell specAt cellAt
            rwa [List.drop_drop]

theorem metadataInPlace_iff {specs : List ColumnSpec} {cells : List Cell} :
    MetadataTaken specs cells (specs.flatMap ColumnSpec.metadataBytes) ↔
      MetadataInPlace specs cells := by
  rw [metadataTaken_iff, MetadataInPlace]
  refine forall_congr' fun i => forall_congr' fun spec =>
    forall_congr' fun cell => forall_congr' fun specAt =>
      forall_congr' fun _ => forall_congr' fun _ => ?_
  have place : ((specs.take i).map ColumnSpec.bytesTaken).sum =
      metadataPlace specs i := by
    have taken := bytesTaken_sum (specs.take i)
    unfold metadataPlace
    omega
  have taken := spec.bytesTaken_add
  rw [place]
  cases time2 : spec.isTime2 with
  | true =>
      cases spec with
      | time2 fsp =>
          constructor
          · intro both
            exact ⟨both.2, nofun⟩
          · intro both
            have zero : fsp = 0 := both.1
            subst zero
            exact ⟨rfl, rfl⟩
      | _ => cases time2
  | false =>
      rw [time2, Bool.toNat_false, Nat.add_zero] at taken
      rw [taken]
      have inside := List.getElem?_eq_some_iff.mp specAt
      obtain ⟨short, here⟩ := inside
      have split : specs.flatMap ColumnSpec.metadataBytes =
          (specs.take i).flatMap ColumnSpec.metadataBytes ++
            (spec.metadataBytes ++
              (specs.drop (i + 1)).flatMap ColumnSpec.metadataBytes) := by
        rw [← List.flatMap_cons, ← here, ← List.drop_eq_getElem_cons short,
          ← List.flatMap_append, List.take_append_drop]
      have room : metadataPlace specs i + spec.metadataBytes.length ≤
          (specs.flatMap ColumnSpec.metadataBytes).length := by
        rw [split]
        unfold metadataPlace
        simp only [List.length_append]
        omega
      have length : (((specs.flatMap ColumnSpec.metadataBytes).drop
          (metadataPlace specs i)).take spec.metadataBytes.length).length =
            spec.metadataBytes.length := by
        rw [List.length_take, List.length_drop]
        omega
      constructor
      · intro both
        exact ⟨both.2, fun _ => littleEndian_inj length both.1⟩
      · intro both
        exact ⟨congrArg littleEndian (both.2 rfl), both.1⟩

theorem columnsTaken_length (specs : List ColumnSpec) (bytes : Bytes) :
    (columnsTaken specs bytes).length = specs.length := by
  induction specs generalizing bytes with
  | nil => rfl
  | cons spec specs induction => simp [columnsTaken, induction]

theorem CTable.hasColumnsFrom_taken {self : CTable} {specs : List ColumnSpec}
    {bytes : Bytes} {i columnTypes : Nat} {pmetadata : Option Nat}
    (types : self.columnTypes = some columnTypes)
    (typesStored :
      Stored self.data (columnTypes + i) (specs.map ColumnSpec.code))
    (metadata : self.MetadataAt pmetadata bytes)
    (enough : (specs.flatMap ColumnSpec.metadataBytes).length ≤ bytes.length) :
    self.HasColumnsFrom (columnsTaken specs bytes) i pmetadata := by
  induction specs generalizing bytes i pmetadata with
  | nil => trivial
  | cons spec specs induction =>
      rw [List.flatMap_cons, List.length_append] at enough
      have taken := spec.bytesTaken_le
      have split : bytes = bytes.take spec.bytesTaken ++
          bytes.drop spec.bytesTaken :=
        (List.take_append_drop _ _).symm
      have length : (bytes.take spec.bytesTaken).length = spec.bytesTaken := by
        rw [List.length_take]
        omega
      rw [split] at metadata
      obtain ⟨behind, read, later⟩ := readMetadata_at metadata
      rw [length] at read
      refine ⟨behind, ?_, read, ?_⟩
      · simp [columnType, types, readByte_of_stored typesStored]
      · apply induction
        · exact typesStored.tail.relocate (by omega)
        · exact later
        · rw [List.length_drop]
          omega

theorem CTable.HoldsSchema.hasColumns {self : CTable}
    {specs : List ColumnSpec} {columnTypes : Nat}
    (schema : self.HoldsSchema specs columnTypes) :
    self.HasColumns
      (columnsTaken specs (specs.flatMap ColumnSpec.metadataBytes)) := by
  constructor
  · rw [columnsTaken_length, schema.count]
  · exact hasColumnsFrom_taken schema.types schema.typesStored schema.metadata
      (Nat.le_refl _)

section Fields

variable {memory behind : Bytes} {spec : ColumnSpec} {payload : Bytes}
  {address : Nat}

theorem ColumnSpec.framed_store (pos : Nat) (valid : spec.Valid)
    (known : spec.SizeKnown) (holds : spec.layout.Holds payload)
    (stored : Stored memory address (spec.layout.encode payload ++ behind))
    (room : 0 < behind.length)
    (small : (spec.layout.encode payload).length < 4294967296) :
    CValue.calcFieldSize spec.column.1 memory address spec.column.2 =
        .ok (spec.layout.encode payload).length ∧
      (CValue.blank pos).tune spec.column.1 memory address spec.column.2
          (spec.layout.encode payload).length =
        .ok (spec.decoded (.field payload) address pos) := by
  by_cases supported : spec.Supported
  · constructor
    · exact calcFieldSize_store valid supported holds stored room small
    · exact tune_store pos valid supported holds stored
  · cases spec with
    | timestamp2 fsp => exact absurd known supported
    | time2 fsp =>
        have zero : fsp = 0 := known
        subst zero
        have three : payload.length = 3 := holds
        have encoded : ((time2 0).layout.encode payload).length = 3 := three
        constructor
        · rw [encoded]
          rfl
        · rw [encoded, decoded, three]
          rfl
    | _ => exact absurd trivial supported

theorem CValue.tune_metadata {self value : CValue} {type : EColumnType}
    {metadata length : Nat}
    (tuned : self.tune type memory address metadata length = .ok value) :
    value.metadata = metadata := by
  unfold CValue.tune at tuned
  dsimp only at tuned
  split at tuned
  · split at tuned
    · split at tuned
      · cases tuned
        rfl
      · cases tuned
        rfl
    all_goals
      cases tuned
      rfl
  · split at tuned
    · obtain ⟨len, _, result⟩ := Exec.bind_eq_ok.mp tuned
      cases result
      rfl
    · obtain ⟨len, _, result⟩ := Exec.bind_eq_ok.mp tuned
      cases result
      rfl
  · split at tuned
    · obtain ⟨len, _, result⟩ := Exec.bind_eq_ok.mp tuned
      cases result
      rfl
    · cases tuned
      rfl
  · cases tuned
    rfl

end Fields

/-- With the metadata in place every field of a stored row is framed, and the row
decodes to itself. -/
theorem storeRow_taken {memory behind : Bytes} {columns : List ColumnSpec}
    {cells : List Cell} {bytes : Bytes} {address : Nat} (pos : Nat)
    (valid : ∀ column ∈ columns, column.Valid)
    (inPlace : MetadataTaken columns cells bytes)
    (fits : RowFits columns cells)
    (stored :
      Stored memory address (fieldsOf (storeRow columns cells) ++ behind))
    (room : 0 < behind.length)
    (small : (fieldsOf (storeRow columns cells)).length < 4294967296) :
    Sized memory (columnsTaken columns bytes) (storeRow columns cells)
        address ∧
      imageValues memory (columnsTaken columns bytes)
          (storeRow columns cells) address pos =
        .ok (decodedRow columns cells address pos) := by
  induction columns generalizing cells bytes address pos with
  | nil =>
      cases cells with
      | nil => exact ⟨trivial, rfl⟩
      | cons cell cells => cases fits
  | cons column columns induction =>
      cases cells with
      | nil => cases fits
      | cons cell cells =>
      simp only [storeRow, List.zipWith_cons_cons, fieldsOf_cons,
        List.append_assoc, List.length_append] at stored small
      obtain ⟨sizedTail, decodedTail⟩ := induction (pos + 1)
        (fun other member => valid other (List.mem_cons_of_mem _ member))
        inPlace.2 fits.2 stored.right (by unfold storeRow; omega)
      have head : ∀ payload, cell = .field payload →
          0 < (column.layout.encode payload).length ∧
            CValue.calcFieldSize (.ofCode column.code) memory address
                (littleEndian (bytes.take column.bytesTaken)) =
              .ok (column.layout.encode payload).length ∧
            (CValue.blank pos).tune (.ofCode column.code) memory address
                (littleEndian (bytes.take column.bytesTaken))
                (column.layout.encode payload).length =
              .ok (column.decoded cell address pos) := by
        intro payload same
        subst same
        have columnValid := valid column List.mem_cons_self
        have holds := fits.1 payload rfl
        obtain ⟨own, known⟩ := inPlace.1 rfl
        rw [own]
        refine ⟨ColumnSpec.encode_pos columnValid holds,
          ColumnSpec.framed_store pos columnValid known holds stored ?_ ?_⟩
        · simp only [List.length_append]
          omega
        · simp only [ColumnSpec.store, Cell.bytes] at small
          omega
      constructor
      · refine ⟨?_, sizedTail⟩
        intro field isField
        cases cell with
        | absent => cases isField
        | null => cases isField
        | field payload =>
            cases isField
            obtain ⟨positive, size, _⟩ := head payload rfl
            exact ⟨positive, size⟩
      · have value : cellValue memory
            (.ofCode column.code,
              littleEndian (bytes.take column.bytesTaken))
            (column.store cell) address pos =
            .ok (column.decoded cell address pos) := by
          cases cell with
          | absent => rfl
          | null => rfl
          | field payload => exact (head payload rfl).2.2
        rw [storeRow] at decodedTail
        simp only [columnsTaken, storeRow, List.zipWith_cons_cons,
          imageValues, value, Exec.ok_bind, decodedTail, decodedRow,
          Exec.pure_eq_ok]

/-- A framed value that is the decoded form of its cell has its own metadata and a
size that the decoder knows. -/
theorem ColumnSpec.known_of_framed {memory payload : Bytes} {spec : ColumnSpec}
    {metadata data address length pos : Nat} (holds : spec.layout.Holds payload)
    (size : CValue.calcFieldSize (.ofCode spec.code) memory data metadata =
      .ok length)
    (tuned : (CValue.blank pos).tune (.ofCode spec.code) memory data metadata
      length = .ok (spec.decoded (.field payload) address pos)) :
    metadata = littleEndian spec.metadataBytes ∧ spec.SizeKnown := by
  have own := CValue.tune_metadata tuned
  constructor
  · exact own.symm
  · cases spec with
    | timestamp2 fsp =>
        have bytes : payload.length = 4 + (fsp + 1) / 2 := holds
        cases size
        have same := congrArg CValue.size (Except.ok.inj tuned)
        have four : 4 = payload.length := same
        show fsp = 0
        omega
    | time2 fsp =>
        have bytes : payload.length = 3 + (fsp + 1) / 2 := holds
        cases size
        have same := congrArg CValue.size (Except.ok.inj tuned)
        have three : 3 = payload.length := same
        show fsp = 0
        omega
    | _ => trivial

theorem Walk.metadataTaken {memory : Bytes} {columns : List ColumnSpec}
    {cells : List Cell} {bytes : Bytes} {pos address data final : Nat}
    (fits : RowFits columns cells)
    (walk : Walk memory (columnsTaken columns bytes) pos
      (decodedRow columns cells address pos) data final) :
    MetadataTaken columns cells bytes := by
  induction columns generalizing cells bytes pos address data with
  | nil => trivial
  | cons column columns induction =>
      cases cells with
      | nil => cases fits
      | cons cell cells =>
      rw [columnsTaken, decodedRow] at walk
      generalize first : column.decoded cell address pos = value at walk
      cases walk with
      | skip _ later =>
          refine ⟨?_, induction fits.2 later⟩
          intro hasField
          cases cell with
          | absent => cases hasField
          | null => cases hasField
          | field payload =>
              have notNull := congrArg CValue.null first
              cases notNull
      | frame size tuned later =>
          refine ⟨?_, induction fits.2 later⟩
          intro hasField
          cases cell with
          | absent => cases hasField
          | null => cases hasField
          | field payload =>
              rw [← first] at tuned
              exact ColumnSpec.known_of_framed (fits.1 payload rfl) size tuned

/-- For every table and every full row image: the decoder gives the row of the
image exactly when the TIME2 columns in front of a column that is not NULL do not
shift its metadata, and no TIMESTAMP2 or TIME2 column that is not NULL has
fraction digits. -/
theorem updateImage_fractional_iff {self : CTable} {table : TableSpec}
    {image : RowImage table} {row : CRow} {rlev : CRowLogEvent}
    {memory behind : Bytes} {padding : List Bool}
    {pfields rest columnTypes : Nat}
    (schema : self.HoldsSchema table.columns columnTypes)
    (full : image.Full) (framed : row.Framed table.columns.length)
    (ncolumns : rlev.ncolumns = table.columns.length)
    (pads : Bitmap.Pads (List.replicate table.columns.length true) padding)
    (packed : rlev.packedUsedColumns = CRowLogEvent.updateN1bits
      (BitVec.ofNat 64 (littleEndian
        (Bitmap.encode (List.replicate table.columns.length true) padding))))
    (stored : Stored memory pfields (image.encode ++ behind))
    (room : 0 < behind.length)
    (small : image.encode.length + rest < 4294967296) :
    self.updateImage memory rlev row pfields (image.encode.length + rest)
        rlev.usedColumns1bitCount rlev.usedColumnsMask =
        .ok { rc := 0, row := ⟨row.table, image.decoded pfields⟩
              pdata := pfields + image.encode.length, len := rest } ↔
      MetadataInPlace table.columns image.cells := by
  have few := table.few
  have mask : FullMask table.columns.length rlev.usedColumns1bitCount
      rlev.usedColumnsMask := by
    rw [CRowLogEvent.usedColumnsMask_eq]
    exact fullMask_of_encode pads table.nonempty few packed
  have nullsLength := RowImage.nullBitmap_length_full full mask
  have storedCount := storeRow_length image.fits
  have hasColumns := schema.hasColumns
  have columnCount := columnsTaken_length table.columns
    (table.columns.flatMap ColumnSpec.metadataBytes)
  have lengths := image.encode_length
  have pieces := RowImage.encode_pieces stored
  constructor
  · intro run
    obtain ⟨nulls, built, rowRun⟩ := Exec.bind_eq_ok.mp run
    obtain ⟨bits, _, same⟩ :=
      CRowLogEvent.buildColumnMask_eq_ok mask.some mask.few built
    rw [ncolumns, ← columnCount, same] at rowRun
    have walk := CTable.updateRow_walk hasColumns (by omega)
      (by rw [columnCount]; exact framed) rowRun
    exact metadataInPlace_iff.mp (walk.metadataTaken image.fits)
  · intro inPlace
    obtain ⟨sized, decoded⟩ := storeRow_taken 0 table.valid
      (metadataInPlace_iff.mpr inPlace) image.fits pieces.right room (by omega)
    have split := congrArg (· + rest) lengths
    have run := CTable.updateImage_inPlace hasColumns
      (by rw [columnCount]; omega) (by rw [columnCount]; exact framed)
      (by rw [columnCount]; exact ncolumns)
      (by rw [columnCount]; exact storedCount) mask.some mask.few nullsLength
      pieces.left split (by omega) (RowImage.usedBits_full full mask) sized
      (RowImage.inPlace_full full rest) decoded
    have behindImage : pfields + image.encode.length =
        pfields + image.nullBitmap.length +
          (fieldsOf (storeRow table.columns image.cells)).length := by
      rw [lengths, Nat.add_assoc]
    rw [behindImage]
    exact run

/-- A table with a DATETIME2(3) and a TINYINT column. -/
def momentTable : TableSpec where
  columns := [.datetime2 3, .tiny]
  nonempty := by decide
  few := by decide
  valid := by simp [ColumnSpec.Valid]

/-- The table after `tune`. -/
def momentTuned : CTable where
  data := [18, 1, 3]
  columnCount := 2
  columnTypes := some 0
  metadataLength := 1
  metadata := some 2
  row := ⟨some 0, [.blank 0, .blank 1]⟩
  tuned := true

def momentImage : RowImage momentTable where
  cells := [.field [153, 126, 254, 16, 130, 0, 0], .field [5]]
  padding := []
  fits := by
    simp [RowFits, momentTable, ColumnSpec.layout, FieldLayout.Holds]
  pads := by decide

/-- An event on a table with two columns, both of which are present. -/
def twoColumnRows : CRowLogEvent where
  ncolumns := 2
  packedUsedColumns := CRowLogEvent.updateN1bits (BitVec.ofNat 64
    (littleEndian (Bitmap.encode (List.replicate 2 true) [])))
  valid := true

theorem moment_inPlace :
    MetadataInPlace momentTable.columns momentImage.cells := by
  intro i spec cell specAt cellAt hasField
  match i with
  | 0 =>
      cases specAt
      exact ⟨trivial, fun _ => rfl⟩
  | 1 =>
      cases specAt
      exact ⟨trivial, fun _ => rfl⟩
  | i + 2 => cases specAt

theorem updateImage_fractional_iff_moment :
    momentTuned.updateImage (momentImage.encode ++ [0]) twoColumnRows
        momentTuned.row 0 (momentImage.encode.length + 0)
        twoColumnRows.usedColumns1bitCount twoColumnRows.usedColumnsMask =
        .ok { rc := 0
              row := ⟨momentTuned.row.table, momentImage.decoded 0⟩
              pdata := 0 + momentImage.encode.length, len := 0 } := by
  have schema : momentTuned.HoldsSchema momentTable.columns 0 := by
    constructor
    · rfl
    · rfl
    · exact ⟨[], [3], rfl, rfl⟩
    · exact Or.inr ⟨2, rfl, [18, 1], [], rfl, rfl⟩
  have stored : Stored (momentImage.encode ++ [0]) 0
      (momentImage.encode ++ [0]) := ⟨[], [], by simp, rfl⟩
  have pads : Bitmap.Pads
      (List.replicate momentTable.columns.length true) [] := by decide
  have framed : momentTuned.row.Framed momentTable.columns.length := rfl
  have ncolumns : twoColumnRows.ncolumns = momentTable.columns.length := rfl
  exact (updateImage_fractional_iff schema (by decide) framed ncolumns pads rfl
    stored (by decide) (by decide)).mpr moment_inPlace

/-- A table with a TIME2(0) and a VARCHAR(10) column. -/
def timeTable : TableSpec where
  columns := [.time2 0, .varchar 10]
  nonempty := by decide
  few := by decide
  valid := by simp [ColumnSpec.Valid]

/-- The table after `tune`. -/
def timeTuned : CTable where
  data := [19, 15, 0, 10, 0]
  columnCount := 2
  columnTypes := some 0
  metadataLength := 3
  metadata := some 2
  row := ⟨some 0, [.blank 0, .blank 1]⟩
  tuned := true

def timeImage : RowImage timeTable where
  cells := [.field [128, 0, 0], .field [97]]
  padding := []
  fits := by
    simp [RowFits, timeTable, ColumnSpec.layout, FieldLayout.Holds]
  pads := by decide

/-- The VARCHAR column gets the metadata byte of the TIME2 column and the first one
of its own, and is read with two length bytes instead of one. -/
theorem not_updateImage_time :
    timeTuned.HoldsSchema timeTable.columns 0 ∧ timeImage.Full ∧
      timeTuned.updateImage (timeImage.encode ++ [0]) twoColumnRows
          timeTuned.row 0 timeImage.encode.length
          twoColumnRows.usedColumns1bitCount twoColumnRows.usedColumnsMask ≠
        .ok { rc := 0, row := ⟨timeTuned.row.table, timeImage.decoded 0⟩
              pdata := timeImage.encode.length, len := 0 } := by
  refine ⟨?_, by decide, by decide +kernel⟩
  constructor
  · rfl
  · rfl
  · exact ⟨[], [0, 10, 0], rfl, rfl⟩
  · exact Or.inr ⟨2, rfl, [19, 15], [], rfl, rfl⟩

end MysqlSlave
