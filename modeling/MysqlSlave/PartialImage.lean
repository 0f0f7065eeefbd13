import MysqlSlave.RowRoundTrip

/-!
# Partial row images

The null bitmap of a row image has one bit for each present column, but
`update_row` looks at the bit with the index of the column, and the size of the
bitmap comes from a count that includes the padding of the columns-present
bitmap.  The main theorem says for which images that makes no difference.
-/

namespace MysqlSlave

open Region

/-- What the column loop does to the columns it visits: each one is blanked, or
framed at the data cursor, which then moves behind the field. -/
inductive Walk (memory : Bytes) :
    List Column → Nat → List CValue → Nat → Nat → Prop where
  | nil (pos data : Nat) : Walk memory [] pos [] data data
  | skip {columns : List Column} {pos data final : Nat}
      {values : List CValue} (column : Column) :
      Walk memory columns (pos + 1) values data final →
      Walk memory (column :: columns) pos (.blank pos :: values) data final
  | frame {columns : List Column} {column : Column}
      {pos data final length : Nat} {value : CValue} {values : List CValue} :
      CValue.calcFieldSize column.1 memory data column.2 = .ok length →
      (CValue.blank pos).tune column.1 memory data column.2 length =
        .ok value →
      Walk memory columns (pos + 1) values (data + length) final →
      Walk memory (column :: columns) pos (value :: values) data final

namespace CTable

variable {self : CTable} {memory : Bytes} {used nulls : BitVec 64}

theorem updateColumns_walk {table : Option Address}
    {front back leftover : List CValue} {columns : List Column}
    {cursor final : RowCursor}
    (here : self.AtColumn table front back leftover columns cursor)
    (done : self.updateColumns memory used (~~~nulls) columns.length
      front.length cursor = .ok final) :
    ∃ values, final.row = ⟨table, front ++ values ++ leftover⟩ ∧
      Walk memory columns front.length values cursor.data final.data := by
  induction columns generalizing front back cursor with
  | nil =>
      have noBack : back = [] := by simpa using here.positions
      have row := here.row
      cases done
      exact ⟨[], by simpa [noBack] using row, .nil _ _⟩
  | cons column columns induction =>
      obtain ⟨next, first, done⟩ := Exec.bind_eq_ok.mp done
      obtain ⟨value, outcome, _, later⟩ := here.stepped first
      obtain ⟨values, finalRow, walk⟩ := induction later
        (by rw [List.length_append]; exact done)
      refine ⟨value :: values, by simp [finalRow], ?_⟩
      rw [List.length_append] at walk
      unfold columnOutcome at outcome
      split at outcome
      · obtain ⟨length, size, outcome⟩ := Exec.bind_eq_ok.mp outcome
        obtain ⟨framed, tuned, outcome⟩ := Exec.bind_eq_ok.mp outcome
        simp only [Exec.pure_eq_ok, Except.ok.injEq, Prod.mk.injEq] at outcome
        obtain ⟨rfl, data, _⟩ := outcome
        exact .frame size tuned (by rw [data]; exact walk)
      · simp only [Except.ok.injEq, Prod.mk.injEq] at outcome
        obtain ⟨rfl, data, _⟩ := outcome
        exact .skip _ (by rw [data]; exact walk)

theorem updateRow_walk {columns : List Column} {row : CRow}
    {pdata len : Nat} {result : RowUpdate}
    (hasColumns : self.HasColumns columns) (few : columns.length ≤ 64)
    (framed : row.Framed columns.length)
    (done : self.updateRow memory row pdata len columns.length used
      (~~~nulls) = .ok result) :
    Walk memory columns 0 result.row.data pdata result.pdata := by
  obtain ⟨final, columnsDone, returned⟩ := Exec.bind_eq_ok.mp done
  obtain ⟨values, finalRow, walk⟩ :=
    updateColumns_walk (atColumn_start hasColumns few framed pdata len)
      columnsDone
  cases returned
  have data : final.row.data = values := by simp [finalRow]
  rw [data]
  exact walk

end CTable

/-- The columns of a decoded row are right: a value is not null exactly where the
image has a field, and there it is the bytes of that field. -/
def OwnColumns : List ColumnSpec → List Cell → Nat → List CValue → Prop
  | column :: columns, cell :: cells, address, value :: values =>
      (value.isNull = false ↔ cell.hasField = true) ∧
        (∀ payload, cell = .field payload →
          value.storage = some (address + column.layout.prefixLength) ∧
            value.size = payload.length) ∧
        OwnColumns columns cells (address + (column.store cell).bytes.length)
          values
  | [], [], _, [] => True
  | _, _, _, _ => False

/-- The decoder has read the image, and nothing but the image. -/
structure DecodesImage {table : TableSpec} (image : RowImage table)
    (pfields rest : Nat) (result : CTable.RowUpdate) : Prop where
  columns : OwnColumns table.columns image.cells
    (pfields + image.nullBitmap.length) result.row.data
  pdata : result.pdata = pfields + image.encode.length
  len : result.len = rest

/-- The columns-present bitmap counts as many columns as the null bitmap has
bytes for, and the bits of the null bitmap are right at the indices of the
columns; `padding` belongs to the columns-present bitmap. -/
structure NullsInPlace {table : TableSpec} (image : RowImage table)
    (padding : List Bool) (rest : Nat) : Prop where
  bytes : Bitmap.byteCount ((presentBits image.cells ++ padding).count true) =
    Bitmap.byteCount (nullBits image.cells).length
  bits : InPlace (BitVec.ofNat 64 (littleEndian image.nullBitmap)) rest 0
    (storeRow table.columns image.cells)

section Columns

variable {memory : Bytes} {columns : List ColumnSpec} {cells : List Cell}

/-- Whatever stands at the cursor, a framed value is not null and points behind
the length bytes of its type. -/
theorem ColumnSpec.tune_points {spec : ColumnSpec} {pos data length : Nat}
    {value : CValue} (valid : spec.Valid)
    (tuned : (CValue.blank pos).tune spec.column.1 memory data spec.column.2
      length = .ok value) :
    value.isNull = false ∧
      value.storage = some (data + spec.layout.prefixLength) := by
  cases spec with
  | newdecimal precision scale =>
      rw [column_newdecimal valid.2.1 valid.2.2] at tuned
      cases tuned
      exact ⟨rfl, rfl⟩
  | enum packLength =>
      have real : (247 + 256 * packLength) % 256 = 247 := by omega
      rw [column_enum valid.2] at tuned
      simp only [CValue.tune, real, EColumnType.ofCode_enum] at tuned
      cases tuned
      exact ⟨rfl, rfl⟩
  | set packLength =>
      have real : (248 + 256 * packLength) % 256 = 248 := by omega
      rw [column_set valid.2] at tuned
      simp only [CValue.tune, real, EColumnType.ofCode_set] at tuned
      cases tuned
      exact ⟨rfl, rfl⟩
  | char maxLength =>
      have bounded : maxLength ≤ 255 := valid
      have real : (254 + 256 * maxLength) % 256 = 254 := by omega
      have short : ¬(254 + 256 * maxLength) / 256 > 255 := by omega
      rw [column_char valid] at tuned
      simp only [CValue.tune, real, EColumnType.ofCode_string, short,
        if_false] at tuned
      cases tuned
      exact ⟨rfl, rfl⟩
  | varchar maxLength =>
      rw [column_varchar valid] at tuned
      by_cases below : maxLength < 256
      · have short : maxLength ≤ 255 := by omega
        simp only [CValue.tune, below, if_true] at tuned
        obtain ⟨len, _, result⟩ := Exec.bind_eq_ok.mp tuned
        cases result
        simp [CValue.isNull, layout, FieldLayout.prefixLength, short]
      · have long : ¬maxLength ≤ 255 := by omega
        simp only [CValue.tune, below, if_false] at tuned
        obtain ⟨len, _, result⟩ := Exec.bind_eq_ok.mp tuned
        cases result
        simp [CValue.isNull, layout, FieldLayout.prefixLength, long]
  | blob lengthBytes =>
      rw [column_blob valid.2] at tuned
      simp only [CValue.tune, valid.1, valid.2, and_self, if_true] at tuned
      obtain ⟨len, _, result⟩ := Exec.bind_eq_ok.mp tuned
      cases result
      exact ⟨rfl, rfl⟩
  | _ =>
      cases tuned
      exact ⟨rfl, rfl⟩

/-- A walk that leaves the right columns either started at the image's first
field or had no field to read. -/
theorem Walk.start_of_own {pos address data final : Nat}
    {values : List CValue} (valid : ∀ column ∈ columns, column.Valid)
    (walk : Walk memory (columns.map ColumnSpec.column) pos values data final)
    (own : OwnColumns columns cells address values) :
    data = address ∨
      (fieldsOf (storeRow columns cells) = [] ∧ final = data) := by
  induction columns generalizing cells pos address data values with
  | nil =>
      cases walk
      cases cells with
      | nil => exact Or.inr ⟨rfl, rfl⟩
      | cons cell cells => cases own
  | cons column columns induction =>
      cases cells with
      | nil => cases walk <;> cases own
      | cons cell cells =>
      cases walk with
      | skip _ later =>
          obtain ⟨field, _, ownLater⟩ := own
          have noBytes : (column.store cell).bytes = [] := by
            cases cell with
            | absent => rfl
            | null => rfl
            | field payload => exact absurd (field.mpr rfl) (by simp)
          rw [noBytes] at ownLater
          rcases induction
            (fun other member => valid other (List.mem_cons_of_mem _ member))
            later ownLater with start | ⟨nothing, stays⟩
          · exact Or.inl start
          · refine Or.inr ⟨?_, stays⟩
            rw [storeRow] at nothing
            simp [storeRow, noBytes, nothing]
      | frame size tuned later =>
          obtain ⟨field, bytes, _⟩ := own
          obtain ⟨notNull, storage⟩ :=
            ColumnSpec.tune_points (valid column List.mem_cons_self) tuned
          have hasField := field.mp notNull
          cases cell with
          | absent => cases hasField
          | null => cases hasField
          | field payload =>
              have same := storage.symm.trans (bytes payload rfl).1
              simp only [Option.some.injEq] at same
              exact Or.inl (by omega)

theorem Walk.found_of_own {pos address data final : Nat}
    {values : List CValue} (valid : ∀ column ∈ columns, column.Valid)
    (walk : Walk memory (columns.map ColumnSpec.column) pos values data final)
    (own : OwnColumns columns cells address values) (i : Nat) (cell : Cell)
    (cellAt : (storeRow columns cells)[i]? = some cell) :
    ∃ value : CValue, values[i]? = some value ∧
      value.storage.isSome = cell.hasField := by
  induction columns generalizing cells pos address data values i with
  | nil => simp [storeRow] at cellAt
  | cons column columns induction =>
      cases cells with
      | nil => simp [storeRow] at cellAt
      | cons first cells =>
      have validLater : ∀ column ∈ columns, column.Valid :=
        fun other member => valid other (List.mem_cons_of_mem _ member)
      cases walk with
      | skip _ later =>
          obtain ⟨field, _, ownLater⟩ := own
          cases i with
          | zero =>
              obtain rfl : column.store first = cell := by
                simpa [storeRow] using cellAt
              refine ⟨_, rfl, ?_⟩
              rw [ColumnSpec.store_hasField]
              cases first with
              | absent => rfl
              | null => rfl
              | field payload => exact absurd (field.mpr rfl) (by simp)
          | succ i => exact induction validLater later ownLater i cellAt
      | frame size tuned later =>
          obtain ⟨field, _, ownLater⟩ := own
          cases i with
          | zero =>
              obtain rfl : column.store first = cell := by
                simpa [storeRow] using cellAt
              obtain ⟨notNull, storage⟩ :=
                ColumnSpec.tune_points (valid column List.mem_cons_self) tuned
              refine ⟨_, rfl, ?_⟩
              rw [ColumnSpec.store_hasField, storage, field.mp notNull]
              rfl
          | succ i => exact induction validLater later ownLater i cellAt

end Columns

theorem decodedRow_own {columns : List ColumnSpec} {cells : List Cell}
    (fits : RowFits columns cells) (address pos : Nat) :
    OwnColumns columns cells address (decodedRow columns cells address pos) := by
  induction columns generalizing cells address pos with
  | nil =>
      cases cells with
      | nil => trivial
      | cons cell cells => cases fits
  | cons column columns induction =>
      cases cells with
      | nil => cases fits
      | cons cell cells =>
          refine ⟨?_, ?_, induction fits.2 _ _⟩
          · have notNull := column.realType_ne_null
            cases cell <;>
              simp [ColumnSpec.decoded, Cell.hasField, CValue.isNull,
                CValue.blank, notNull]
          · rintro payload rfl
            exact ⟨rfl, rfl⟩

section Images

variable {self : CTable} {table : TableSpec} {image : RowImage table}
  {row : CRow} {rlev : CRowLogEvent} {memory behind : Bytes}
  {padding : List Bool} {pfields rest : Nat}

/-- What the null bitmap's size and the used bits are for a columns-present
bitmap with this padding. -/
theorem unpack_present (pads : Bitmap.Pads (presentBits image.cells) padding)
    (packed : rlev.packedUsedColumns = CRowLogEvent.updateN1bits
      (BitVec.ofNat 64 (littleEndian
        (Bitmap.encode (presentBits image.cells) padding)))) :
    rlev.usedColumns1bitCount =
        (presentBits image.cells ++ padding).count true ∧
      (nullBits image.cells).length ≤ rlev.usedColumns1bitCount ∧
      rlev.usedColumns1bitCount ≤ 48 ∧
      UsedBits rlev.usedColumnsMask 0 (storeRow table.columns image.cells) := by
  have bitCount : (presentBits image.cells).length = table.columns.length := by
    rw [presentBits, List.length_map, image.fits.length]
  have few := table.few
  obtain ⟨bits, ones⟩ := unpack_encode pads (by omega) packed
  have own : (presentBits image.cells).count true =
      (nullBits image.cells).length := by
    rw [presentBits, nullBits, List.length_map, List.count_eq_countP,
      List.countP_map, List.countP_eq_length_filter]
    congr 2
    funext cell
    simp
  have total : rlev.usedColumns1bitCount =
      (presentBits image.cells ++ padding).count true := ones
  refine ⟨total, ?_, ?_, ?_⟩
  · rw [total, List.count_append]
    omega
  · have fits : (presentBits image.cells ++ padding).length ≤
        8 * Bitmap.byteCount (presentBits image.cells).length := pads
    have six : Bitmap.byteCount (presentBits image.cells).length ≤ 6 := by
      unfold Bitmap.byteCount
      omega
    have most : (presentBits image.cells ++ padding).count true ≤
        (presentBits image.cells ++ padding).length := List.count_le_length
    omega
  · apply usedBits_of_getLsbD
    intro k stored storedAt
    obtain ⟨cell, cellAt, present, _⟩ := storeRow_getElem? storedAt
    have inside : k < image.cells.length :=
      (List.getElem?_eq_some_iff.mp cellAt).1
    have cells := image.fits.length
    have bitInside : k < (presentBits image.cells).length := by omega
    rw [CRowLogEvent.usedColumnsMask_eq, Nat.zero_add, bits k bitInside, present]
    simp [presentBits, cellAt]

/-- The decoder reads a partial image right exactly when the null bits are in
place. -/
theorem updateImage_partial_iff
    (hasColumns : self.HasColumns (table.columns.map ColumnSpec.column))
    (supported : ∀ column ∈ table.columns, column.Supported)
    (framed : row.Framed table.columns.length)
    (ncolumns : rlev.ncolumns = table.columns.length)
    (pads : Bitmap.Pads (presentBits image.cells) padding)
    (packed : rlev.packedUsedColumns = CRowLogEvent.updateN1bits
      (BitVec.ofNat 64 (littleEndian
        (Bitmap.encode (presentBits image.cells) padding))))
    (some : ∃ cell ∈ image.cells, cell.present = true)
    (stored : Stored memory pfields (image.encode ++ behind))
    (room : 0 < behind.length)
    (small : image.encode.length + rest < 4294967296) :
    (∃ result,
      self.updateImage memory rlev row pfields (image.encode.length + rest)
          rlev.usedColumns1bitCount rlev.usedColumnsMask = .ok result ∧
        DecodesImage image pfields rest result) ↔
      NullsInPlace image padding rest := by
  obtain ⟨count, least, most, usedBits⟩ := unpack_present pads packed
  have few := table.few
  have positive : 1 ≤ (nullBits image.cells).length := by
    obtain ⟨cell, member, present⟩ := some
    rw [nullBits, List.length_map]
    exact List.length_pos_of_mem (List.mem_filter.mpr ⟨member, present⟩)
  have columnCount : (table.columns.map ColumnSpec.column).length =
      table.columns.length := List.length_map _
  have cellCount := storeRow_length image.fits
  have lengths := image.encode_length
  have pieces := RowImage.encode_pieces stored
  obtain ⟨sized, decoded⟩ := storeRow_framed 0 table.valid supported image.fits
    pieces.right room (by omega)
  constructor
  · rintro ⟨result, run, right⟩
    have framed' : row.Framed
        (table.columns.map ColumnSpec.column).length := by
      rw [columnCount]
      exact framed
    have bytes : Bitmap.byteCount rlev.usedColumns1bitCount =
        image.nullBitmap.length := by
      obtain ⟨nulls, built, rowRun⟩ := Exec.bind_eq_ok.mp run
      obtain ⟨mask, _, same⟩ :=
        CRowLogEvent.buildColumnMask_eq_ok (by omega) most built
      rw [ncolumns, ← columnCount, same] at rowRun
      have walk :=
        CTable.updateRow_walk hasColumns (by omega) framed' rowRun
      rcases walk.start_of_own table.valid right.columns with
        start | ⟨nothing, stays⟩
      · simpa using start
      · have pdata := right.pdata
        have noFields : (fieldsOf (storeRow table.columns
            image.cells)).length = 0 := by
          rw [nothing]
          rfl
        simp only at stays
        omega
    have imageRun := run
    simp only [CTable.updateImage,
      CRowLogEvent.buildColumnMask_of_stored pieces.left bytes.symm
        (by omega) most, Exec.ok_bind, ncolumns, ← columnCount] at imageRun
    have left : sizeSub (image.encode.length + rest)
        image.nullBitmap.length =
          (fieldsOf (storeRow table.columns image.cells)).length + rest := by
      rw [sizeSub_eq (by omega) (by omega)]
      omega
    have walk :=
      CTable.updateRow_walk hasColumns (by omega) framed' imageRun
    have found := walk.found_of_own table.valid right.columns
    refine ⟨?_, CTable.inPlace_of_updateRow hasColumns (by omega) framed'
      (by rw [columnCount]; exact cellCount) left (by omega) usedBits sized
      imageRun found⟩
    rw [← count, bytes, image.nullBitmap_length]
  · rintro ⟨bytes, bits⟩
    have split := congrArg (· + rest) lengths
    have run := CTable.updateImage_inPlace hasColumns
      (by rw [columnCount]; omega) (by rw [columnCount]; exact framed)
      (by rw [columnCount]; exact ncolumns)
      (by rw [columnCount]; exact cellCount) (by omega) most
      (by rw [image.nullBitmap_length, count, bytes]) pieces.left split
      (by omega) usedBits sized bits decoded
    refine ⟨_, run, decodedRow_own image.fits _ _, ?_, rfl⟩
    rw [lengths, Nat.add_assoc]

end Images

/-- A table with three TINYINT columns. -/
def tinyTable : TableSpec where
  columns := [.tiny, .tiny, .tiny]
  nonempty := by decide
  few := by decide
  valid := by simp [ColumnSpec.Valid]

/-- The table after `tune`. -/
def tinyTuned : CTable where
  data := [1, 1, 1]
  columnCount := 3
  columnTypes := some 0
  row := ⟨some 0, [.blank 0, .blank 1, .blank 2]⟩
  tuned := true

theorem tinyTuned_hasColumns :
    tinyTuned.HasColumns (tinyTable.columns.map ColumnSpec.column) :=
  ⟨rfl, none, rfl, rfl, none, rfl, rfl, none, rfl, rfl, trivial⟩

/-- An image without the first column: the second is NULL, the third is 5. -/
def tinyImage : RowImage tinyTable where
  cells := [.absent, .null, .field [5]]
  padding := []
  fits := by
    simp [RowFits, tinyTable, ColumnSpec.layout, FieldLayout.Holds]
  pads := by decide

/-- An image without the last column. -/
def tinyFrontImage : RowImage tinyTable where
  cells := [.field [5], .null, .absent]
  padding := []
  fits := by
    simp [RowFits, tinyTable, ColumnSpec.layout, FieldLayout.Holds]
  pads := by decide

/-- The event an image of the table comes with. -/
def tinyRows (image : RowImage tinyTable) : CRowLogEvent where
  ncolumns := 3
  packedUsedColumns := CRowLogEvent.updateN1bits (BitVec.ofNat 64
    (littleEndian (Bitmap.encode (presentBits image.cells) [])))
  valid := true

/-- The NULL of the second column is read as its value and the value of the
third column is lost. -/
theorem not_decodesImage_tiny :
    ¬∃ result,
      tinyTuned.updateImage (tinyImage.encode ++ [0]) (tinyRows tinyImage)
          tinyTuned.row 0 tinyImage.encode.length
          (tinyRows tinyImage).usedColumns1bitCount
          (tinyRows tinyImage).usedColumnsMask = .ok result ∧
        DecodesImage tinyImage 0 0 result := by
  rintro ⟨result, run, right⟩
  have decoded : tinyTuned.updateImage (tinyImage.encode ++ [0])
      (tinyRows tinyImage) tinyTuned.row 0 tinyImage.encode.length
      (tinyRows tinyImage).usedColumns1bitCount
      (tinyRows tinyImage).usedColumnsMask =
    .ok { rc := 0
          row := ⟨some 0, [.blank 0,
            { type := .tiny, storage := some 1, size := 1, null := false
              pos := 1 }, .blank 2]⟩
          pdata := 2, len := 0 } := by
    decide +kernel
  rw [decoded] at run
  cases run
  have second := right.columns.2.2.1
  simp [CValue.isNull, Cell.hasField] at second

theorem updateImage_partial_iff_front :
    ∃ result,
      tinyTuned.updateImage (tinyFrontImage.encode ++ [0])
          (tinyRows tinyFrontImage) tinyTuned.row 0
          (tinyFrontImage.encode.length + 0)
          (tinyRows tinyFrontImage).usedColumns1bitCount
          (tinyRows tinyFrontImage).usedColumnsMask = .ok result ∧
        DecodesImage tinyFrontImage 0 0 result := by
  have supported : ∀ column ∈ tinyTable.columns, column.Supported := by
    simp [tinyTable, ColumnSpec.Supported]
  have stored : Stored (tinyFrontImage.encode ++ [0]) 0
      (tinyFrontImage.encode ++ [0]) := ⟨[], [], by simp, rfl⟩
  have framed : tinyTuned.row.Framed tinyTable.columns.length := rfl
  have pads : Bitmap.Pads (presentBits tinyFrontImage.cells) [] := by decide
  have some : ∃ cell ∈ tinyFrontImage.cells, cell.present = true :=
    ⟨.null, by decide, rfl⟩
  have small : tinyFrontImage.encode.length + 0 < 4294967296 := by decide
  have bits : InPlace
      (BitVec.ofNat 64 (littleEndian tinyFrontImage.nullBitmap)) 0 0
      (storeRow tinyTable.columns tinyFrontImage.cells) :=
    ⟨by decide, Or.inl (by decide), trivial⟩
  exact (updateImage_partial_iff tinyTuned_hasColumns supported framed rfl pads
    rfl some stored (by decide) small).mpr ⟨by decide, bits⟩

end MysqlSlave
