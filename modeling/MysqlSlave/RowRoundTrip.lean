import MysqlSlave.ImageFormat
import MysqlSlave.TableSchema

/-!
# Row decoding undoes row encoding

For full row images.  One image decodes to its row (`updateImage_full`), one
round of the loop takes one change off the row data (`updateRound_encode`), and
the loop takes all of them (`updateRounds_encode`).
-/

namespace MysqlSlave

open Region

/-- One entry of a ROWS event: a row image, and for UPDATE its after image. -/
structure RowChange (table : TableSpec) (op : RowsOp) where
  before : RowImage table
  after : Option (RowImage table)
  paired : after.isSome = decide (op = .update)

namespace RowChange

variable {table : TableSpec} {op : RowsOp}

def afterBytes (change : RowChange table op) : Bytes :=
  (change.after.map RowImage.encode).getD []

def encode (change : RowChange table op) : Bytes :=
  change.before.encode ++ change.afterBytes

/-- Every column is present in both images. -/
def Full (change : RowChange table op) : Prop :=
  change.before.Full ∧ ∀ image, change.after = some image → image.Full

end RowChange

section Rows

variable {table : TableSpec} {op : RowsOp}

def encodeChanges (changes : List (RowChange table op)) : Bytes :=
  changes.flatMap RowChange.encode

/-- The before images of changes whose row data starts at `address`. -/
def decodedRows (owner : Option Address) :
    List (RowChange table op) → Nat → List CRow
  | [], _ => []
  | change :: changes, address =>
      ⟨owner, change.before.decoded address⟩ ::
        decodedRows owner changes (address + change.encode.length)

/-- The after images, in the same order. -/
def decodedNewRows (owner : Option Address) :
    List (RowChange table op) → Nat → List CRow
  | [], _ => []
  | change :: changes, address =>
      (change.after.map fun image : RowImage table =>
        (⟨owner, image.decoded (address + change.before.encode.length)⟩ :
          CRow)).toList ++
        decodedNewRows owner changes (address + change.encode.length)

/-- A column mask with a bit for every one of `count` columns. -/
structure FullMask (count : Nat) (usedCount : Nat) (used : BitVec 64) :
    Prop where
  bits : ∀ i < count, used.getLsbD i = true
  bytes : Bitmap.byteCount usedCount = Bitmap.byteCount count
  some : 1 ≤ usedCount
  few : usedCount ≤ 48

theorem fullMask_of_encode {count : Nat} {padding : List Bool}
    {packed : BitVec 64}
    (pads : Bitmap.Pads (List.replicate count true) padding)
    (some : 1 ≤ count) (few : count ≤ 48)
    (built : packed = CRowLogEvent.updateN1bits (BitVec.ofNat 64
      (littleEndian (Bitmap.encode (List.replicate count true) padding)))) :
    FullMask count (packed >>> (64 - 8)).toNat packed := by
  obtain ⟨bits, ones⟩ := unpack_encode pads (by simpa using few) built
  have least : count ≤ (packed >>> (64 - 8)).toNat := by
    rw [ones, List.count_append, List.count_replicate_self]
    omega
  have most : (packed >>> (64 - 8)).toNat ≤ 8 * Bitmap.byteCount count := by
    rw [ones]
    have fits : (List.replicate count true ++ padding).length ≤
        8 * Bitmap.byteCount (List.replicate count true).length := pads
    rw [List.length_replicate] at fits
    exact List.count_le_length.trans fits
  refine ⟨?_, Bitmap.byteCount_eq least most, by omega, ?_⟩
  · intro i inside
    rw [bits i (by simpa using inside)]
    simp [inside]
  · have six : Bitmap.byteCount count ≤ 6 := by
      unfold Bitmap.byteCount
      omega
    omega

theorem RowImage.nullBitmap_length_full {image : RowImage table}
    {usedCount : Nat} {used : BitVec 64} (full : image.Full)
    (mask : FullMask table.columns.length usedCount used) :
    image.nullBitmap.length = Bitmap.byteCount usedCount := by
  have nullCount : (nullBits image.cells).length = table.columns.length := by
    rw [RowImage.nullBits_full full, List.length_map, image.fits.length]
  rw [image.nullBitmap_length, nullCount, mask.bytes]

theorem RowImage.usedBits_full {image : RowImage table} {usedCount : Nat}
    {used : BitVec 64} (full : image.Full)
    (mask : FullMask table.columns.length usedCount used) :
    UsedBits used 0 (storeRow table.columns image.cells) := by
  have storedCount := storeRow_length image.fits
  apply usedBits_of_getLsbD
  intro k stored storedAt
  obtain ⟨cell, cellAt, present, _⟩ := storeRow_getElem? storedAt
  have inside : k < table.columns.length := by
    have bound := (List.getElem?_eq_some_iff.mp storedAt).1
    omega
  rw [Nat.zero_add, mask.bits k inside, present,
    full cell (List.mem_of_getElem? cellAt)]

theorem RowImage.inPlace_full {image : RowImage table} (full : image.Full)
    (rest : Nat) :
    InPlace (BitVec.ofNat 64 (littleEndian image.nullBitmap)) rest 0
      (storeRow table.columns image.cells) := by
  have cellCount := image.fits.length
  have storedCount := storeRow_length image.fits
  have nulls := RowImage.nullBits_full full
  have nullCount : (nullBits image.cells).length = table.columns.length := by
    rw [nulls, List.length_map, cellCount]
  apply inPlace_of_getLsbD
  intro k stored storedAt
  obtain ⟨cell, cellAt, _, hasField⟩ := storeRow_getElem? storedAt
  have inside : k < (nullBits image.cells).length := by
    have bound := (List.getElem?_eq_some_iff.mp storedAt).1
    omega
  rw [Nat.zero_add, image.getLsbD_nullBitmap inside, nulls, hasField]
  simp [cellAt]

variable {self : CTable} {memory behind : Bytes} {row : CRow}
  {rlev : CRowLogEvent}

theorem updateImage_full {image : RowImage table} {usedCount : Nat}
    {used : BitVec 64} {pfields len rest : Nat}
    (hasColumns : self.HasColumns (table.columns.map ColumnSpec.column))
    (supported : ∀ column ∈ table.columns, column.Supported)
    (full : image.Full) (framed : row.Framed table.columns.length)
    (ncolumns : rlev.ncolumns = table.columns.length)
    (mask : FullMask table.columns.length usedCount used)
    (stored : Stored memory pfields (image.encode ++ behind))
    (room : 0 < behind.length) (length : len = image.encode.length + rest)
    (small : len < 4294967296) :
    self.updateImage memory rlev row pfields len usedCount used =
      .ok { rc := 0, row := ⟨row.table, image.decoded pfields⟩
            pdata := pfields + image.encode.length, len := rest } := by
  have storedCount := storeRow_length image.fits
  have few := table.few
  have lengths := image.encode_length
  have pieces := RowImage.encode_pieces stored
  obtain ⟨sized, decoded⟩ := storeRow_framed 0 table.valid supported image.fits
    pieces.right room (by omega)
  have columnCount : (table.columns.map ColumnSpec.column).length =
      table.columns.length := List.length_map _
  have split := length.trans (congrArg (· + rest) lengths)
  have run := CTable.updateImage_inPlace hasColumns
    (by rw [columnCount]; omega) (by rw [columnCount]; exact framed)
    (by rw [columnCount]; exact ncolumns)
    (by rw [columnCount]; exact storedCount) mask.some mask.few
    (RowImage.nullBitmap_length_full full mask) pieces.left split (by omega)
    (RowImage.usedBits_full full mask) sized (RowImage.inPlace_full full rest)
    decoded
  rw [run, lengths, Nat.add_assoc]
  rfl

/-- The table and the event agree on full images of `table`. -/
structure ReadsFull (tbl : CTable) (rlev : CRowLogEvent) (table : TableSpec)
    (op : RowsOp) : Prop where
  hasColumns : tbl.HasColumns (table.columns.map ColumnSpec.column)
  supported : ∀ column ∈ table.columns, column.Supported
  ncolumns : rlev.ncolumns = table.columns.length
  type : rlev.getTypeCode.isUpdateRows = decide (op = .update)
  used : FullMask table.columns.length rlev.usedColumns1bitCount
    rlev.usedColumnsMask
  usedAfter : op = .update →
    FullMask table.columns.length rlev.usedColumnsAfterimage1bitCount
      rlev.usedColumnsAfterimageMask

theorem RowImage.encode_pos {image : RowImage table} (full : image.Full) :
    0 < image.encode.length := by
  have bits : (nullBits image.cells).length = table.columns.length := by
    rw [nullBits_full full, List.length_map, image.fits.length]
  have some := table.nonempty
  rw [RowImage.encode, List.length_append, image.nullBitmap_length, bits,
    Bitmap.byteCount]
  omega

/-- One round of the loop takes one change off the row data. -/
theorem updateRound_encode {change : RowChange table op}
    {cursor : CTable.RowsCursor} {rest : Nat}
    (reads : ReadsFull self rlev table op) (full : change.Full)
    (framed : cursor.row.Framed table.columns.length)
    (stored : Stored memory cursor.pfields (change.encode ++ behind))
    (room : 0 < behind.length)
    (length : cursor.len = change.encode.length + rest)
    (small : cursor.len < 4294967296) :
    ∃ row', self.updateRound memory rlev cursor =
        .ok { row := row'
              rows := cursor.rows ++
                decodedRows cursor.row.table [change] cursor.pfields
              newRows := cursor.newRows ++
                decodedNewRows cursor.row.table [change] cursor.pfields
              pfields := cursor.pfields + change.encode.length, len := rest } ∧
      row'.Framed table.columns.length ∧ row'.table = cursor.row.table := by
  have pieces : Stored memory cursor.pfields
      (change.before.encode ++ (change.afterBytes ++ behind)) := by
    simpa [RowChange.encode] using stored
  have lengths : change.encode.length =
      change.before.encode.length + change.afterBytes.length :=
    List.length_append
  have before := updateImage_full reads.hasColumns reads.supported full.1 framed
    reads.ncolumns reads.used pieces
    (by rw [List.length_append]; omega)
    (by rw [length, lengths, Nat.add_assoc]) small
  have beforeFramed := change.before.decoded_framed cursor.row.table
    cursor.pfields
  cases after : change.after with
  | none =>
      have notUpdate : rlev.getTypeCode.isUpdateRows = false := by
        rw [reads.type, ← change.paired, after]
        rfl
      have noBytes : change.afterBytes = [] := by
        simp [RowChange.afterBytes, after]
      refine ⟨⟨cursor.row.table, change.before.decoded cursor.pfields⟩, ?_,
        beforeFramed, rfl⟩
      simp only [CTable.updateRound, before, Exec.ok_bind, notUpdate]
      simp [decodedRows, decodedNewRows, after, lengths, noBytes]
  | some image =>
      have imageFull : image.Full := full.2 image after
      have isUpdate : op = .update := by
        simpa [after] using change.paired.symm
      have update : rlev.getTypeCode.isUpdateRows = true := by
        rw [reads.type, isUpdate]
        rfl
      have bytes : change.afterBytes = image.encode := by
        simp [RowChange.afterBytes, after]
      have nonempty : image.encode.length + rest ≠ 0 := by
        have positive := RowImage.encode_pos imageFull
        omega
      rw [bytes] at pieces lengths before
      have afterSmall : image.encode.length + rest < 4294967296 := by omega
      have afterRun := updateImage_full reads.hasColumns reads.supported
        imageFull beforeFramed reads.ncolumns (reads.usedAfter isUpdate)
        pieces.right room rfl afterSmall
      refine ⟨⟨cursor.row.table,
        image.decoded (cursor.pfields + change.before.encode.length)⟩, ?_,
        image.decoded_framed _ _, rfl⟩
      simp only [CTable.updateRound, before, Exec.ok_bind, nonempty, ne_eq,
        not_false_eq_true, update, and_self, if_true, afterRun]
      simp [decodedRows, decodedNewRows, after, lengths, Nat.add_assoc]

theorem updateRounds_encode {changes : List (RowChange table op)}
    {cursor : CTable.RowsCursor} {rounds : Nat}
    (reads : ReadsFull self rlev table op)
    (full : ∀ change ∈ changes, change.Full)
    (framed : cursor.row.Framed table.columns.length)
    (stored : Stored memory cursor.pfields (encodeChanges changes ++ behind))
    (room : 0 < behind.length)
    (length : cursor.len = (encodeChanges changes).length)
    (small : cursor.len < 4294967296) (enough : changes.length ≤ rounds) :
    ∃ row', self.updateRounds memory rlev rounds cursor =
      .ok { row := row'
            rows := cursor.rows ++
              decodedRows cursor.row.table changes cursor.pfields
            newRows := cursor.newRows ++
              decodedNewRows cursor.row.table changes cursor.pfields
            pfields := cursor.pfields + (encodeChanges changes).length
            len := 0 } := by
  induction changes generalizing cursor rounds with
  | nil =>
      have done : cursor.len = 0 := length
      refine ⟨cursor.row, ?_⟩
      unfold CTable.updateRounds
      simp only [done, if_true, decodedRows, decodedNewRows, encodeChanges,
        List.flatMap_nil, List.append_nil, List.length_nil, Nat.add_zero]
      rw [← done]
  | cons change changes induction =>
      have split : encodeChanges (change :: changes) =
          change.encode ++ encodeChanges changes := List.flatMap_cons
      rw [split, List.length_append] at length
      rw [split, List.append_assoc] at stored
      have changeFull := full change List.mem_cons_self
      have positive : 0 < change.encode.length := by
        have before := RowImage.encode_pos changeFull.1
        rw [RowChange.encode, List.length_append]
        omega
      have more : ¬cursor.len = 0 := by omega
      cases rounds with
      | zero => simp at enough
      | succ rounds =>
      obtain ⟨nextRow, round, nextFramed, nextTable⟩ :=
        updateRound_encode reads changeFull framed stored
          (by rw [List.length_append]; omega) length small
      let next : CTable.RowsCursor :=
        { row := nextRow
          rows := cursor.rows ++
            decodedRows cursor.row.table [change] cursor.pfields
          newRows := cursor.newRows ++
            decodedNewRows cursor.row.table [change] cursor.pfields
          pfields := cursor.pfields + change.encode.length
          len := (encodeChanges changes).length }
      have nextStored :
          Stored memory next.pfields (encodeChanges changes ++ behind) :=
        stored.right
      have nextLength : next.len = (encodeChanges changes).length := rfl
      obtain ⟨row', later⟩ := induction
        (fun other member => full other (List.mem_cons_of_mem _ member))
        nextFramed nextStored nextLength (by omega) (by simpa using enough)
      refine ⟨row', ?_⟩
      rw [CTable.updateRounds, if_neg more]
      simp only [round, Exec.ok_bind]
      rw [later]
      simp [next, nextTable, decodedRows, decodedNewRows, split,
        Nat.add_assoc]

/-- `value` is the cell at column `pos`: NULL where the cell is, and elsewhere of
the column's type and pointing at exactly the cell's bytes. -/
def ShowsCell (memory : Bytes) (column : ColumnSpec) (cell : Cell) (pos : Nat)
    (value : CValue) : Prop :=
  value.pos = pos ∧
    match cell with
    | .field payload =>
        value.isNull = false ∧ value.type = column.realType ∧
          ∃ start, value.storage = some start ∧
            value.size = payload.length ∧ Stored memory start payload
    | _ => value.isNull = true

/-- `row` is the row of the image, column by column. -/
def Shows (memory : Bytes) (image : RowImage table) (row : CRow) : Prop :=
  row.data.length = table.columns.length ∧
    ∀ (i : Nat) (column : ColumnSpec) (cell : Cell),
      table.columns[i]? = some column → image.cells[i]? = some cell →
      ∃ value, row.data[i]? = some value ∧
        ShowsCell memory column cell i value

theorem decoded_showsCell {column : ColumnSpec} {cell : Cell} {start : Nat}
    (pos : Nat) (stored : Stored memory start (column.store cell).bytes) :
    ShowsCell memory column cell pos (column.decoded cell start pos) := by
  cases cell with
  | absent => exact ⟨rfl, rfl⟩
  | null => exact ⟨rfl, rfl⟩
  | field payload =>
      have notNull := column.realType_ne_null
      exact ⟨rfl, by simp [ColumnSpec.decoded, CValue.isNull, notNull], rfl,
        _, rfl, rfl, ColumnSpec.payload_stored stored⟩

theorem RowImage.decoded_shows {image : RowImage table} {address : Nat}
    (owner : Option Address)
    (stored : Stored memory address (image.encode ++ behind)) :
    Shows memory image ⟨owner, image.decoded address⟩ := by
  have pieces := RowImage.encode_pieces stored
  constructor
  · have positions :=
      congrArg List.length (image.decoded_framed owner address)
    simpa using positions
  · intro i column cell columnAt cellAt
    obtain ⟨start, valueAt, bytes⟩ := decodedRow_getElem? 0 image.fits
      pieces.right columnAt cellAt
    refine ⟨_, valueAt, ?_⟩
    rw [Nat.zero_add]
    exact decoded_showsCell i bytes

theorem length_le_encodeChanges {changes : List (RowChange table op)}
    (full : ∀ change ∈ changes, change.Full) :
    changes.length ≤ (encodeChanges changes).length := by
  induction changes with
  | nil => simp
  | cons change changes induction =>
      have before := RowImage.encode_pos (full change List.mem_cons_self).1
      have later := induction fun other member =>
        full other (List.mem_cons_of_mem _ member)
      simp only [encodeChanges, List.flatMap_cons, List.length_append,
        RowChange.encode, List.length_cons] at later ⊢
      omega

theorem decodedRows_show {changes : List (RowChange table op)} {address : Nat}
    (owner : Option Address)
    (stored : Stored memory address (encodeChanges changes ++ behind)) :
    List.Forall₂ (Shows memory) (changes.map RowChange.before)
        (decodedRows owner changes address) ∧
      List.Forall₂ (Shows memory) (changes.filterMap RowChange.after)
        (decodedNewRows owner changes address) := by
  induction changes generalizing address with
  | nil => exact ⟨.nil, .nil⟩
  | cons change changes induction =>
      have split : encodeChanges (change :: changes) =
          change.encode ++ encodeChanges changes := List.flatMap_cons
      rw [split, List.append_assoc] at stored
      obtain ⟨rows, newRows⟩ := induction stored.right
      have pieces := stored
      rw [RowChange.encode, List.append_assoc] at pieces
      refine ⟨.cons (change.before.decoded_shows owner pieces) rows, ?_⟩
      cases after : change.after with
      | none => simpa [List.filterMap_cons, after, decodedNewRows] using newRows
      | some image =>
          have bytes : change.afterBytes = image.encode := by
            simp [RowChange.afterBytes, after]
          rw [bytes] at pieces
          simp only [List.filterMap_cons, after, decodedNewRows,
            Option.map_some, Option.toList_some, List.singleton_append]
          exact .cons (image.decoded_shows owner pieces.right) newRows

end Rows

/-- The event carries these changes of the table, with every column present. -/
structure RowsEvent.CarriesFull (event : RowsEvent) {table : TableSpec}
    (changes : List (RowChange table event.kind.op)) : Prop where
  ncolumns : event.ncolumns = table.columns.length
  used : ∃ padding,
    Bitmap.Pads (List.replicate table.columns.length true) padding ∧
      event.used = Bitmap.encode
        (List.replicate table.columns.length true) padding
  usedAfter : event.kind.op = .update → ∃ padding,
    Bitmap.Pads (List.replicate table.columns.length true) padding ∧
      event.usedAfter = Bitmap.encode
        (List.replicate table.columns.length true) padding
  images : event.images = encodeChanges changes
  full : ∀ change ∈ changes, change.Full

/-- Encoding a TABLE_MAP and a ROWS event and running the three parsers gives
back the rows of the event. -/
theorem update_undoes_encode {fmt : CFormatDescriptionLogEvent}
    {table : TableSpec} {map : TableMapEvent} {event : RowsEvent}
    {changes : List (RowChange table event.kind.op)} {fresh : CTable}
    {mapMemory memory : Bytes} {mapLen len : Nat} (this : Address)
    (old : CRowLogEvent) (tuned : fmt.Tuned)
    (supported : ∀ column ∈ table.columns, column.Supported)
    (describes : map.Describes table) (carries : event.CarriesFull changes)
    (sameId : event.tableId = map.tableId) (untuned : fresh.tuned = false)
    (mapReceived : Received fmt map.encode mapMemory mapLen)
    (received : Received fmt event.encode memory len) :
    ∃ tbl rlev after,
      fresh.tune this mapMemory mapLen fmt = .ok (.code 0, tbl) ∧
      old.tune memory len fmt = .ok (0, rlev) ∧
      tbl.update memory rlev = .ok (0, after) ∧
      after.rows = decodedRows (some this) changes event.imagesOffset ∧
      after.newRows = decodedNewRows (some this) changes event.imagesOffset ∧
      List.Forall₂ (Shows memory) (changes.map RowChange.before) after.rows ∧
      List.Forall₂ (Shows memory) (changes.filterMap RowChange.after)
        after.newRows := by
  obtain ⟨mapChecksum, mapSlack, mapTrailer, _, rfl, rfl, mapSmall⟩ :=
    mapReceived
  obtain ⟨checksum, slack, trailer, room, rfl, rfl, small⟩ := received
  have mapStored := (Stored.intro [] (map.encode mapChecksum) mapSlack)
  have stored := Stored.intro [] (event.encode checksum) slack
  obtain ⟨tbl, tblRun, tunedWith⟩ := CTable.tune_encode this untuned tuned
    mapStored mapTrailer mapSmall
  obtain ⟨rlev, rlevRun, parsed⟩ :=
    RowsEvent.tune_encode old tuned stored trailer small
  have hasColumns := CTable.hasColumns_of_parsed describes supported
    tunedWith.parsed (map.content_placed mapChecksum)
  have reads : ReadsFull tbl rlev table event.kind.op := by
    refine ⟨hasColumns, supported, ?_, ?_, ?_, ?_⟩
    · rw [parsed.ncolumns, carries.ncolumns]
    · rw [parsed.typeCode, RowsKind.type_isUpdateRows]
    · obtain ⟨padding, pads, bitmap⟩ := carries.used
      have built := parsed.used
      rw [bitmap] at built
      rw [CRowLogEvent.usedColumnsMask_eq]
      exact fullMask_of_encode pads table.nonempty table.few built
    · intro update
      obtain ⟨padding, pads, bitmap⟩ := carries.usedAfter update
      have built := parsed.usedAfter update
      rw [bitmap] at built
      rw [CRowLogEvent.usedColumnsAfterimageMask_eq]
      exact fullMask_of_encode pads table.nonempty table.few built
  have images : Stored (event.encode checksum ++ slack) event.imagesOffset
      (encodeChanges changes ++ (checksum ++ slack)) := by
    rw [← carries.images]
    exact event.images_stored checksum slack
  have framed : tbl.row.Framed table.columns.length := by
    have framed := tunedWith.framed
    rwa [describes.types, List.length_map] at framed
  let start : CTable.RowsCursor :=
    { row := tbl.row, rows := [], newRows := [], pfields := rlev.rowsData
      len := rlev.rowsLen }
  have startStored : Stored (event.encode checksum ++ slack) start.pfields
      (encodeChanges changes ++ (checksum ++ slack)) :=
    images.relocate parsed.rowsData.symm
  have startLength : start.len = (encodeChanges changes).length := by
    rw [← carries.images]
    exact parsed.rowsLen
  have startSmall : start.len < 4294967296 := by
    have whole : (event.encode checksum).length =
        19 + event.body.length + checksum.length := encodeEvent_length ..
    have part : event.body.length =
        event.front.length + event.images.length := List.length_append
    rw [startLength, ← carries.images]
    omega
  have roomLeft : 0 < (checksum ++ slack).length := by
    have some := List.length_pos_of_ne_nil room
    rw [List.length_append]
    omega
  have enough : changes.length ≤ start.len := by
    rw [startLength]
    exact length_le_encodeChanges carries.full
  obtain ⟨row', run⟩ := updateRounds_encode reads carries.full framed
    startStored roomLeft startLength startSmall enough
  have valid : (!rlev.valid || decide (tbl.tableId ≠ rlev.tableId)) =
      false := by
    simp [parsed.valid, parsed.tableId, tunedWith.parsed.tableId, sameId]
  have tableRow : tbl.row.table = some this := tunedWith.table
  have rowsAt : rlev.rowsData = event.imagesOffset := parsed.rowsData
  obtain ⟨rowsShown, newRowsShown⟩ := decodedRows_show (some this) images
  simp only [start, tableRow, rowsAt, List.nil_append] at run
  refine ⟨tbl, rlev,
    { tbl with
      row := row'
      rows := decodedRows (some this) changes event.imagesOffset
      newRows := decodedNewRows (some this) changes event.imagesOffset },
    tblRun, rlevRun, ?_, rfl, rfl, rowsShown, newRowsShown⟩
  simp only [CTable.update, valid, rowsAt]
  exact Exec.bind_eq_ok.mpr ⟨_, run, rfl⟩

/-- A table with an INT and a VARCHAR(20) column. -/
def pairTable : TableSpec where
  columns := [.long, .varchar 20]
  nonempty := by decide
  few := by decide
  valid := by simp [ColumnSpec.Valid]

/-- The TABLE_MAP event of `d.t`, which has these columns. -/
def pairMap : TableMapEvent where
  header := ⟨0, 1, 0, 0⟩
  tableId := 7
  flags := 1
  dbName := [100]
  tableName := [116]
  types := [3, 15]
  metadata := [20, 0]
  nullBits := [3]
  idSmall := by decide
  dbNonempty := by decide
  dbPlain := by decide
  dbFits := by decide
  tableNonempty := by decide
  tablePlain := by decide
  tableFits := by decide
  typesNonempty := by decide
  typesFit := by decide
  metadataFits := by decide

/-- The row (1, "ab") becomes (1, NULL). -/
def pairChange : RowChange pairTable .update where
  before :=
    { cells := [.field [1, 0, 0, 0], .field [97, 98]], padding := []
      fits := by simp [RowFits, pairTable, ColumnSpec.layout, FieldLayout.Holds]
      pads := by decide }
  after := some
    { cells := [.field [1, 0, 0, 0], .null], padding := []
      fits := by simp [RowFits, pairTable, ColumnSpec.layout, FieldLayout.Holds]
      pads := by decide }
  paired := rfl

/-- An UPDATE event with that row, all padding bits set. -/
def pairRows : RowsEvent where
  header := ⟨0, 1, 0, 0⟩
  kind := ⟨.update, true⟩
  tableId := 7
  flags := 1
  extra := []
  ncolumns := 2
  used := [255]
  usedAfter := [255]
  images := encodeChanges [pairChange]
  idSmall := pairMap.idSmall
  extraFits := noExtra_fits
  some := NeZero.one_le
  few := Nat.le_of_ble_eq_true rfl
  usedLength := rfl
  usedAfterLength := rfl

theorem pairRows_carries : pairRows.CarriesFull [pairChange] := by
  refine ⟨rfl, ⟨List.replicate 6 true, by decide, rfl⟩,
    fun _ => ⟨List.replicate 6 true, by decide, rfl⟩, rfl, ?_⟩
  intro change member
  obtain rfl := List.mem_singleton.mp member
  refine ⟨by decide, ?_⟩
  intro image same
  cases same
  decide

theorem update_undoes_encode_pair :
    ∃ tbl rlev after,
      CTable.tune {} 0 (pairMap.encode [0, 0, 0, 0] ++ [0])
          (pairMap.encode [0, 0, 0, 0]).length (.ofServer [53] true) =
        .ok (.code 0, tbl) ∧
      CRowLogEvent.tune {} (pairRows.encode [0, 0, 0, 0] ++ [0])
          (pairRows.encode [0, 0, 0, 0]).length (.ofServer [53] true) =
        .ok (0, rlev) ∧
      tbl.update (pairRows.encode [0, 0, 0, 0] ++ [0]) rlev = .ok (0, after) ∧
      after.rows =
        decodedRows (some 0) [pairChange] pairRows.imagesOffset := by
  have untuned : ({} : CTable).tuned = false := rfl
  have describes : pairMap.Describes pairTable := ⟨rfl, rfl⟩
  have supported : ∀ column ∈ pairTable.columns, column.Supported := by
    simp [pairTable, ColumnSpec.Supported]
  have mapReceived : Received (.ofServer [53] true) pairMap.encode
      (pairMap.encode [0, 0, 0, 0] ++ [0])
      (pairMap.encode [0, 0, 0, 0]).length :=
    ⟨[0, 0, 0, 0], [0], rfl, by decide, rfl, rfl, by decide⟩
  have received : Received (.ofServer [53] true) pairRows.encode
      (pairRows.encode [0, 0, 0, 0] ++ [0])
      (pairRows.encode [0, 0, 0, 0]).length :=
    ⟨[0, 0, 0, 0], [0], rfl, by decide, rfl, rfl, by decide⟩
  obtain ⟨tbl, rlev, after, tblRun, rlevRun, run, rows, _⟩ :=
    update_undoes_encode 0 {} (CFormatDescriptionLogEvent.ofServer_tuned _ _)
      supported describes pairRows_carries rfl untuned mapReceived received
  exact ⟨tbl, rlev, after, tblRun, rlevRun, run, rows⟩

end MysqlSlave
