import MysqlSlave.ColumnDesc
import MysqlSlave.Lib.OrderedMap
import MysqlSlave.LogEvent
import MysqlSlave.Value

/-!
# Tables and their rows

`CRow`, `CTable` and `CDatabase` from `database.hpp` and `database.cpp`.  A
`CTable*` is an `Address`.  A table keeps its copy of the TABLE_MAP event, one row
buffer that every row is decoded into, and the rows of the last rows event.
-/

namespace MysqlSlave

open Region

/-- A `CTable*`. -/
abbrev Address := Nat

/-- `tolower` in the C locale. -/
def toLower (byte : UInt8) : UInt8 :=
  if 65 ≤ byte.toNat ∧ byte.toNat ≤ 90 then byte + 32 else byte

/-- `strcasecmp` on the C strings of two `std::string`s. -/
def strcasecmp : Bytes → Bytes → Int
  | [], [] => 0
  | [], right :: _ => if right = 0 then 0 else -(toLower right).toNat
  | left :: _, [] => if left = 0 then 0 else (toLower left).toNat
  | left :: lefts, right :: rights =>
      if left = 0 ∨ toLower left ≠ toLower right then
        (toLower left).toNat - (toLower right).toNat
      else strcasecmp lefts rights

/-- `CCaseIgnorer`. -/
def caseIgnorer (left right : Bytes) : Bool := strcasecmp left right > 0

/-- `CRow`; `table` is the table the row belongs to. -/
structure CRow where
  table : Option Address := none
  data : List CValue := []
  deriving DecidableEq, Repr

/-- `std::vector::resize`. -/
def CRow.resize (self : CRow) (size : Nat) : CRow :=
  { self with
    data := self.data.take size ++
      List.replicate (size - self.data.length) {} }

/-- The row with `update` applied at index `i`, which has to exist. -/
def CRow.modifyAt (self : CRow) (i : Nat) (update : CValue → Exec CValue) :
    Exec CRow :=
  match self.data[i]? with
  | some value => do
      let value ← update value
      return { self with data := self.data.set i value }
  | none => .error .badIndex

structure CTable extends CTableMapLogEvent where
  columns : OrderedMap Bytes CColumnDesc := {}
  row : CRow := {}
  rows : List CRow := []
  newRows : List CRow := []
  tuned : Bool := false
  deriving DecidableEq, Repr

/-- How a member function that may throw `std::length_error` comes back. -/
inductive Return
  | code (rc : Int)
  | lengthError
  deriving DecidableEq, Repr

namespace CTable

def findColumn (self : CTable) (name : Bytes) : Option CColumnDesc :=
  self.columns.find? caseIgnorer name

def addColumn (self : CTable) (columnName : Bytes) (columnPos : Nat)
    (columnType : Bytes) : CTable :=
  { self with
    columns := self.columns.assign caseIgnorer columnName
      (((self.findColumn columnName).getD {}).update columnPos columnType) }

def setTuned (self : CTable) (tuned : Bool) : CTable := { self with tuned }

/-- `max_size()` of a vector of `CValue`s, 48 bytes each. -/
def maxRowSize : Nat := (2 ^ 63 - 1) / 48

/-- The loop of `tune` that gives every value its position and type. -/
def tuneRow (data : Bytes) (columnTypes : Nat) :
    Nat → Nat → CRow → Exec CRow
  | 0, _, row => .ok row
  | todo + 1, i, row => do
      let type ← readByte data (columnTypes + i)
      let row ← row.modifyAt i fun value =>
        .ok { value with pos := i, type := .ofCode type }
      tuneRow data columnTypes todo (i + 1) row

/-- `tune` of the table at address `this`. -/
def tune (self : CTable) (this : Address) (data : Bytes) (size : Nat)
    (fmt : CFormatDescriptionLogEvent) : Exec (Return × CTable) :=
  if self.tuned then .ok (.code 0, self)
  else do
    let (rc, event) ← CTableMapLogEvent.tune data size fmt
    let table := { self with toCTableMapLogEvent := event }
    if rc = 0 ∧ event.isValid then
      if event.columnCount > maxRowSize then
        return (.lengthError, { table with
          row := { table.row with table := some this } })
      let resized :=
        { table.row with table := some this }.resize event.columnCount
      let row ← tuneRow event.data (event.columnTypes.getD 0)
        event.columnCount 0 resized
      return (.code rc, { table with row, tuned := true })
    else return (.code rc, table)

/-- The variables of the column loop in `update_row`.  `size` is an `ssize_t`
and `pmetadata` a pointer into the table's copy of its TABLE_MAP event. -/
structure RowCursor where
  row : CRow
  data : Nat
  size : Int
  pmetadata : Option Nat
  bit : BitVec 64
  deriving DecidableEq, Repr

/-- Metadata of a column of the given metadata size, and the cursor behind it. -/
def readMetadata (data : Bytes) (pmetadata : Option Nat) (size : Nat) :
    Exec (Nat × Option Nat) :=
  match size with
  | 0 => .ok (0, pmetadata)
  | width + 1 =>
      match pmetadata with
      | none => .error .nullPointer
      | some p => do
          let metadata ← readLE data p (width + 1)
          return (metadata, some (p + (width + 1)))

/-- `*(_column_types + i)`. -/
def columnType (self : CTable) (i : Nat) : Exec EColumnType :=
  match self.columnTypes with
  | none => .error .nullPointer
  | some columnTypes => do
      let code ← readByte self.data (columnTypes + i)
      return .ofCode code

/-- One round of the column loop in `update_row`. -/
def updateColumn (self : CTable) (memory : Bytes)
    (usedcolumnsMask nullfieldsMask : BitVec 64) (i : Nat)
    (cursor : RowCursor) : Exec RowCursor :=
  if cursor.size ≤ 0 then do
    -- `bit` is not shifted on this path; no later column looks at it
    let row ← cursor.row.modifyAt i fun value => .ok value.reset
    return { cursor with row }
  else do
    let type ← self.columnType i
    let (metadata, pmetadata) ←
      readMetadata self.data cursor.pmetadata (CValue.calcMetadataSize type)
    let row ← cursor.row.modifyAt i fun value => .ok value.reset
    if usedcolumnsMask &&& nullfieldsMask &&& cursor.bit ≠ 0 then
      let length ← CValue.calcFieldSize type memory cursor.data metadata
      let row ← row.modifyAt i fun value =>
        value.tune type memory cursor.data metadata length
      return { row, data := cursor.data + length, size := cursor.size - length
               pmetadata, bit := cursor.bit <<< 1 }
    else return { cursor with row, pmetadata, bit := cursor.bit <<< 1 }

/-- The column loop of `update_row`: `todo` columns from column `i` on. -/
def updateColumns (self : CTable) (memory : Bytes)
    (usedcolumnsMask nullfieldsMask : BitVec 64) :
    Nat → Nat → RowCursor → Exec RowCursor
  | 0, _, cursor => .ok cursor
  | todo + 1, i, cursor => do
      let cursor ←
        self.updateColumn memory usedcolumnsMask nullfieldsMask i cursor
      self.updateColumns memory usedcolumnsMask nullfieldsMask todo (i + 1)
        cursor

/-- A `size_t` seen as `ssize_t`. -/
def signedSize (len : Nat) : Int :=
  if len < 9223372036854775808 then len else len - 18446744073709551616

/-- What `update_row` leaves behind: its result, the row and the cursors. -/
structure RowUpdate where
  rc : Int
  row : CRow
  pdata : Nat
  len : Nat
  deriving DecidableEq, Repr

def updateRow (self : CTable) (memory : Bytes) (row : CRow) (pdata len : Nat)
    (ncolumns : Nat) (usedcolumnsMask nullfieldsMask : BitVec 64) :
    Exec RowUpdate := do
  let cursor ← self.updateColumns memory usedcolumnsMask nullfieldsMask
    ncolumns 0
    { row, data := pdata, size := signedSize len, pmetadata := self.metadata
      bit := 1 }
  return { rc := if cursor.size ≥ 0 then 0 else -1
           row := cursor.row
           pdata := cursor.data
           len := if cursor.size < 0 then 0 else cursor.size.toNat }

/-- The variables of the row loop in `update`. -/
structure RowsCursor where
  row : CRow
  rows : List CRow
  newRows : List CRow
  pfields : Nat
  len : Nat
  deriving DecidableEq, Repr

/-- One row image: its null bitmap, then its columns.  Neither the error value
of the mask nor the result of `update_row` is looked at. -/
def updateImage (self : CTable) (memory : Bytes) (rlev : CRowLogEvent)
    (row : CRow) (pfields len usedCount : Nat) (usedMask : BitVec 64) :
    Exec RowUpdate := do
  let nulls ← CRowLogEvent.buildColumnMask memory pfields len usedCount
  self.updateRow memory row nulls.ptr nulls.len rlev.ncolumns usedMask
    (~~~nulls.mask)

/-- One round of the row loop, for `len > 0`. -/
def updateRound (self : CTable) (memory : Bytes) (rlev : CRowLogEvent)
    (cursor : RowsCursor) : Exec RowsCursor := do
  let before ← self.updateImage memory rlev cursor.row cursor.pfields cursor.len
    rlev.usedColumns1bitCount rlev.usedColumnsMask
  let cursor : RowsCursor :=
    { row := before.row, rows := cursor.rows ++ [before.row]
      newRows := cursor.newRows, pfields := before.pdata, len := before.len }
  if cursor.len ≠ 0 ∧ rlev.getTypeCode.isUpdateRows then
    let after ← self.updateImage memory rlev cursor.row cursor.pfields
      cursor.len rlev.usedColumnsAfterimage1bitCount
      rlev.usedColumnsAfterimageMask
    return { cursor with
      row := after.row, newRows := cursor.newRows ++ [after.row]
      pfields := after.pdata, len := after.len }
  else return cursor

/-- The row loop `while (len > 0)`, for at most `rounds` rounds. -/
def updateRounds (self : CTable) (memory : Bytes) (rlev : CRowLogEvent) :
    Nat → RowsCursor → Exec RowsCursor
  | rounds, cursor =>
      if cursor.len = 0 then .ok cursor
      else
        match rounds with
        | 0 => .error .divergence
        | rounds + 1 => do
            let cursor ← self.updateRound memory rlev cursor
            self.updateRounds memory rlev rounds cursor

/-- `update`: the result code and the table afterwards.  A round of the loop
that does not shorten `len` repeats for ever, so `rows_len()` rounds are all a
run that ends can take. -/
def update (self : CTable) (memory : Bytes) (rlev : CRowLogEvent) :
    Exec (Int × CTable) :=
  if !rlev.valid || self.tableId ≠ rlev.tableId then .ok (-1, self)
  else do
    let cursor ← self.updateRounds memory rlev rlev.rowsLen
      { row := self.row, rows := [], newRows := [], pfields := rlev.rowsData
        len := rlev.rowsLen }
    return (if cursor.len = 0 then 0 else -1,
      { self with
        row := cursor.row, rows := cursor.rows, newRows := cursor.newRows })

end CTable

/-- `CDatabase`: the watched tables of one database by name. -/
structure CDatabase where
  data : OrderedMap Bytes Address := {}
  deriving DecidableEq, Repr

def CDatabase.getTable (self : CDatabase) (name : Bytes) : Option Address :=
  self.data.find? caseIgnorer name

def CDatabase.setTable (self : CDatabase) (name : Bytes) (table : Address) :
    CDatabase :=
  ⟨self.data.assign caseIgnorer name table⟩

end MysqlSlave
