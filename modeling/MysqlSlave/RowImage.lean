import MysqlSlave.ColumnMask
import MysqlSlave.Database

/-!
# Decoding one row image

A row image is a null bitmap followed by the fields of the columns that are
present and not NULL.  `Cell` says what an image holds for each column, and
`imageValues` the row it denotes.

The decoder reads the null bit of column `i` at index `i` of the bitmap.
`InPlace` says where that is harmless: at every column the bit read there agrees
with the cell, or nothing is left to read.  The two main lemmas are that an
image in place decodes to its row, and that a decoder which finds a value in
exactly the columns that have one was given an image in place.
-/

namespace MysqlSlave

open Region

/-- A column of a table: its type and its metadata. -/
abbrev Column := EColumnType × Nat

/-- What a row image holds for one column. -/
inductive Cell
  | absent
  | null
  | field (bytes : Bytes)
  deriving DecidableEq, Repr

namespace Cell

def bytes : Cell → Bytes
  | field bytes => bytes
  | _ => []

def present : Cell → Bool
  | absent => false
  | _ => true

def hasField : Cell → Bool
  | field _ => true
  | _ => false

end Cell

/-- The fields of an image, one behind the other. -/
def fieldsOf (cells : List Cell) : Bytes := cells.flatMap Cell.bytes

@[simp] theorem fieldsOf_nil : fieldsOf [] = [] := rfl

@[simp] theorem fieldsOf_cons (cell : Cell) (cells : List Cell) :
    fieldsOf (cell :: cells) = cell.bytes ++ fieldsOf cells := by
  simp [fieldsOf]

/-- The value of a column at position `pos` that holds nothing. -/
def CValue.blank (pos : Nat) : CValue := { pos }

@[simp] theorem CValue.blank_pos (pos : Nat) : (CValue.blank pos).pos = pos :=
  rfl

@[simp] theorem CValue.blank_isNull (pos : Nat) :
    (CValue.blank pos).isNull = true := rfl

theorem CValue.reset_eq_blank (self : CValue) : self.reset = .blank self.pos :=
  rfl

/-- What a value held before does not show in what `tune` makes of it. -/
theorem CValue.tune_eq_blank_tune (self : CValue) (type : EColumnType)
    (memory : Bytes) (address metadata length : Nat) :
    self.tune type memory address metadata length =
      (CValue.blank self.pos).tune type memory address metadata length := rfl

theorem CValue.tune_storage {self value : CValue} {type : EColumnType}
    {memory : Bytes} {address metadata length : Nat}
    (tuned : self.tune type memory address metadata length = .ok value) :
    value.storage.isSome ∧ value.pos = self.pos := by
  unfold CValue.tune at tuned
  dsimp only at tuned
  split at tuned
  · split at tuned
    · split at tuned <;> cases tuned <;> simp
    all_goals
      cases tuned
      simp
  · split at tuned <;>
      obtain ⟨len, _, result⟩ := Exec.bind_eq_ok.mp tuned <;>
      cases result <;> simp
  · split at tuned
    · obtain ⟨len, _, result⟩ := Exec.bind_eq_ok.mp tuned
      cases result
      simp
    · cases tuned; simp
  · cases tuned; simp

/-- The value a cell denotes, for a column at position `pos` whose bytes start
at `address`. -/
def cellValue (memory : Bytes) (column : Column) (cell : Cell)
    (address pos : Nat) : Exec CValue :=
  match cell with
  | .field bytes =>
      (CValue.blank pos).tune column.1 memory address column.2 bytes.length
  | _ => .ok (.blank pos)

/-- The row an image denotes: the columns from position `pos` on, whose fields
start at `address`. -/
def imageValues (memory : Bytes) :
    List Column → List Cell → Nat → Nat → Exec (List CValue)
  | column :: columns, cell :: cells, address, pos => do
      let value ← cellValue memory column cell address pos
      let values ← imageValues memory columns cells
        (address + cell.bytes.length) (pos + 1)
      return value :: values
  | _, _, _, _ => .ok []

/-- Every field is as long as `calc_field_size` says at its own address. -/
def Sized (memory : Bytes) : List Column → List Cell → Nat → Prop
  | column :: columns, cell :: cells, address =>
      (∀ bytes, cell = .field bytes → 0 < bytes.length ∧
        CValue.calcFieldSize column.1 memory address column.2 =
          .ok bytes.length) ∧
        Sized memory columns cells (address + cell.bytes.length)
  | [], [], _ => True
  | _, _, _ => False

/-- The used bits from column `i` on are set for the cells that are present. -/
def UsedBits (used : BitVec 64) : Nat → List Cell → Prop
  | _, [] => True
  | i, cell :: cells =>
      used.getLsbD i = cell.present ∧ UsedBits used (i + 1) cells

/-- The bit of the null bitmap at the index of each present column agrees with
the column, as far as there is something left to read; `rest` bytes follow the
image. -/
def InPlace (nulls : BitVec 64) (rest : Nat) : Nat → List Cell → Prop
  | _, [] => True
  | i, .absent :: cells => InPlace nulls rest (i + 1) cells
  | i, .null :: cells =>
      (nulls.getLsbD i ∨ (fieldsOf cells).length + rest = 0) ∧
        InPlace nulls rest (i + 1) cells
  | i, .field _ :: cells =>
      nulls.getLsbD i = false ∧ InPlace nulls rest (i + 1) cells

/-- The columns from index `i` on, read with the metadata cursor at
`pmetadata`, are `columns`. -/
def CTable.HasColumnsFrom (self : CTable) :
    List Column → Nat → Option Nat → Prop
  | [], _, _ => True
  | (type, metadata) :: columns, i, pmetadata =>
      ∃ behind, self.columnType i = .ok type ∧
        CTable.readMetadata self.data pmetadata
          (CValue.calcMetadataSize type) = .ok (metadata, behind) ∧
        self.HasColumnsFrom columns (i + 1) behind

/-- The table has these columns. -/
def CTable.HasColumns (self : CTable) (columns : List Column) : Prop :=
  self.columnCount = columns.length ∧
    self.HasColumnsFrom columns 0 self.metadata

/-- A row buffer of `count` values in which every value is at its position. -/
def CRow.Framed (self : CRow) (count : Nat) : Prop :=
  self.data.map CValue.pos = List.range count

namespace CTable

section Bits

/-- The running bit of `update_row` at column `i`. -/
def columnBit (i : Nat) : BitVec 64 := 1#64 <<< i

theorem columnBit_zero : columnBit 0 = 1 := rfl

theorem columnBit_succ (i : Nat) : columnBit i <<< 1 = columnBit (i + 1) := by
  simp [columnBit, BitVec.shiftLeft_add]

theorem and_columnBit_ne_zero (left right : BitVec 64) {i : Nat}
    (small : i < 64) :
    left &&& right &&& columnBit i ≠ 0 ↔
      left.getLsbD i = true ∧ right.getLsbD i = true := by
  constructor
  · intro nonzero
    by_contra missing
    apply nonzero
    apply BitVec.eq_of_getLsbD_eq
    intro j inside
    by_cases here : j = i
    · subst here
      simp only [not_and, Bool.not_eq_true] at missing
      by_cases first : left.getLsbD j
      · simp [missing first]
      · simp [first]
    · have other : (columnBit i).getLsbD j = false := by
        simp only [columnBit, BitVec.getLsbD_shiftLeft, BitVec.getLsbD_one]
        by_cases below : j < i
        · simp [below]
        · have : j - i ≠ 0 := by omega
          simp [this]
      simp [other]
  · rintro ⟨first, second⟩ zero
    have bit := congrArg (fun bits : BitVec 64 => bits.getLsbD i) zero
    simp [columnBit, first, second] at bit
    omega

end Bits

theorem modifyAt_append {table : Option Address} (front : List CValue)
    (value : CValue) (back : List CValue) (update : CValue → Exec CValue) :
    CRow.modifyAt ⟨table, front ++ value :: back⟩ front.length update =
      (update value).map fun value => ⟨table, front ++ value :: back⟩ := by
  cases run : update value with
  | error fault => simp [CRow.modifyAt, run, Except.map]
  | ok result => simp [CRow.modifyAt, run, Except.map]

theorem modifyAt_length {row row' : CRow} {i : Nat}
    {update : CValue → Exec CValue}
    (modified : row.modifyAt i update = .ok row') :
    row'.data.length = row.data.length ∧ row'.table = row.table := by
  unfold CRow.modifyAt at modified
  split at modified
  · obtain ⟨value, _, result⟩ := Exec.bind_eq_ok.mp modified
    cases result
    simp
  · cases modified

theorem modifyAt_other {row row' : CRow} {i j : Nat}
    {update : CValue → Exec CValue}
    (modified : row.modifyAt i update = .ok row') (different : i ≠ j) :
    row'.data[j]? = row.data[j]? := by
  unfold CRow.modifyAt at modified
  split at modified
  · obtain ⟨value, _, result⟩ := Exec.bind_eq_ok.mp modified
    cases result
    simp [different]
  · cases modified

theorem tuneRow_length {data : Bytes} {columnTypes todo i : Nat}
    {row final : CRow}
    (run : tuneRow data columnTypes todo i row = .ok final) :
    final.data.length = row.data.length := by
  induction todo generalizing i row with
  | zero =>
      cases run
      rfl
  | succ todo induction =>
      obtain ⟨type, _, run⟩ := Exec.bind_eq_ok.mp run
      obtain ⟨next, modified, later⟩ := Exec.bind_eq_ok.mp run
      exact (induction later).trans (modifyAt_length modified).1

theorem resize_length (row : CRow) (size : Nat) :
    (row.resize size).data.length = size := by
  simp only [CRow.resize, List.length_append, List.length_take,
    List.length_replicate]
  omega

theorem tune_width {self table : CTable} {this : Address} {data : Bytes}
    {size : Nat} {fmt : CFormatDescriptionLogEvent}
    (untuned : self.tuned = false)
    (run : self.tune this data size fmt = .ok (.code 0, table))
    (tuned : table.tuned = true) :
    table.row.data.length = table.columnCount := by
  unfold tune at run
  rw [untuned, if_neg Bool.false_ne_true] at run
  obtain ⟨⟨rc, event⟩, _, run⟩ := Exec.bind_eq_ok.mp run
  dsimp only at run
  split at run
  · split at run
    · cases run
    · obtain ⟨row, rowRun, result⟩ := Exec.bind_eq_ok.mp run
      cases result
      exact (tuneRow_length rowRun).trans (resize_length _ _)
  · cases run
    cases tuned

section Columns

variable {self : CTable} {memory : Bytes} {used nulls : BitVec 64}

variable (self memory used nulls) in
theorem updateColumn_spent {table : Option Address} {front back : List CValue}
    {value : CValue} {cursor : RowCursor}
    (row : cursor.row = ⟨table, front ++ value :: back⟩)
    (spent : cursor.size ≤ 0) :
    self.updateColumn memory used nulls front.length cursor =
      .ok { cursor with
        row := ⟨table, front ++ .blank value.pos :: back⟩ } := by
  simp [updateColumn, spent, row, modifyAt_append, CValue.reset_eq_blank,
    Except.map]

variable (memory used nulls) in
/-- With something left to read a column is framed where the used bit is set
and the null bit is not, and reset elsewhere. -/
theorem updateColumn_unspent {table : Option Address}
    {front back : List CValue} {value : CValue} {cursor : RowCursor}
    {type : EColumnType} {metadata : Nat} {columns : List Column}
    (row : cursor.row = ⟨table, front ++ value :: back⟩)
    (unspent : 0 < cursor.size)
    (has : self.HasColumnsFrom ((type, metadata) :: columns) front.length
      cursor.pmetadata)
    (bit : cursor.bit = columnBit front.length) (small : front.length < 64) :
    ∃ behind, self.HasColumnsFrom columns (front.length + 1) behind ∧
      self.updateColumn memory used (~~~nulls) front.length cursor =
        if used.getLsbD front.length ∧ nulls.getLsbD front.length = false then do
          let length ←
            CValue.calcFieldSize type memory cursor.data metadata
          let framed ← (CValue.blank value.pos).tune type memory cursor.data
            metadata length
          return { row := ⟨table, front ++ framed :: back⟩
                   data := cursor.data + length, size := cursor.size - length
                   pmetadata := behind, bit := columnBit (front.length + 1) }
        else .ok { cursor with
          row := ⟨table, front ++ .blank value.pos :: back⟩
          pmetadata := behind, bit := columnBit (front.length + 1) } := by
  obtain ⟨behind, typeRead, metadataRead, later⟩ := has
  refine ⟨behind, later, ?_⟩
  have notSpent : ¬cursor.size ≤ 0 := by omega
  have selected :
      used &&& ~~~nulls &&& columnBit front.length ≠ 0 ↔
        used.getLsbD front.length ∧ nulls.getLsbD front.length = false := by
    rw [and_columnBit_ne_zero _ _ small]
    simp [small]
  simp only [updateColumn, notSpent, if_false, typeRead, Exec.ok_bind,
    metadataRead, row, modifyAt_append, Except.map, CValue.reset_eq_blank,
    bit, selected, columnBit_succ]
  split
  · cases size : CValue.calcFieldSize type memory cursor.data metadata with
    | error fault => simp
    | ok length =>
        cases framed : (CValue.blank value.pos).tune type memory cursor.data
            metadata length with
        | error fault => simp [framed]
        | ok result => simp [framed]
  · rfl

theorem updateColumn_other {i j : Nat} {cursor final : RowCursor}
    (done : self.updateColumn memory used nulls i cursor = .ok final)
    (different : i ≠ j) :
    final.row.data[j]? = cursor.row.data[j]? := by
  unfold updateColumn at done
  split at done
  · obtain ⟨row, modified, result⟩ := Exec.bind_eq_ok.mp done
    cases result
    exact modifyAt_other modified different
  · obtain ⟨type, _, done⟩ := Exec.bind_eq_ok.mp done
    obtain ⟨⟨metadata, pmetadata⟩, _, done⟩ := Exec.bind_eq_ok.mp done
    obtain ⟨row, reset, done⟩ := Exec.bind_eq_ok.mp done
    have resetOther := modifyAt_other reset different
    split at done
    · obtain ⟨length, _, done⟩ := Exec.bind_eq_ok.mp done
      obtain ⟨framed, modified, done⟩ := Exec.bind_eq_ok.mp done
      cases done
      exact (modifyAt_other modified different).trans resetOther
    · cases done
      exact resetOther

theorem updateColumns_front {todo i j : Nat} {cursor final : RowCursor}
    (done : self.updateColumns memory used nulls todo i cursor = .ok final)
    (front : j < i) :
    final.row.data[j]? = cursor.row.data[j]? := by
  induction todo generalizing i cursor with
  | zero => cases done; rfl
  | succ todo induction =>
      obtain ⟨next, first, rest⟩ := Exec.bind_eq_ok.mp done
      exact (induction rest (by omega)).trans
        (updateColumn_other first (by omega))

/-- The loop is about to do the column behind `front`, with `columns` to do. -/
structure AtColumn (owner : CTable) (table : Option Address)
    (front back leftover : List CValue) (columns : List Column)
    (cursor : RowCursor) : Prop where
  row : cursor.row = ⟨table, front ++ back ++ leftover⟩
  positions : back.map CValue.pos = List.range' front.length columns.length
  small : front.length + columns.length ≤ 64
  ready : 0 < cursor.size →
    owner.HasColumnsFrom columns front.length cursor.pmetadata ∧
      cursor.bit = columnBit front.length

/-- The value a column comes to, and where the next one starts with how many bytes
to read. -/
def columnOutcome (memory : Bytes) (used nulls : BitVec 64) (column : Column)
    (i : Nat) (cursor : RowCursor) : Exec (CValue × Nat × Int) :=
  if 0 < cursor.size ∧ used.getLsbD i ∧ nulls.getLsbD i = false then do
    let length ← CValue.calcFieldSize column.1 memory cursor.data column.2
    let framed ← (CValue.blank i).tune column.1 memory cursor.data column.2
      length
    return (framed, cursor.data + length, cursor.size - length)
  else .ok (.blank i, cursor.data, cursor.size)

theorem columnOutcome_size {column : Column} {i data : Nat}
    {cursor : RowCursor} {value : CValue} {size : Int}
    (outcome : columnOutcome memory used nulls column i cursor =
      .ok (value, data, size)) : size ≤ cursor.size := by
  unfold columnOutcome at outcome
  split at outcome
  · obtain ⟨length, _, outcome⟩ := Exec.bind_eq_ok.mp outcome
    obtain ⟨framed, _, outcome⟩ := Exec.bind_eq_ok.mp outcome
    cases outcome
    omega
  · cases outcome
    exact le_refl _

section AtColumn

variable {table : Option Address} {front back leftover : List CValue}
  {column : Column} {columns : List Column} {cursor : RowCursor}

namespace AtColumn

theorem next {value : CValue} {next : RowCursor}
    (here : self.AtColumn table front back leftover (column :: columns) cursor)
    (row : next.row = ⟨table, front ++ value :: (back.tail ++ leftover)⟩)
    (ready : 0 < next.size →
      self.HasColumnsFrom columns (front.length + 1) next.pmetadata ∧
        next.bit = columnBit (front.length + 1)) :
    self.AtColumn table (front ++ [value]) back.tail leftover columns next := by
  have frontLength : (front ++ [value]).length = front.length + 1 := by simp
  have positions := congrArg List.tail here.positions
  have small := here.small
  rw [List.length_cons] at small
  refine ⟨by simp [row], ?_, ?_, ?_⟩
  · rw [frontLength, List.map_tail, positions, List.length_cons,
      List.range'_succ, List.tail_cons]
  · rw [frontLength]
    omega
  · rw [frontLength]
    exact ready

theorem step
    (here : self.AtColumn table front back leftover (column :: columns)
      cursor) :
    ∃ behind bit,
      self.updateColumn memory used (~~~nulls) front.length cursor =
          (columnOutcome memory used nulls column front.length cursor).map
            (fun outcome =>
              { row := ⟨table, front ++ outcome.1 :: (back.tail ++ leftover)⟩
                data := outcome.2.1, size := outcome.2.2
                pmetadata := behind, bit }) ∧
        ∀ value data size,
          columnOutcome memory used nulls column front.length cursor =
            .ok (value, data, size) →
          self.AtColumn table (front ++ [value]) back.tail leftover columns
            { row := ⟨table, front ++ value :: (back.tail ++ leftover)⟩
              data, size, pmetadata := behind, bit } := by
  obtain ⟨type, metadata⟩ := column
  have positions := here.positions
  have small := here.small
  cases back with
  | nil => simp at positions
  | cons value back =>
  simp only [List.map_cons, List.length_cons, List.range'_succ,
    List.cons.injEq] at positions small
  have row : cursor.row = ⟨table, front ++ value :: (back ++ leftover)⟩ := by
    simp [here.row]
  by_cases unspent : 0 < cursor.size
  · obtain ⟨has, bit⟩ := here.ready unspent
    obtain ⟨behind, later, run⟩ := updateColumn_unspent memory used nulls row
      unspent has bit (by omega)
    refine ⟨behind, columnBit (front.length + 1), ?_, fun _ _ _ _ =>
      here.next rfl fun _ => ⟨later, rfl⟩⟩
    rw [run, positions.1, columnOutcome]
    by_cases read : used.getLsbD front.length = true ∧
        nulls.getLsbD front.length = false
    · rw [if_pos read, if_pos ⟨unspent, read⟩]
      cases CValue.calcFieldSize type memory cursor.data metadata with
      | error fault => rfl
      | ok length =>
          simp only [Exec.ok_bind]
          cases (CValue.blank front.length).tune type memory cursor.data
              metadata length with
          | error fault => rfl
          | ok framed => rfl
    · rw [if_neg read, if_neg fun both => read both.2]
      rfl
  · refine ⟨cursor.pmetadata, cursor.bit, ?_, ?_⟩
    · rw [updateColumn_spent self memory used (~~~nulls) row (by omega),
        positions.1, columnOutcome, if_neg fun both => unspent both.1]
      rfl
    · intro _ _ _ outcome
      have size := columnOutcome_size outcome
      exact here.next rfl fun more => absurd (more.trans_le size) unspent

theorem stepped {next : RowCursor}
    (here : self.AtColumn table front back leftover (column :: columns) cursor)
    (first : self.updateColumn memory used (~~~nulls) front.length cursor =
      .ok next) :
    ∃ value,
      columnOutcome memory used nulls column front.length cursor =
          .ok (value, next.data, next.size) ∧
        next.row = ⟨table, front ++ value :: (back.tail ++ leftover)⟩ ∧
        self.AtColumn table (front ++ [value]) back.tail leftover columns
          next := by
  obtain ⟨behind, bit, run, later⟩ := here.step
  rw [run] at first
  cases outcome : columnOutcome memory used nulls column front.length
      cursor with
  | error fault =>
      rw [outcome] at first
      cases first
  | ok result =>
      rw [outcome] at first
      cases first
      exact ⟨result.1, rfl, rfl, later _ _ _ outcome⟩

end AtColumn

variable {cell : Cell} {cells : List Cell} {rest : Nat}

theorem columnOutcome_inPlace {i : Nat} {value : CValue}
    (size : cursor.size = (fieldsOf (cell :: cells)).length + rest)
    (usedBits : UsedBits used i (cell :: cells))
    (sized : Sized memory (column :: columns) (cell :: cells) cursor.data)
    (inPlace : InPlace nulls rest i (cell :: cells))
    (decoded : cellValue memory column cell cursor.data i = .ok value) :
    columnOutcome memory used nulls column i cursor =
        .ok (value, cursor.data + cell.bytes.length,
          (fieldsOf cells).length + rest) ∧
      InPlace nulls rest (i + 1) cells := by
  rw [fieldsOf_cons, List.length_append] at size
  unfold columnOutcome
  cases cell with
  | absent =>
      have unused : used.getLsbD i = false := usedBits.1
      cases decoded
      refine ⟨?_, inPlace⟩
      rw [if_neg (by simp [unused]), size]
      simp [Cell.bytes]
  | null =>
      cases decoded
      refine ⟨?_, inPlace.2⟩
      rw [if_neg, size]
      · simp [Cell.bytes]
      · rintro ⟨unspent, _, notNull⟩
        rcases inPlace.1 with isNull | nothing
        · rw [isNull] at notNull
          cases notNull
        · simp only [Cell.bytes, List.length_nil] at size
          omega
  | field bytes =>
      obtain ⟨positive, length⟩ := sized.1 bytes rfl
      simp only [Cell.bytes] at size
      simp only [cellValue] at decoded
      refine ⟨?_, inPlace.2⟩
      rw [if_pos ⟨by omega, usedBits.1, inPlace.1⟩, length, Exec.ok_bind,
        decoded, Exec.ok_bind, size]
      simp only [Cell.bytes, Exec.pure_eq_ok, Except.ok.injEq, Prod.mk.injEq,
        true_and]
      push_cast
      omega

/-- An image in place decodes to the row it denotes, and the cursor ends behind
its last field. -/
theorem updateColumns_inPlace {values : List CValue}
    (here : self.AtColumn table front back leftover columns cursor)
    (cellCount : cells.length = columns.length)
    (size : cursor.size = (fieldsOf cells).length + rest)
    (usedBits : UsedBits used front.length cells)
    (sized : Sized memory columns cells cursor.data)
    (inPlace : InPlace nulls rest front.length cells)
    (decoded : imageValues memory columns cells cursor.data front.length =
      .ok values) :
    ∃ pmetadata bit,
      self.updateColumns memory used (~~~nulls) columns.length front.length
          cursor =
        .ok { row := ⟨table, front ++ values ++ leftover⟩
              data := cursor.data + (fieldsOf cells).length, size := rest
              pmetadata, bit } := by
  induction columns generalizing front back cells values cursor with
  | nil =>
      have noCells : cells = [] := List.length_eq_zero_iff.mp cellCount
      have noBack : back = [] := by simpa using here.positions
      have row := here.row
      subst noCells noBack
      cases decoded
      refine ⟨cursor.pmetadata, cursor.bit, ?_⟩
      cases cursor
      simp_all [updateColumns]
  | cons column columns induction =>
      cases cells with
      | nil => cases cellCount
      | cons cell cells =>
      obtain ⟨value, valueDecoded, decoded⟩ := Exec.bind_eq_ok.mp decoded
      obtain ⟨values, valuesDecoded, result⟩ := Exec.bind_eq_ok.mp decoded
      cases result
      obtain ⟨outcome, tailInPlace⟩ :=
        columnOutcome_inPlace size usedBits sized inPlace valueDecoded
      obtain ⟨behind, bit, first, later⟩ := here.step
      have frontLength : (front ++ [value]).length = front.length + 1 := by
        simp
      have next := later _ _ _ outcome
      rw [outcome] at first
      rw [← frontLength] at valuesDecoded tailInPlace
      obtain ⟨pmetadata, bit, run⟩ := induction next
        (Nat.succ.inj cellCount) rfl
        (by rw [frontLength]; exact usedBits.2) sized.2 tailInPlace
        valuesDecoded
      refine ⟨pmetadata, bit, ?_⟩
      rw [List.length_cons, updateColumns, first]
      simp only [Except.map, Exec.ok_bind]
      rw [← frontLength, run]
      simp [Nat.add_assoc]

theorem inPlace_of_columnOutcome {i data : Nat} {value : CValue} {left : Int}
    (size : cursor.size = (fieldsOf (cell :: cells)).length + rest)
    (usedBits : UsedBits used i (cell :: cells))
    (sized : Sized memory (column :: columns) (cell :: cells) cursor.data)
    (outcome : columnOutcome memory used nulls column i cursor =
      .ok (value, data, left))
    (stored : value.storage.isSome = cell.hasField) :
    data = cursor.data + cell.bytes.length ∧
      left = (fieldsOf cells).length + rest ∧
      (InPlace nulls rest (i + 1) cells →
        InPlace nulls rest i (cell :: cells)) := by
  rw [fieldsOf_cons, List.length_append] at size
  unfold columnOutcome at outcome
  split at outcome
  case isTrue read =>
    obtain ⟨length, lengthRead, outcome⟩ := Exec.bind_eq_ok.mp outcome
    obtain ⟨framed, tuned, outcome⟩ := Exec.bind_eq_ok.mp outcome
    cases outcome
    rw [(CValue.tune_storage tuned).1] at stored
    cases cell with
    | absent => cases stored
    | null => cases stored
    | field bytes =>
        obtain ⟨positive, sizeRead⟩ := sized.1 bytes rfl
        rw [sizeRead] at lengthRead
        cases lengthRead
        simp only [Cell.bytes] at size
        refine ⟨rfl, ?_, fun tail => ⟨read.2.2, tail⟩⟩
        push_cast at size
        omega
  case isFalse unread =>
    cases outcome
    cases cell with
    | absent =>
        simp only [Cell.bytes, List.length_nil, Nat.zero_add] at size
        exact ⟨rfl, size, id⟩
    | null =>
        simp only [Cell.bytes, List.length_nil, Nat.zero_add] at size
        have isUsed : used.getLsbD i = true := usedBits.1
        refine ⟨rfl, size, fun tail => ⟨?_, tail⟩⟩
        by_contra neither
        obtain ⟨notNull, some⟩ := not_or.mp neither
        exact unread ⟨by omega, isUsed, by simpa using notNull⟩
    | field bytes => cases stored

/-- A decoder that finds a value in exactly the columns that have a field was
given an image in place. -/
theorem inPlace_of_updateColumns {final : RowCursor}
    (here : self.AtColumn table front back leftover columns cursor)
    (cellCount : cells.length = columns.length)
    (size : cursor.size = (fieldsOf cells).length + rest)
    (usedBits : UsedBits used front.length cells)
    (sized : Sized memory columns cells cursor.data)
    (done : self.updateColumns memory used (~~~nulls) columns.length
      front.length cursor = .ok final)
    (found : ∀ k cell, cells[k]? = some cell →
      ∃ value, final.row.data[front.length + k]? = some value ∧
        value.storage.isSome = cell.hasField) :
    InPlace nulls rest front.length cells := by
  induction columns generalizing front back cells cursor with
  | nil =>
      have noCells : cells = [] := List.length_eq_zero_iff.mp cellCount
      subst noCells
      trivial
  | cons column columns induction =>
      cases cells with
      | nil => cases cellCount
      | cons cell cells =>
      obtain ⟨next, first, done⟩ := Exec.bind_eq_ok.mp done
      obtain ⟨value, outcome, row, later⟩ := here.stepped first
      -- the value the loop leaves in this column is the one this round puts there
      have stored : value.storage.isSome = cell.hasField := by
        obtain ⟨other, otherAt, stored⟩ := found 0 cell rfl
        have kept := updateColumns_front done (Nat.lt_succ_self front.length)
        simp only [Nat.add_zero, kept, row, List.getElem?_append_right,
          Nat.le_refl, Nat.sub_self, List.getElem?_cons_zero,
          Option.some.injEq] at otherAt
        rw [otherAt]
        exact stored
      obtain ⟨data, left, inPlace⟩ :=
        inPlace_of_columnOutcome size usedBits sized outcome stored
      have frontLength : (front ++ [value]).length = front.length + 1 := by
        simp
      apply inPlace
      rw [← frontLength] at done ⊢
      refine induction later (Nat.succ.inj cellCount) left
        (by rw [frontLength]; exact usedBits.2) (by rw [data]; exact sized.2)
        done ?_
      intro k other otherAt
      obtain ⟨found, foundAt, stored⟩ := found (k + 1) other otherAt
      refine ⟨found, ?_, stored⟩
      rw [← foundAt, frontLength]
      congr 1
      omega

end AtColumn

end Columns

section Images

variable {self : CTable} {memory : Bytes} {columns : List Column}
  {cells : List Cell} {row : CRow} {used : BitVec 64}

theorem signedSize_of_lt {len : Nat} (small : len < 9223372036854775808) :
    signedSize len = len := by
  simp [signedSize, small]

/-- The cursor `update_row` starts with. -/
def startCursor (self : CTable) (row : CRow) (pdata len : Nat) : RowCursor :=
  { row, data := pdata, size := signedSize len, pmetadata := self.metadata
    bit := 1 }

theorem atColumn_start (hasColumns : self.HasColumns columns)
    (few : columns.length ≤ 64) (framed : row.Framed columns.length)
    (pdata len : Nat) :
    self.AtColumn row.table [] row.data [] columns
      (self.startCursor row pdata len) where
  row := by simp [startCursor]
  positions := by
    simpa [CRow.Framed, List.range_eq_range'] using framed
  small := by simpa using few
  ready _ := ⟨hasColumns.2, columnBit_zero.symm⟩

theorem startCursor_size (self : CTable) (row : CRow) (pdata : Nat)
    {len rest : Nat} (length : len = (fieldsOf cells).length + rest)
    (small : len < 9223372036854775808) :
    (self.startCursor row pdata len).size =
      (fieldsOf cells).length + rest := by
  rw [startCursor, signedSize_of_lt small, length]
  push_cast
  rfl

theorem updateRow_inPlace {nulls : BitVec 64} {pdata len rest : Nat}
    {values : List CValue} (hasColumns : self.HasColumns columns)
    (few : columns.length ≤ 64) (framed : row.Framed columns.length)
    (cellCount : cells.length = columns.length)
    (length : len = (fieldsOf cells).length + rest)
    (small : len < 9223372036854775808) (usedBits : UsedBits used 0 cells)
    (sized : Sized memory columns cells pdata)
    (inPlace : InPlace nulls rest 0 cells)
    (decoded : imageValues memory columns cells pdata 0 = .ok values) :
    self.updateRow memory row pdata len columns.length used (~~~nulls) =
      .ok { rc := 0, row := ⟨row.table, values⟩
            pdata := pdata + (fieldsOf cells).length, len := rest } := by
  obtain ⟨pmetadata, bit, run⟩ := updateColumns_inPlace
    (atColumn_start hasColumns few framed pdata len) cellCount
    (startCursor_size self row pdata length small) usedBits sized inPlace
    decoded
  simp only [List.length_nil, startCursor] at run
  simp only [updateRow, run, Exec.ok_bind]
  simp

theorem updateImage_inPlace {rlev : CRowLogEvent} {nulls : Bytes}
    {pfields len usedCount rest : Nat} {values : List CValue}
    (hasColumns : self.HasColumns columns) (few : columns.length ≤ 64)
    (framed : row.Framed columns.length)
    (ncolumns : rlev.ncolumns = columns.length)
    (cellCount : cells.length = columns.length)
    (some : 1 ≤ usedCount) (notMany : usedCount ≤ 48)
    (nullsLength : nulls.length = Bitmap.byteCount usedCount)
    (stored : Stored memory pfields nulls)
    (length : len = nulls.length + (fieldsOf cells).length + rest)
    (small : len < 9223372036854775808) (usedBits : UsedBits used 0 cells)
    (sized : Sized memory columns cells (pfields + nulls.length))
    (inPlace :
      InPlace (BitVec.ofNat 64 (littleEndian nulls)) rest 0 cells)
    (decoded :
      imageValues memory columns cells (pfields + nulls.length) 0 =
        .ok values) :
    self.updateImage memory rlev row pfields len usedCount used =
      .ok { rc := 0, row := ⟨row.table, values⟩
            pdata := pfields + nulls.length + (fieldsOf cells).length
            len := rest } := by
  have left : sizeSub len nulls.length = (fieldsOf cells).length + rest := by
    rw [sizeSub_eq (by omega) (by omega)]
    omega
  simp only [updateImage,
    CRowLogEvent.buildColumnMask_of_stored stored nullsLength some notMany,
    Exec.ok_bind, ncolumns]
  exact updateRow_inPlace hasColumns few framed cellCount left (by omega)
    usedBits sized inPlace decoded

theorem inPlace_of_updateRow {nulls : BitVec 64} {pdata len rest : Nat}
    {result : RowUpdate} (hasColumns : self.HasColumns columns)
    (few : columns.length ≤ 64) (framed : row.Framed columns.length)
    (cellCount : cells.length = columns.length)
    (length : len = (fieldsOf cells).length + rest)
    (small : len < 9223372036854775808) (usedBits : UsedBits used 0 cells)
    (sized : Sized memory columns cells pdata)
    (done : self.updateRow memory row pdata len columns.length used
      (~~~nulls) = .ok result)
    (found : ∀ (i : Nat) (cell : Cell), cells[i]? = some cell →
      ∃ value : CValue, result.row.data[i]? = some value ∧
        value.storage.isSome = cell.hasField) :
    InPlace nulls rest 0 cells := by
  obtain ⟨final, columnsDone, result⟩ := Exec.bind_eq_ok.mp done
  cases result
  exact inPlace_of_updateColumns
    (atColumn_start hasColumns few framed pdata len) cellCount
    (startCursor_size self row pdata length small) usedBits sized columnsDone
    (by simpa using found)

end Images

end CTable

end MysqlSlave
