import Mathlib.Logic.Relation
import MysqlSlave.FieldBounds

/-!
# Where the row loop goes

`CTable::update` reads row data without a look at what is left behind it.  The
relations here say on the bytes and on the columns of the table what it reads for
a field, a column loop, an image and a row, and where it stands afterwards; the
lemmas say that a run comes back exactly if all of it is there.
-/

namespace MysqlSlave

open Region

section Moved

variable (memory : Bytes) (address : Nat)

end Moved

/-- What is read in front of a field is there, and the digits of a NEWDECIMAL are
indices of `dig2bytes`. -/
structure FieldReads (column : Column) (behind : Bytes) : Prop where
  digits : column.1 = .newdecimal → DigitsInside column.2
  counted : lengthBytes column ≤ behind.length

section Fields

variable {memory : Bytes} {address : Nat}

end Fields

/-- The row with `value` at index `i`. -/
def CRow.put (self : CRow) (i : Nat) (value : CValue) : CRow :=
  { self with data := self.data.set i value }

@[simp] theorem CRow.put_length (self : CRow) (i : Nat) (value : CValue) :
    (self.put i value).data.length = self.data.length :=
  List.length_set

theorem CRow.put_put (self : CRow) (i : Nat) (first second : CValue) :
    (self.put i first).put i second = self.put i second := by
  simp [CRow.put]

theorem CRow.put_other (self : CRow) {i j : Nat} (value : CValue)
    (different : i ≠ j) :
    (self.put i value).data[j]? = self.data[j]? := by
  simp [CRow.put, different]

theorem CRow.put_self (self : CRow) {i : Nat} (value : CValue)
    (inside : i < self.data.length) :
    (self.put i value).data[i]? = some value := by
  simp [CRow.put, inside]

theorem CRow.modifyAt_iff {row final : CRow} {i : Nat}
    {update : CValue → Exec CValue} :
    row.modifyAt i update = .ok final ↔
      ∃ value updated, row.data[i]? = some value ∧
        update value = .ok updated ∧ final = row.put i updated := by
  unfold CRow.modifyAt
  cases there : row.data[i]? with
  | none => simp
  | some value =>
      dsimp only
      constructor
      · intro run
        obtain ⟨updated, same, result⟩ := Exec.bind_eq_ok.mp run
        cases result
        exact ⟨value, updated, rfl, same, rfl⟩
      · intro found
        obtain ⟨value', updated, same, run, rfl⟩ := found
        cases same
        rw [run]
        rfl

theorem CRow.reset_at {row : CRow} {i : Nat} {value : CValue}
    (there : row.data[i]? = some value) :
    (row.modifyAt i fun value => .ok value.reset) =
      .ok (row.put i (.blank value.pos)) :=
  CRow.modifyAt_iff.mpr ⟨value, .blank value.pos, there, rfl, rfl⟩

namespace CTable

/-- One round of the column loop: nothing is left to read, the column has no
field, or a field is framed. -/
inductive ColumnStep (self : CTable) (memory : Bytes) (fields : BitVec 64)
    (i : Nat) (cursor : RowCursor) : RowCursor → Prop where
  | spent {value : CValue} :
      cursor.row.data[i]? = some value →
      cursor.size ≤ 0 →
      ColumnStep self memory fields i cursor
        { cursor with row := cursor.row.put i (.blank value.pos) }
  | skipped {value : CValue} {type : EColumnType} {metadata : Nat}
      {behind : Option Nat} :
      cursor.row.data[i]? = some value →
      0 < cursor.size →
      self.columnType i = .ok type →
      readMetadata self.data cursor.pmetadata
        (CValue.calcMetadataSize type) = .ok (metadata, behind) →
      fields &&& cursor.bit = 0 →
      ColumnStep self memory fields i cursor
        { cursor with
          row := cursor.row.put i (.blank value.pos), pmetadata := behind
          bit := cursor.bit <<< 1 }
  | framed {value framed : CValue} {type : EColumnType}
      {metadata length : Nat} {behind : Option Nat} :
      cursor.row.data[i]? = some value →
      0 < cursor.size →
      self.columnType i = .ok type →
      readMetadata self.data cursor.pmetadata
        (CValue.calcMetadataSize type) = .ok (metadata, behind) →
      fields &&& cursor.bit ≠ 0 →
      CValue.calcFieldSize type memory cursor.data metadata = .ok length →
      (CValue.blank value.pos).tune type memory cursor.data metadata length =
        .ok framed →
      ColumnStep self memory fields i cursor
        { row := cursor.row.put i framed, data := cursor.data + length
          size := cursor.size - length, pmetadata := behind
          bit := cursor.bit <<< 1 }

theorem updateColumn_iff {self : CTable} {memory : Bytes}
    {used nulls : BitVec 64} {i : Nat} {cursor final : RowCursor} :
    self.updateColumn memory used nulls i cursor = .ok final ↔
      ColumnStep self memory (used &&& nulls) i cursor final := by
  constructor
  · intro run
    unfold updateColumn at run
    split at run
    · rename_i spent
      obtain ⟨row, modified, result⟩ := Exec.bind_eq_ok.mp run
      obtain ⟨value, _, there, reset, rfl⟩ := CRow.modifyAt_iff.mp modified
      cases reset
      cases result
      exact .spent there spent
    · rename_i unspent
      obtain ⟨type, typeRead, run⟩ := Exec.bind_eq_ok.mp run
      obtain ⟨⟨metadata, behind⟩, metadataRead, run⟩ := Exec.bind_eq_ok.mp run
      obtain ⟨row, modified, run⟩ := Exec.bind_eq_ok.mp run
      obtain ⟨value, _, there, reset, rfl⟩ := CRow.modifyAt_iff.mp modified
      cases reset
      have inside := (List.getElem?_eq_some_iff.mp there).1
      split at run
      · rename_i selected
        obtain ⟨length, size, run⟩ := Exec.bind_eq_ok.mp run
        obtain ⟨row, tuned, result⟩ := Exec.bind_eq_ok.mp run
        obtain ⟨value', framed, there', framing, rfl⟩ :=
          CRow.modifyAt_iff.mp tuned
        rw [CRow.put_self _ _ inside] at there'
        cases there'
        cases result
        rw [CRow.put_put]
        exact .framed there (by omega) typeRead metadataRead selected size
          framing
      · rename_i skipped
        cases result : run
        exact .skipped there (by omega) typeRead metadataRead
          (not_not.mp skipped)
  · intro step
    cases step with
    | spent there spent =>
        unfold updateColumn
        rw [if_pos spent]
        exact Exec.bind_eq_ok.mpr ⟨_, CRow.reset_at there, rfl⟩
    | skipped there unspent typeRead metadataRead unselected =>
        have more : ¬cursor.size ≤ 0 := by omega
        have skipped : ¬used &&& nulls &&& cursor.bit ≠ 0 :=
          not_not.mpr unselected
        unfold updateColumn
        rw [if_neg more, typeRead, Exec.ok_bind, metadataRead, Exec.ok_bind]
        refine Exec.bind_eq_ok.mpr ⟨_, CRow.reset_at there, ?_⟩
        rw [if_neg skipped]
        rfl
    | @framed value framed type metadata length behind there unspent typeRead
        metadataRead selected size tuned =>
        have more : ¬cursor.size ≤ 0 := by omega
        have inside := (List.getElem?_eq_some_iff.mp there).1
        have again : (cursor.row.put i (.blank value.pos)).modifyAt i
            (fun value => value.tune type memory cursor.data metadata length) =
              .ok (cursor.row.put i framed) :=
          CRow.modifyAt_iff.mpr ⟨_, _, CRow.put_self _ _ inside, tuned,
            (CRow.put_put _ _ _ _).symm⟩
        unfold updateColumn
        rw [if_neg more, typeRead, Exec.ok_bind, metadataRead, Exec.ok_bind]
        refine Exec.bind_eq_ok.mpr ⟨_, CRow.reset_at there, ?_⟩
        rw [if_pos selected, size, Exec.ok_bind]
        exact Exec.bind_eq_ok.mpr ⟨_, again, rfl⟩

/-- The null bits in front of `rest`; without a bitmap every column is null. -/
def nullBits (count : Nat) (rest : Bytes) : BitVec 64 :=
  if count = 0 then -1
  else BitVec.ofNat 64 (littleEndian (rest.take (Bitmap.byteCount count)))

/-- The columns from index `i` on, for a row of `width` values: from the address
`data` with `size` bytes left to `last` with `left` of them.  Once nothing is left
the columns are reset, and nothing is read. -/
inductive ColumnsRead (self : CTable) (memory : Bytes) (fields : BitVec 64)
    (width last : Nat) (left : Int) :
    Nat → Nat → Option Nat → Nat → Int → Prop where
  | done (i : Nat) (pmetadata : Option Nat) :
      ColumnsRead self memory fields width last left 0 i pmetadata last left
  | spent {todo i data : Nat} {size : Int} {pmetadata : Option Nat} :
      i < width →
      size ≤ 0 →
      ColumnsRead self memory fields width last left todo (i + 1) pmetadata data
        size →
      ColumnsRead self memory fields width last left (todo + 1) i pmetadata data
        size
  | skipped {todo i data metadata : Nat} {size : Int}
      {pmetadata later : Option Nat} {type : EColumnType} :
      i < width →
      0 < size →
      self.columnType i = .ok type →
      readMetadata self.data pmetadata (CValue.calcMetadataSize type) =
        .ok (metadata, later) →
      fields &&& columnBit i = 0 →
      ColumnsRead self memory fields width last left todo (i + 1) later data
        size →
      ColumnsRead self memory fields width last left (todo + 1) i pmetadata data
        size
  | framed {todo i data metadata : Nat} {size : Int}
      {pmetadata later : Option Nat} {type : EColumnType} :
      i < width →
      0 < size →
      self.columnType i = .ok type →
      readMetadata self.data pmetadata (CValue.calcMetadataSize type) =
        .ok (metadata, later) →
      fields &&& columnBit i ≠ 0 →
      FieldReads (type, metadata) (memory.drop data) →
      ColumnsRead self memory fields width last left todo (i + 1) later
        (data + fieldLength (type, metadata) (memory.drop data))
        (size - fieldLength (type, metadata) (memory.drop data)) →
      ColumnsRead self memory fields width last left (todo + 1) i pmetadata data
        size

/-- A place in the row data: where the next image is read, and the length left. -/
structure RowsPlace where
  pfields : Nat
  len : Nat
  deriving DecidableEq, Repr

def RowUpdate.place (self : RowUpdate) : RowsPlace := ⟨self.pdata, self.len⟩

def RowsCursor.place (self : RowsCursor) : RowsPlace :=
  ⟨self.pfields, self.len⟩

/-- An image of `count` used columns is read at `place`, and the loop goes on at
`final`. -/
def ImageRead (self : CTable) (memory : Bytes) (ncolumns count : Nat)
    (used : BitVec 64) (place final : RowsPlace) : Prop :=
  (count = 0 ∨ place.pfields + Bitmap.byteCount count ≤ memory.length) ∧
    ∃ left : Int,
      self.ColumnsRead memory
        (used &&& ~~~nullBits count (memory.drop place.pfields))
        self.row.data.length final.pfields left ncolumns 0 self.metadata
        (place.pfields + Bitmap.byteCount count)
        (signedSize (sizeSub place.len (Bitmap.byteCount count))) ∧
      final.len = left.toNat

/-- A round of the row loop is read at `place`: an image and, if something is left
behind it, the after image of an UPDATE. -/
def RoundRead (self : CTable) (memory : Bytes) (rlev : CRowLogEvent)
    (place final : RowsPlace) : Prop :=
  place.len ≠ 0 ∧ ∃ middle,
    self.ImageRead memory rlev.ncolumns rlev.usedColumns1bitCount
      rlev.usedColumnsMask place middle ∧
    if middle.len ≠ 0 ∧ rlev.getTypeCode.isUpdateRows = true then
      self.ImageRead memory rlev.ncolumns rlev.usedColumnsAfterimage1bitCount
        rlev.usedColumnsAfterimageMask middle final
    else final = middle

section Columns

variable {self : CTable} {memory : Bytes} {used nulls : BitVec 64}

theorem ColumnsRead.unmoved {width last todo i data : Nat} {left size : Int}
    {pmetadata : Option Nat}
    (walk : self.ColumnsRead memory 0 width last left todo i pmetadata data
      size) : left = size := by
  induction walk with
  | done => rfl
  | spent _ _ _ induction => exact induction
  | skipped _ _ _ _ _ _ induction => exact induction
  | framed _ _ _ _ selected => exact absurd (BitVec.zero_and) selected

end Columns

section Images

variable {self : CTable} {memory : Bytes} {rlev : CRowLogEvent} {row : CRow}
  {pfields len count : Nat} {used : BitVec 64}

/-- A null bitmap is read wherever its bytes are there. -/
theorem buildColumnMask_iff {nulls : CRowLogEvent.ColumnMask}
    (few : count ≤ 48) (small : len < 18446744073709551616) :
    CRowLogEvent.buildColumnMask memory pfields len count = .ok nulls ↔
      (count = 0 ∨ pfields + Bitmap.byteCount count ≤ memory.length) ∧
        nulls = ⟨nullBits count (memory.drop pfields),
          pfields + Bitmap.byteCount count,
          sizeSub len (Bitmap.byteCount count)⟩ := by
  by_cases none : count = 0
  · subst none
    have whole : sizeSub len (Bitmap.byteCount 0) = len :=
      sizeSub_eq (Nat.zero_le len) small
    have built : CRowLogEvent.buildColumnMask memory pfields len 0 =
        .ok ⟨-1, pfields, len⟩ := rfl
    rw [built, whole]
    constructor
    · intro same
      cases same
      exact ⟨Or.inl rfl, rfl⟩
    · rintro ⟨_, rfl⟩
      rfl
  · have least : 1 ≤ count := Nat.pos_of_ne_zero none
    have wide : 0 < Bitmap.byteCount count := by
      unfold Bitmap.byteCount
      omega
    constructor
    · intro built
      obtain ⟨mask, read, rfl⟩ :=
        CRowLogEvent.buildColumnMask_eq_ok least few built
      have inside := readLE_inside wide read
      rw [readLE_eq_ok inside] at read
      cases read
      exact ⟨Or.inr inside, by rw [nullBits, if_neg none]⟩
    · rintro ⟨inside, rfl⟩
      have inside := inside.resolve_left none
      have length : ((memory.drop pfields).take
          (Bitmap.byteCount count)).length = Bitmap.byteCount count := by
        rw [List.length_take, List.length_drop]
        omega
      rw [CRowLogEvent.buildColumnMask_of_stored
        (Stored.of_take_drop memory inside) length least few, length, nullBits,
        if_neg none]

theorem ImageRead.unmoved {ncolumns : Nat} {place final : RowsPlace}
    (small : place.len < 9223372036854775808)
    (read : self.ImageRead memory ncolumns 0 used place final) :
    final.len = place.len := by
  obtain ⟨_, left, walk, length⟩ := read
  have none : used &&& ~~~nullBits 0 (memory.drop place.pfields) = 0 := by
    have nulls : ~~~nullBits 0 (memory.drop place.pfields) = 0 := by
      simp [nullBits]
    rw [nulls]
    exact BitVec.and_zero
  have whole : sizeSub place.len (Bitmap.byteCount 0) = place.len :=
    sizeSub_eq (Nat.zero_le _) (by omega)
  rw [none] at walk
  rw [length, walk.unmoved, whole, signedSize_of_lt small, Int.toNat_natCast]

end Images

end CTable

end MysqlSlave
