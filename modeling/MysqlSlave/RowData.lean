import MysqlSlave.RowLoop

/-!
# Malformed row data

What the row data of a rows event should be: complete row images, one behind the
other, for an UPDATE in pairs.  `CTable::update` computes a result code for
anything else, but its loop is only left with the code 0; and what it pushes for
an UPDATE pairs up only if every image is read to its end.
-/

namespace MysqlSlave

open Region

/-- The bytes that `calc_field_size` takes for a field, wherever they stand. -/
def FieldOf (column : Column) (field : Bytes) : Prop :=
  ∀ front behind : Bytes, behind ≠ [] →
    CValue.calcFieldSize column.1 (front ++ (field ++ behind)) front.length
      column.2 = .ok field.length

/-- The fields of an image, one for each column that is present and not NULL;
`nulls` has a bit for each column that is present. -/
inductive FieldsOf : List Column → List Bool → List Bool → Bytes → Prop where
  | nil : FieldsOf [] [] [] []
  | absent {columns : List Column} {used nulls : List Bool} {bytes : Bytes}
      (column : Column) :
      FieldsOf columns used nulls bytes →
      FieldsOf (column :: columns) (false :: used) nulls bytes
  | null {columns : List Column} {used nulls : List Bool} {bytes : Bytes}
      (column : Column) :
      FieldsOf columns used nulls bytes →
      FieldsOf (column :: columns) (true :: used) (true :: nulls) bytes
  | field {columns : List Column} {column : Column} {used nulls : List Bool}
      {field bytes : Bytes} :
      FieldOf column field →
      FieldsOf columns used nulls bytes →
      FieldsOf (column :: columns) (true :: used) (false :: nulls)
        (field ++ bytes)

/-- A complete row image of the columns of a table. -/
def CompleteImage (columns : List Column) (used : List Bool) (image : Bytes) :
    Prop :=
  ∃ (nulls padding : List Bool) (fields : Bytes),
    Bitmap.Pads nulls padding ∧ FieldsOf columns used nulls fields ∧
      image = Bitmap.encode nulls padding ++ fields

/-- The used bits of the first `n` columns. -/
def usedColumns (mask : BitVec 64) (n : Nat) : List Bool :=
  (List.range n).map mask.getLsbD

/-- The bytes of one row: an image, or the before and the after image of an
UPDATE. -/
structure RowBytes where
  before : Bytes
  after : Bytes

def RowBytes.bytes (self : RowBytes) : Bytes := self.before ++ self.after

def rowBytes (rows : List RowBytes) : Bytes := rows.flatMap RowBytes.bytes

theorem FieldsOf.nulls_pos {columns : List Column} {used nulls : List Bool}
    {fields : Bytes} (shape : FieldsOf columns used nulls fields)
    (some : true ∈ used) : 1 ≤ nulls.length := by
  induction shape with
  | nil => cases some
  | absent _ _ induction =>
      apply induction
      simpa using some
  | null => simp
  | field => simp

theorem CompleteImage.nonempty {columns : List Column} {mask : BitVec 64}
    {ncolumns : Nat} {image : Bytes}
    (complete : CompleteImage columns (usedColumns mask ncolumns) image)
    (used : ∃ i < ncolumns, mask.getLsbD i = true) : image ≠ [] := by
  obtain ⟨nulls, padding, fields, _, shape, rfl⟩ := complete
  obtain ⟨i, inside, bit⟩ := used
  have some := shape.nulls_pos
    (List.mem_map.mpr ⟨i, List.mem_range.mpr inside, bit⟩)
  intro none
  have length := congrArg List.length none
  rw [List.length_append, Bitmap.encode_length, List.length_nil] at length
  unfold Bitmap.byteCount at length
  omega

namespace CTable

/-- `row` is decoded from the image at `place`, from all of it and from nothing
behind it. -/
def DecodedFrom (self : CTable) (memory : Bytes) (rlev : CRowLogEvent)
    (count : Nat) (used : BitVec 64) (image : Bytes) (place behind : Nat)
    (row : CRow) : Prop :=
  ∃ (buffer : CRow) (rc : Int), buffer.data.length = self.row.data.length ∧
    self.updateImage memory rlev buffer place (image.length + behind) count
      used = .ok ⟨rc, row, place + image.length, behind⟩

/-- The entries of the two lists are decoded from the before and the after images
of the rows, one of each for each row. -/
inductive PairsUp (self : CTable) (memory : Bytes) (rlev : CRowLogEvent) :
    Nat → List RowBytes → List CRow → List CRow → Prop where
  | nil (place : Nat) : PairsUp self memory rlev place [] [] []
  | cons {place : Nat} {row : RowBytes} {rows : List RowBytes} {old new : CRow}
      {olds news : List CRow} :
      self.DecodedFrom memory rlev rlev.usedColumns1bitCount
        rlev.usedColumnsMask row.before place
        (row.after.length + (rowBytes rows).length) old →
      self.DecodedFrom memory rlev rlev.usedColumnsAfterimage1bitCount
        rlev.usedColumnsAfterimageMask row.after (place + row.before.length)
        (rowBytes rows).length new →
      PairsUp self memory rlev (place + row.bytes.length) rows olds news →
      PairsUp self memory rlev place (row :: rows) (old :: olds) (new :: news)

section Pairs

variable {self : CTable} {memory : Bytes} {rlev : CRowLogEvent}

theorem PairsUp.length {rows : List RowBytes} {place : Nat}
    {olds news : List CRow}
    (pairs : self.PairsUp memory rlev place rows olds news) :
    olds.length = news.length := by
  induction pairs with
  | nil => rfl
  | cons _ _ _ induction => simp [induction]

end Pairs

end CTable

end MysqlSlave
