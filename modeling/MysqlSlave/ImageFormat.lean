import MysqlSlave.RowFormat
import MysqlSlave.RowsEventFormat

/-!
# Row images as a server writes them

A row image is a bitmap with one bit for each column that is present, set where
the column is NULL, and behind it the fields of the columns that are not.  Which
columns are present is said once for the whole event.
-/

namespace MysqlSlave

open Region

/-- The bits of the columns-present bitmap. -/
def presentBits (cells : List Cell) : List Bool := cells.map Cell.present

/-- The bits of the null bitmap, one for each present column. -/
def nullBits (cells : List Cell) : List Bool :=
  (cells.filter Cell.present).map fun cell => !cell.hasField

/-- A row image; `padding` is what stands in the unused bits of its bitmap. -/
structure RowImage (table : TableSpec) where
  cells : List Cell
  padding : List Bool
  fits : RowFits table.columns cells
  pads : Bitmap.Pads (nullBits cells) padding

namespace RowImage

variable {table : TableSpec}

def nullBitmap (image : RowImage table) : Bytes :=
  Bitmap.encode (nullBits image.cells) image.padding

def fields (image : RowImage table) : Bytes :=
  fieldsOf (storeRow table.columns image.cells)

def encode (image : RowImage table) : Bytes :=
  image.nullBitmap ++ image.fields

theorem encode_length (image : RowImage table) :
    image.encode.length = image.nullBitmap.length +
      (fieldsOf (storeRow table.columns image.cells)).length :=
  List.length_append

theorem encode_pieces {image : RowImage table} {memory behind : Bytes}
    {address : Nat}
    (stored : Stored memory address (image.encode ++ behind)) :
    Stored memory address (image.nullBitmap ++
      (fieldsOf (storeRow table.columns image.cells) ++ behind)) := by
  rw [encode, List.append_assoc] at stored
  exact stored

/-- The decoded form of the image, stored at `address`. -/
def decoded (image : RowImage table) (address : Nat) : List CValue :=
  decodedRow table.columns image.cells (address + image.nullBitmap.length) 0

/-- Every column is present. -/
def Full (image : RowImage table) : Prop :=
  ∀ cell ∈ image.cells, cell.present = true

instance (image : RowImage table) : Decidable image.Full :=
  inferInstanceAs (Decidable (∀ cell ∈ image.cells, cell.present = true))

theorem nullBits_full {image : RowImage table} (full : image.Full) :
    nullBits image.cells = image.cells.map fun cell => !cell.hasField := by
  rw [nullBits, List.filter_eq_self.mpr full]

@[simp] theorem nullBitmap_length (image : RowImage table) :
    image.nullBitmap.length = Bitmap.byteCount (nullBits image.cells).length := by
  simp [nullBitmap]

theorem nullBits_length_le (cells : List Cell) :
    (nullBits cells).length ≤ cells.length := by
  rw [nullBits, List.length_map]
  exact List.length_filter_le _ _

theorem getLsbD_nullBitmap (image : RowImage table) {i : Nat}
    (inside : i < (nullBits image.cells).length) :
    (BitVec.ofNat 64 (littleEndian image.nullBitmap)).getLsbD i =
      (nullBits image.cells).getD i false := by
  have few : i < 64 := by
    have bits := nullBits_length_le image.cells
    have same := image.fits.length
    have most := table.few
    omega
  rw [BitVec.getLsbD_ofNat, nullBitmap, Bitmap.littleEndian_encode image.pads,
    Bitmap.testBit_value]
  simp [few, List.getElem?_append_left inside]

end RowImage

theorem storeRow_length {columns : List ColumnSpec} {cells : List Cell}
    (fits : RowFits columns cells) :
    (storeRow columns cells).length = columns.length := by
  rw [storeRow, List.length_zipWith, fits.length, Nat.min_self]

theorem storeRow_getElem? {columns : List ColumnSpec} {cells : List Cell}
    {i : Nat} {stored : Cell}
    (storedAt : (storeRow columns cells)[i]? = some stored) :
    ∃ cell, cells[i]? = some cell ∧ stored.present = cell.present ∧
      stored.hasField = cell.hasField := by
  rw [storeRow, List.getElem?_zipWith] at storedAt
  split at storedAt
  · rename_i column cell columnAt cellAt
    cases storedAt
    exact ⟨cell, cellAt, column.store_present cell, column.store_hasField cell⟩
  · cases storedAt

theorem decodedRow_positions {columns : List ColumnSpec} {cells : List Cell}
    (fits : RowFits columns cells) (address pos : Nat) :
    (decodedRow columns cells address pos).map CValue.pos =
      List.range' pos columns.length := by
  induction columns generalizing cells address pos with
  | nil => cases cells <;> rfl
  | cons column columns induction =>
      cases cells with
      | nil => cases fits
      | cons cell cells =>
          have position : (column.decoded cell address pos).pos = pos := by
            cases cell <;> rfl
          simp [decodedRow, position, induction fits.2, List.range'_succ]

theorem RowImage.decoded_framed {table : TableSpec} (image : RowImage table)
    (owner : Option Address) (address : Nat) :
    CRow.Framed ⟨owner, image.decoded address⟩ table.columns.length := by
  rw [CRow.Framed, List.range_eq_range']
  exact decodedRow_positions image.fits _ _

section Masks

theorem usedBits_of_getLsbD {used : BitVec 64} {i : Nat} {cells : List Cell}
    (bits : ∀ k cell, cells[k]? = some cell →
      used.getLsbD (i + k) = cell.present) :
    UsedBits used i cells := by
  induction cells generalizing i with
  | nil => trivial
  | cons cell cells induction =>
      refine ⟨bits 0 cell rfl, induction ?_⟩
      intro k other otherAt
      have bit := bits (k + 1) other otherAt
      rwa [← Nat.add_assoc, Nat.add_right_comm] at bit

theorem inPlace_of_getLsbD {nulls : BitVec 64} {rest i : Nat}
    {cells : List Cell}
    (bits : ∀ k cell, cells[k]? = some cell →
      nulls.getLsbD (i + k) = !cell.hasField) :
    InPlace nulls rest i cells := by
  induction cells generalizing i with
  | nil => trivial
  | cons cell cells induction =>
      have head := bits 0 cell rfl
      have tail : InPlace nulls rest (i + 1) cells := by
        apply induction
        intro k other otherAt
        have bit := bits (k + 1) other otherAt
        rwa [← Nat.add_assoc, Nat.add_right_comm] at bit
      cases cell with
      | absent => exact tail
      | null => exact ⟨Or.inl head, tail⟩
      | field bytes => exact ⟨head, tail⟩

/-- The columns and their number in a packed mask for the columns-present bitmap
`bits`. -/
theorem unpack_encode {bits padding : List Bool} {packed : BitVec 64}
    (pads : Bitmap.Pads bits padding) (few : bits.length ≤ 48)
    (built : packed = CRowLogEvent.updateN1bits
      (BitVec.ofNat 64 (littleEndian (Bitmap.encode bits padding)))) :
    (∀ i < bits.length, packed.getLsbD i = bits.getD i false) ∧
      (packed >>> (64 - 8)).toNat = (bits ++ padding).count true := by
  have length : (bits ++ padding).length ≤ 48 := by
    have most : Bitmap.byteCount bits.length ≤ 6 := by
      unfold Bitmap.byteCount
      omega
    have fits : (bits ++ padding).length ≤
        8 * Bitmap.byteCount bits.length := pads
    omega
  rw [built, Bitmap.littleEndian_encode pads]
  constructor
  · intro i inside
    have low : i < 56 := by omega
    have position : i < 64 := by omega
    rw [CRowLogEvent.updateN1bits_bit _ low, BitVec.getLsbD_ofNat,
      Bitmap.testBit_value, List.getD_eq_getElem?_getD,
      List.getElem?_append_left inside]
    simp [position]
  · rw [CRowLogEvent.updateN1bits_count,
      CRowLogEvent.countBits_value 0 (by omega) (by omega), Nat.zero_add]

end Masks

end MysqlSlave
