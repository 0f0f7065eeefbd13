import Mathlib.Tactic.IntervalCases
import MysqlSlave.RowImage

/-!
# The row format of the binlog

How a server describes a column in a TABLE_MAP event and how it stores a value
of that column in a row image.  This is the format the decoder is meant to read;
nothing here is taken from the decoder.  The lemmas at the end say that
`calc_field_size` and `CValue::tune` frame every stored value of a column of a
`Supported` type.
-/

namespace MysqlSlave

open Region

/-- The place of a value in a row image: a fixed number of bytes, or a length of
`lengthBytes` bytes and then that many bytes. -/
inductive FieldLayout
  | fixed (width : Nat)
  | counted (lengthBytes maxLength : Nat)
  deriving DecidableEq, Repr

namespace FieldLayout

def prefixLength : FieldLayout → Nat
  | fixed _ => 0
  | counted lengthBytes _ => lengthBytes

/-- The column can hold `payload`. -/
def Holds : FieldLayout → Bytes → Prop
  | fixed width, payload => payload.length = width
  | counted _ maxLength, payload => payload.length ≤ maxLength

def encode : FieldLayout → Bytes → Bytes
  | fixed _, payload => payload
  | counted lengthBytes _, payload =>
      bytesLE lengthBytes payload.length ++ payload

theorem encode_length (layout : FieldLayout) (payload : Bytes) :
    (layout.encode payload).length = layout.prefixLength + payload.length := by
  cases layout <;> simp [encode, prefixLength]

end FieldLayout

/-- A column as it is declared. -/
inductive ColumnSpec
  | tiny
  | short
  | int24
  | long
  | longlong
  | float
  | double
  | year
  | date
  | time
  | datetime
  | timestamp
  | timestamp2 (fsp : Nat)
  | time2 (fsp : Nat)
  | datetime2 (fsp : Nat)
  | newdecimal (precision scale : Nat)
  | bit (width : Nat)
  | varchar (maxLength : Nat)
  | blob (lengthBytes : Nat)
  | char (maxLength : Nat)
  | enum (packLength : Nat)
  | set (packLength : Nat)
  deriving DecidableEq, Repr

namespace ColumnSpec

/-- The parameters a declaration can have. -/
def Valid : ColumnSpec → Prop
  | timestamp2 fsp => fsp ≤ 6
  | time2 fsp => fsp ≤ 6
  | datetime2 fsp => fsp ≤ 6
  | newdecimal precision scale =>
      1 ≤ precision ∧ precision ≤ 255 ∧ scale ≤ precision
  | bit width => 1 ≤ width ∧ width ≤ 64
  | varchar maxLength => maxLength ≤ 65535
  | blob lengthBytes => 1 ≤ lengthBytes ∧ lengthBytes ≤ 4
  | char maxLength => maxLength ≤ 255
  | enum packLength => 1 ≤ packLength ∧ packLength ≤ 2
  | set packLength => 1 ≤ packLength ∧ packLength ≤ 8
  | _ => True

/-- The type byte in a TABLE_MAP event. -/
def code : ColumnSpec → UInt8
  | tiny => 1
  | short => 2
  | long => 3
  | float => 4
  | double => 5
  | timestamp => 7
  | longlong => 8
  | int24 => 9
  | date => 10
  | time => 11
  | datetime => 12
  | year => 13
  | varchar _ => 15
  | bit _ => 16
  | timestamp2 _ => 17
  | datetime2 _ => 18
  | time2 _ => 19
  | newdecimal _ _ => 246
  | blob _ => 252
  | char _ => 254
  | enum _ => 254
  | set _ => 254

/-- The metadata in a TABLE_MAP event. -/
def metadataBytes : ColumnSpec → Bytes
  | float => [4]
  | double => [8]
  | timestamp2 fsp => [.ofNat fsp]
  | time2 fsp => [.ofNat fsp]
  | datetime2 fsp => [.ofNat fsp]
  | newdecimal precision scale => [.ofNat precision, .ofNat scale]
  | bit width => [.ofNat (width % 8), .ofNat (width / 8)]
  | varchar maxLength => bytesLE 2 maxLength
  | blob lengthBytes => [.ofNat lengthBytes]
  | char maxLength => [254, .ofNat maxLength]
  | enum packLength => [247, .ofNat packLength]
  | set packLength => [248, .ofNat packLength]
  | _ => []

def layout : ColumnSpec → FieldLayout
  | tiny => .fixed 1
  | short => .fixed 2
  | int24 => .fixed 3
  | long => .fixed 4
  | longlong => .fixed 8
  | float => .fixed 4
  | double => .fixed 8
  | year => .fixed 1
  | date => .fixed 3
  | time => .fixed 3
  | datetime => .fixed 8
  | timestamp => .fixed 4
  | timestamp2 fsp => .fixed (4 + (fsp + 1) / 2)
  | time2 fsp => .fixed (3 + (fsp + 1) / 2)
  | datetime2 fsp => .fixed (5 + (fsp + 1) / 2)
  | newdecimal precision scale =>
      .fixed (decimalBytes (precision - scale) + decimalBytes scale)
  | bit width => .fixed ((width + 7) / 8)
  | varchar maxLength => .counted (if maxLength ≤ 255 then 1 else 2) maxLength
  | blob lengthBytes => .counted lengthBytes (256 ^ lengthBytes - 1)
  | char maxLength => .counted 1 maxLength
  | enum packLength => .fixed packLength
  | set packLength => .fixed packLength

/-- The type of a decoded value; a CHAR, an ENUM and a SET column share the type
byte `STRING` and differ in their metadata. -/
def realType (column : ColumnSpec) : EColumnType :=
  match column with
  | char _ => .string
  | enum _ => .enum
  | set _ => .set
  | column => .ofCode column.code

/-- The types `calc_field_size` has the right length for. -/
def Supported : ColumnSpec → Prop
  | timestamp2 fsp => fsp = 0
  | time2 _ => False
  | _ => True

/-- The column as the decoder sees it. -/
def column (spec : ColumnSpec) : Column :=
  (.ofCode spec.code, littleEndian spec.metadataBytes)

/-- What a row image holds for the column when the row holds `cell`, whose bytes
are the value alone. -/
def store (spec : ColumnSpec) : Cell → Cell
  | .field payload => .field (spec.layout.encode payload)
  | cell => cell

/-- The decoded form of `cell`, stored at `address`. -/
def decoded (spec : ColumnSpec) (cell : Cell) (address pos : Nat) : CValue :=
  match cell with
  | .field payload =>
      { type := spec.realType
        storage := some (address + spec.layout.prefixLength)
        size := payload.length, metadata := littleEndian spec.metadataBytes
        null := false, pos }
  | _ => .blank pos

@[simp] theorem store_present (spec : ColumnSpec) (cell : Cell) :
    (spec.store cell).present = cell.present := by
  cases cell <;> rfl

@[simp] theorem store_hasField (spec : ColumnSpec) (cell : Cell) :
    (spec.store cell).hasField = cell.hasField := by
  cases cell <;> rfl

end ColumnSpec

/-- The columns of a table, as many as a column mask can hold. -/
structure TableSpec where
  columns : List ColumnSpec
  nonempty : 1 ≤ columns.length
  few : columns.length ≤ 48
  valid : ∀ column ∈ columns, column.Valid

/-- Every cell holds something its column can hold. -/
def RowFits : List ColumnSpec → List Cell → Prop
  | column :: columns, cell :: cells =>
      (∀ payload, cell = .field payload → column.layout.Holds payload) ∧
        RowFits columns cells
  | [], [] => True
  | _, _ => False

/-- The cells a row image holds for a row. -/
def storeRow (columns : List ColumnSpec) (cells : List Cell) : List Cell :=
  List.zipWith ColumnSpec.store columns cells

/-- The decoded form of a row whose fields start at `address`. -/
def decodedRow : List ColumnSpec → List Cell → Nat → Nat → List CValue
  | column :: columns, cell :: cells, address, pos =>
      column.decoded cell address pos ::
        decodedRow columns cells (address + (column.store cell).bytes.length)
          (pos + 1)
  | _, _, _, _ => []

theorem RowFits.length {columns : List ColumnSpec} {cells : List Cell}
    (fits : RowFits columns cells) : cells.length = columns.length := by
  induction columns generalizing cells with
  | nil =>
      cases cells with
      | nil => rfl
      | cons cell cells => cases fits
  | cons column columns induction =>
      cases cells with
      | nil => cases fits
      | cons cell cells => simp [induction fits.2]

theorem readLE_count {memory : Bytes} {address width : Nat}
    {payload behind : Bytes} (small : payload.length < 256 ^ width)
    (stored : Stored memory address
      (bytesLE width payload.length ++ payload ++ behind)) :
    readLE memory address width = .ok payload.length := by
  have read := readLE_of_stored stored.left.left
  rwa [bytesLE_length, littleEndian_bytesLE_of_lt small] at read

theorem readByte_count {memory : Bytes} {address : Nat}
    {payload behind : Bytes} (small : payload.length < 256)
    (stored : Stored memory address
      (bytesLE 1 payload.length ++ payload ++ behind)) :
    ∃ byte, readByte memory address = .ok byte ∧
      byte.toNat = payload.length := by
  refine ⟨.ofNat payload.length, readByte_of_stored stored, ?_⟩
  simp
  omega

/-- The four-byte read of a three-byte length. -/
theorem readLE_count_three {memory : Bytes} {address : Nat}
    {payload behind : Bytes} (small : payload.length < 16777216)
    (room : 0 < behind.length)
    (stored : Stored memory address
      (bytesLE 3 payload.length ++ payload ++ behind)) :
    ∃ word, readLE memory address 4 = .ok word ∧
      word % 16777216 = payload.length := by
  obtain ⟨next, rest, more⟩ : ∃ next rest, payload ++ behind = next :: rest := by
    cases split : payload ++ behind with
    | nil =>
        have none : behind = [] := (List.append_eq_nil_iff.mp split).2
        simp [none] at room
    | cons next rest => exact ⟨next, rest, rfl⟩
  rw [List.append_assoc, more] at stored
  have whole : Stored memory address
      ((bytesLE 3 payload.length ++ [next]) ++ rest) := by
    simpa using stored
  have read := readLE_of_stored whole.left
  have four : (bytesLE 3 payload.length ++ [next]).length = 4 := by simp
  rw [four] at read
  refine ⟨_, read, ?_⟩
  have low : littleEndian (bytesLE 3 payload.length) = payload.length :=
    littleEndian_bytesLE_of_lt small
  have split := littleEndian_append (bytesLE 3 payload.length) [next]
  rw [low, bytesLE_length] at split
  rw [split]
  exact (Nat.add_mul_mod_self_left _ _ _).trans (Nat.mod_eq_of_lt small)


section Columns

attribute [local simp] ColumnSpec.column ColumnSpec.code
  ColumnSpec.metadataBytes ColumnSpec.realType EColumnType.ofCode

theorem ColumnSpec.metadata_eq (spec : ColumnSpec) :
    littleEndian spec.metadataBytes = spec.column.2 := rfl

theorem ColumnSpec.column_timestamp2 {fsp : Nat} (bounded : fsp ≤ 6) :
    (timestamp2 fsp).column = (.timestamp2, fsp) := by
  simp [EColumnType.low]
  omega

theorem ColumnSpec.column_datetime2 {fsp : Nat} (bounded : fsp ≤ 6) :
    (datetime2 fsp).column = (.datetime2, fsp) := by
  simp [EColumnType.low]
  omega

theorem ColumnSpec.column_newdecimal {precision scale : Nat}
    (bounded : precision ≤ 255) (scaled : scale ≤ precision) :
    (newdecimal precision scale).column =
      (.newdecimal, precision + 256 * scale) := by
  simp [EColumnType.high]
  omega

theorem ColumnSpec.column_bit {width : Nat} (bounded : width ≤ 64) :
    (bit width).column = (.bit, width % 8 + 256 * (width / 8)) := by
  simp [EColumnType.low]
  omega

theorem ColumnSpec.column_varchar {maxLength : Nat}
    (bounded : maxLength ≤ 65535) :
    (varchar maxLength).column = (.varchar, maxLength) := by
  have read : littleEndian (bytesLE 2 maxLength) = maxLength :=
    littleEndian_bytesLE_of_lt (Nat.lt_succ_of_le bounded)
  simp [EColumnType.low, read]

theorem ColumnSpec.column_blob {lengthBytes : Nat}
    (bounded : lengthBytes ≤ 4) :
    (blob lengthBytes).column = (.blob, lengthBytes) := by
  simp [EColumnType.high]
  omega

theorem ColumnSpec.column_char {maxLength : Nat} (bounded : maxLength ≤ 255) :
    (char maxLength).column = (.string, 254 + 256 * maxLength) := by
  simp [EColumnType.high]
  omega

theorem ColumnSpec.column_enum {packLength : Nat} (bounded : packLength ≤ 2) :
    (enum packLength).column = (.string, 247 + 256 * packLength) := by
  simp [EColumnType.high]
  omega

theorem ColumnSpec.column_set {packLength : Nat} (bounded : packLength ≤ 8) :
    (set packLength).column = (.string, 248 + 256 * packLength) := by
  simp [EColumnType.high]
  omega

theorem ColumnSpec.realType_newdecimal (precision scale : Nat) :
    (newdecimal precision scale).realType = .newdecimal := by
  simp [EColumnType.high]

theorem ColumnSpec.realType_blob (lengthBytes : Nat) :
    (blob lengthBytes).realType = .blob := by
  simp [EColumnType.high]

end Columns


section Fields

variable {spec : ColumnSpec} {memory payload behind : Bytes}
  {address : Nat}

open ColumnSpec FieldLayout

theorem ColumnSpec.calcFieldSize_fixed {width : Nat} (valid : spec.Valid)
    (supported : spec.Supported) (fixed : spec.layout = .fixed width) :
    CValue.calcFieldSize spec.column.1 memory address spec.column.2 =
      .ok width := by
  cases spec with
  | timestamp2 fsp =>
      have none : fsp = 0 := supported
      cases fixed
      subst none
      rfl
  | time2 fsp => cases supported
  | datetime2 fsp =>
      cases fixed
      rw [column_datetime2 valid]
      have bounded : fsp ≤ 6 := valid
      interval_cases fsp <;> rfl
  | newdecimal precision scale =>
      obtain ⟨_, bounded, scaled⟩ := valid
      cases fixed
      rw [column_newdecimal bounded scaled]
      exact CValue.decimalSize_eq bounded scaled
  | bit width =>
      obtain ⟨positive, bounded⟩ := valid
      cases fixed
      rw [column_bit bounded]
      simp only [CValue.calcFieldSize, Except.ok.injEq]
      split <;> omega
  | enum packLength =>
      obtain ⟨positive, bounded⟩ := valid
      cases fixed
      have real : (247 + 256 * width) % 256 = 247 := by omega
      rw [column_enum bounded]
      simp only [CValue.calcFieldSize, real, EColumnType.ofCode_enum, or_true, if_true,
        Exec.pure_eq_ok, Except.ok.injEq]
      omega
  | set packLength =>
      obtain ⟨positive, bounded⟩ := valid
      cases fixed
      have real : (248 + 256 * width) % 256 = 248 := by omega
      rw [column_set bounded]
      simp only [CValue.calcFieldSize, real, EColumnType.ofCode_set, true_or, if_true,
        Exec.pure_eq_ok, Except.ok.injEq]
      omega
  | varchar maxLength => cases fixed
  | blob lengthBytes => cases fixed
  | char maxLength => cases fixed
  | _ => cases fixed; rfl

theorem ColumnSpec.calcFieldSize_varchar {maxLength : Nat}
    (bounded : maxLength ≤ 65535) (holds : payload.length ≤ maxLength)
    (stored : Stored memory address
      ((varchar maxLength).layout.encode payload ++ behind)) :
    CValue.calcFieldSize .varchar memory address maxLength =
      .ok ((varchar maxLength).layout.encode payload).length := by
  by_cases short : maxLength ≤ 255
  · simp only [layout, encode, short, if_true] at stored ⊢
    obtain ⟨byte, read, value⟩ := readByte_count (by omega) stored
    have notLong : ¬maxLength > 255 := by omega
    simp [CValue.calcFieldSize, notLong, read, value]
  · simp only [layout, encode, short, if_false] at stored ⊢
    have read := readLE_count (by omega) stored
    have long : maxLength > 255 := by omega
    simp [CValue.calcFieldSize, long, read]

theorem ColumnSpec.calcFieldSize_blob {lengthBytes : Nat}
    (positive : 1 ≤ lengthBytes) (bounded : lengthBytes ≤ 4)
    (holds : payload.length < 256 ^ lengthBytes)
    (stored : Stored memory address
      ((blob lengthBytes).layout.encode payload ++ behind))
    (room : 0 < behind.length)
    (small : ((blob lengthBytes).layout.encode payload).length < 4294967296) :
    CValue.calcFieldSize .blob memory address lengthBytes =
      .ok ((blob lengthBytes).layout.encode payload).length := by
  simp only [layout, encode, List.length_append, bytesLE_length]
    at stored small ⊢
  have read := readLE_count holds stored
  interval_cases lengthBytes
  · obtain ⟨byte, readFirst, value⟩ := readByte_count holds stored
    simp [CValue.calcFieldSize, readFirst, value]
  · simp [CValue.calcFieldSize, read]
  · obtain ⟨word, readWord, value⟩ := readLE_count_three holds room stored
    simp [CValue.calcFieldSize, readWord, value]
  · simp [CValue.calcFieldSize, read, Nat.mod_eq_of_lt small]

theorem ColumnSpec.calcFieldSize_char {maxLength : Nat}
    (bounded : maxLength ≤ 255) (holds : payload.length ≤ maxLength)
    (stored : Stored memory address
      ((char maxLength).layout.encode payload ++ behind)) :
    CValue.calcFieldSize .string memory address (254 + 256 * maxLength) =
      .ok ((char maxLength).layout.encode payload).length := by
  simp only [layout, encode] at stored ⊢
  obtain ⟨byte, read, value⟩ := readByte_count (by omega) stored
  have type : (254 + 256 * maxLength) % 256 = 254 := by omega
  have length : (254 + 256 * maxLength) / 256 = maxLength := by omega
  have small : maxLength < 256 := by omega
  have notPacked : ¬(EColumnType.string = .set ∨ EColumnType.string = .enum) :=
    by decide
  simp only [CValue.calcFieldSize, type, length, small, read, value,
    EColumnType.ofCode_string,     notPacked, if_false, if_true, Exec.ok_bind, Exec.pure_eq_ok,
    List.length_append, bytesLE_length, Nat.add_comm]

theorem ColumnSpec.calcFieldSize_store (valid : spec.Valid)
    (supported : spec.Supported) (holds : spec.layout.Holds payload)
    (stored : Stored memory address (spec.layout.encode payload ++ behind))
    (room : 0 < behind.length)
    (small : (spec.layout.encode payload).length < 4294967296) :
    CValue.calcFieldSize spec.column.1 memory address spec.column.2 =
      .ok (spec.layout.encode payload).length := by
  have atFixed : ∀ width, spec.layout = .fixed width →
      CValue.calcFieldSize spec.column.1 memory address spec.column.2 =
        .ok (spec.layout.encode payload).length := by
    intro width fixed
    rw [calcFieldSize_fixed valid supported fixed, encode_length]
    rw [fixed] at holds ⊢
    simpa [prefixLength] using holds.symm
  cases spec with
  | varchar maxLength =>
      rw [column_varchar valid]
      exact calcFieldSize_varchar valid holds stored
  | blob lengthBytes =>
      have positive : 0 < 256 ^ lengthBytes := Nat.pow_pos (by omega)
      have most : payload.length ≤ 256 ^ lengthBytes - 1 := holds
      have fits : payload.length < 256 ^ lengthBytes := by omega
      rw [column_blob valid.2]
      exact calcFieldSize_blob valid.1 valid.2 fits stored room small
  | char maxLength =>
      rw [column_char valid]
      exact calcFieldSize_char valid holds stored
  | _ => exact atFixed _ rfl

theorem ColumnSpec.tune_store (pos : Nat) (valid : spec.Valid)
    (supported : spec.Supported) (holds : spec.layout.Holds payload)
    (stored : Stored memory address (spec.layout.encode payload ++ behind)) :
    (CValue.blank pos).tune spec.column.1 memory address spec.column.2
        (spec.layout.encode payload).length =
      .ok (spec.decoded (.field payload) address pos) := by
  rw [ColumnSpec.decoded, metadata_eq]
  cases spec with
  | time2 fsp => cases supported
  | timestamp2 fsp =>
      rw [column_timestamp2 valid]
      rfl
  | datetime2 fsp =>
      rw [column_datetime2 valid]
      rfl
  | newdecimal precision scale =>
      rw [column_newdecimal valid.2.1 valid.2.2, realType_newdecimal]
      rfl
  | bit width =>
      rw [column_bit valid.2]
      rfl
  | enum packLength =>
      have real : (247 + 256 * packLength) % 256 = 247 := by omega
      have length : (247 + 256 * packLength) / 256 = packLength := by omega
      have same : packLength = payload.length := holds.symm
      rw [column_enum valid.2]
      simp only [CValue.tune, real, length, EColumnType.ofCode_enum]
      simp only [layout, prefixLength, realType, same]
      rfl
  | set packLength =>
      have real : (248 + 256 * packLength) % 256 = 248 := by omega
      have length : (248 + 256 * packLength) / 256 = packLength := by omega
      have same : packLength = payload.length := holds.symm
      rw [column_set valid.2]
      simp only [CValue.tune, real, length, EColumnType.ofCode_set]
      simp only [layout, prefixLength, realType, same]
      rfl
  | varchar maxLength =>
      have bounded : maxLength ≤ 65535 := valid
      have most : payload.length ≤ maxLength := holds
      rw [column_varchar valid]
      by_cases short : maxLength ≤ 255
      · have below : maxLength < 256 := by omega
        simp only [layout, encode, short, if_true] at stored
        obtain ⟨byte, read, value⟩ := readByte_count (by omega) stored
        simp only [CValue.tune, below, if_true, read, Exec.ok_bind, value,
          layout, prefixLength, short]
        rfl
      · have notBelow : ¬maxLength < 256 := by omega
        simp only [layout, encode, short, if_false] at stored
        have read := readLE_count (by omega) stored
        simp only [CValue.tune, notBelow, if_false, read, Exec.ok_bind,
          layout, prefixLength, short]
        rfl
  | blob lengthBytes =>
      have positive : 0 < 256 ^ lengthBytes := Nat.pow_pos (by omega)
      have most : payload.length ≤ 256 ^ lengthBytes - 1 := holds
      have read := readLE_count (by omega) stored
      rw [column_blob valid.2, realType_blob]
      simp only [CValue.tune, valid.1, valid.2, and_self, if_true, read,
        Exec.ok_bind]
      rfl
  | char maxLength =>
      have bounded : maxLength ≤ 255 := valid
      have real : (254 + 256 * maxLength) % 256 = 254 := by omega
      have length : (254 + 256 * maxLength) / 256 = maxLength := by omega
      have short : ¬maxLength > 255 := by omega
      have size : sizeSub (1 + payload.length) 1 = payload.length := by
        have most : payload.length ≤ maxLength := holds
        rw [sizeSub_eq (by omega) (by omega)]
        omega
      rw [column_char valid, encode_length]
      simp only [CValue.tune, real, length, EColumnType.ofCode_string, short,
        if_false, layout, prefixLength, realType, size]
      rfl
  | _ => rfl

end Fields
section Rows

variable {memory behind : Bytes}

theorem ColumnSpec.encode_pos {spec : ColumnSpec} {payload : Bytes}
    (valid : spec.Valid) (holds : spec.layout.Holds payload) :
    0 < (spec.layout.encode payload).length := by
  rw [FieldLayout.encode_length]
  cases spec with
  | newdecimal precision scale =>
      obtain ⟨positive, _, scaled⟩ := valid
      have width : payload.length =
          decimalBytes (precision - scale) + decimalBytes scale := holds
      simp only [decimalBytes] at width
      omega
  | bit width =>
      obtain ⟨positive, _⟩ := valid
      have bytes : payload.length = (width + 7) / 8 := holds
      omega
  | enum packLength =>
      obtain ⟨positive, _⟩ := valid
      have bytes : payload.length = packLength := holds
      omega
  | set packLength =>
      obtain ⟨positive, _⟩ := valid
      have bytes : payload.length = packLength := holds
      omega
  | varchar maxLength =>
      have positive : 0 < if maxLength ≤ 255 then 1 else 2 := by
        split <;> omega
      exact Nat.add_pos_left positive _
  | blob lengthBytes => exact Nat.add_pos_left valid.1 _
  | char maxLength => exact Nat.add_pos_left Nat.one_pos _
  | timestamp2 fsp =>
      have bytes : payload.length = 4 + (fsp + 1) / 2 := holds
      omega
  | time2 fsp =>
      have bytes : payload.length = 3 + (fsp + 1) / 2 := holds
      omega
  | datetime2 fsp =>
      have bytes : payload.length = 5 + (fsp + 1) / 2 := holds
      omega
  | _ =>
      simp only [layout, FieldLayout.Holds] at holds
      omega

/-- Every field of a stored row is framed, and the row decodes to itself. -/
theorem storeRow_framed {columns : List ColumnSpec} {cells : List Cell}
    {address : Nat} (pos : Nat)
    (valid : ∀ column ∈ columns, column.Valid)
    (supported : ∀ column ∈ columns, column.Supported)
    (fits : RowFits columns cells)
    (stored :
      Stored memory address (fieldsOf (storeRow columns cells) ++ behind))
    (room : 0 < behind.length)
    (small : (fieldsOf (storeRow columns cells)).length < 4294967296) :
    Sized memory (columns.map ColumnSpec.column) (storeRow columns cells)
        address ∧
      imageValues memory (columns.map ColumnSpec.column)
          (storeRow columns cells) address pos =
        .ok (decodedRow columns cells address pos) := by
  induction columns generalizing cells address pos with
  | nil =>
      cases cells with
      | nil => exact ⟨trivial, rfl⟩
      | cons cell cells => cases fits
  | cons column columns induction =>
      cases cells with
      | nil => cases fits
      | cons cell cells =>
      simp only [storeRow, List.zipWith_cons_cons, fieldsOf_cons,
        List.append_assoc, List.length_append] at stored small
      obtain ⟨sizedTail, decodedTail⟩ := induction (pos + 1)
        (fun other member => valid other (List.mem_cons_of_mem _ member))
        (fun other member => supported other (List.mem_cons_of_mem _ member))
        fits.2 stored.right (by unfold storeRow; omega)
      have columnValid := valid column List.mem_cons_self
      have columnSupported := supported column List.mem_cons_self
      have head : ∀ payload, cell = .field payload →
          0 < (column.layout.encode payload).length ∧
            CValue.calcFieldSize column.column.1 memory address
                column.column.2 =
              .ok (column.layout.encode payload).length ∧
            (CValue.blank pos).tune column.column.1 memory address
                column.column.2 (column.layout.encode payload).length =
              .ok (column.decoded cell address pos) := by
        intro payload same
        subst same
        have holds := fits.1 payload rfl
        refine ⟨ColumnSpec.encode_pos columnValid holds,
          ColumnSpec.calcFieldSize_store columnValid columnSupported holds
            stored ?_ ?_,
          ColumnSpec.tune_store pos columnValid columnSupported holds stored⟩
        · simp only [List.length_append]
          omega
        · simp only [ColumnSpec.store, Cell.bytes] at small
          omega
      constructor
      · refine ⟨?_, sizedTail⟩
        intro bytes isField
        cases cell with
        | absent => cases isField
        | null => cases isField
        | field payload =>
            cases isField
            obtain ⟨positive, size, _⟩ := head payload rfl
            exact ⟨positive, size⟩
      · have value : cellValue memory column.column (column.store cell)
            address pos = .ok (column.decoded cell address pos) := by
          cases cell with
          | absent => rfl
          | null => rfl
          | field payload => exact (head payload rfl).2.2
        rw [storeRow] at decodedTail
        simp only [storeRow, List.map_cons, List.zipWith_cons_cons,
          imageValues, value, Exec.ok_bind, decodedTail, decodedRow,
          Exec.pure_eq_ok]

/-- Column `i` of a decoded row is the decoded form of its own cell, stored
where the cell is stored. -/
theorem decodedRow_getElem? {columns : List ColumnSpec} {cells : List Cell}
    {address i : Nat} {column : ColumnSpec} {cell : Cell} (pos : Nat)
    (fits : RowFits columns cells)
    (stored :
      Stored memory address (fieldsOf (storeRow columns cells) ++ behind))
    (columnAt : columns[i]? = some column) (cellAt : cells[i]? = some cell) :
    ∃ start,
      (decodedRow columns cells address pos)[i]? =
          some (column.decoded cell start (pos + i)) ∧
        Stored memory start (column.store cell).bytes := by
  induction columns generalizing cells address pos i with
  | nil => simp at columnAt
  | cons head columns induction =>
      cases cells with
      | nil => cases fits
      | cons first cells =>
      simp only [storeRow, List.zipWith_cons_cons, fieldsOf_cons,
        List.append_assoc] at stored
      cases i with
      | zero =>
          have sameColumn : head = column := by simpa using columnAt
          have sameCell : first = cell := by simpa using cellAt
          subst sameColumn sameCell
          exact ⟨address, rfl, stored.left⟩
      | succ i =>
          obtain ⟨start, valueAt, bytes⟩ := induction (pos + 1) fits.2
            stored.right (by simpa using columnAt) (by simpa using cellAt)
          refine ⟨start, ?_, bytes⟩
          simp only [decodedRow, List.getElem?_cons_succ, valueAt]
          rw [Nat.add_right_comm, Nat.add_assoc]

theorem ColumnSpec.payload_stored {spec : ColumnSpec} {payload : Bytes}
    {start : Nat}
    (stored : Stored memory start (spec.store (.field payload)).bytes) :
    Stored memory (start + spec.layout.prefixLength) payload := by
  have field : Stored memory start (spec.layout.encode payload) := stored
  cases layout : spec.layout with
  | fixed width =>
      rw [layout] at field
      exact field
  | counted lengthBytes maxLength =>
      rw [layout] at field
      exact field.right.relocate (by rw [bytesLE_length]; rfl)

theorem ColumnSpec.realType_ne_null (spec : ColumnSpec) :
    spec.realType ≠ .null := by
  cases spec with
  | newdecimal precision scale => simp [realType_newdecimal]
  | blob lengthBytes => simp [realType_blob]
  | _ =>
      intro same
      cases same

end Rows

end MysqlSlave
