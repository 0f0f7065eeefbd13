import MysqlSlave.ChoiceColumns
import MysqlSlave.DecimalRoundTrip
import MysqlSlave.IntegerColumns
import MysqlSlave.BitColumns
import MysqlSlave.RowRoundTrip
import MysqlSlave.StoredDates

/-!
# Typed columns

What a client has put into a column, and the accessor that gives it back.  Left
out are the values that the accessors misread: a negative MEDIUMINT, a
TIMESTAMP, a DATETIME2, a long BIT or SET value, a short DECIMAL at the end of a
packet.
-/

namespace MysqlSlave

open Region

namespace CValue

/-- `as_year`. -/
def asYear (self : CValue) (memory : Bytes) : Exec Nat :=
  if self.isNull || !self.isValid then .ok 0
  else do
    let address ← self.pointer
    let byte ← readByte memory address
    return 1900 + byte.toNat

/-- `as_string(length)`: where the text starts and how long it is. -/
def asStringAt (self : CValue) : Option Nat × Nat :=
  if self.isNull || !self.isValid then (none, 0)
  else
    match self.type with
    | .string | .varchar | .blob => (self.storage, self.size)
    | _ => (none, 0)

/-- `as_string(dst)`. -/
def asString (self : CValue) (memory : Bytes) : Exec Bytes :=
  match self.asStringAt with
  | (some start, len) => if 0 < len then readBytes memory start len else .ok []
  | (none, _) => .ok []

theorem asEnum_congr {left right : CValue} {memory : Bytes}
    (type : left.type = right.type) (storage : left.storage = right.storage)
    (size : left.size = right.size) (null : left.null = right.null) :
    left.asEnum memory = right.asEnum memory := by
  cases left
  cases right
  cases type
  cases storage
  cases size
  cases null
  rfl

/-- What `as_double` and `as_string` have of a DECIMAL value before they turn it
into a number or a text; `to_buf` has 2048 bytes. -/
def asDecimal (self : CValue) (memory : Bytes) : Exec (Option DecimalT) := do
  let address ← self.pointer
  let result ← DecimalT.initDecimal 2048 ((self.metadata % 256 : Nat) : Int)
    ((self.metadata / 256 : Nat) : Int) memory address
  return result.map Prod.fst

end CValue

namespace IntegerColumn

def spec : IntegerColumn → ColumnSpec
  | tiny => .tiny
  | short => .short
  | int24 => .int24
  | long => .long
  | longlong => .longlong

/-- The narrowest accessor that a column fits in. -/
def bits : IntegerColumn → Nat
  | tiny => 8
  | short => 16
  | int24 => 32
  | long => 32
  | longlong => 64

end IntegerColumn

/-- A value of a column that an accessor gives back. -/
inductive Datum : ColumnSpec → Type where
  | integer {column : IntegerColumn} (value : IntegerValue column)
      (plain : column = .int24 → 0 ≤ value.number) : Datum column.spec
  | year (number : Nat) (low : 1901 ≤ number) (high : number ≤ 2155) :
      Datum .year
  | date (day : Date) : Datum .date
  | time (interval : Interval) (short : interval.hour ≤ 255) : Datum .time
  | datetime (moment : DateTime) : Datum .datetime
  | timestamp2 (seconds : Nat) (small : seconds < 4294967296) :
      Datum (.timestamp2 0)
  | newdecimal {type : DecimalType} (number : DecimalNumber type)
      (long : 3 ≤ type.length) : Datum (.newdecimal type.precision type.scale)
  | bit (value : BitValue) (short : value.width ≤ 8) : Datum (.bit value.width)
  | varchar {maxLength : Nat} (text : Bytes) : Datum (.varchar maxLength)
  | blob {lengthBytes : Nat} (text : Bytes) : Datum (.blob lengthBytes)
  | char {maxLength : Nat} (text : Bytes) : Datum (.char maxLength)
  | enum (value : EnumValue) : Datum (.enum value.bytes)
  | set (value : SetValue) (few : value.members.length ≤ 32) :
      Datum (.set value.bytes)

namespace Datum

variable {spec : ColumnSpec}

/-- The bytes of the value in a row image. -/
def encode : {spec : ColumnSpec} → Datum spec → Bytes
  | _, integer value _ => value.encode
  | _, year number _ _ => [.ofNat (number - 1900)]
  | _, .date day => day.date
  | _, time interval _ => interval.time
  | _, datetime moment => moment.datetime
  | _, timestamp2 seconds _ => bytesBE 4 seconds
  | _, newdecimal number _ => number.encode
  | _, bit value _ => value.encode
  | _, varchar text => text
  | _, blob text => text
  | _, char text => text
  | _, enum value => value.encode
  | _, set value _ => value.encode

/-- The accessor for the column gives the value back.  For the names of members
the application passes the description of a column with these members. -/
def GivenBack (self : CValue) (memory : Bytes) :
    {spec : ColumnSpec} → Datum spec → Prop
  | _, @integer column value _ =>
      if value.signed then
        self.asSigned column.bits memory = .ok value.number
      else self.asUnsigned column.bits memory = .ok value.number.toNat
  | _, year number _ _ => self.asYear memory = .ok number
  | _, .date day => self.asDate memory = .ok day.fields
  | _, time interval _ => self.asTime memory = .ok interval.fields
  | _, datetime moment => self.asDatetime memory = .ok moment.fields
  | _, timestamp2 seconds _ => self.asTimestamp memory = .ok seconds
  | _, newdecimal number _ => ∃ decimal integer fraction,
      self.asDecimal memory = .ok (some decimal) ∧
        decimal.Denotes number integer fraction
  | _, bit value _ => self.asBit memory = .ok value.number
  | _, varchar text => self.asString memory = .ok text
  | _, blob text => self.asString memory = .ok text
  | _, char text => self.asString memory = .ok text
  | _, enum value => self.asEnum memory = .ok value.index ∧
      ∀ desc : CColumnDesc, desc.variants = value.members →
        self.asEnumName desc memory = .ok value.member
  | _, set value _ => ∀ desc : CColumnDesc, desc.variants = value.members →
      self.asSetNames desc memory = .ok value.subset

end Datum

/-- A decoded value that shows a field of the column, with a byte behind it. -/
structure CValue.HoldsField (value : CValue) (memory : Bytes)
    (spec : ColumnSpec) (payload : Bytes) : Prop where
  notNull : value.null = false
  type : value.type = spec.realType
  metadata : value.metadata = littleEndian spec.metadataBytes
  size : value.size = payload.length
  stored : ∃ start, value.storage = some start ∧
    Stored memory start payload ∧ start + payload.length < memory.length

namespace CValue.HoldsField

variable {value : CValue} {memory payload : Bytes} {spec : ColumnSpec}

theorem holds (field : value.HoldsField memory spec payload) :
    value.Holds memory payload := by
  obtain ⟨start, storage, stored, _⟩ := field.stored
  exact ⟨⟨start, storage, stored⟩, field.size.ge, field.notNull⟩

theorem isNull (field : value.HoldsField memory spec payload) :
    value.isNull = false := by
  have notNull := spec.realType_ne_null
  simp [CValue.isNull, field.notNull, field.type, notNull]

theorem isValid (field : value.HoldsField memory spec payload)
    (nonempty : payload ≠ []) : value.isValid = true := by
  obtain ⟨start, storage, _⟩ := field.stored
  have size : value.size ≠ 0 := by
    rw [field.size]
    exact fun zero => nonempty (List.eq_nil_of_length_eq_zero zero)
  simp [CValue.isValid, storage, size]

theorem asString (field : value.HoldsField memory spec payload)
    (text : spec.realType ∈ [.string, .varchar, .blob]) :
    value.asString memory = .ok payload := by
  obtain ⟨start, storage, stored, _⟩ := field.stored
  have read := readBytes_of_stored stored
  by_cases empty : payload = []
  · have invalid : value.isValid = false := by
      simp [CValue.isValid, field.size, empty]
    simp [CValue.asString, asStringAt, invalid, empty]
  · have filled : 0 < payload.length := List.length_pos_of_ne_nil empty
    simp only [List.mem_cons, List.not_mem_nil, or_false] at text
    rw [← field.type] at text
    rcases text with type | type | type
    all_goals
      simp [CValue.asString, asStringAt, field.isNull, field.isValid empty,
        type, storage, field.size, filled, read]

end CValue.HoldsField

namespace Datum

variable {value : CValue} {memory : Bytes} {spec : ColumnSpec}

theorem integer_givenBack {column : IntegerColumn}
    {number : IntegerValue column}
    (plain : column = .int24 → 0 ≤ number.number)
    (field : value.HoldsField memory column.spec number.encode) :
    (integer number plain).GivenBack value memory := by
  obtain ⟨start, storage, stored, _⟩ := field.stored
  have length : number.encode.length = column.bytes := bytesLE_length _ _
  have known : number.encode.length ∈ [1, 2, 3, 4, 8] := by
    rw [length]
    cases column <;> decide
  have narrow : column.bits ≤ 64 := by cases column <;> decide
  have wide : 8 * column.bytes ≤ column.bits := by cases column <;> decide
  have read := CValue.asInt_of_stored field.isNull storage field.size known
    narrow stored
  rw [show littleEndian number.encode = number.stored from
    littleEndian_bytesLE_of_lt number.stored_lt] at read
  dsimp only [GivenBack]
  split
  · rename_i signed
    obtain ⟨low, high⟩ := IntegerValue.fits_signed signed
    have back := (toInt_ofNat_emod low high wide).mpr fun wider => by
      apply plain
      cases column <;> first | rfl | exact absurd wider (by decide)
    simp only [CValue.asSigned, read, Exec.ok_bind, Exec.pure_eq_ok]
    exact congrArg Except.ok back
  · rename_i unsigned
    obtain ⟨nonneg, below⟩ := IntegerValue.fits_unsigned
      (Bool.eq_false_of_not_eq_true unsigned)
    have whole : number.stored = number.number.toNat := by
      rw [IntegerValue.stored, Int.emod_eq_of_lt nonneg below]
    have fits : number.number.toNat < 2 ^ column.bits := by
      have narrower : number.number.toNat < 2 ^ (8 * column.bytes) := by
        rw [Int.toNat_lt nonneg]
        exact_mod_cast below
      exact narrower.trans_le (Nat.pow_le_pow_right (by decide) wide)
    simp only [CValue.asUnsigned, read, Exec.ok_bind, Exec.pure_eq_ok, whole,
      BitVec.toNat_ofNat, Nat.mod_eq_of_lt fits]

theorem year_givenBack {number : Nat} (low : 1901 ≤ number)
    (high : number ≤ 2155)
    (field : value.HoldsField memory .year (year number low high).encode) :
    (year number low high).GivenBack value memory := by
  obtain ⟨start, storage, stored, _⟩ := field.stored
  have read := readByte_of_stored stored
  have byte : 1900 + (UInt8.ofNat (number - 1900)).toNat = number := by
    rw [UInt8.toNat_ofNat']
    omega
  simp only [GivenBack, CValue.asYear, field.isNull,
    field.isValid (List.cons_ne_nil _ _), CValue.pointer, storage, read,
    Exec.ok_bind, Exec.pure_eq_ok, byte]
  rfl

theorem time_givenBack {interval : Interval} (short : interval.hour ≤ 255)
    (field : value.HoldsField memory .time interval.time) :
    (time interval short).GivenBack value memory := by
  obtain ⟨hour, minute, second, _, _, _⟩ := interval
  have small : hour * 10000 + minute * 100 + second < 256 ^ 3 := by omega
  obtain ⟨address, pointer, read⟩ := field.holds.read small
  obtain ⟨valid, long⟩ := field.holds.readable (by decide)
  have hours : (hour * 10000 + minute * 100 + second) / 10000 % 256 = hour := by
    dsimp only at short
    omega
  have minutes : (hour * 10000 + minute * 100 + second) % 10000 / 100 =
      minute := by omega
  have seconds : (hour * 10000 + minute * 100 + second) % 100 = second := by
    omega
  simp only [GivenBack, CValue.asTime, field.isNull, valid, long, pointer, read,
    Bool.not_true, Bool.or_self, Bool.false_eq_true, decide_false, if_false,
    Exec.ok_bind, Exec.pure_eq_ok, hours, minutes, seconds, Interval.fields]

theorem timestamp2_givenBack {seconds : Nat} (small : seconds < 4294967296)
    (field : value.HoldsField memory (.timestamp2 0) (bytesBE 4 seconds)) :
    (timestamp2 seconds small).GivenBack value memory := by
  obtain ⟨start, storage, stored, _⟩ := field.stored
  have read := readBE_bytesBE small stored
  have size : value.size = 4 := by rw [field.size, bytesBE_length]
  have valid : value.isValid = true := by simp [CValue.isValid, size, storage]
  simp [GivenBack, CValue.asTimestamp, field.notNull, valid, size,
    CValue.pointer, storage, read]

theorem newdecimal_givenBack {type : DecimalType} {number : DecimalNumber type}
    (long : 3 ≤ type.length)
    (field : value.HoldsField memory (.newdecimal type.precision type.scale)
      number.encode) :
    (newdecimal number long).GivenBack value memory := by
  classical
  obtain ⟨start, storage, stored, behind⟩ := field.stored
  have length := number.encode_length
  have metadata : value.metadata = type.precision + 256 * type.scale := by
    have precision := type.precisionFits
    have column := ColumnSpec.column_newdecimal (by omega) type.scaleFits
    rw [field.metadata, ColumnSpec.metadata_eq, column]
  have precision : value.metadata % 256 = type.precision := by
    have fits := type.precisionFits
    omega
  have scale : value.metadata / 256 = type.scale := by
    have fits := type.precisionFits
    omega
  have decoded := type.initDecimal_eq 2048 stored (by omega) length
  rw [if_pos number.accepted] at decoded
  refine ⟨_, _, _, ?_, number.decoded_denotes 2048⟩
  simp only [CValue.asDecimal, CValue.pointer, storage, Exec.ok_bind, precision,
    scale, decoded, Exec.pure_eq_ok, Option.map_some]

theorem bit_givenBack {number : BitValue} (short : number.width ≤ 8)
    (field : value.HoldsField memory (.bit number.width) number.encode) :
    (bit number short).GivenBack value memory := by
  obtain ⟨start, storage, stored, _⟩ := field.stored
  have one : number.bytes = 1 := by
    have least := number.least
    unfold BitValue.bytes
    omega
  have length : number.encode.length = 1 := by
    rw [BitValue.encode, bytesBE_length, one]
  have small := number.number_lt
  rw [one] at small
  have read := CValue.asInt_of_stored field.isNull storage field.size
    (by simp [length]) (Nat.le_refl 64) stored
  have only : littleEndian number.encode = number.number := by
    apply number.littleEndian_encode_iff.mpr
    obtain ⟨byte, single⟩ := List.length_eq_one_iff.mp length
    rw [single]
    rfl
  simp only [GivenBack, CValue.asBit, CValue.asUint64, CValue.asUnsigned, read,
    only, Exec.ok_bind, Exec.pure_eq_ok, BitVec.toNat_ofNat]
  rw [Nat.mod_eq_of_lt (by omega)]

theorem enum_givenBack {choice : EnumValue}
    (field : value.HoldsField memory (.enum choice.bytes) choice.encode) :
    (enum choice).GivenBack value memory := by
  obtain ⟨start, storage, stored, _⟩ := field.stored
  have length : choice.encode.length = choice.bytes := bytesLE_length _ _
  have known : choice.encode.length ∈ [1, 2, 3, 4] := by
    rcases choice.bytes_cases with bytes | bytes <;> simp [length, bytes]
  have read := CValue.asEnum_of_stored field.notNull (.inl field.type) storage
    field.size known stored
  rw [choice.littleEndian_encode] at read
  refine ⟨read, fun desc declared => ?_⟩
  have framed : value.asEnum memory = (choice.framed start).asEnum memory :=
    CValue.asEnum_congr field.type storage (field.size.trans length)
      field.notNull
  rw [CValue.asEnumName, framed]
  exact choice.asEnumName_eq declared stored

theorem set_givenBack {choice : SetValue} (few : choice.members.length ≤ 32)
    (field : value.HoldsField memory (.set choice.bytes) choice.encode) :
    (set choice few).GivenBack value memory := by
  intro desc declared
  obtain ⟨start, storage, stored, _⟩ := field.stored
  have length : choice.encode.length = choice.bytes := bytesLE_length _ _
  have framed : value.asEnum memory = (choice.framed start).asEnum memory :=
    CValue.asEnum_congr field.type storage (field.size.trans length)
      field.notNull
  rw [CValue.asSetNames, framed]
  exact choice.asSetNames_known declared few stored

theorem givenBack (datum : Datum spec)
    (field : value.HoldsField memory spec datum.encode) :
    datum.GivenBack value memory := by
  cases datum with
  | integer number plain => exact integer_givenBack plain field
  | year number low high => exact year_givenBack low high field
  | date day => exact day.asDate_date field.holds
  | time interval short => exact time_givenBack short field
  | datetime moment => exact moment.asDatetime_datetime field.type field.holds
  | timestamp2 seconds small => exact timestamp2_givenBack small field
  | newdecimal number long => exact newdecimal_givenBack long field
  | bit number short => exact bit_givenBack short field
  | varchar text => exact field.asString (.tail _ (.head _))
  | @blob lengthBytes text =>
      have type := ColumnSpec.realType_blob lengthBytes
      exact field.asString (by simp [type])
  | char text => exact field.asString (.head _)
  | enum choice => exact enum_givenBack field
  | set choice few => exact set_givenBack few field

end Datum

end MysqlSlave
