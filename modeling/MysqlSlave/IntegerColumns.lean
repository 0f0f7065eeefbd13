import MysqlSlave.Lib.SignedBytes
import MysqlSlave.Temporal

/-!
# Integer columns

`as_int` and the accessors made from it, and what they make of the integers a
server stores.  A stored integer is read as an unsigned number and then cast, so
a negative number comes back only at its own width.
-/

namespace MysqlSlave

open Region

namespace CValue

/-- `as_int<T>` for a type `T` of this many bits, as the bits of the result. -/
def asInt (width : Nat) (self : CValue) (memory : Bytes) :
    Exec (BitVec width) :=
  if self.isNull || !self.isValid || 64 < width then .ok 0
  else do
    let address ← self.pointer
    let number ←
      match self.size with
      | 1 => readLE memory address 1
      | 2 => readLE memory address 2
      | 3 => readLE memory address 3
      | 4 => readLE memory address 4
      | 8 => readLE memory address 8
      | _ => .ok 0
    return BitVec.ofNat width number

/-- `as_int` for a signed type. -/
def asSigned (width : Nat) (self : CValue) (memory : Bytes) : Exec Int := do
  let bits ← self.asInt width memory
  return bits.toInt

/-- `as_int` for an unsigned type. -/
def asUnsigned (width : Nat) (self : CValue) (memory : Bytes) : Exec Nat := do
  let bits ← self.asInt width memory
  return bits.toNat

def asInt8 : CValue → Bytes → Exec Int := asSigned 8
def asInt16 : CValue → Bytes → Exec Int := asSigned 16
def asInt32 : CValue → Bytes → Exec Int := asSigned 32
def asInt64 : CValue → Bytes → Exec Int := asSigned 64
def asUint8 : CValue → Bytes → Exec Nat := asUnsigned 8
def asUint16 : CValue → Bytes → Exec Nat := asUnsigned 16
def asUint32 : CValue → Bytes → Exec Nat := asUnsigned 32
def asUint64 : CValue → Bytes → Exec Nat := asUnsigned 64

/-- `as_boolean`. -/
def asBoolean (self : CValue) (memory : Bytes) : Exec Bool := do
  let number ← self.asUint8 memory
  return number != 0

theorem asInt_of_stored {value : CValue} {memory bytes : Bytes}
    {address width : Nat}
    (notNull : value.isNull = false)
    (storage : value.storage = some address)
    (size : value.size = bytes.length)
    (known : bytes.length ∈ [1, 2, 3, 4, 8])
    (narrow : width ≤ 64)
    (stored : Stored memory address bytes) :
    value.asInt width memory = .ok (BitVec.ofNat width (littleEndian bytes)) := by
  have read := readLE_of_stored stored
  have valid : value.isValid = true := by
    have nonzero : bytes.length ≠ 0 := by
      intro zero
      simp [zero] at known
    simp [isValid, size, storage, nonzero]
  have fits : ¬64 < width := by omega
  simp only [asInt, notNull, valid, fits, pointer, storage, size,
    Exec.ok_bind]
  simp only [List.mem_cons, List.not_mem_nil, or_false] at known
  rcases known with length | length | length | length | length
  all_goals
    rw [length] at read
    simp [length, read]

end CValue

/-- The integer column types. -/
inductive IntegerColumn
  | tiny
  | short
  | int24
  | long
  | longlong
  deriving DecidableEq, Repr

namespace IntegerColumn

def type : IntegerColumn → EColumnType
  | tiny => .tiny
  | short => .short
  | int24 => .int24
  | long => .long
  | longlong => .longlong

/-- The bytes of a stored integer. -/
def bytes : IntegerColumn → Nat
  | tiny => 1
  | short => 2
  | int24 => 3
  | long => 4
  | longlong => 8

end IntegerColumn

/-- A value of an integer column, signed or unsigned. -/
structure IntegerValue (column : IntegerColumn) where
  signed : Bool
  number : Int
  fits : if signed then
      -2 ^ (8 * column.bytes) ≤ 2 * number ∧
        2 * number < 2 ^ (8 * column.bytes)
    else 0 ≤ number ∧ number < 2 ^ (8 * column.bytes)

/-- The bits of the value in its column. -/
def IntegerValue.stored {column : IntegerColumn} (value : IntegerValue column) :
    Nat :=
  (value.number % 2 ^ (8 * column.bytes)).toNat

/-- The stored bytes, in two's complement. -/
def IntegerValue.encode {column : IntegerColumn} (value : IntegerValue column) :
    Bytes :=
  bytesLE column.bytes value.stored

/-- The accessors made from `as_int`. -/
inductive IntegerAccessor
  | asInt8
  | asInt16
  | asInt32
  | asInt64
  | asUint8
  | asUint16
  | asUint32
  | asUint64
  | asBoolean
  deriving DecidableEq, Repr

/-- What an accessor gives back. -/
inductive Accessed
  | signed (number : Int)
  | unsigned (number : Nat)
  | boolean (holds : Bool)
  deriving DecidableEq, Repr

namespace IntegerAccessor

/-- What the accessor makes of a value. -/
def access (accessor : IntegerAccessor) (self : CValue) (memory : Bytes) :
    Exec Accessed :=
  match accessor with
  | asInt8 => .signed <$> self.asInt8 memory
  | asInt16 => .signed <$> self.asInt16 memory
  | asInt32 => .signed <$> self.asInt32 memory
  | asInt64 => .signed <$> self.asInt64 memory
  | asUint8 => .unsigned <$> self.asUint8 memory
  | asUint16 => .unsigned <$> self.asUint16 memory
  | asUint32 => .unsigned <$> self.asUint32 memory
  | asUint64 => .unsigned <$> self.asUint64 memory
  | asBoolean => .boolean <$> self.asBoolean memory

/-- The signedness and the bits of a number the accessor gives back. -/
def format : IntegerAccessor → Option (Bool × Nat)
  | asInt8 => some (true, 8)
  | asInt16 => some (true, 16)
  | asInt32 => some (true, 32)
  | asInt64 => some (true, 64)
  | asUint8 => some (false, 8)
  | asUint16 => some (false, 16)
  | asUint32 => some (false, 32)
  | asUint64 => some (false, 64)
  | asBoolean => none

/-- What the accessor should give back: the number, if it is of the signedness
of the column and at least as wide, or whether the number is not zero. -/
def Expects {column : IntegerColumn} (accessor : IntegerAccessor)
    (value : IntegerValue column) : Accessed → Prop
  | .signed number => ∃ bits, accessor.format = some (true, bits) ∧
      value.signed = true ∧ 8 * column.bytes ≤ bits ∧ number = value.number
  | .unsigned number => ∃ bits, accessor.format = some (false, bits) ∧
      value.signed = false ∧ 8 * column.bytes ≤ bits ∧ number = value.number
  | .boolean holds => accessor = asBoolean ∧
      (holds = true ↔ value.number ≠ 0)

end IntegerAccessor

namespace IntegerValue

variable {column : IntegerColumn} (value : IntegerValue column)

/-- The accessor gives back what it should, where the column has the type it
is for. -/
def ReadBack (accessor : IntegerAccessor) (memory : Bytes) (pfield : Nat) :
    Prop :=
  ∀ expected, accessor.Expects value expected →
    CValue.fieldAs accessor.access column.type memory pfield 0 = .ok expected

/-- No sign has to be extended, and a number that is not zero has a low byte that
is not. -/
def Plain (accessor : IntegerAccessor) : Prop :=
  match accessor.format with
  | some (signed, bits) =>
      signed = value.signed → 8 * column.bytes < bits → 0 ≤ value.number
  | none => value.number % 256 = 0 → value.number = 0

theorem stored_lt : value.stored < 256 ^ column.bytes := by
  have positive : (0 : Int) < 2 ^ (8 * column.bytes) := by positivity
  have below := Int.emod_lt_of_pos value.number positive
  have power : (256 : Int) ^ column.bytes = 2 ^ (8 * column.bytes) := by
    rw [pow_mul]
    rfl
  have cast : ((256 ^ column.bytes : Nat) : Int) = 256 ^ column.bytes := by
    push_cast
    rfl
  unfold stored
  omega

theorem fieldAs_asInt {memory : Bytes} {pfield width : Nat} (metadata : Nat)
    (narrow : width ≤ 64) (stored : Stored memory pfield value.encode) :
    CValue.fieldAs (CValue.asInt width) column.type memory pfield metadata =
      .ok (BitVec.ofNat width value.stored) := by
  have length : value.encode.length = column.bytes := bytesLE_length _ _
  have known : value.encode.length ∈ [1, 2, 3, 4, 8] := by
    rw [length]
    cases column <;> decide
  have bits : littleEndian value.encode = value.stored :=
    littleEndian_bytesLE_of_lt value.stored_lt
  rw [← bits]
  cases column
  all_goals exact CValue.asInt_of_stored rfl rfl length.symm known narrow stored

variable {value}
variable {accessor : IntegerAccessor} {memory : Bytes} {pfield bits : Nat}

theorem fits_signed (signed : value.signed = true) :
    -2 ^ (8 * column.bytes) ≤ 2 * value.number ∧
      2 * value.number < 2 ^ (8 * column.bytes) := by
  have fits := value.fits
  rwa [if_pos signed] at fits

theorem fits_unsigned (unsigned : value.signed = false) :
    0 ≤ value.number ∧ value.number < 2 ^ (8 * column.bytes) := by
  have fits := value.fits
  rwa [if_neg (by simp [unsigned])] at fits

/-- A signed accessor gives back a number that it does not have to extend. -/
theorem readBack_signed (narrow : bits ≤ 64)
    (format : accessor.format = some (true, bits))
    (access : accessor.access = fun self memory =>
      .signed <$> self.asSigned bits memory)
    (stored : Stored memory pfield value.encode) :
    value.ReadBack accessor memory pfield ↔ value.Plain accessor := by
  obtain ⟨framed, frame, read⟩ :=
    Exec.bind_eq_ok.mp (value.fieldAs_asInt 0 narrow stored)
  have result : CValue.fieldAs accessor.access column.type memory pfield 0 =
      .ok (.signed (BitVec.ofNat bits value.stored).toInt) := by
    rw [CValue.fieldAs, frame, access]
    simp only [Exec.ok_bind, CValue.asSigned, read]
    rfl
  have plain : value.Plain accessor ↔ (true = value.signed →
      8 * column.bytes < bits → 0 ≤ value.number) := by
    rw [Plain, format]
  rw [plain]
  constructor
  · intro readBack isSigned wider
    obtain ⟨low, high⟩ := fits_signed isSigned.symm
    have back := readBack (.signed value.number)
      ⟨bits, format, isSigned.symm, wider.le, rfl⟩
    rw [result] at back
    simp only [Except.ok.injEq, Accessed.signed.injEq] at back
    exact (toInt_ofNat_emod low high wider.le).mp back wider
  · intro sign expected expects
    cases expected with
    | signed number =>
        obtain ⟨bits', format', isSigned, wide, rfl⟩ := expects
        rw [format] at format'
        cases format'
        obtain ⟨low, high⟩ := fits_signed isSigned
        have same := (toInt_ofNat_emod low high wide).mpr (sign isSigned.symm)
        rw [result, IntegerValue.stored, same]
    | unsigned number =>
        obtain ⟨bits', format', _⟩ := expects
        rw [format] at format'
        cases format'
    | boolean holds =>
        obtain ⟨rfl, _⟩ := expects
        cases format

theorem readBack_unsigned (narrow : bits ≤ 64)
    (format : accessor.format = some (false, bits))
    (access : accessor.access = fun self memory =>
      .unsigned <$> self.asUnsigned bits memory)
    (stored : Stored memory pfield value.encode) :
    value.ReadBack accessor memory pfield ↔ value.Plain accessor := by
  obtain ⟨framed, frame, read⟩ :=
    Exec.bind_eq_ok.mp (value.fieldAs_asInt 0 narrow stored)
  have result : CValue.fieldAs accessor.access column.type memory pfield 0 =
      .ok (.unsigned (value.stored % 2 ^ bits)) := by
    rw [CValue.fieldAs, frame, access]
    simp only [Exec.ok_bind, CValue.asUnsigned, read, ← BitVec.toNat_ofNat]
    rfl
  have plain : value.Plain accessor := by
    rw [Plain, format]
    intro unsigned _
    exact (fits_unsigned unsigned.symm).1
  refine ⟨fun _ => plain, ?_⟩
  intro _ expected expects
  cases expected with
  | signed number =>
      obtain ⟨bits', format', _⟩ := expects
      rw [format] at format'
      cases format'
  | unsigned number =>
      obtain ⟨bits', format', unsigned, wide, same⟩ := expects
      rw [format] at format'
      cases format'
      obtain ⟨nonneg, below⟩ := fits_unsigned unsigned
      have whole : value.stored = number := by
        rw [IntegerValue.stored, Int.emod_eq_of_lt nonneg below, ← same,
          Int.toNat_natCast]
      have fits : number < 2 ^ bits := by
        have narrower : number < 2 ^ (8 * column.bytes) := by
          exact_mod_cast same ▸ below
        exact narrower.trans_le (Nat.pow_le_pow_right (by decide) wide)
      rw [result, whole, Nat.mod_eq_of_lt fits]
  | boolean holds =>
      obtain ⟨rfl, _⟩ := expects
      cases format

/-- `as_boolean` sees the low byte. -/
theorem readBack_boolean (stored : Stored memory pfield value.encode) :
    value.ReadBack .asBoolean memory pfield ↔ value.Plain .asBoolean := by
  obtain ⟨framed, frame, read⟩ :=
    Exec.bind_eq_ok.mp (value.fieldAs_asInt 0 (show 8 ≤ 64 by decide) stored)
  have result : CValue.fieldAs IntegerAccessor.asBoolean.access column.type
      memory pfield 0 = .ok (.boolean (value.stored % 256 != 0)) := by
    have low : (BitVec.ofNat 8 value.stored).toNat = value.stored % 256 :=
      BitVec.toNat_ofNat ..
    rw [CValue.fieldAs, frame, ← low]
    simp only [Exec.ok_bind, IntegerAccessor.access, CValue.asBoolean,
      CValue.asUint8, CValue.asUnsigned, read]
    rfl
  have low : (value.stored % 256 : Nat) = value.number % 256 := by
    have power : (256 : Int) ∣ 2 ^ (8 * column.bytes) := by
      cases column <;> decide
    have nonneg := Int.emod_nonneg value.number
      (show (2 : Int) ^ (8 * column.bytes) ≠ 0 by positivity)
    rw [IntegerValue.stored, Int.natCast_mod, Int.toNat_of_nonneg nonneg]
    exact Int.emod_emod_of_dvd value.number power
  have seen : (value.stored % 256 != 0) = true ↔ value.number % 256 ≠ 0 := by
    rw [bne_iff_ne, ← low]
    omega
  constructor
  · intro readBack zero
    by_contra nonzero
    have back := readBack (.boolean true) ⟨rfl, by simpa using nonzero⟩
    rw [result] at back
    simp only [Except.ok.injEq, Accessed.boolean.injEq] at back
    exact seen.mp back zero
  · intro plain expected expects
    cases expected with
    | signed number =>
        obtain ⟨bits, format, _⟩ := expects
        cases format
    | unsigned number =>
        obtain ⟨bits, format, _⟩ := expects
        cases format
    | boolean holds =>
        have same : holds = (value.stored % 256 != 0) := by
          rw [Bool.eq_iff_iff, expects.2, seen]
          constructor
          · intro nonzero zero
            exact nonzero (plain zero)
          · intro nonzero zero
            rw [zero] at nonzero
            exact nonzero rfl
        rw [result, same]

/-- An accessor gives back an integer exactly if it is plain for it. -/
theorem readBack_iff (accessor : IntegerAccessor)
    (stored : Stored memory pfield value.encode) :
    value.ReadBack accessor memory pfield ↔ value.Plain accessor := by
  cases accessor with
  | asInt8 => exact readBack_signed (by decide) rfl rfl stored
  | asInt16 => exact readBack_signed (by decide) rfl rfl stored
  | asInt32 => exact readBack_signed (by decide) rfl rfl stored
  | asInt64 => exact readBack_signed (by decide) rfl rfl stored
  | asUint8 => exact readBack_unsigned (by decide) rfl rfl stored
  | asUint16 => exact readBack_unsigned (by decide) rfl rfl stored
  | asUint32 => exact readBack_unsigned (by decide) rfl rfl stored
  | asUint64 => exact readBack_unsigned (by decide) rfl rfl stored
  | asBoolean => exact readBack_boolean stored

theorem signedTiny_fits {number : Int} (low : -128 ≤ number)
    (high : number < 128) :
    if true = true then
      -2 ^ (8 * IntegerColumn.tiny.bytes) ≤ 2 * number ∧
        2 * number < 2 ^ (8 * IntegerColumn.tiny.bytes)
    else 0 ≤ number ∧ number < 2 ^ (8 * IntegerColumn.tiny.bytes) := by
  rw [if_pos rfl]
  simp only [IntegerColumn.bytes]
  omega

theorem unsignedShort_fits {number : Int} (low : 0 ≤ number)
    (high : number < 65536) :
    if false = true then
      -2 ^ (8 * IntegerColumn.short.bytes) ≤ 2 * number ∧
        2 * number < 2 ^ (8 * IntegerColumn.short.bytes)
    else 0 ≤ number ∧ number < 2 ^ (8 * IntegerColumn.short.bytes) := by
  rw [if_neg Bool.false_ne_true]
  simp only [IntegerColumn.bytes]
  omega

/-- A TINYINT. -/
def signedTiny (number : Int) (low : -128 ≤ number) (high : number < 128) :
    IntegerValue .tiny :=
  ⟨true, number, signedTiny_fits low high⟩

/-- A SMALLINT UNSIGNED. -/
def unsignedShort (number : Int) (low : 0 ≤ number) (high : number < 65536) :
    IntegerValue .short :=
  ⟨false, number, unsignedShort_fits low high⟩

theorem readBack_iff_seven :
    (signedTiny 7 (by decide) (by decide)).ReadBack .asInt16 [7] 0 :=
  (readBack_iff .asInt16 ⟨[], [], rfl, rfl⟩).mpr fun _ _ => by decide

/-- A TINYINT of -1 is 255 as an `int16_t`, and a SMALLINT of 256 is no. -/
theorem not_readBack_wide :
    ¬(signedTiny (-1) (by decide) (by decide)).ReadBack .asInt16 [255] 0 ∧
      ¬(unsignedShort 256 (by decide) (by decide)).ReadBack .asBoolean
        [0, 1] 0 := by
  constructor
  · intro readBack
    have back := readBack (.signed (-1)) ⟨16, rfl, rfl, by decide, rfl⟩
    have read : CValue.fieldAs IntegerAccessor.asInt16.access
        IntegerColumn.tiny.type [255] 0 0 = .ok (.signed 255) := by
      decide +kernel
    rw [read] at back
    cases back
  · intro readBack
    have back := readBack (.boolean true) ⟨rfl, by simp [unsignedShort]⟩
    have read : CValue.fieldAs IntegerAccessor.asBoolean.access
        IntegerColumn.short.type [0, 1] 0 0 = .ok (.boolean false) := by
      decide +kernel
    rw [read] at back
    cases back

end IntegerValue

end MysqlSlave
