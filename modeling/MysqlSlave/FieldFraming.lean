import MysqlSlave.FieldBounds

/-!
# Sizing and framing a field

`calc_field_size` and `CValue::tune` read the same length prefix, one to skip the
field and the other to point at its payload.  They agree but for GEOMETRY, which
`tune` does not know, and for the longest BLOBs, whose size does not fit 32 bits.
-/

namespace MysqlSlave

open Region

namespace CValue

/-- `as_blob`: the pointer and the length. -/
def asBlob (self : CValue) : Option Nat × Nat :=
  if self.isNull || !self.isValid then (none, 0)
  else (self.storage, self.size)

end CValue

/-- The column types that `calc_field_size` knows. -/
def EColumnType.Known : EColumnType → Prop
  | .json => False
  | .other _ => False
  | _ => True

/-- The metadata a TABLE_MAP event can carry for a column type: at most two
bytes, a precision that is not below the scale, one of three real types, and one
to four bytes of length. -/
def Column.Carried (column : Column) : Prop :=
  column.2 < 65536 ∧
    match column.1 with
    | .newdecimal => column.2 / 256 ≤ column.2 % 256
    | .string =>
        EColumnType.ofCode (UInt8.ofNat (column.2 % 256)) ∈
          [.string, .enum, .set]
    | .blob => 1 ≤ column.2 ∧ column.2 ≤ 4
    | .geometry => 1 ≤ column.2 ∧ column.2 ≤ 4
    | _ => True

theorem Column.Carried.digits {column : Column} (carried : column.Carried) :
    column.1 = .newdecimal → DigitsInside column.2 := by
  intro decimal
  obtain ⟨type, metadata⟩ := column
  cases decimal
  exact .inl carried.2

/-- The bytes of the length in front of a value. -/
def Column.lengthPrefix (column : Column) : Option Nat :=
  match column.1 with
  | .varchar => some (if column.2 < 256 then 1 else 2)
  | .string =>
      if EColumnType.ofCode (UInt8.ofNat (column.2 % 256)) = .string then
        some 1
      else none
  | .blob => some column.2
  | .geometry => some column.2
  | _ => none

/-- The value ends where its field does, and starts behind the length if there
is one, so that this is what `as_blob` exposes. -/
structure CValue.Covers (value : CValue) (column : Column)
    (pfield length : Nat) (start : Nat) : Prop where
  storage : value.storage = some start
  behind : pfield ≤ start
  ends : start + value.size = pfield + length
  payload : ∀ bytes, column.lengthPrefix = some bytes → start = pfield + bytes
  exposed : value.asBlob =
    if value.size = 0 then (none, 0) else (some start, value.size)

/-- The field is sized and framed, and a value that is not null covers it. -/
def Column.Framed (column : Column) (self : CValue) (memory : Bytes)
    (pfield : Nat) : Prop :=
  ∃ length value,
    CValue.calcFieldSize column.1 memory pfield column.2 = .ok length ∧
      self.tune column.1 memory pfield column.2 length = .ok value ∧
      (value.isNull = false → ∃ start, value.Covers column pfield length start)

/-- Not a GEOMETRY field, and not a BLOB field of 4 GiB. -/
def Column.Framable (column : Column) (memory : Bytes) (pfield : Nat) : Prop :=
  column.1 ≠ .geometry ∧
    (column = (.blob, 4) →
      littleEndian ((memory.drop pfield).take 4) + 4 < 2 ^ 32)

section Framing

variable {self : CValue} {memory : Bytes} {pfield : Nat}

theorem asBlob_eq {value : CValue} {start : Nat}
    (notNull : value.isNull = false)
    (storage : value.storage = some start) :
    value.asBlob =
      if value.size = 0 then (none, 0) else (some start, value.size) := by
  by_cases empty : value.size = 0
  · simp [CValue.asBlob, CValue.isValid, empty]
  · simp [CValue.asBlob, CValue.isValid, notNull, storage, empty]

theorem framed_iff {column : Column} {length : Nat} {value : CValue}
    (sized : CValue.calcFieldSize column.1 memory pfield column.2 =
      .ok length)
    (tuned : self.tune column.1 memory pfield column.2 length = .ok value) :
    column.Framed self memory pfield ↔
      (value.isNull = false →
        ∃ start, value.Covers column pfield length start) := by
  constructor
  · intro framed
    obtain ⟨length', value', sized', tuned', covers⟩ := framed
    rw [sized] at sized'
    cases sized'
    rw [tuned] at tuned'
    cases tuned'
    exact covers
  · intro covers
    exact ⟨length, value, sized, tuned, covers⟩

theorem framed_of {column : Column} {length start : Nat} {value : CValue}
    (sized : CValue.calcFieldSize column.1 memory pfield column.2 =
      .ok length)
    (tuned : self.tune column.1 memory pfield column.2 length = .ok value)
    (storage : value.storage = some start)
    (behind : pfield ≤ start)
    (ends : start + value.size = pfield + length)
    (payload : ∀ bytes, column.lengthPrefix = some bytes →
      start = pfield + bytes) :
    column.Framed self memory pfield := by
  apply (framed_iff sized tuned).mpr
  intro notNull
  exact ⟨start, storage, behind, ends, payload, asBlob_eq notNull storage⟩

theorem framed_whole {column : Column} {length : Nat} {value : CValue}
    (sized : CValue.calcFieldSize column.1 memory pfield column.2 =
      .ok length)
    (tuned : self.tune column.1 memory pfield column.2 length = .ok value)
    (storage : value.storage = some pfield)
    (size : value.size = length)
    (bare : column.lengthPrefix = none) :
    column.Framed self memory pfield := by
  apply framed_of sized tuned storage (Nat.le_refl pfield)
  · rw [size]
  · intro bytes found
    rw [bare] at found
    cases found

/-- `calc_field_size` returns where the length it reads is in memory. -/
theorem calcFieldSize_returns {column : Column}
    (digits : column.1 = .newdecimal → DigitsInside column.2)
    (counted : pfield + lengthBytes column ≤ memory.length) :
    ∃ length, CValue.calcFieldSize column.1 memory pfield column.2 =
      .ok length := by
  have front : (memory.take pfield).length = pfield := by
    rw [List.length_take]
    omega
  have here := calcFieldSize_append (memory.take pfield) (memory.drop pfield)
    column.1 column.2
  rw [List.take_append_drop, front] at here
  rw [here]
  apply (calcFieldSize_isOk column).mpr
  refine ⟨digits, ?_⟩
  rw [List.length_drop]
  omega

theorem framed_varchar {metadata : Nat}
    (counted : pfield + lengthBytes (.varchar, metadata) ≤ memory.length) :
    Column.Framed (.varchar, metadata) self memory pfield := by
  unfold lengthBytes at counted
  by_cases wide : metadata > 255
  · have narrow : ¬metadata < 256 := by omega
    simp only [wide, if_true] at counted
    have read := readLE_eq_ok counted
    apply framed_of
    · simp only [CValue.calcFieldSize, wide, if_true, read, Exec.ok_bind]
      rfl
    · simp only [CValue.tune, narrow, if_false, read, Exec.ok_bind]
      rfl
    · rfl
    · omega
    · dsimp only
      omega
    · intro bytes found
      simpa [Column.lengthPrefix, narrow] using found
  · have narrow : metadata < 256 := by omega
    simp only [wide, if_false] at counted
    have read := readByte_eq_ok (by omega : pfield < memory.length)
    apply framed_of
    · simp only [CValue.calcFieldSize, wide, if_false, read, Exec.ok_bind]
      rfl
    · simp only [CValue.tune, narrow, if_true, read, Exec.ok_bind]
      rfl
    · rfl
    · omega
    · dsimp only
      omega
    · intro bytes found
      simpa [Column.lengthPrefix, narrow] using found

theorem framed_string {metadata : Nat}
    (carried : Column.Carried (.string, metadata))
    (counted : pfield + lengthBytes (.string, metadata) ≤ memory.length) :
    Column.Framed (.string, metadata) self memory pfield := by
  obtain ⟨small, real⟩ := carried
  have short : metadata / 256 < 256 := by
    simp only at small
    omega
  have notLong : ¬metadata / 256 > 255 := by omega
  simp only [List.mem_cons, List.not_mem_nil, or_false] at real
  rcases real with real | real | real
  · simp only [lengthBytes, real, reduceCtorEq, or_self, if_false, short,
      if_true] at counted
    have read := readByte_eq_ok (by omega : pfield < memory.length)
    have first : memory[pfield].toNat < 256 := memory[pfield].toNat_lt
    have payload : sizeSub (memory[pfield].toNat + 1) 1 =
        memory[pfield].toNat := by
      rw [sizeSub_eq (by omega) (by omega), Nat.add_sub_cancel]
    apply framed_of
    · simp only [CValue.calcFieldSize, real, reduceCtorEq, or_self, if_false,
        short, if_true, read, Exec.ok_bind]
      rfl
    · simp only [CValue.tune, real, notLong, if_false]
      rfl
    · rfl
    · omega
    · dsimp only
      omega
    · intro bytes found
      simpa [Column.lengthPrefix, real] using found
  · apply framed_whole
    · simp only [CValue.calcFieldSize, real, or_true, if_true]
      rfl
    · simp only [CValue.tune, real]
      rfl
    · rfl
    · rfl
    · simp [Column.lengthPrefix, real]
  · apply framed_whole
    · simp only [CValue.calcFieldSize, real, true_or, if_true]
      rfl
    · simp only [CValue.tune, real]
      rfl
    · rfl
    · rfl
    · simp [Column.lengthPrefix, real]

/-- What `calc_field_size` makes of a field with up to four bytes of length. -/
theorem calcFieldSize_blob {type : EColumnType} {metadata : Nat}
    (blob : type = .blob ∨ type = .geometry)
    (low : 1 ≤ metadata) (high : metadata ≤ 4)
    (counted : pfield + lengthBytes (type, metadata) ≤ memory.length) :
    CValue.calcFieldSize type memory pfield metadata =
      .ok ((metadata +
        littleEndian ((memory.drop pfield).take metadata)) % 2 ^ 32) := by
  have read : ∀ {width : Nat}, pfield + width ≤ memory.length →
      readLE memory pfield width =
        .ok (littleEndian ((memory.drop pfield).take width)) := readLE_eq_ok
  have bound : ∀ width : Nat,
      littleEndian ((memory.drop pfield).take width) < 256 ^ width := by
    intro width
    apply (littleEndian_lt _).trans_le
    apply Nat.pow_le_pow_right (by decide)
    exact List.length_take_le _ _
  have sized : CValue.calcFieldSize type memory pfield metadata =
      CValue.calcFieldSize .blob memory pfield metadata := by
    rcases blob with rfl | rfl <;> rfl
  have bytes : lengthBytes (type, metadata) =
      lengthBytes (.blob, metadata) := by
    rcases blob with rfl | rfl <;> rfl
  rw [sized]
  rw [bytes] at counted
  have first := bound 1
  have second := bound 2
  have third := bound 3
  interval_cases metadata
  · have one := readByte_eq_ok (Nat.lt_of_succ_le counted)
    have byte : littleEndian ((memory.drop pfield).take 1) =
        memory[pfield].toNat := by
      rw [List.drop_eq_getElem_cons (Nat.lt_of_succ_le counted),
        List.take_succ_cons, List.take_zero, littleEndian_cons,
        littleEndian_nil, Nat.mul_zero, Nat.add_zero]
      rfl
    have small : 1 + littleEndian ((memory.drop pfield).take 1) < 2 ^ 32 := by
      omega
    rw [Nat.mod_eq_of_lt small, byte]
    simp only [CValue.calcFieldSize, one, Exec.ok_bind]
    rfl
  · have two := read (show pfield + 2 ≤ memory.length from counted)
    have small : 2 + littleEndian ((memory.drop pfield).take 2) < 2 ^ 32 := by
      omega
    rw [Nat.mod_eq_of_lt small]
    simp only [CValue.calcFieldSize, two, Exec.ok_bind]
    rfl
  · have four : pfield + 4 ≤ memory.length := counted
    have kept : littleEndian ((memory.drop pfield).take 3) =
        littleEndian ((memory.drop pfield).take 4) % 16777216 := by
      have inside : 3 ≤ ((memory.drop pfield).take 4).length := by
        simp only [List.length_take, List.length_drop]
        omega
      have taken := littleEndian_take inside
      rwa [List.take_take] at taken
    have small : 3 + littleEndian ((memory.drop pfield).take 3) < 2 ^ 32 := by
      omega
    rw [Nat.mod_eq_of_lt small, kept]
    simp only [CValue.calcFieldSize, read four, Exec.ok_bind]
    rfl
  · have four : pfield + 4 ≤ memory.length := counted
    simp only [CValue.calcFieldSize, read four, Exec.ok_bind,
      Exec.pure_eq_ok]
    rfl

theorem framed_blob_iff {metadata : Nat} (low : 1 ≤ metadata)
    (high : metadata ≤ 4)
    (counted : pfield + lengthBytes (.blob, metadata) ≤ memory.length) :
    Column.Framed (.blob, metadata) self memory pfield ↔
      littleEndian ((memory.drop pfield).take metadata) + metadata <
        2 ^ 32 := by
  have sized := calcFieldSize_blob (.inl rfl) low high counted
  have inside : pfield + metadata ≤ memory.length := by
    -- for a length of three bytes a fourth one is read
    have least : metadata ≤ lengthBytes (.blob, metadata) := by
      interval_cases metadata <;> decide
    omega
  have read := readLE_eq_ok inside
  generalize littleEndian ((memory.drop pfield).take metadata) = number at *
  have tuned : self.tune .blob memory pfield metadata
      ((metadata + number) % 2 ^ 32) = .ok { self with
        metadata, storage := some (pfield + metadata), type := .blob
        size := number, null := false } := by
    simp only [CValue.tune, low, high, and_self, if_true, read, Exec.ok_bind]
    rfl
  constructor
  · intro framed
    obtain ⟨start, covers⟩ := (framed_iff sized tuned).mp framed rfl
    have place : pfield + metadata = start := by
      have storage := covers.storage
      simpa using storage
    have ends := covers.ends
    simp only at ends
    have small := Nat.mod_lt (metadata + number) (by decide : 0 < 2 ^ 32)
    omega
  · intro small
    apply framed_of sized tuned rfl (Nat.le_add_right _ _)
    · rw [Nat.mod_eq_of_lt (by omega)]
      exact Nat.add_assoc _ _ _
    · intro bytes found
      have same : metadata = bytes := by
        simpa [Column.lengthPrefix] using found
      rw [same]

theorem not_framed_geometry {metadata : Nat} (low : 1 ≤ metadata) :
    ¬Column.Framed (.geometry, metadata) self memory pfield := by
  intro framed
  obtain ⟨length, value, _, tuned, covers⟩ := framed
  simp only [CValue.tune, Except.ok.injEq] at tuned
  subst tuned
  obtain ⟨start, covers⟩ := covers rfl
  have place : pfield = start := by
    have storage := covers.storage
    simpa using storage
  have behind := covers.payload metadata rfl
  omega

/-- Sizing and framing a field agree but for GEOMETRY and the longest BLOBs. -/
theorem Column.framed_iff_framable {column : Column}
    (known : column.1.Known)
    (carried : column.Carried)
    (counted : pfield + lengthBytes column ≤ memory.length) :
    column.Framed self memory pfield ↔ column.Framable memory pfield := by
  obtain ⟨type, metadata⟩ := column
  have plain : ∀ {type : EColumnType}, type ≠ .geometry → type ≠ .blob →
      Framable (type, metadata) memory pfield := by
    intro type notGeometry notBlob
    exact ⟨notGeometry, fun same => absurd (congrArg Prod.fst same) notBlob⟩
  cases type
  case json | other => exact known.elim
  case varchar =>
    exact iff_of_true (framed_varchar counted) (plain nofun nofun)
  case string =>
    exact iff_of_true (framed_string carried counted) (plain nofun nofun)
  case geometry =>
    exact iff_of_false (not_framed_geometry carried.2.1)
      (fun framable => framable.1 rfl)
  case blob =>
    rw [framed_blob_iff carried.2.1 carried.2.2 counted]
    constructor
    · intro small
      refine ⟨nofun, ?_⟩
      intro four
      cases four
      exact small
    · intro framable
      obtain ⟨low, high⟩ := carried.2
      by_cases four : metadata = 4
      · subst four
        exact framable.2 rfl
      · have number := littleEndian_lt ((memory.drop pfield).take metadata)
        have power : 256 ^ ((memory.drop pfield).take metadata).length ≤
            256 ^ 3 := by
          apply Nat.pow_le_pow_right (by decide)
          have taken := List.length_take_le metadata (memory.drop pfield)
          omega
        dsimp only
        omega
  all_goals
    obtain ⟨length, sized⟩ := calcFieldSize_returns carried.digits counted
    exact iff_of_true (framed_whole sized rfl rfl rfl rfl) (plain nofun nofun)

end Framing

/-- A field with an empty line string: a length of four bytes, and behind it the
SRID, the byte order, the type and the number of points. -/
def emptyLine : Bytes := [13, 0, 0, 0, 0, 0, 0, 0, 1, 2, 0, 0, 0, 0, 0, 0, 0]

theorem framed_iff_framable_varchar :
    Column.Framed (.varchar, 10) {} [2, 97, 98] 0 := by
  have known : EColumnType.varchar.Known := trivial
  have carried : Column.Carried (.varchar, 10) := ⟨by decide, trivial⟩
  have counted : 0 + lengthBytes (.varchar, 10) ≤
      ([2, 97, 98] : Bytes).length := by decide
  exact (Column.framed_iff_framable known carried counted).mpr ⟨nofun, nofun⟩

/-- The blob of a GEOMETRY value starts with the four bytes of its length. -/
theorem not_framed_emptyLine :
    CValue.calcFieldSize .geometry emptyLine 0 4 = .ok 17 ∧
      (CValue.tune {} .geometry emptyLine 0 4 17).map CValue.asBlob =
        .ok (some 0, 17) ∧
      ¬Column.Framed (.geometry, 4) {} emptyLine 0 := by
  refine ⟨rfl, rfl, ?_⟩
  exact not_framed_geometry (by decide)

/-- A value of a CHAR column of at most `limit` bytes. -/
structure CharValue where
  limit : Nat
  bytes : Bytes
  bounded : limit ≤ 1023
  fits : bytes.length ≤ limit

namespace CharValue

/-- The metadata bytes: two bits of the limit are packed into the type. -/
def metadataBytes (value : CharValue) : Bytes :=
  [.ofNat (0xFE ^^^ ((value.limit &&& 0x300) >>> 4)),
    .ofNat (value.limit &&& 0xFF)]

/-- The metadata as `update_row` reads it. -/
def metadata (value : CharValue) : Nat := littleEndian value.metadataBytes

/-- The stored bytes. -/
def encode (value : CharValue) : Bytes :=
  bytesLE (if value.limit ≤ 255 then 1 else 2) value.bytes.length ++
    value.bytes

/-- The field is as long as it is stored, and its value has the stored bytes. -/
def ReadBack (value : CharValue) (self : CValue) (memory : Bytes)
    (pfield : Nat) : Prop :=
  CValue.calcFieldSize .string memory pfield value.metadata =
      .ok value.encode.length ∧
    ∃ framed start,
      self.tune .string memory pfield value.metadata value.encode.length =
          .ok framed ∧
        framed.isNull = false ∧ framed.type = .string ∧
        framed.storage = some start ∧ framed.size = value.bytes.length ∧
        Stored memory start value.bytes

variable {value : CharValue} {self : CValue} {memory : Bytes} {pfield : Nat}

theorem typeByte_long : ∀ limit < 1024, 255 < limit →
    EColumnType.ofCode (.ofNat
      (littleEndian [.ofNat (0xFE ^^^ ((limit &&& 0x300) >>> 4)),
        .ofNat (limit &&& 0xFF)] % 256)) ≠ .string := by
  decide +kernel

theorem metadata_short (short : value.limit ≤ 255) :
    value.metadata = 254 + 256 * value.limit := by
  have packed : ∀ limit < 256,
      littleEndian [.ofNat (0xFE ^^^ ((limit &&& 0x300) >>> 4)),
        .ofNat (limit &&& 0xFF)] = 254 + 256 * limit := by
    decide +kernel
  exact packed value.limit (Nat.lt_succ_of_le short)

theorem tune_type {metadata length : Nat} {framed : CValue}
    (tuned : self.tune .string memory pfield metadata length = .ok framed) :
    framed.type = EColumnType.ofCode (UInt8.ofNat (metadata % 256)) := by
  simp only [CValue.tune] at tuned
  generalize EColumnType.ofCode (UInt8.ofNat (metadata % 256)) = subtype
    at tuned
  cases subtype with
  | string =>
      dsimp only at tuned
      split at tuned
      · cases tuned
        rfl
      · cases tuned
        rfl
  | _ =>
      cases tuned
      rfl

/-- A CHAR value is read back if its column has at most 255 bytes. -/
theorem readsChar_iff (stored : Stored memory pfield value.encode) :
    value.ReadBack self memory pfield ↔ value.limit ≤ 255 := by
  constructor
  · intro readBack
    obtain ⟨_, framed, start, tuned, _, type, _⟩ := readBack
    by_contra long
    have bounded := value.bounded
    have other := typeByte_long value.limit (by omega) (by omega)
    have real := tune_type tuned
    rw [type] at real
    exact other real.symm
  · intro short
    have fits := value.fits
    have low : value.metadata % 256 = 254 := by
      rw [metadata_short short]
      omega
    have high : value.metadata / 256 = value.limit := by
      rw [metadata_short short]
      omega
    have narrow : value.limit < 256 := by omega
    have notLong : ¬value.limit > 255 := by omega
    have encoded : value.encode =
        .ofNat value.bytes.length :: value.bytes := by
      simp [encode, short, bytesLE]
    rw [encoded] at stored
    have first := readByte_of_stored stored
    have length : (UInt8.ofNat value.bytes.length).toNat =
        value.bytes.length := by
      rw [UInt8.toNat_ofNat']
      omega
    have payload : sizeSub (value.bytes.length + 1) 1 =
        value.bytes.length := by
      rw [sizeSub_eq (by omega) (by omega), Nat.add_sub_cancel]
    rw [ReadBack, encoded, List.length_cons]
    constructor
    · simp only [CValue.calcFieldSize, low, EColumnType.ofCode_string,
        reduceCtorEq, or_self, if_false, high, narrow, if_true, first,
        Exec.ok_bind, Exec.pure_eq_ok, length]
    · let framed : CValue := { self with
        metadata := value.metadata, storage := some (pfield + 1)
        type := .string, size := sizeSub (value.bytes.length + 1) 1
        null := false }
      refine ⟨framed, pfield + 1, ?_, rfl, rfl, rfl, payload, stored.tail⟩
      simp only [CValue.tune, low, EColumnType.ofCode_string, high, notLong,
        if_false]
      rfl

/-- A value of a CHAR column of at most 255 bytes. -/
def shortChar : CharValue where
  limit := 255
  bytes := [97, 98]
  bounded := Nat.le_add_right 255 768
  fits := Nat.le_add_right 2 253

/-- A value of a CHAR column of at most 256 bytes. -/
def longChar : CharValue where
  limit := 256
  bytes := [97, 98]
  bounded := Nat.le_add_right 256 767
  fits := Nat.le_add_right 2 254

theorem readsChar_iff_shortChar :
    shortChar.ReadBack {} [2, 97, 98, 7] 0 := by
  have stored : Stored [2, 97, 98, 7] 0 shortChar.encode :=
    ⟨[], [7], rfl, rfl⟩
  exact (readsChar_iff stored).mpr (Nat.le_refl 255)

/-- A field of four bytes is taken for one of three. -/
theorem not_readsChar_longChar :
    longChar.metadataBytes = [238, 0] ∧ longChar.encode = [2, 0, 97, 98] ∧
      CValue.calcFieldSize .string [2, 0, 97, 98] 0 longChar.metadata =
        .ok 3 ∧
      ¬longChar.ReadBack {} [2, 0, 97, 98] 0 := by
  have bytes : longChar.metadataBytes = [238, 0] := by decide
  have size : CValue.calcFieldSize .string [2, 0, 97, 98] 0
      longChar.metadata = .ok 3 := by decide +kernel
  refine ⟨bytes, rfl, size, ?_⟩
  intro readBack
  have sized := readBack.1
  rw [size] at sized
  have different : (3 : Nat) ≠ longChar.encode.length := by decide
  exact different (Except.ok.inj sized)

end CharValue

end MysqlSlave
