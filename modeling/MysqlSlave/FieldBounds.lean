import Mathlib.Tactic.IntervalCases
import MysqlSlave.RowImage

/-!
# Fields inside the row data

`calc_field_size` reads the length of a field in front of it, and `CValue::tune`
points at its bytes; neither knows how many bytes are left.  `FieldFits` says on
the bytes alone when both stay inside what is left.
-/

namespace MysqlSlave

open Region

/-- The value is null or its bytes lie between the two addresses. -/
def CValue.Inside (value : CValue) (low high : Nat) : Prop :=
  value.isNull = false →
    ∃ p, value.storage = some p ∧ low ≤ p ∧ p + value.size ≤ high

/-- A field at the front of `rest` is framed inside `rest`. -/
def FieldInside (column : Column) (rest : Bytes) (length : Nat) : Prop :=
  CValue.calcFieldSize column.1 rest 0 column.2 = .ok length ∧
    ∃ value, (CValue.blank 0).tune column.1 rest 0 column.2 length =
      .ok value ∧ value.Inside 0 rest.length

section Moved

variable (front rest : Bytes)

theorem readByte_here :
    readByte (front ++ rest) front.length = readByte rest 0 :=
  readByte_append front rest 0

theorem readLE_here (width : Nat) :
    readLE (front ++ rest) front.length width = readLE rest 0 width :=
  readLE_append front rest 0 width

/-- The length of a field does not depend on what stands in front of it. -/
theorem calcFieldSize_append (type : EColumnType) (metadata : Nat) :
    CValue.calcFieldSize type (front ++ rest) front.length metadata =
      CValue.calcFieldSize type rest 0 metadata := by
  cases type <;>
    simp only [CValue.calcFieldSize, readByte_here, readLE_here]

theorem tune_append (type : EColumnType) (metadata length pos : Nat) :
    (CValue.blank pos).tune type (front ++ rest) front.length metadata length =
      ((CValue.blank 0).tune type rest 0 metadata length).map fun value =>
        { value with
          storage := value.storage.map (front.length + ·), pos } := by
  have byte := readByte_here front rest
  have number := readLE_here front rest
  cases type with
  | string =>
      simp only [CValue.tune]
      generalize EColumnType.ofCode (UInt8.ofNat (metadata % 256)) = subtype
      cases subtype with
      | string =>
          dsimp only
          split <;> rfl
      | _ => rfl
  | varchar =>
      simp only [CValue.tune, byte, number]
      split
      · cases read : readByte rest 0 with
        | error fault => rfl
        | ok len => rfl
      · cases read : readLE rest 0 2 with
        | error fault => rfl
        | ok len => rfl
  | blob =>
      simp only [CValue.tune, number]
      split
      · cases read : readLE rest 0 metadata with
        | error fault => rfl
        | ok len => simp [Except.map]
      · rfl
  | _ => rfl

theorem tune_inside_iff {type : EColumnType} {metadata length low : Nat}
    (pos : Nat) (below : low ≤ front.length) :
    (∃ value, (CValue.blank pos).tune type (front ++ rest) front.length
          metadata length = .ok value ∧
        value.Inside low (front ++ rest).length) ↔
      ∃ value, (CValue.blank 0).tune type rest 0 metadata length = .ok value ∧
        value.Inside 0 rest.length := by
  rw [tune_append]
  cases run : (CValue.blank 0).tune type rest 0 metadata length with
  | error fault => simp [Except.map]
  | ok value =>
      obtain ⟨stored, _⟩ := CValue.tune_storage run
      obtain ⟨p, storage⟩ := Option.isSome_iff_exists.mp stored
      constructor
      · intro framed
        obtain ⟨moved, same, inside⟩ := framed
        cases same
        refine ⟨value, rfl, ?_⟩
        intro notNull
        obtain ⟨q, place, _, fits⟩ := inside notNull
        simp only [storage, Option.map_some, Option.some.injEq] at place
        simp only [List.length_append] at fits
        exact ⟨p, storage, Nat.zero_le p, by omega⟩
      · intro framed
        obtain ⟨value', same, inside⟩ := framed
        cases same
        refine ⟨_, rfl, ?_⟩
        intro notNull
        obtain ⟨q, place, _, fits⟩ := inside notNull
        rw [storage] at place
        cases place
        refine ⟨front.length + p, ?_, by omega, ?_⟩
        · simp only [storage, Option.map_some]
        · simp only [List.length_append]
          omega

end Moved

/-- The digits of a NEWDECIMAL are indices of `dig2bytes`. -/
def DigitsInside (metadata : Nat) : Prop :=
  metadata / 256 ≤ metadata % 256 ∨ 9 ∣ metadata / 256 - metadata % 256

/-- How many bytes are read for the length of a field. -/
def lengthBytes (column : Column) : Nat :=
  match column.1 with
  | .set | .enum | .string =>
      let realType := EColumnType.ofCode (UInt8.ofNat (column.2 % 256))
      if realType = .set ∨ realType = .enum then 0
      else if column.2 / 256 < 256 then 1
      else 2
  | .varchar => if column.2 > 255 then 2 else 1
  | .tinyBlob | .mediumBlob | .longBlob | .blob | .geometry =>
      match column.2 with
      | 1 => 1
      | 2 => 2
      | 3 => 4
      | 4 => 4
      | _ => 0
  | _ => 0

/-- How long the field at the front of `rest` says it is. -/
def fieldLength (column : Column) (rest : Bytes) : Nat :=
  match CValue.calcFieldSize column.1 rest 0 column.2 with
  | .ok length => length
  | .error _ => 0

/-- Where the value of the field at the front of `rest` ends; a null value has no
bytes. -/
def valueEnd (column : Column) (rest : Bytes) : Nat :=
  let length := fieldLength column rest
  match column.1 with
  | .null => 0
  | .string =>
      match EColumnType.ofCode (UInt8.ofNat (column.2 % 256)) with
      | .string =>
          if column.2 / 256 > 255 then 2 + sizeSub length 2
          else 1 + sizeSub length 1
      | .json | .enum | .set => column.2 / 256
      | _ => 0
  | .blob =>
      if 1 ≤ column.2 ∧ column.2 ≤ 4 then
        column.2 + littleEndian (rest.take column.2)
      else 0
  | _ => length

/-- The field at the front of `rest` fits there. -/
structure FieldFits (column : Column) (rest : Bytes) : Prop where
  digits : column.1 = .newdecimal → DigitsInside column.2
  counted : lengthBytes column ≤ rest.length
  ends : valueEnd column rest ≤ rest.length

section Fits

variable {rest : Bytes} {metadata : Nat}

theorem readByte_isOk :
    (∃ byte, readByte rest 0 = .ok byte) ↔ 1 ≤ rest.length := by
  constructor
  · intro read
    obtain ⟨byte, read⟩ := read
    by_contra short
    rw [readByte_eq_error (by omega)] at read
    cases read
  · intro some
    exact ⟨_, readByte_eq_ok (by omega)⟩

theorem readLE_isOk {width : Nat} (wide : 0 < width) :
    (∃ number, readLE rest 0 width = .ok number) ↔ width ≤ rest.length := by
  constructor
  · intro read
    obtain ⟨number, read⟩ := read
    have inside := readLE_inside wide read
    omega
  · intro fits
    exact ⟨_, readLE_eq_ok (by omega)⟩

theorem isOk_bind {α β : Type} {run : Exec α} (next : α → β) :
    (∃ result, (run >>= fun value => (.ok (next value) : Exec β)) =
      .ok result) ↔ ∃ value, run = .ok value := by
  cases run with
  | error fault => simp
  | ok value => simp

theorem dig2bytes_isOk {index : Int} (small : index ≤ 9) :
    (∃ bytes, CValue.dig2bytes index = .ok bytes) ↔ 0 ≤ index := by
  unfold CValue.dig2bytes
  split
  · rename_i negative
    constructor
    · intro found
      obtain ⟨bytes, wrong⟩ := found
      cases wrong
    · intro positive
      omega
  · rename_i positive
    obtain ⟨digits, rfl⟩ := Int.eq_ofNat_of_zero_le (Int.not_lt.mp positive)
    have below : digits < 10 := by omega
    rw [Int.toNat_natCast, List.getElem?_eq_getElem (by simpa using below)]
    simp

/-- The remainder of an `int` division by 9. -/
theorem tdiv_nine_left (digits : Int) :
    digits - digits.tdiv 9 * 9 ≤ 9 ∧
      (0 ≤ digits - digits.tdiv 9 * 9 ↔ 0 ≤ digits ∨ 9 ∣ digits) := by
  have one : Int.sign 9 = 1 := rfl
  rw [Int.tdiv_eq_ediv, one]
  split
  · omega
  · omega

theorem decimalSize_isOk :
    (∃ length, CValue.decimalSize metadata = .ok length) ↔
      DigitsInside metadata := by
  obtain ⟨intgSmall, intgSign⟩ := tdiv_nine_left
    ((metadata : Int) % 256 - (metadata : Int) / 256)
  obtain ⟨fracSmall, fracSign⟩ := tdiv_nine_left ((metadata : Int) / 256)
  obtain ⟨fracBytes, fracRead⟩ :=
    (dig2bytes_isOk fracSmall).mpr (fracSign.mpr (by omega))
  have digits : 0 ≤ (metadata : Int) % 256 - (metadata : Int) / 256 ∨
      9 ∣ (metadata : Int) % 256 - (metadata : Int) / 256 ↔
        DigitsInside metadata := by
    unfold DigitsInside
    omega
  rw [← digits, ← intgSign, ← dig2bytes_isOk intgSmall]
  simp only [CValue.decimalSize, fracRead, Exec.ok_bind]
  exact isOk_bind _

theorem calcFieldSize_isOk (column : Column) :
    (∃ length, CValue.calcFieldSize column.1 rest 0 column.2 = .ok length) ↔
      (column.1 = .newdecimal → DigitsInside column.2) ∧
        lengthBytes column ≤ rest.length := by
  obtain ⟨type, metadata⟩ := column
  have fixed : ∀ length : Nat,
      (∃ result, (.ok length : Exec Nat) = .ok result) ↔ 0 ≤ rest.length :=
    fun length => ⟨fun _ => Nat.zero_le _, fun _ => ⟨length, rfl⟩⟩
  have byte := @readByte_isOk rest
  have two := @readLE_isOk rest 2 (by decide)
  have four := @readLE_isOk rest 4 (by decide)
  cases type
  case newdecimal =>
    simpa [lengthBytes, CValue.calcFieldSize] using decimalSize_isOk
  case varchar =>
    simp only [reduceCtorEq, false_implies, true_and]
    rw [CValue.calcFieldSize, lengthBytes]
    split
    · exact (isOk_bind _).trans two
    · exact (isOk_bind _).trans byte
  case set | enum | string =>
    simp only [reduceCtorEq, false_implies, true_and]
    rw [CValue.calcFieldSize, lengthBytes]
    dsimp only
    split
    · exact fixed _
    · split
      · exact (isOk_bind _).trans byte
      · exact two
  case tinyBlob | mediumBlob | longBlob | blob | geometry =>
    simp only [reduceCtorEq, false_implies, true_and]
    match metadata with
    | 0 => exact fixed _
    | 1 => exact (isOk_bind _).trans byte
    | 2 => exact (isOk_bind _).trans two
    | 3 => exact (isOk_bind _).trans four
    | 4 => exact (isOk_bind _).trans four
    | _ + 5 => exact fixed _
  case datetime2 =>
    simp only [reduceCtorEq, false_implies, true_and]
    rw [CValue.calcFieldSize, lengthBytes]
    split
    · exact fixed _
    · split
      · exact fixed _
      · split <;> exact fixed _
  all_goals
    simp only [reduceCtorEq, false_implies, true_and]
    exact fixed _

theorem inside_null {value : CValue} {low high : Nat}
    (null : value.isNull = true) : value.Inside low high := by
  intro notNull
  rw [null] at notNull
  cases notNull

theorem inside_iff {value : CValue} {p high : Nat}
    (notNull : value.isNull = false) (place : value.storage = some p) :
    value.Inside 0 high ↔ p + value.size ≤ high := by
  constructor
  · intro inside
    obtain ⟨q, same, _, fits⟩ := inside notNull
    rw [place] at same
    cases same
    exact fits
  · intro fits _
    exact ⟨p, place, Nat.zero_le p, fits⟩

theorem tune_fits {column : Column} {length : Nat}
    (sized : CValue.calcFieldSize column.1 rest 0 column.2 = .ok length) :
    (∃ value, (CValue.blank 0).tune column.1 rest 0 column.2 length =
        .ok value ∧ value.Inside 0 rest.length) ↔
      valueEnd column rest ≤ rest.length := by
  have long : fieldLength column rest = length := by
    rw [fieldLength, sized]
  obtain ⟨type, metadata⟩ := column
  have framed : ∀ {run : Exec CValue} {value : CValue} {p last : Nat},
      run = .ok value → value.isNull = false → value.storage = some p →
      p + value.size = last →
      ((∃ value, run = .ok value ∧ value.Inside 0 rest.length) ↔
        last ≤ rest.length) := by
    intro run value p last tuned notNull place ends
    subst ends
    rw [tuned, ← inside_iff notNull place]
    simp
  have null : ∀ {run : Exec CValue} {value : CValue},
      run = .ok value → value.isNull = true →
      ((∃ value, run = .ok value ∧ value.Inside 0 rest.length) ↔
        0 ≤ rest.length) := by
    intro run value tuned isNull
    exact ⟨fun _ => Nat.zero_le _, fun _ => ⟨value, tuned, inside_null isNull⟩⟩
  cases type
  case null => exact null rfl rfl
  case string =>
    simp only [CValue.tune, valueEnd, long]
    cases EColumnType.ofCode (UInt8.ofNat (metadata % 256)) with
    | string =>
        dsimp only
        split
        · exact framed rfl rfl rfl rfl
        · exact framed rfl rfl rfl rfl
    | json => exact framed rfl rfl rfl (Nat.zero_add _)
    | enum => exact framed rfl rfl rfl (Nat.zero_add _)
    | set => exact framed rfl rfl rfl (Nat.zero_add _)
    | _ => exact null rfl rfl
  case varchar =>
    simp only [CValue.calcFieldSize] at sized
    simp only [CValue.tune, valueEnd, long]
    split at sized
    · rename_i wide
      obtain ⟨len, read, result⟩ := Exec.bind_eq_ok.mp sized
      cases result
      rw [if_neg (by omega), read]
      exact framed rfl rfl rfl rfl
    · rename_i narrow
      obtain ⟨len, read, result⟩ := Exec.bind_eq_ok.mp sized
      cases result
      rw [if_pos (by omega), read]
      exact framed rfl rfl rfl rfl
  case blob =>
    have counted := ((calcFieldSize_isOk (.blob, metadata)).mp ⟨_, sized⟩).2
    simp only [CValue.tune, valueEnd]
    split
    · rename_i range
      have inside : 0 + metadata ≤ rest.length := by
        -- for a length of three bytes a fourth one is read
        have least : metadata ≤ lengthBytes (.blob, metadata) := by
          obtain ⟨low, high⟩ := range
          interval_cases metadata <;> decide
        omega
      rw [readLE_eq_ok inside]
      exact framed rfl rfl rfl (by rw [Nat.zero_add, List.drop_zero])
    · exact null rfl rfl
  all_goals
    rw [valueEnd, long]
    exact framed rfl rfl rfl (Nat.zero_add _)

/-- A field is framed inside the rest exactly if it fits there. -/
theorem fieldInside_iff {column : Column} {length : Nat} :
    FieldInside column rest length ↔
      FieldFits column rest ∧ length = fieldLength column rest := by
  constructor
  · intro inside
    obtain ⟨sized, tuned⟩ := inside
    obtain ⟨digits, counted⟩ := (calcFieldSize_isOk column).mp ⟨_, sized⟩
    have long : fieldLength column rest = length := by
      rw [fieldLength, sized]
    exact ⟨⟨digits, counted, (tune_fits sized).mp tuned⟩, long.symm⟩
  · intro fits
    obtain ⟨⟨digits, counted, ends⟩, rfl⟩ := fits
    obtain ⟨length, sized⟩ := (calcFieldSize_isOk column).mpr ⟨digits, counted⟩
    have long : fieldLength column rest = length := by
      rw [fieldLength, sized]
    rw [long]
    exact ⟨sized, (tune_fits sized).mpr ends⟩

end Fits

end MysqlSlave
