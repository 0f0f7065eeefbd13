import Mathlib.Tactic.IntervalCases
import MysqlSlave.Lib.Region

/-!
# Column values

`CValue` from `value.hpp` and `value.cpp`, as far as a row decoder needs it: how
many metadata bytes a column type has in a TABLE_MAP event, how many bytes a
stored field takes, and how a field becomes a value.  A value keeps a pointer to
its bytes in the packet (`storage`), not a copy of them.
-/

namespace MysqlSlave

open Region

/-- `CValue::EColumnType`; `other` is a byte that no enumerator has. -/
inductive EColumnType
  | decimal
  | tiny
  | short
  | long
  | float
  | double
  | null
  | timestamp
  | longlong
  | int24
  | date
  | time
  | datetime
  | year
  | newdate
  | varchar
  | bit
  | timestamp2
  | datetime2
  | time2
  | json
  | newdecimal
  | enum
  | set
  | tinyBlob
  | mediumBlob
  | longBlob
  | blob
  | varString
  | string
  | geometry
  | other (code : UInt8)
  deriving DecidableEq, Repr

namespace EColumnType

/-- The enumerators with the codes 0..19. -/
def low : List EColumnType :=
  [decimal, tiny, short, long, float, double, null, timestamp, longlong, int24,
    date, time, datetime, year, newdate, varchar, bit, timestamp2, datetime2,
    time2]

/-- The enumerators with the codes 245..255. -/
def high : List EColumnType :=
  [json, newdecimal, enum, set, tinyBlob, mediumBlob, longBlob, blob, varString,
    string, geometry]

/-- The cast `(CValue::EColumnType) code`. -/
def ofCode (code : UInt8) : EColumnType :=
  if code.toNat < 245 then low.getD code.toNat (other code)
  else high.getD (code.toNat - 245) (other code)

theorem ofCode_string :
    ofCode (UInt8.ofNat 254) = .string := by
  simp [ofCode, high]

theorem ofCode_enum :
    ofCode (UInt8.ofNat 247) = .enum := by
  simp [ofCode, high]

theorem ofCode_set :
    ofCode (UInt8.ofNat 248) = .set := by
  simp [ofCode, high]

end EColumnType

/-- `CValue`. -/
structure CValue where
  type : EColumnType := .null
  storage : Option Nat := none
  size : Nat := 0
  metadata : Nat := 0
  null : Bool := true
  pos : Nat := 0
  deriving DecidableEq, Repr

namespace CValue

def calcMetadataSize : EColumnType → Nat
  | .timestamp2 => 1
  | .float => 1
  | .double => 1
  | .blob => 1
  | .geometry => 1
  | .datetime2 => 1
  | .varchar => 2
  | .bit => 2
  | .newdecimal => 2
  | .varString => 2
  | .string => 2
  | _ => 0

/-- The table `dig2bytes`, indexed by a C `int`. -/
def dig2bytes (index : Int) : Exec Nat :=
  if index < 0 then .error .badIndex
  else
    match [0, 1, 1, 2, 2, 3, 3, 4, 4, 4][index.toNat]? with
    | some bytes => .ok bytes
    | none => .error .badIndex

/-- The NEWDECIMAL case: `int` division truncates towards zero, and the sum is
cut to 32 bits. -/
def decimalSize (metadata : Nat) : Exec Nat := do
  let precision : Int := metadata % 256
  let scale : Int := metadata / 256
  let intg := precision - scale
  let intg0 := intg.tdiv 9
  let frac0 := scale.tdiv 9
  let intg0x := intg - intg0 * 9
  let frac0x := scale - frac0 * 9
  let intgBytes ← dig2bytes intg0x
  let fracBytes ← dig2bytes frac0x
  return ((intg0 * 4 + intgBytes + frac0 * 4 + fracBytes) % 4294967296).toNat

/-- `calc_field_size`, as the `uint32_t` its caller keeps. -/
def calcFieldSize (type : EColumnType) (memory : Bytes) (pfield metadata : Nat) :
    Exec Nat :=
  match type with
  | .varString => .ok metadata
  | .newdecimal => decimalSize metadata
  | .decimal => .ok metadata
  | .float => .ok metadata
  | .double => .ok metadata
  | .set | .enum | .string => do
      let realType := EColumnType.ofCode (UInt8.ofNat (metadata % 256))
      let len := metadata / 256
      if realType = .set ∨ realType = .enum then return len
      else if len < 256 then
        let first ← readByte memory pfield
        return first.toNat + 1
      else readLE memory pfield 2
  | .year => .ok 1
  | .tiny => .ok 1
  | .short => .ok 2
  | .int24 => .ok 3
  | .long => .ok 4
  | .longlong => .ok 8
  | .null => .ok 0
  | .newdate => .ok 3
  | .date => .ok 3
  | .time => .ok 3
  | .time2 => .ok 3
  | .timestamp => .ok 4
  | .timestamp2 => .ok 4
  | .datetime => .ok 8
  | .datetime2 =>
      if metadata = 1 ∨ metadata = 2 then .ok (1 + 5)
      else if metadata = 3 ∨ metadata = 4 then .ok (2 + 5)
      else if metadata = 5 ∨ metadata = 6 then .ok (3 + 5)
      else .ok (0 + 5)
  | .bit =>
      let fromLen := metadata / 256 % 256
      let fromBitLen := metadata % 256
      .ok (fromLen + if fromBitLen > 0 then 1 else 0)
  | .varchar =>
      if metadata > 255 then do
        let len ← readLE memory pfield 2
        return 2 + len
      else do
        let len ← readByte memory pfield
        return 1 + len.toNat
  | .tinyBlob | .mediumBlob | .longBlob | .blob | .geometry =>
      match metadata with
      | 1 => do
          let len ← readByte memory pfield
          return 1 + len.toNat
      | 2 => do
          let len ← readLE memory pfield 2
          return 2 + len
      | 3 => do
          -- a four-byte read, of which three bytes are kept
          let word ← readLE memory pfield 4
          return 3 + word % 16777216
      | 4 => do
          let len ← readLE memory pfield 4
          return (4 + len) % 4294967296
      | _ => .ok 0
  | _ => .ok 4294967295

def isValid (self : CValue) : Bool := self.size ≠ 0 && self.storage.isSome

def isNull (self : CValue) : Bool := self.null || self.type == .null

def reset (self : CValue) : CValue :=
  { self with
    type := .null, size := 0, storage := none, metadata := 0, null := true }

/-- `tune`, which always returns 0. -/
def tune (self : CValue) (ftype : EColumnType) (memory : Bytes)
    (pfield metadata length : Nat) : Exec CValue :=
  let value : CValue :=
    { self with
      metadata, storage := some pfield, type := ftype, size := length,
      null := false }
  match ftype with
  | .string =>
      let subtype := EColumnType.ofCode (UInt8.ofNat (metadata % 256))
      let len := metadata / 256
      match subtype with
      | .string =>
          if len > 255 then
            .ok { value with
              storage := some (pfield + 2), size := sizeSub length 2
              type := subtype }
          else
            .ok { value with
              storage := some (pfield + 1), size := sizeSub length 1
              type := subtype }
      | .json | .enum | .set => .ok { value with size := len, type := subtype }
      | _ => .ok { value with null := true, type := subtype }
  | .varchar =>
      if metadata < 256 then do
        let len ← readByte memory pfield
        return { value with size := len.toNat, storage := some (pfield + 1) }
      else do
        let len ← readLE memory pfield 2
        return { value with size := len, storage := some (pfield + 2) }
  | .blob =>
      if 1 ≤ metadata ∧ metadata ≤ 4 then do
        let len ← readLE memory pfield metadata
        return { value with size := len, storage := some (pfield + metadata) }
      else .ok { value with size := 0, null := true }
  | _ => .ok value

end CValue

/-- The bytes that `digits` decimal digits take. -/
def decimalBytes (digits : Nat) : Nat :=
  digits / 9 * 4 + (digits % 9 + 1) / 2

namespace CValue

theorem tdiv_nine (digits : Nat) : (digits : Int).tdiv 9 = (digits / 9 : Nat) :=
  rfl

theorem sub_nine (digits : Nat) :
    (digits : Int) - (digits / 9 : Nat) * 9 = (digits % 9 : Nat) := by
  omega

/-- `dig2bytes` is the size of a group of at most eight digits. -/
theorem dig2bytes_eq {digits : Nat} (few : digits < 9) :
    dig2bytes digits = .ok ((digits + 1) / 2) := by
  interval_cases digits <;> rfl

theorem decimalSize_eq {precision scale : Nat}
    (bounded : precision ≤ 255) (scaled : scale ≤ precision) :
    decimalSize (precision + 256 * scale) =
      .ok (decimalBytes (precision - scale) + decimalBytes scale) := by
  have precisionRead :
      ((precision + 256 * scale : Nat) : Int) % 256 = precision := by
    omega
  have scaleRead :
      ((precision + 256 * scale : Nat) : Int) / 256 = scale := by
    omega
  have integers : (precision : Int) - scale = (precision - scale : Nat) := by
    omega
  have few : ∀ digits, digits % 9 < 9 := fun _ => Nat.mod_lt _ (by decide)
  simp only [decimalSize, precisionRead, scaleRead, integers, tdiv_nine,
    sub_nine, dig2bytes_eq (few _), Exec.ok_bind, Exec.pure_eq_ok,
    Except.ok.injEq, decimalBytes]
  omega

end CValue

end MysqlSlave
