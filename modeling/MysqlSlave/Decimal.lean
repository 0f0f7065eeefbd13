import MysqlSlave.Lib.FixedDigits
import MysqlSlave.Lib.SignedBytes
import MysqlSlave.Value

/-!
# Packed decimals

`_init_decimal`, which unpacks a NEWDECIMAL field into groups of nine decimal
digits.  The packed form has an integer part and a fraction; digits that do not
fill a group come first in the integer part and last in the fraction.
-/

namespace MysqlSlave

open Region

/-- `decimal_t`; `buf` is what of the buffer is in use. -/
structure DecimalT where
  sign : Bool
  intg : Int
  frac : Int
  buf : List Int
  len : Nat
  deriving DecidableEq, Repr

namespace DecimalT

/-- The table `powers10`, indexed by a C `int`. -/
def powers10 (index : Int) : Exec Int :=
  if 0 ≤ index ∧ index ≤ 9 then .ok (10 ^ index.toNat) else .error .badIndex

/-- Where the groups are and how many of them fit into 512 words. -/
structure Layout where
  /-- How far `from` is moved over integer groups that do not fit. -/
  skipped : Int
  intg0 : Int
  intg0x : Int
  frac0 : Int
  frac0x : Int
  deriving DecidableEq, Repr

/-- The part of `_init_decimal` that computes the layout, with
`FIX_INTG_FRAC_ERROR` for 512 words. -/
def layout (precision scale : Int) : Exec Layout := do
  let intg := precision - scale
  let intg0 := intg.tdiv 9
  let frac0 := scale.tdiv 9
  let intg0x := intg - intg0 * 9
  let frac0x := scale - frac0 * 9
  let intg1 := intg0 + if 0 < intg0x then 1 else 0
  let frac1 := frac0 + if 0 < frac0x then 1 else 0
  if intg1 + frac1 ≤ 512 then
    return { skipped := 0, intg0, intg0x, frac0, frac0x }
  else if 512 < intg1 then do
    let bytes ← CValue.dig2bytes intg0x
    return {
      skipped := bytes + 4 * (intg0 - 512), intg0 := 512, intg0x := 0
      frac0 := 0, frac0x := 0 }
  else
    return { skipped := 0, intg0, intg0x, frac0 := 512 - intg1, frac0x := 0 }

/-- One group of `width` bytes, by `mi_sint1korr` to `mi_sint4korr`.  The first
group of the number is read from a copy of four bytes with the top bit flipped. -/
def readGroup (memory : Bytes) (storage pointer width : Nat) : Exec Int :=
  if storage = pointer then do
    let tmp ← readBytes memory pointer 4
    return signedBE ((flipFirst tmp).take width)
  else do
    let group ← readBytes memory pointer width
    return signedBE group

/-- `x ^ mask`, where `mask` is 0 or -1. -/
def unmask (negative : Bool) (x : Int) : Int := if negative then -x - 1 else x

/-- `((uint32) value) > DIG_MAX`. -/
def aboveDigMax (value : Int) : Bool := 999999999 < value % 4294967296

/-- What is decoded so far. -/
structure Groups where
  buf : List Int := []
  toIntg : Int
  deriving DecidableEq, Repr

namespace Groups

/-- An integer group; zero groups at the front are dropped. -/
def pushInteger (groups : Groups) (digits value : Int) : Groups :=
  if groups.buf ≠ [] ∨ value ≠ 0 then
    { groups with buf := groups.buf ++ [value] }
  else { groups with toIntg := groups.toIntg - digits }

def pushFraction (groups : Groups) (value : Int) : Groups :=
  { groups with buf := groups.buf ++ [value] }

end Groups

/-- The group of the first `intg0x` digits, if there is one; `none` is
`E_DEC_ERROR`. -/
def leadingGroup (memory : Bytes) (storage : Nat) (negative : Bool)
    (intg0x : Int) (pointer : Nat) (groups : Groups) :
    Exec (Option (Groups × Nat)) :=
  if intg0x = 0 then .ok (some (groups, pointer))
  else do
    let i ← CValue.dig2bytes intg0x
    let x ← readGroup memory storage pointer i
    let value := unmask negative x
    let limit ← powers10 (intg0x + 1)
    if limit ≤ value % 18446744073709551616 then return none
    else return some (groups.pushInteger intg0x value, pointer + i)

/-- `rounds` groups of nine digits, each kept by `push`. -/
def fullGroups (push : Groups → Int → Groups) (memory : Bytes) (storage : Nat)
    (negative : Bool) : Nat → Nat → Groups → Exec (Option (Groups × Nat))
  | 0, pointer, groups => .ok (some (groups, pointer))
  | rounds + 1, pointer, groups => do
      let x ← readGroup memory storage pointer 4
      let value := unmask negative x
      if aboveDigMax value then return none
      else
        fullGroups push memory storage negative rounds (pointer + 4)
          (push groups value)

/-- The group of the last `frac0x` digits, if there is one; the product is cut to
32 bits. -/
def trailingGroup (memory : Bytes) (storage : Nat) (negative : Bool)
    (frac0x : Int) (pointer : Nat) (groups : Groups) :
    Exec (Option (Groups × Nat)) :=
  if frac0x = 0 then .ok (some (groups, pointer))
  else do
    let i ← CValue.dig2bytes frac0x
    let x ← readGroup memory storage pointer i
    let factor ← powers10 (9 - frac0x)
    let value := (unmask negative x * factor).bmod 4294967296
    if aboveDigMax value then return none
    else return some (groups.pushFraction value, pointer + i)

/-- The next step of a decoder, unless there was an error. -/
def whenOk {α β : Type} (run : Exec (Option α))
    (next : α → Exec (Option β)) : Exec (Option β) := do
  match ← run with
  | none => return none
  | some result => next result

/-- `_init_decimal`, as built for a release, without its assertions.  Beside the
number it returns where `from` has come to. -/
def initDecimal (toBufLen : Nat) (precision scale : Int) (memory : Bytes)
    (storage : Nat) : Exec (Option (DecimalT × Nat)) := do
  let first ← readByte memory storage
  let negative : Bool := first.toNat < 128
  let layout ← layout precision scale
  let toIntg := layout.intg0 * 9 + layout.intg0x
  let toFrac := layout.frac0 * 9 + layout.frac0x
  let start := (storage + layout.skipped).toNat
  whenOk
    (leadingGroup memory storage negative layout.intg0x start { toIntg })
    fun (groups, pointer) =>
  whenOk
    (fullGroups (fun groups => groups.pushInteger 9) memory storage negative
      layout.intg0.toNat pointer groups)
    fun (groups, pointer) =>
  whenOk
    (fullGroups Groups.pushFraction memory storage negative
      layout.frac0.toNat pointer groups)
    fun (groups, pointer) =>
  whenOk
    (trailingGroup memory storage negative layout.frac0x pointer groups)
    fun (groups, pointer) =>
  return some (
    { sign := negative, intg := groups.toIntg, frac := toFrac
      buf := groups.buf, len := toBufLen },
    pointer)

end DecimalT

end MysqlSlave
