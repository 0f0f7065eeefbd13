import Mathlib.Data.List.SplitLengths
import MysqlSlave.Jsonb

/-!
# The binary form of JSON values

The bytes a server stores for a JSON value, and which values `as_json` reads back
from them.
-/

namespace MysqlSlave

open Region

namespace Jsonb

/-- The integer types of the format. -/
inductive IntegerType
  | int16
  | uint16
  | int32
  | uint32
  | int64
  | uint64
  deriving DecidableEq, Repr

namespace IntegerType

def code : IntegerType → UInt8
  | .int16 => 5
  | .uint16 => 6
  | .int32 => 7
  | .uint32 => 8
  | .int64 => 9
  | .uint64 => 10

def width : IntegerType → Nat
  | .int16 => 2
  | .uint16 => 2
  | .int32 => 4
  | .uint32 => 4
  | .int64 => 8
  | .uint64 => 8

def isSigned : IntegerType → Bool
  | .int16 => true
  | .uint16 => false
  | .int32 => true
  | .uint32 => false
  | .int64 => true
  | .uint64 => false

def InRange (type : IntegerType) (value : Int) : Prop :=
  if type.isSigned then
    -256 ^ type.width ≤ 2 * value ∧ 2 * value < 256 ^ type.width
  else 0 ≤ value ∧ value < 256 ^ type.width

end IntegerType

/-- A number of `width` bytes, negative ones in two's complement. -/
def integerBytes (width : Nat) (value : Int) : Bytes :=
  bytesLE width (value % 256 ^ width).toNat

/-- A length in groups of seven bits, the low group first; all bytes but the last
have their top bit set. -/
def lengthGroups (length : Nat) : Bytes :=
  if length < 128 then [.ofNat length]
  else .ofNat (length % 128 + 128) :: lengthGroups (length / 128)
termination_by length
decreasing_by omega

end Jsonb

/-- A JSON value as the server stores it: every integer with its type, every
container with its size of offsets. -/
inductive Jsonb
  | null
  | boolean (value : Bool)
  | integer (type : Jsonb.IntegerType) (value : Int)
  | string (text : Bytes)
  | array (large : Bool) (elements : List Jsonb)
  | object (large : Bool) (names : List Bytes) (values : List Jsonb)

namespace Jsonb

/-- The type byte. -/
def code : Jsonb → UInt8
  | .null => 4
  | .boolean _ => 4
  | .integer type _ => type.code
  | .string _ => 12
  | .array large _ => if large then 3 else 2
  | .object large _ _ => if large then 1 else 0

/-- The number that stands in a value entry in place of an offset, for values that
fit there. -/
def inlined (large : Bool) : Jsonb → Option Int
  | .null => some 0
  | .boolean value => some (if value then 1 else 2)
  | .integer type value =>
      if type.width = 2 ∨ type.width = 4 ∧ large then some value else none
  | _ => none

/-- The key entries: offset and length of every name. -/
def keyEntries (large : Bool) : Nat → List Bytes → Bytes
  | _, [] => []
  | offset, name :: names =>
      bytesLE (CValue.slot large) offset ++ bytesLE 2 name.length ++
        keyEntries large (offset + name.length) names

mutual

/-- What follows the type byte.  A container has the number of its elements, its
size, its entries, the names, and the values that are not inlined. -/
def payload : Jsonb → Bytes
  | .null => [0]
  | .boolean value => [if value then 1 else 2]
  | .integer type value => integerBytes type.width value
  | .string text => lengthGroups text.length ++ text
  | .array large elements =>
      let slot := CValue.slot large
      let entries := 2 * slot + elements.length * (1 + slot)
      bytesLE slot elements.length ++
        bytesLE slot (entries + (payloads large elements).length) ++
        valueEntries large entries elements ++ payloads large elements
  | .object large names values =>
      let slot := CValue.slot large
      let entries :=
        2 * slot + names.length * (slot + 2) + values.length * (1 + slot)
      bytesLE slot names.length ++
        bytesLE slot
          (entries + names.flatten.length + (payloads large values).length) ++
        keyEntries large entries names ++
        valueEntries large (entries + names.flatten.length) values ++
        names.flatten ++ payloads large values

/-- The values that are not inlined. -/
def payloads (large : Bool) : List Jsonb → Bytes
  | [] => []
  | value :: rest =>
      (match value.inlined large with
        | some _ => []
        | none => payload value) ++ payloads large rest

/-- The value entries: a type and an inlined value or an offset. -/
def valueEntries (large : Bool) : Nat → List Jsonb → Bytes
  | _, [] => []
  | offset, value :: rest =>
      match value.inlined large with
      | some number =>
          value.code :: integerBytes (CValue.slot large) number ++
            valueEntries large offset rest
      | none =>
          value.code :: bytesLE (CValue.slot large) offset ++
            valueEntries large (offset + (payload value).length) rest

end

def encode (tree : Jsonb) : Bytes := tree.code :: tree.payload

/-- Everything fits: integers into their type, lengths and offsets into their
fields.  The names of an object are different ones. -/
inductive WellFormed : Jsonb → Prop
  | null : WellFormed .null
  | boolean (value : Bool) : WellFormed (.boolean value)
  | integer {type : IntegerType} {value : Int} :
      type.InRange value → WellFormed (.integer type value)
  | string {text : Bytes} :
      text.length < 4294967296 → WellFormed (.string text)
  | array {large : Bool} {elements : List Jsonb} :
      (payload (.array large elements)).length < 256 ^ CValue.slot large →
      (∀ element ∈ elements, WellFormed element) →
      WellFormed (.array large elements)
  | object {large : Bool} {names : List Bytes} {values : List Jsonb} :
      names.length = values.length →
      names.Nodup →
      (∀ name ∈ names, name.length < 65536) →
      (payload (.object large names values)).length <
        256 ^ CValue.slot large →
      (∀ value ∈ values, WellFormed value) →
      WellFormed (.object large names values)

/-- A JSON value is the stored one; the order of an object's members is not
compared. -/
inductive Is : JsonValue → Jsonb → Prop
  | null : Is .null .null
  | boolean (value : Bool) : Is (.boolean value) (.boolean value)
  | integer (type : IntegerType) (value : Int) :
      Is (.integer value) (.integer type value)
  | string (text : Bytes) : Is (.string text) (.string text)
  | array {large : Bool} {values : List JsonValue} {elements : List Jsonb} :
      values.length = elements.length →
      (∀ entry ∈ values.zip elements, Is entry.1 entry.2) →
      Is (.array values) (.array large elements)
  | object {large : Bool} {members : List (Bytes × JsonValue)}
      {names : List Bytes} {values : List Jsonb} :
      (members.map Prod.fst).Nodup →
      (∀ name, name ∈ members.map Prod.fst ↔ name ∈ names) →
      (∀ member ∈ members, ∀ entry ∈ names.zip values,
        member.1 = entry.1 → Is member.2 entry.2) →
      Is (.object members) (.object large names values)

/-- The names that are read from the first value entry on, when every value is an
inlined null. -/
def misplaced (large : Bool) (names : List Bytes) : List Bytes :=
  List.splitLengths (names.map List.length)
    ((names.map fun _ => 4 :: integerBytes (CValue.slot large) 0).flatten ++
      names.flatten)

/-- The values that are read back: integers and null; arrays of nulls; objects
with nulls only whose names are the same when they are cut out of the value
entries. -/
def ReadBack : Jsonb → Prop
  | .null => True
  | .boolean _ => False
  | .integer _ _ => True
  | .string _ => False
  | .array _ elements => ∀ element ∈ elements, element = .null
  | .object large names values =>
      names ≠ [] ∧ (∀ value ∈ values, value = .null) ∧
        ∀ name, name ∈ misplaced large names ↔ name ∈ names

/-- Whether `as_json` gives a value back wherever it is stored, whatever the byte
behind it is. -/
def Decodes (tree : Jsonb) : Prop :=
  ∀ (memory : Bytes) (address : Nat) (next : UInt8) (value : CValue),
    Stored memory address (tree.encode ++ [next]) →
    value.storage = some address →
    ∃ json, value.asJson memory = .ok json ∧ Is json tree

end Jsonb

end MysqlSlave
