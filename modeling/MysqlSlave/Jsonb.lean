import MysqlSlave.Temporal

/-!
# JSON values

`as_json` and the `_read_jsonb_*` functions.  Every reader has a cursor, which
stands in front of what is to be read and is handed on behind it.
-/

namespace MysqlSlave

open Region

/-- `Json::Value`; signed and unsigned integers of the same value are one, and a
double is its eight bytes as a number. -/
inductive JsonValue
  | null
  | boolean (value : Bool)
  | integer (value : Int)
  | double (bits : Nat)
  | string (text : Bytes)
  | array (elements : List JsonValue)
  | object (members : List (Bytes × JsonValue))

namespace JsonValue

def assign (name : Bytes) (json : JsonValue) :
    List (Bytes × JsonValue) → List (Bytes × JsonValue)
  | [] => [(name, json)]
  | member :: rest =>
      if member.1 = name then (name, json) :: rest
      else member :: assign name json rest

/-- `value[name] = json`, which makes an object of a null value. -/
def setMember (value : JsonValue) (name : Bytes) (json : JsonValue) :
    JsonValue :=
  match value with
  | .null => .object [(name, json)]
  | .object members => .object (assign name json members)
  | other => other

end JsonValue

/-- `struct ValueOrOffset`, as a new vector element has it. -/
structure ValueOrOffset where
  type : UInt8 := 0
  isOffset : Bool := false
  jsonValue : JsonValue := .null

namespace CValue

/-- What reads a value of a given type from a cursor on. -/
abbrev JsonbReader := UInt8 → Nat → Exec (JsonValue × Nat)

def readSigned (memory : Bytes) (pointer width : Nat) : Exec Int := do
  let value ← readLE memory pointer width
  return Int.bmod value (256 ^ width)

/-- A literal, for which two bytes are read. -/
def readLiteral (memory : Bytes) (pointer : Nat) : Exec (JsonValue × Nat) := do
  let literal ← readLE memory pointer 2
  let json : JsonValue :=
    match literal with
    | 0 => .null
    | 1 => .boolean true
    | 2 => .boolean false
    | _ => .null
  return (json, pointer + 2)

/-- `(*p & 0x7f) << bits_read` on an `int`, without a result where the language
gives it none. -/
def shiftGroup (byte : UInt8) (bitsRead : Nat) : Exec Nat :=
  let shifted := byte.toNat % 128 * 2 ^ bitsRead
  if bitsRead < 32 ∧ shifted < 2147483648 then .ok shifted
  else .error .badShift

/-- The loop of `_read_jsonb_string`; the sixth round has no shift it could do. -/
def readJsonbLength (memory : Bytes) :
    Nat → Nat → Nat → Nat → Exec (Nat × Nat)
  | 0, _, _, _ => .error .divergence
  | rounds + 1, pointer, bitsRead, length => do
      let byte ← readByte memory pointer
      let group ← shiftGroup byte bitsRead
      if byte ≠ 128 then
        readJsonbLength memory rounds (pointer + 1) (bitsRead + 7)
          (length ||| group)
      else return (length ||| group, pointer + 1)

/-- `_read_jsonb_string`. -/
def readJsonbString (memory : Bytes) (pointer : Nat) :
    Exec (JsonValue × Nat) := do
  let (length, pointer) ← readJsonbLength memory 6 pointer 0 0
  let text ← readBytes memory pointer length
  return (.string text, pointer + length)

/-- The width of counts, sizes and offsets. -/
def slot (large : Bool) : Nat := if large then 4 else 2

/-- The loop of `_read_jsonb_array` that appends the elements. -/
def appendElements (readType : JsonbReader) :
    List ValueOrOffset → Nat → List JsonValue → Exec (List JsonValue × Nat)
  | [], pointer, elements => .ok (elements, pointer)
  | v :: rest, pointer, elements =>
      if v.isOffset then do
        let (json, pointer) ← readType v.type pointer
        appendElements readType rest pointer (elements ++ [json])
      else appendElements readType rest pointer (elements ++ [v.jsonValue])

/-- `_read_jsonb_array`.  The call that would read the value entries is commented
out, so that the vector keeps its initial elements. -/
def readJsonbArray (readType : JsonbReader) (memory : Bytes) (pointer : Nat)
    (large : Bool) : Exec (JsonValue × Nat) := do
  let nelems ← readLE memory pointer (slot large)
  let valuesOrOffsets : List ValueOrOffset := List.replicate nelems {}
  let (elements, pointer) ←
    appendElements readType valuesOrOffsets (pointer + 2 * slot large) []
  return (.array elements, pointer)

/-- The loop over the key entries; of each the size is kept. -/
def readKeyEntries (memory : Bytes) (large : Bool) :
    Nat → Nat → Exec (List Nat × Nat)
  | 0, pointer => .ok ([], pointer)
  | nelems + 1, pointer => do
      let _offset ← readLE memory pointer (slot large)
      let size ← readLE memory (pointer + slot large) 2
      let (sizes, pointer) ←
        readKeyEntries memory large nelems (pointer + slot large + 2)
      return (size :: sizes, pointer)

/-- The loop over the keys. -/
def readKeys (memory : Bytes) : List Nat → Nat → Exec (List Bytes × Nat)
  | [], pointer => .ok ([], pointer)
  | size :: sizes, pointer => do
      let key ← readBytes memory pointer size
      let (keys, pointer) ← readKeys memory sizes (pointer + size)
      return (key :: keys, pointer)

/-- The loop of `_read_jsonb_object` that sets the members. -/
def setMembers (readType : JsonbReader) :
    List (Bytes × ValueOrOffset) → Nat → JsonValue → Exec (JsonValue × Nat)
  | [], pointer, value => .ok (value, pointer)
  | (key, v) :: rest, pointer, value =>
      if v.isOffset then do
        let (json, pointer) ← readType v.type pointer
        setMembers readType rest pointer (value.setMember key json)
      else setMembers readType rest pointer (value.setMember key v.jsonValue)

/-- `_read_jsonb_object`; the value entries are not read here either. -/
def readJsonbObject (readType : JsonbReader) (memory : Bytes) (pointer : Nat)
    (large : Bool) : Exec (JsonValue × Nat) := do
  let nelems ← readLE memory pointer (slot large)
  let (sizes, pointer) ←
    readKeyEntries memory large nelems (pointer + 2 * slot large)
  let valuesOrOffsets : List ValueOrOffset := List.replicate nelems {}
  let (keys, pointer) ← readKeys memory sizes pointer
  setMembers readType (keys.zip valuesOrOffsets) pointer .null

/-- `_read_jsonb_type`, for nesting to a given depth. -/
def readJsonbType (memory : Bytes) : Nat → JsonbReader
  | 0, _, _ => .error .divergence
  | depth + 1, type, pointer =>
      match type.toNat with
      | 0 => readJsonbObject (readJsonbType memory depth) memory pointer false
      | 1 => readJsonbObject (readJsonbType memory depth) memory pointer true
      | 2 => readJsonbArray (readJsonbType memory depth) memory pointer false
      | 3 => readJsonbArray (readJsonbType memory depth) memory pointer true
      | 4 => readLiteral memory pointer
      | 5 => do return (.integer (← readSigned memory pointer 2), pointer + 2)
      | 6 => do return (.integer (← readLE memory pointer 2), pointer + 2)
      | 7 => do return (.integer (← readSigned memory pointer 4), pointer + 4)
      | 8 => do return (.integer (← readLE memory pointer 4), pointer + 4)
      | 9 => do return (.integer (← readSigned memory pointer 8), pointer + 8)
      | 10 => do return (.integer (← readLE memory pointer 8), pointer + 8)
      | 11 => do return (.double (← readLE memory pointer 8), pointer + 8)
      | 12 => readJsonbString memory pointer
      | _ => .ok (.null, pointer)

/-- `as_json`.  A nested value takes at least one byte, so that the nesting is no
deeper than the memory is long. -/
def asJson (self : CValue) (memory : Bytes) : Exec JsonValue := do
  let storage ← self.pointer
  let type ← readByte memory storage
  let (json, _) ← readJsonbType memory (memory.length + 1) type (storage + 1)
  return json

end CValue

end MysqlSlave
