import MysqlSlave.JsonbRoundTrip
import MysqlSlave.Lib.Yields

/-!
# The bytes of a JSON value and no others

`as_json` has no end pointer.  Here is what its readers look for behind the type
byte, and when all of that lies in the value.
-/

namespace MysqlSlave

open Region Exec

namespace Jsonb

/-- The number that a container begins with. -/
def count (large : Bool) (data : Bytes) : Nat :=
  littleEndian (data.take (CValue.slot large))

/-- The lengths in key entries. -/
def keySizes (large : Bool) : Nat → Bytes → List Nat
  | 0, _ => []
  | todo + 1, entries =>
      littleEndian ((entries.drop (CValue.slot large)).take 2) ::
        keySizes large todo (entries.drop (CValue.slot large + 2))

/-- The bytes of count, size and key entries. -/
def keysStart (large : Bool) (data : Bytes) : Nat :=
  2 * CValue.slot large + count large data * (CValue.slot large + 2)

/-- The lengths of the keys of an object. -/
def sizes (large : Bool) (data : Bytes) : List Nat :=
  keySizes large (count large data) (data.drop (2 * CValue.slot large))

/-- The count of an object and, if it is not zero, its key entries and as many
bytes behind them as the keys are long. -/
def ObjectInside (large : Bool) (data : Bytes) : Prop :=
  CValue.slot large ≤ data.length ∧
    (count large data = 0 ∨
      keysStart large data + (sizes large data).sum ≤ data.length)

/-- The groups in front of a byte 0x80. -/
def groups (data : Bytes) : Bytes := data.takeWhile (· ≠ 128)

/-- The number in groups of seven bits. -/
def groupsValue : Bytes → Nat
  | [] => 0
  | byte :: rest => byte.toNat % 128 + 128 * groupsValue rest

/-- A byte 0x80 among the first five and, behind it, as many bytes as the groups in
front of it say. -/
def StringInside (data : Bytes) : Prop :=
  128 ∈ data.take 5 ∧
    (groups data).length + 1 + groupsValue (groups data) ≤ data.length

/-- What the reader of a type looks for is there. -/
def Inside (type : UInt8) (data : Bytes) : Prop :=
  match type.toNat with
  | 0 => ObjectInside false data
  | 1 => ObjectInside true data
  | 2 => 2 ≤ data.length
  | 3 => 4 ≤ data.length
  | 4 | 5 | 6 => 2 ≤ data.length
  | 7 | 8 => 4 ≤ data.length
  | 9 | 10 | 11 => 8 ≤ data.length
  | 12 => StringInside data
  | _ => True

/-- An object of nulls, or null if it has no members. -/
def nullObject (large : Bool) (data : Bytes) : JsonValue :=
  if count large data = 0 then .null
  else .object (CValue.nullMembers
    ((sizes large data).splitLengths (data.drop (keysStart large data))) [])

/-- A literal, for which two bytes are read. -/
def literal (data : Bytes) : JsonValue :=
  match littleEndian (data.take 2) with
  | 0 => .null
  | 1 => .boolean true
  | 2 => .boolean false
  | _ => .null

def signed (width : Nat) (data : Bytes) : JsonValue :=
  .integer (Int.bmod (littleEndian (data.take width)) (256 ^ width))

def unsigned (width : Nat) (data : Bytes) : JsonValue :=
  .integer (littleEndian (data.take width))

/-- What the readers make of what they look for. -/
def result (type : UInt8) (data : Bytes) : JsonValue :=
  match type.toNat with
  | 0 => nullObject false data
  | 1 => nullObject true data
  | 2 => .array (List.replicate (count false data) .null)
  | 3 => .array (List.replicate (count true data) .null)
  | 4 => literal data
  | 5 => signed 2 data
  | 6 => unsigned 2 data
  | 7 => signed 4 data
  | 8 => unsigned 4 data
  | 9 => signed 8 data
  | 10 => unsigned 8 data
  | 11 => .double (littleEndian (data.take 8))
  | 12 =>
      .string ((data.drop ((groups data).length + 1)).take
        (groupsValue (groups data)))
  | _ => .null

end Jsonb

namespace CValue

variable (memory : Bytes) (pointer : Nat)

theorem slot_pos (large : Bool) : 0 < slot large := by
  cases large <;> decide

theorem readKeyEntries_yields (large : Bool) (todo : Nat) :
    (readKeyEntries memory large todo pointer).Yields
      (todo * (slot large + 2) ≤ (memory.drop pointer).length)
      (Jsonb.keySizes large todo (memory.drop pointer),
        pointer + todo * (slot large + 2)) := by
  induction todo generalizing pointer with
  | zero =>
      rw [Nat.zero_mul]
      exact (Yields.pure _).congr (iff_of_true trivial (Nat.zero_le _))
  | succ todo induction =>
      have offset := readLE_yields memory pointer (slot_pos large)
      have size := readLE_yields memory (pointer + slot large)
        (show 0 < 2 by decide)
      have rest := induction (pointer + slot large + 2)
      refine (offset.bind fun _ => size.bind fun _ => rest.map ?_).congr ?_
      · simp only [Jsonb.keySizes, List.drop_drop, Nat.succ_mul, Nat.add_assoc,
          Nat.add_comm (slot large + 2)]
        rfl
      · simp only [List.length_drop, Nat.succ_mul]
        omega

theorem readKeys_yields (sizes : List Nat) :
    (readKeys memory sizes pointer).Yields
      (sizes.sum ≤ (memory.drop pointer).length)
      (sizes.splitLengths (memory.drop pointer), pointer + sizes.sum) := by
  induction sizes generalizing pointer with
  | nil =>
      refine (Yields.pure _).congr ?_
      simp
  | cons size sizes induction =>
      have key := readBytes_yields memory pointer size
      have rest := induction (pointer + size)
      refine (key.bind fun _ => rest.map ?_).congr ?_
      · simp only [List.splitLengths, List.splitAt_eq, List.drop_drop,
          List.sum_cons, Nat.add_assoc]
        rfl
      · simp only [List.length_drop, List.sum_cons]
        omega

theorem setMembers_null (readType : JsonbReader) (keys : List Bytes) :
    setMembers readType (keys.zip (List.replicate keys.length {})) pointer
        .null =
      .ok (if keys = [] then .null else .object (nullMembers keys []),
        pointer) := by
  cases keys with
  | nil => rfl
  | cons key keys =>
      rw [if_neg (List.cons_ne_nil key keys), List.length_cons,
        List.replicate_succ, List.zip_cons_cons, setMembers]
      simp only [Bool.false_eq_true, if_false, JsonValue.setMember,
        setMembers_default]
      rfl

theorem keySizes_length (large : Bool) (todo : Nat) (entries : Bytes) :
    (Jsonb.keySizes large todo entries).length = todo := by
  induction todo generalizing entries with
  | zero => rfl
  | succ todo induction => rw [Jsonb.keySizes, List.length_cons, induction]

theorem readJsonbArray_yields (readType : JsonbReader) (large : Bool) :
    (readJsonbArray readType memory pointer large).Yields
      (slot large ≤ (memory.drop pointer).length)
      (.array (List.replicate (Jsonb.count large (memory.drop pointer)) .null),
        pointer + 2 * slot large) := by
  refine (readLE_yields memory pointer (slot_pos large)).map ?_
  simp only [appendElements_default, Exec.ok_bind, List.nil_append]
  rfl

theorem sizes_length (large : Bool) (data : Bytes) :
    (Jsonb.sizes large data).length = Jsonb.count large data :=
  keySizes_length large _ _

theorem objectInside_iff (large : Bool) (data : Bytes) :
    (slot large ≤ data.length ∧
        Jsonb.count large data * (slot large + 2) ≤
          (data.drop (2 * slot large)).length ∧
        (Jsonb.sizes large data).sum ≤
          (data.drop (Jsonb.keysStart large data)).length) ↔
      Jsonb.ObjectInside large data := by
  rw [Jsonb.ObjectInside]
  refine and_congr_right fun _ => ?_
  rw [List.length_drop, List.length_drop, Jsonb.keysStart]
  by_cases none : Jsonb.count large data = 0
  · have empty : Jsonb.sizes large data = [] :=
      List.length_eq_zero_iff.mp ((sizes_length large data).trans none)
    simp [none, empty]
  · have entry : slot large + 2 ≤
        Jsonb.count large data * (slot large + 2) :=
      Nat.le_mul_of_pos_left _ (Nat.pos_of_ne_zero none)
    simp only [none, false_or]
    omega

theorem readJsonbObject_yields (readType : JsonbReader) (large : Bool) :
    (readJsonbObject readType memory pointer large).Yields
      (Jsonb.ObjectInside large (memory.drop pointer))
      (Jsonb.nullObject large (memory.drop pointer),
        pointer + Jsonb.keysStart large (memory.drop pointer) +
          (Jsonb.sizes large (memory.drop pointer)).sum) := by
  have nelems := readLE_yields memory pointer (slot_pos large)
  have entries := readKeyEntries_yields memory (pointer + 2 * slot large) large
    (Jsonb.count large (memory.drop pointer))
  have keys := readKeys_yields memory
    (pointer + Jsonb.keysStart large (memory.drop pointer))
    (Jsonb.sizes large (memory.drop pointer))
  rw [← List.drop_drop] at entries keys
  rw [Nat.add_assoc, ← Jsonb.keysStart] at entries
  refine (nelems.bind fun _ => entries.bind fun _ => keys.map ?_).congr
    (objectInside_iff large _)
  generalize memory.drop pointer = data
  have count : ((Jsonb.sizes large data).splitLengths
      (data.drop (Jsonb.keysStart large data))).length =
        Jsonb.count large data := by
    rw [List.length_splitLengths, sizes_length]
  have members := setMembers_null
    (pointer + Jsonb.keysStart large data + (Jsonb.sizes large data).sum)
    readType
    ((Jsonb.sizes large data).splitLengths
      (data.drop (Jsonb.keysStart large data)))
  rw [count] at members
  refine members.trans ?_
  rw [Jsonb.nullObject]
  simp only [← List.length_eq_zero_iff, count]

theorem shiftGroup_low (byte : UInt8) {bits : Nat} (low : bits ≤ 21) :
    shiftGroup byte bits = .ok (byte.toNat % 128 * 2 ^ bits) := by
  have power : 2 ^ bits ≤ 2 ^ 21 := Nat.pow_le_pow_right (by decide) low
  have group : byte.toNat % 128 < 128 := Nat.mod_lt _ (by decide)
  have product : byte.toNat % 128 * 2 ^ bits ≤ 127 * 2 ^ 21 :=
    Nat.mul_le_mul (by omega) power
  exact if_pos ⟨by omega, by omega⟩

theorem shiftGroup_end {bits : Nat} (small : bits < 32) :
    shiftGroup 128 bits = .ok 0 := by
  simp [shiftGroup, small]

theorem shiftGroup_wide (byte : UInt8) {bits : Nat} (wide : 32 ≤ bits) :
    shiftGroup byte bits = .error .badShift :=
  if_neg (by omega)

theorem readByte_of_drop {memory rest : Bytes} {pointer : Nat} {byte : UInt8}
    (here : memory.drop pointer = byte :: rest) :
    readByte memory pointer = .ok byte ∧ memory.drop (pointer + 1) = rest := by
  obtain ⟨byte, behind⟩ := getElem?_of_drop here
  exact ⟨by rw [readByte, byte], behind⟩

theorem groups_end (rest : Bytes) : Jsonb.groups (128 :: rest) = [] := by
  simp [Jsonb.groups]

theorem groups_cons {byte : UInt8} (rest : Bytes) (more : byte ≠ 128) :
    Jsonb.groups (byte :: rest) = byte :: Jsonb.groups rest := by
  simp [Jsonb.groups, more]

theorem readJsonbLength_wide {bits : Nat} (before : Nat) (wide : 32 ≤ bits) :
    ∃ fault, readJsonbLength memory 1 pointer bits before = .error fault := by
  rw [readJsonbLength]
  cases readByte memory pointer with
  | error fault => exact ⟨fault, rfl⟩
  | ok byte =>
      rw [Exec.ok_bind, shiftGroup_wide byte wide]
      exact ⟨_, rfl⟩

/-- The length loop ends at a byte 0x80 in one of the rounds whose shifts are
narrower than an `int`. -/
theorem readJsonbLength_yields {n bits before : Nat}
    (rounds : bits + 7 * n = 35) (low : before < 2 ^ bits) :
    (readJsonbLength memory (n + 1) pointer bits before).Yields
      (128 ∈ (memory.drop pointer).take n)
      (before + Jsonb.groupsValue (Jsonb.groups (memory.drop pointer)) *
          2 ^ bits,
        pointer + (Jsonb.groups (memory.drop pointer)).length + 1) := by
  induction n generalizing pointer bits before with
  | zero =>
      exact ⟨fun impossible => by simp at impossible, fun _ =>
        readJsonbLength_wide memory pointer before (by omega)⟩
  | succ n induction =>
      rw [readJsonbLength]
      cases here : memory.drop pointer with
      | nil =>
          have outside : memory.length ≤ pointer :=
            List.drop_eq_nil_iff.mp here
          rw [readByte_eq_error outside]
          exact (Yields.fault _ _).congr (by simp)
      | cons byte rest =>
          obtain ⟨read, behind⟩ := readByte_of_drop here
          rw [read, Exec.ok_bind]
          by_cases last : byte = 128
          · have found : True ↔ 128 ∈ (byte :: rest).take (n + 1) := by
              simp [last]
            rw [last, shiftGroup_end (by omega), Exec.ok_bind,
              if_neg (by simp), groups_end, Nat.or_zero, Jsonb.groupsValue,
              Nat.zero_mul]
            exact (Yields.pure _).congr (last ▸ found)
          · have condition : 128 ∈ (byte :: rest).take (n + 1) ↔
                128 ∈ rest.take n := by
              simp [Ne.symm last]
            refine Yields.congr ?_ condition.symm
            by_cases wide : bits ≤ 21
            · have room : before + byte.toNat % 128 * 2 ^ bits <
                  2 ^ (bits + 7) := by
                have few : byte.toNat % 128 + 1 ≤ 128 :=
                  Nat.mod_lt _ (by decide)
                have scaled := Nat.mul_le_mul_right (2 ^ bits) few
                rw [Nat.add_mul, Nat.one_mul] at scaled
                rw [Nat.pow_add]
                omega
              have later := induction (pointer + 1)
                (show bits + 7 + 7 * n = 35 by omega) room
              have value : before + Jsonb.groupsValue
                    (Jsonb.groups (byte :: rest)) * 2 ^ bits =
                  before + byte.toNat % 128 * 2 ^ bits +
                    Jsonb.groupsValue (Jsonb.groups rest) * 2 ^ (bits + 7) := by
                rw [groups_cons rest last, Jsonb.groupsValue, Nat.pow_add]
                ring
              have place : pointer + (Jsonb.groups (byte :: rest)).length =
                  pointer + 1 + (Jsonb.groups rest).length := by
                rw [groups_cons rest last, List.length_cons]
                omega
              rw [behind] at later
              rw [shiftGroup_low byte wide, Exec.ok_bind, if_pos last,
                or_shifted low, value, place]
              exact later
            · -- the fifth group has to be the end
              have none : n = 0 := by omega
              subst none
              refine ⟨fun impossible => by simp at impossible, fun _ => ?_⟩
              cases shiftGroup byte bits with
              | error fault => exact ⟨fault, rfl⟩
              | ok group =>
                  rw [Exec.ok_bind, if_pos last]
                  exact readJsonbLength_wide memory _ _ (by omega)

theorem groups_length_lt {data : Bytes} (ends : 128 ∈ data) :
    (Jsonb.groups data).length < data.length := by
  induction data with
  | nil => simp at ends
  | cons byte rest induction =>
      by_cases last : byte = 128
      · rw [last, groups_end]
        exact Nat.succ_pos _
      · rw [groups_cons rest last, List.length_cons, List.length_cons]
        have later : 128 ∈ rest := by
          rcases List.mem_cons.mp ends with here | later
          · exact absurd here.symm last
          · exact later
        exact Nat.succ_lt_succ (induction later)

theorem stringInside_iff (data : Bytes) :
    (128 ∈ data.take 5 ∧
        Jsonb.groupsValue (Jsonb.groups data) ≤
          (data.drop ((Jsonb.groups data).length + 1)).length) ↔
      Jsonb.StringInside data := by
  rw [Jsonb.StringInside]
  refine and_congr_right fun found => ?_
  have inside := groups_length_lt (List.mem_of_mem_take found)
  rw [List.length_drop]
  omega

theorem readJsonbString_yields :
    (readJsonbString memory pointer).Yields
      (Jsonb.StringInside (memory.drop pointer))
      (.string (((memory.drop pointer).drop
          ((Jsonb.groups (memory.drop pointer)).length + 1)).take
            (Jsonb.groupsValue (Jsonb.groups (memory.drop pointer)))),
        pointer + (Jsonb.groups (memory.drop pointer)).length + 1 +
          Jsonb.groupsValue (Jsonb.groups (memory.drop pointer))) := by
  have length := readJsonbLength_yields memory pointer
    (show 0 + 7 * 5 = 35 by rfl) Nat.zero_lt_one
  rw [Nat.zero_add, Nat.pow_zero, Nat.mul_one] at length
  have text := readBytes_yields memory
    (pointer + (Jsonb.groups (memory.drop pointer)).length + 1)
    (Jsonb.groupsValue (Jsonb.groups (memory.drop pointer)))
  rw [Nat.add_assoc, ← List.drop_drop, ← Nat.add_assoc] at text
  refine (length.bind fun _ => ?_).congr (stringInside_iff _)
  exact text.map rfl

theorem readSigned_yields {width : Nat} (wide : 0 < width) :
    (readSigned memory pointer width).Yields
      (width ≤ (memory.drop pointer).length)
      (Int.bmod (littleEndian ((memory.drop pointer).take width))
        (256 ^ width)) :=
  (readLE_yields memory pointer wide).map rfl

theorem readLiteral_yields :
    (readLiteral memory pointer).Yields (2 ≤ (memory.drop pointer).length)
      (Jsonb.literal (memory.drop pointer), pointer + 2) :=
  (readLE_yields memory pointer (by decide)).map rfl

/-- Every reader finds what it looks for, or faults. -/
theorem readJsonbType_yields (depth : Nat) (type : UInt8) :
    ∃ final, (readJsonbType memory (depth + 1) type pointer).Yields
      (Jsonb.Inside type (memory.drop pointer))
      (Jsonb.result type (memory.drop pointer), final) := by
  have two := readLE_yields memory pointer (show 0 < 2 by decide)
  have four := readLE_yields memory pointer (show 0 < 4 by decide)
  have eight := readLE_yields memory pointer (show 0 < 8 by decide)
  have signedTwo := readSigned_yields memory pointer (show 0 < 2 by decide)
  have signedFour := readSigned_yields memory pointer (show 0 < 4 by decide)
  have signedEight := readSigned_yields memory pointer (show 0 < 8 by decide)
  unfold readJsonbType Jsonb.Inside Jsonb.result
  generalize type.toNat = code
  rcases code with _ | _ | _ | _ | _ | _ | _ | _ | _ | _ | _ | _ | _ | code
  · exact ⟨_, readJsonbObject_yields ..⟩
  · exact ⟨_, readJsonbObject_yields ..⟩
  · exact ⟨_, readJsonbArray_yields ..⟩
  · exact ⟨_, readJsonbArray_yields ..⟩
  · exact ⟨_, readLiteral_yields ..⟩
  · exact ⟨_, signedTwo.map rfl⟩
  · exact ⟨_, two.map rfl⟩
  · exact ⟨_, signedFour.map rfl⟩
  · exact ⟨_, four.map rfl⟩
  · exact ⟨_, signedEight.map rfl⟩
  · exact ⟨_, eight.map rfl⟩
  · exact ⟨_, eight.map rfl⟩
  · exact ⟨_, readJsonbString_yields ..⟩
  · exact ⟨_, Yields.pure _⟩

theorem asJson_yields {value : CValue} {front data : Bytes} {type : UInt8}
    (storage : value.storage = some front.length) :
    (value.asJson (front ++ type :: data)).Yields (Jsonb.Inside type data)
      (Jsonb.result type data) := by
  have drop : (front ++ type :: data).drop (front.length + 1) = data := by
    simp
  have read : readByte (front ++ type :: data) front.length = .ok type := by
    simp [readByte]
  obtain ⟨final, yields⟩ := readJsonbType_yields (front ++ type :: data)
    (front.length + 1) (front ++ type :: data).length type
  rw [drop] at yields
  rw [asJson, pointer, storage, Exec.ok_bind, read, Exec.ok_bind]
  exact yields.map rfl

theorem asJson_empty {value : CValue} {front : Bytes}
    (storage : value.storage = some front.length) :
    value.asJson (front ++ []) = .error .outOfBounds := by
  have read : readByte (front ++ []) front.length = .error .outOfBounds :=
    readByte_eq_error (by simp)
  rw [asJson, pointer, storage, Exec.ok_bind, read]
  rfl

end CValue

end MysqlSlave
