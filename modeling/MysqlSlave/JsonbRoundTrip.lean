import MysqlSlave.JsonbFormat

/-!
# Decoding JSON values

Which stored JSON values `as_json` gives back.  The readers of containers never
read a value entry, and the reader of strings looks for another end of the length
than the format has.
-/

namespace MysqlSlave

open Region

namespace CValue

theorem asJson_of_stored {value : CValue} {memory rest : Bytes} {type : UInt8}
    {address : Nat} (stored : Stored memory address (type :: rest))
    (storage : value.storage = some address) :
    value.asJson memory =
      (readJsonbType memory (memory.length + 1) type (address + 1)).map
        Prod.fst := by
  rw [asJson, pointer, storage]
  simp only [Exec.ok_bind, readByte_of_stored stored]
  cases readJsonbType memory (memory.length + 1) type (address + 1) with
  | error fault => rfl
  | ok result => rfl

theorem appendElements_default (readType : JsonbReader) (count pointer : Nat)
    (elements : List JsonValue) :
    appendElements readType (List.replicate count {}) pointer elements =
      .ok (elements ++ List.replicate count .null, pointer) := by
  induction count generalizing elements with
  | zero => simp [appendElements]
  | succ count induction =>
      rw [List.replicate_succ, appendElements]
      simp only [Bool.false_eq_true, if_false, induction]
      rw [List.append_assoc, List.replicate_succ]
      rfl

/-- Setting members to null, one after the other. -/
def nullMembers (keys : List Bytes) (members : List (Bytes × JsonValue)) :
    List (Bytes × JsonValue) :=
  keys.foldl (fun members key => JsonValue.assign key .null members) members

theorem setMembers_default (readType : JsonbReader) (keys : List Bytes)
    (pointer : Nat) (members : List (Bytes × JsonValue)) :
    setMembers readType (keys.zip (List.replicate keys.length {})) pointer
        (.object members) =
      .ok (.object (nullMembers keys members), pointer) := by
  induction keys generalizing members with
  | nil => rfl
  | cons key keys induction =>
      rw [List.length_cons, List.replicate_succ, List.zip_cons_cons,
        setMembers]
      simp only [Bool.false_eq_true, if_false, JsonValue.setMember, induction]
      rfl

theorem assign_names (key : Bytes) (json : JsonValue)
    (members : List (Bytes × JsonValue)) :
    (JsonValue.assign key json members).map Prod.fst =
      if key ∈ members.map Prod.fst then members.map Prod.fst
      else members.map Prod.fst ++ [key] := by
  induction members with
  | nil => rfl
  | cons member rest induction =>
      by_cases same : member.1 = key
      · simp [JsonValue.assign, same]
      · have different : ¬key = member.1 := fun equal => same equal.symm
        simp only [JsonValue.assign, if_neg same, List.map_cons, induction,
          List.mem_cons, different, false_or]
        split
        · rfl
        · rfl

theorem assign_null {key : Bytes} {members : List (Bytes × JsonValue)}
    (nulls : ∀ member ∈ members, member.2 = .null) :
    ∀ member ∈ JsonValue.assign key .null members, member.2 = .null := by
  induction members with
  | nil =>
      intro member inside
      rw [List.mem_singleton.mp inside]
  | cons first rest induction =>
      have later : ∀ member ∈ rest, member.2 = .null := by
        intro member inside
        exact nulls member (List.mem_cons_of_mem first inside)
      intro member inside
      rw [JsonValue.assign] at inside
      split at inside
      · rcases List.mem_cons.mp inside with assigned | other
        · rw [assigned]
        · exact later member other
      · rcases List.mem_cons.mp inside with same | other
        · rw [same]
          exact nulls first List.mem_cons_self
        · exact induction later member other

/-- The object that setting members to null gives: the names that were there or
are set, once each, and null values only. -/
theorem nullMembers_spec (keys : List Bytes)
    {members : List (Bytes × JsonValue)}
    (distinct : (members.map Prod.fst).Nodup)
    (nulls : ∀ member ∈ members, member.2 = .null) :
    ((nullMembers keys members).map Prod.fst).Nodup ∧
      (∀ name, name ∈ (nullMembers keys members).map Prod.fst ↔
        name ∈ members.map Prod.fst ∨ name ∈ keys) ∧
      ∀ member ∈ nullMembers keys members, member.2 = .null := by
  induction keys generalizing members with
  | nil =>
      refine ⟨distinct, ?_, nulls⟩
      intro name
      simp [nullMembers]
  | cons key keys induction =>
      have names := assign_names key .null members
      have distinct' :
          ((JsonValue.assign key .null members).map Prod.fst).Nodup := by
        rw [names]
        split
        · exact distinct
        · rename_i fresh
          rw [List.nodup_append]
          refine ⟨distinct, by simp, ?_⟩
          intro name inside other last same
          rw [same, List.mem_singleton.mp last] at inside
          exact fresh inside
      obtain ⟨nodup, mem, null⟩ := induction distinct' (assign_null nulls)
      refine ⟨nodup, ?_, null⟩
      intro name
      have set : name ∈ (JsonValue.assign key .null members).map Prod.fst ↔
          name ∈ members.map Prod.fst ∨ name = key := by
        rw [names]
        split
        · rename_i present
          constructor
          · exact Or.inl
          · intro either
            rcases either with inside | same
            · exact inside
            · rw [same]
              exact present
        · rw [List.mem_append, List.mem_singleton]
      have unfolded : nullMembers (key :: keys) members =
          nullMembers keys (JsonValue.assign key .null members) := rfl
      rw [unfolded, mem name, set, List.mem_cons, or_assoc]

theorem readKeys_of_stored {memory bytes : Bytes} {sizes : List Nat}
    {address : Nat} (stored : Stored memory address bytes)
    (enough : sizes.sum ≤ bytes.length) :
    readKeys memory sizes address =
      .ok (sizes.splitLengths bytes, address + sizes.sum) := by
  induction sizes generalizing bytes address with
  | nil => simp [readKeys]
  | cons size sizes induction =>
      rw [List.sum_cons] at enough
      have split : bytes = bytes.take size ++ bytes.drop size :=
        (List.take_append_drop size bytes).symm
      have length : (bytes.take size).length = size := by
        rw [List.length_take]
        omega
      rw [split] at stored
      have first := readBytes_of_stored stored.left
      have rest := stored.right
      rw [length] at first rest
      have later := induction rest (by rw [List.length_drop]; omega)
      simp only [readKeys, first, later, Exec.ok_bind]
      rw [List.sum_cons, ← Nat.add_assoc, List.splitLengths,
        List.splitAt_eq]
      rfl

theorem readKeyEntries_of_stored {memory rest : Bytes} {large : Bool}
    {names : List Bytes} {offset address : Nat}
    (short : ∀ name ∈ names, name.length < 65536)
    (stored : Stored memory address
      (Jsonb.keyEntries large offset names ++ rest)) :
    readKeyEntries memory large names.length address =
      .ok (names.map List.length,
        address + (Jsonb.keyEntries large offset names).length) := by
  induction names generalizing offset address with
  | nil => rfl
  | cons name names induction =>
      have small := short name List.mem_cons_self
      have later : ∀ other ∈ names, other.length < 65536 := by
        intro other member
        exact short other (List.mem_cons_of_mem name member)
      rw [Jsonb.keyEntries, List.append_assoc, List.append_assoc] at stored
      have position := readLE_of_stored stored.left
      have size := readLE_of_stored stored.right.left
      have rest := induction later stored.right.right
      rw [littleEndian_bytesLE_of_lt small] at size
      simp only [bytesLE_length] at position size rest
      simp only [List.length_cons, readKeyEntries, position, size, rest,
        Exec.ok_bind, Jsonb.keyEntries, List.length_append, bytesLE_length,
        List.map_cons]
      rw [← Nat.add_assoc, ← Nat.add_assoc]
      rfl

theorem readJsonbArray_of_stored {memory rest : Bytes} {large : Bool}
    {count address : Nat} (readType : JsonbReader)
    (small : count < 256 ^ slot large)
    (stored : Stored memory address (bytesLE (slot large) count ++ rest)) :
    readJsonbArray readType memory address large =
      .ok (.array (List.replicate count .null), address + 2 * slot large) := by
  have nelems := readLE_of_stored stored.left
  rw [bytesLE_length, littleEndian_bytesLE_of_lt small] at nelems
  simp only [readJsonbArray, nelems, Exec.ok_bind, appendElements_default,
    List.nil_append]
  rfl

/-- An object is read as an object of nulls; what follows the key entries is cut
into names. -/
theorem readJsonbObject_of_stored {memory rest : Bytes} {large : Bool}
    {names : List Bytes} {size offset address : Nat} (readType : JsonbReader)
    (short : ∀ name ∈ names, name.length < 65536)
    (small : names.length < 256 ^ slot large)
    (enough : (names.map List.length).sum ≤ rest.length)
    (stored : Stored memory address
      (bytesLE (slot large) names.length ++
        (bytesLE (slot large) size ++
          (Jsonb.keyEntries large offset names ++ rest)))) :
    ∃ pointer,
      readJsonbObject readType memory address large =
        .ok (if names = [] then .null
          else .object (nullMembers
            ((names.map List.length).splitLengths rest) []), pointer) := by
  have nelems := readLE_of_stored stored.left
  rw [bytesLE_length, littleEndian_bytesLE_of_lt small] at nelems
  have entriesStored := stored.right.right
  have start : address + (bytesLE (slot large) names.length).length +
      (bytesLE (slot large) size).length = address + 2 * slot large := by
    simp only [bytesLE_length]
    omega
  rw [start] at entriesStored
  have entries := readKeyEntries_of_stored short entriesStored
  have keys := readKeys_of_stored entriesStored.right enough
  have count : ((names.map List.length).splitLengths rest).length =
      names.length := by
    rw [List.length_splitLengths, List.length_map]
  simp only [readJsonbObject, nelems, Exec.ok_bind, entries, keys]
  cases names with
  | nil => exact ⟨_, rfl⟩
  | cons name names =>
      rw [if_neg (List.cons_ne_nil name names)]
      cases found : ((name :: names).map List.length).splitLengths rest with
      | nil =>
          rw [found] at count
          cases count
      | cons key keys =>
          rw [found] at count
          have same : names.length = keys.length := by
            simpa using count.symm
          refine ⟨address + 2 * slot large +
            (Jsonb.keyEntries large offset (name :: names)).length +
              ((name :: names).map List.length).sum, ?_⟩
          simp only [List.length_cons, same, List.replicate_succ,
            List.zip_cons_cons, setMembers, Bool.false_eq_true, if_false,
            JsonValue.setMember, setMembers_default]
          rfl

theorem readSigned_of_stored {memory : Bytes} {pointer width : Nat}
    {value : Int}
    (low : -256 ^ width ≤ 2 * value) (high : 2 * value < 256 ^ width)
    (stored : Stored memory pointer (Jsonb.integerBytes width value)) :
    readSigned memory pointer width = .ok value := by
  have read := readLE_of_stored stored
  have positive : (0 : Int) < 256 ^ width := by positivity
  have nonneg := Int.emod_nonneg value positive.ne'
  have below := Int.emod_lt_of_pos value positive
  have small : (value % 256 ^ width).toNat < 256 ^ width := by
    zify
    rwa [Int.toNat_of_nonneg nonneg]
  have power : ((256 ^ width : Nat) : Int) = 256 ^ width := by push_cast; rfl
  rw [Jsonb.integerBytes, bytesLE_length,
    littleEndian_bytesLE_of_lt small] at read
  rw [readSigned, read, Exec.ok_bind, Int.toNat_of_nonneg nonneg, ← power,
    Int.emod_bmod, Int.bmod_eq_of_le_mul_two]
  · rfl
  · rw [power]
    linarith
  · rw [power]
    linarith

theorem readLE_of_integerBytes {memory : Bytes} {pointer width : Nat}
    {value : Int} (low : 0 ≤ value) (high : value < 256 ^ width)
    (stored : Stored memory pointer (Jsonb.integerBytes width value)) :
    readLE memory pointer width = .ok value.toNat := by
  have read := readLE_of_stored stored
  have same : value % 256 ^ width = value := Int.emod_eq_of_lt low high
  have small : value.toNat < 256 ^ width := by
    zify
    rwa [Int.toNat_of_nonneg low]
  rwa [Jsonb.integerBytes, bytesLE_length, same,
    littleEndian_bytesLE_of_lt small] at read

theorem readJsonbType_signed {memory : Bytes} {pointer depth : Nat}
    {type : Jsonb.IntegerType} {value : Int} (signed : type.isSigned = true)
    (read : readSigned memory pointer type.width = .ok value) :
    readJsonbType memory (depth + 1) type.code pointer =
      .ok (.integer value, pointer + type.width) := by
  cases type with
  | int16 => exact Exec.bind_eq_ok.mpr ⟨value, read, rfl⟩
  | int32 => exact Exec.bind_eq_ok.mpr ⟨value, read, rfl⟩
  | int64 => exact Exec.bind_eq_ok.mpr ⟨value, read, rfl⟩
  | uint16 => cases signed
  | uint32 => cases signed
  | uint64 => cases signed

theorem readJsonbType_unsigned {memory : Bytes} {pointer depth number : Nat}
    {type : Jsonb.IntegerType} (unsigned : type.isSigned = false)
    (read : readLE memory pointer type.width = .ok number) :
    readJsonbType memory (depth + 1) type.code pointer =
      .ok (.integer number, pointer + type.width) := by
  cases type with
  | int16 => cases unsigned
  | int32 => cases unsigned
  | int64 => cases unsigned
  | uint16 => exact Exec.bind_eq_ok.mpr ⟨number, read, rfl⟩
  | uint32 => exact Exec.bind_eq_ok.mpr ⟨number, read, rfl⟩
  | uint64 => exact Exec.bind_eq_ok.mpr ⟨number, read, rfl⟩

theorem readJsonbType_integer {memory : Bytes} {pointer depth : Nat}
    {type : Jsonb.IntegerType} {value : Int} (inRange : type.InRange value)
    (stored : Stored memory pointer (Jsonb.integerBytes type.width value)) :
    readJsonbType memory (depth + 1) type.code pointer =
      .ok (.integer value, pointer + type.width) := by
  unfold Jsonb.IntegerType.InRange at inRange
  split at inRange
  case isTrue signed =>
    exact readJsonbType_signed signed
      (readSigned_of_stored inRange.1 inRange.2 stored)
  case isFalse unsigned =>
    have read := @readJsonbType_unsigned memory pointer depth _ _
      (Bool.eq_false_iff.mpr unsigned)
      (readLE_of_integerBytes inRange.1 inRange.2 stored)
    rwa [Int.toNat_of_nonneg inRange.1] at read

theorem readLiteral_of_stored {memory : Bytes} {pointer : Nat}
    {literal next : UInt8}
    (stored : Stored memory pointer [literal, next]) :
    ∃ json, readLiteral memory pointer = .ok (json, pointer + 2) ∧
      (next ≠ 0 → json = .null) ∧ (literal = 0 → json = .null) := by
  have read := readLE_of_stored stored
  simp only [List.length_cons, List.length_nil, littleEndian_cons,
    littleEndian_nil] at read
  rw [readLiteral, read]
  refine ⟨_, rfl, ?_, ?_⟩
  · intro high
    have positive : next.toNat ≠ 0 := by
      intro zero
      exact high (UInt8.toNat_inj.mp zero)
    split
    · rfl
    · omega
    · omega
    · rfl
  · intro zero
    rw [zero]
    split
    · rfl
    · rename_i one
      have even : (0 : UInt8).toNat = 0 := rfl
      omega
    · rename_i two
      have even : (0 : UInt8).toNat = 0 := rfl
      omega
    · rfl

/-- The length loop reads on to a byte 0x80. -/
theorem readJsonbLength_end {memory : Bytes} {rounds pointer bits before : Nat}
    {length final : Nat}
    (read : readJsonbLength memory rounds pointer bits before =
      .ok (length, final)) :
    pointer < final ∧ readByte memory (final - 1) = .ok 128 := by
  induction rounds generalizing pointer bits before with
  | zero => cases read
  | succ rounds induction =>
      obtain ⟨byte, first, later⟩ := Exec.bind_eq_ok.mp read
      obtain ⟨group, _, last⟩ := Exec.bind_eq_ok.mp later
      split at last
      · obtain ⟨above, found⟩ := induction last
        exact ⟨by omega, found⟩
      · rename_i final'
        cases last
        have eighty : byte = 128 := by
          by_contra other
          exact final' other
        rw [eighty] at first
        exact ⟨Nat.lt_succ_self pointer, first⟩

theorem or_shifted {length bits group : Nat} (low : length < 2 ^ bits) :
    length ||| group * 2 ^ bits = length + group * 2 ^ bits := by
  rw [Nat.or_comm, Nat.mul_comm, ← Nat.two_pow_add_eq_or_of_lt low, Nat.add_comm]

theorem shiftGroup_eq_ok {byte : UInt8} {bits group : Nat}
    (shifted : shiftGroup byte bits = .ok group) :
    group = byte.toNat % 128 * 2 ^ bits := by
  rw [shiftGroup] at shifted
  split at shifted
  · cases shifted
    rfl
  · cases shifted

/-- In front of the text the length loop stops too early, with too small a
length, or gets to the text. -/
theorem readJsonbLength_groups {memory rest : Bytes} {rounds pointer bits : Nat}
    {before count length final : Nat} (low : before < 2 ^ bits)
    (stored : Stored memory pointer (Jsonb.lengthGroups count ++ rest))
    (read : readJsonbLength memory rounds pointer bits before =
      .ok (length, final)) :
    length < before + count * 2 ^ bits ∨
      pointer + (Jsonb.lengthGroups count).length < final := by
  induction rounds generalizing pointer bits before count with
  | zero => cases read
  | succ rounds induction =>
      obtain ⟨byte, first, later⟩ := Exec.bind_eq_ok.mp read
      obtain ⟨group, shifted, last⟩ := Exec.bind_eq_ok.mp later
      have group_eq := shiftGroup_eq_ok shifted
      rw [Jsonb.lengthGroups] at stored ⊢
      by_cases short : count < 128
      · -- the only group: it is not 0x80, so that the loop goes on
        rw [if_pos short] at stored ⊢
        have byte_eq : byte = .ofNat count := by
          have found := readByte_of_stored stored
          rw [first] at found
          exact Except.ok.inj found
        have other : byte ≠ 128 := by
          intro same
          have value := congrArg UInt8.toNat (byte_eq.symm.trans same)
          simp at value
          omega
        rw [if_pos other] at last
        right
        exact (readJsonbLength_end last).1
      · rw [if_neg short] at stored ⊢
        have byte_eq : byte = .ofNat (count % 128 + 128) := by
          have found := readByte_of_stored stored
          rw [first] at found
          exact Except.ok.inj found
        have value : byte.toNat % 128 = count % 128 := by
          rw [byte_eq]
          simp
        rw [value] at group_eq
        by_cases stop : byte ≠ 128
        · rw [if_pos stop, group_eq, or_shifted low] at last
          have room : before + count % 128 * 2 ^ bits < 2 ^ (bits + 7) := by
            have few : count % 128 + 1 ≤ 128 := Nat.mod_lt _ (by decide)
            have scaled := Nat.mul_le_mul_right (2 ^ bits) few
            rw [Nat.add_mul, Nat.one_mul] at scaled
            rw [Nat.pow_add]
            omega
          have parts : count % 128 * 2 ^ bits +
              count / 128 * 2 ^ (bits + 7) = count * 2 ^ bits := by
            have split := Nat.div_add_mod count 128
            calc
              count % 128 * 2 ^ bits + count / 128 * 2 ^ (bits + 7)
                  = (128 * (count / 128) + count % 128) * 2 ^ bits := by ring
              _ = count * 2 ^ bits := by rw [split]
          rcases induction room stored.tail last with early | through
          · left
            omega
          · right
            rw [List.length_cons]
            omega
        · have zero : count % 128 = 0 := by
            have same : byte.toNat = 128 := by
              rw [not_not.mp stop]
              rfl
            rw [← value, same]
          rw [if_neg stop, group_eq, zero, Nat.zero_mul, Nat.or_zero] at last
          cases last
          left
          have positive : 0 < count * 2 ^ bits :=
            Nat.mul_pos (by omega) (Nat.pow_pos (by decide))
          omega

/-- No string is read back when a suitable byte lies behind it. -/
theorem readJsonbString_of_stored {memory text : Bytes} {pointer : Nat}
    {next : UInt8} {json : JsonValue} {final : Nat}
    (stored : Stored memory pointer
      (Jsonb.lengthGroups text.length ++ (text ++ [next])))
    (last : memory.length =
      pointer + (Jsonb.lengthGroups text.length).length + text.length + 1)
    (noEnd : next ≠ 128) (different : text.getLast? ≠ some next)
    (read : readJsonbString memory pointer = .ok (json, final)) :
    json ≠ .string text := by
  intro same
  obtain ⟨⟨length, start⟩, lengthRead, later⟩ := Exec.bind_eq_ok.mp read
  obtain ⟨bytes, bytesRead, result⟩ := Exec.bind_eq_ok.mp later
  cases result
  cases same
  have found := (readJsonbLength_end lengthRead).2
  have textStored := stored.right
  cases text with
  | nil =>
      -- the byte behind the empty string would have to be the end
      have through := readJsonbLength_groups Nat.zero_lt_one stored lengthRead
      have inside : start - 1 < memory.length := by
        by_contra outside
        rw [readByte_eq_error (Nat.le_of_not_lt outside)] at found
        cases found
      simp only [List.length_nil] at through last textStored
      have place : start - 1 =
          pointer + (Jsonb.lengthGroups 0).length := by omega
      rw [place, readByte_of_stored textStored] at found
      exact noEnd (Except.ok.inj found)
  | cons head tail =>
      -- the text would have to be the one that starts a byte later
      rw [readBytes] at bytesRead
      split at bytesRead
      · rename_i fits
        have bytes_eq := Except.ok.inj bytesRead
        have lengths : length = tail.length + 1 := by
          have sizes := congrArg List.length bytes_eq
          simp only [List.length_take, List.length_drop,
            List.length_cons] at sizes
          omega
        have through := readJsonbLength_groups Nat.zero_lt_one stored lengthRead
        simp only [List.length_cons, Nat.zero_add, Nat.pow_zero,
          Nat.mul_one] at through last
        have place : start =
            pointer + (Jsonb.lengthGroups (tail.length + 1)).length + 1 := by
          omega
        have shifted : Stored memory start (tail ++ [next]) := by
          rw [place]
          exact textStored.tail
        have whole := shifted.drop_take
        rw [List.length_append, List.length_singleton, ← lengths,
          bytes_eq] at whole
        apply different
        rw [whole, List.getLast?_append, List.getLast?_singleton]
        rfl
      · cases bytesRead

end CValue

namespace Jsonb

theorem Is.null_iff {tree : Jsonb} : Is .null tree ↔ tree = .null := by
  constructor
  · intro same
    cases same
    rfl
  · intro same
    rw [same]
    exact .null

theorem zip_replicate (json : JsonValue) (elements : List Jsonb) :
    (List.replicate elements.length json).zip elements =
      elements.map fun element => (json, element) := by
  induction elements with
  | nil => rfl
  | cons element rest induction =>
      rw [List.length_cons, List.replicate_succ, List.zip_cons_cons, induction,
        List.map_cons]

theorem Is.array_iff {large : Bool} {elements : List Jsonb} :
    Is (.array (List.replicate elements.length .null)) (.array large elements) ↔
      ∀ element ∈ elements, element = .null := by
  constructor
  · intro same
    cases same with
    | array _ entries =>
        intro element member
        apply Is.null_iff.mp
        apply entries (.null, element)
        rw [zip_replicate]
        exact List.mem_map_of_mem member
  · intro nulls
    apply Is.array
    · exact List.length_replicate
    · intro entry member
      rw [zip_replicate] at member
      obtain ⟨element, inside, rfl⟩ := List.mem_map.mp member
      exact Is.null_iff.mpr (nulls element inside)

theorem exists_name {names : List Bytes} {values : List Jsonb}
    (lengths : names.length = values.length) {value : Jsonb}
    (member : value ∈ values) :
    ∃ name ∈ names, (name, value) ∈ names.zip values := by
  induction names generalizing values with
  | nil =>
      rw [List.length_eq_zero_iff.mp lengths.symm] at member
      cases member
  | cons name names induction =>
      cases values with
      | nil => cases member
      | cons first rest =>
          rcases List.mem_cons.mp member with same | later
          · rw [same]
            exact ⟨name, List.mem_cons_self, List.mem_cons_self⟩
          · obtain ⟨other, inside, entry⟩ :=
              induction (Nat.succ.inj lengths) later
            exact ⟨other, List.mem_cons_of_mem _ inside,
              List.mem_cons_of_mem _ entry⟩

theorem Is.object_iff {large : Bool} {keys names : List Bytes}
    {values : List Jsonb} (lengths : names.length = values.length) :
    Is (.object (CValue.nullMembers keys [])) (.object large names values) ↔
      (∀ value ∈ values, value = .null) ∧ ∀ name, name ∈ keys ↔ name ∈ names := by
  obtain ⟨distinct, mem, nulls⟩ := CValue.nullMembers_spec keys
    (show (([] : List (Bytes × JsonValue)).map Prod.fst).Nodup from
      List.Pairwise.nil)
    (fun member inside => nomatch inside)
  have names_eq : ∀ name,
      name ∈ (CValue.nullMembers keys []).map Prod.fst ↔ name ∈ keys := by
    intro name
    rw [mem name]
    simp
  constructor
  · intro same
    cases same with
    | object _ sameNames entries =>
        constructor
        · intro value member
          obtain ⟨name, inside, entry⟩ := exists_name lengths member
          obtain ⟨found, there, found_eq⟩ :=
            List.mem_map.mp ((sameNames name).mpr inside)
          apply Is.null_iff.mp
          rw [← nulls found there]
          exact entries found there (name, value) entry found_eq
        · intro name
          rw [← names_eq name]
          exact sameNames name
  · intro both
    apply Is.object distinct
    · intro name
      rw [names_eq name]
      exact both.2 name
    · intro member inside entry there _
      rw [nulls member inside]
      apply Is.null_iff.mpr
      exact both.1 entry.2 (List.of_mem_zip there).2

theorem splitLengths_append {sizes : List Nat} {front : Bytes} (back : Bytes)
    (enough : sizes.sum ≤ front.length) :
    sizes.splitLengths (front ++ back) = sizes.splitLengths front := by
  induction sizes generalizing front with
  | nil => rfl
  | cons size sizes induction =>
      rw [List.sum_cons] at enough
      have fits : size ≤ front.length := by omega
      have later := @induction (front.drop size) (by
        rw [List.length_drop]
        omega)
      rw [List.splitLengths, List.splitLengths, List.splitAt_eq,
        List.splitAt_eq]
      simp only [List.take_append_of_le_length fits,
        List.drop_append_of_le_length fits, later]

theorem entries_nulls {large : Bool} {names : List Bytes} {values : List Jsonb}
    (offset : Nat) (lengths : names.length = values.length)
    (nulls : ∀ value ∈ values, value = .null) :
    valueEntries large offset values =
        (names.map fun _ => 4 :: integerBytes (CValue.slot large) 0).flatten ∧
      payloads large values = [] := by
  induction values generalizing names with
  | nil =>
      rw [List.length_eq_zero_iff.mp lengths]
      exact ⟨rfl, rfl⟩
  | cons value rest induction =>
      cases names with
      | nil => cases lengths
      | cons name names =>
          have first := nulls value List.mem_cons_self
          obtain ⟨entries, behind⟩ := induction (Nat.succ.inj lengths)
            (fun other member => nulls other (List.mem_cons_of_mem _ member))
          rw [first, valueEntries, payloads, behind]
          constructor
          · simp only [inlined, code, entries, List.map_cons,
              List.flatten_cons]
          · rfl

theorem keyEntries_length (large : Bool) (offset : Nat) (names : List Bytes) :
    (keyEntries large offset names).length =
      names.length * (CValue.slot large + 2) := by
  induction names generalizing offset with
  | nil => simp [keyEntries]
  | cons name names induction =>
      rw [keyEntries]
      simp only [List.length_append, bytesLE_length, induction,
        List.length_cons]
      ring

theorem valueEntries_length (large : Bool) (offset : Nat)
    (values : List Jsonb) :
    (valueEntries large offset values).length =
      values.length * (1 + CValue.slot large) := by
  induction values generalizing offset with
  | nil => simp [valueEntries]
  | cons value rest induction =>
      rw [valueEntries]
      cases value.inlined large with
      | none =>
          simp only [List.length_append, List.length_cons, bytesLE_length,
            induction]
          ring
      | some number =>
          simp only [List.length_append, List.length_cons, integerBytes,
            bytesLE_length, induction]
          ring

theorem array_count_small {large : Bool} {elements : List Jsonb}
    (fits : (payload (.array large elements)).length <
      256 ^ CValue.slot large) :
    elements.length < 256 ^ CValue.slot large := by
  have enough : elements.length ≤
      elements.length * (1 + CValue.slot large) :=
    Nat.le_mul_of_pos_right _ (by omega)
  rw [payload] at fits
  simp only [List.length_append, valueEntries_length] at fits
  omega

theorem object_count_small {large : Bool} {names : List Bytes}
    {values : List Jsonb}
    (fits : (payload (.object large names values)).length <
      256 ^ CValue.slot large) :
    names.length < 256 ^ CValue.slot large := by
  have enough : names.length ≤ names.length * (CValue.slot large + 2) :=
    Nat.le_mul_of_pos_right _ (by omega)
  rw [payload] at fits
  simp only [List.length_append, keyEntries_length] at fits
  omega

/-- What lies behind the key entries of an object. -/
def behindKeys (large : Bool) (names : List Bytes) (values : List Jsonb)
    (next : UInt8) : Bytes :=
  valueEntries large
      (2 * CValue.slot large + names.length * (CValue.slot large + 2) +
        values.length * (1 + CValue.slot large) + names.flatten.length)
      values ++
    (names.flatten ++ (payloads large values ++ [next]))

/-- When all values are null, the names are cut out of the value entries. -/
theorem splitLengths_behindKeys {large : Bool} {names : List Bytes}
    {values : List Jsonb} (next : UInt8)
    (lengths : names.length = values.length)
    (nulls : ∀ value ∈ values, value = .null) :
    (names.map List.length).splitLengths
        (behindKeys large names values next) =
      misplaced large names := by
  obtain ⟨entries, behind⟩ := entries_nulls
    (2 * CValue.slot large + names.length * (CValue.slot large + 2) +
      values.length * (1 + CValue.slot large) + names.flatten.length)
    lengths nulls
  rw [behindKeys, entries, behind, ← List.append_assoc]
  apply splitLengths_append
  have total : names.flatten.length = (names.map List.length).sum :=
    List.length_flatten
  rw [List.length_append, total]
  omega

theorem asJson_array {value : CValue} {memory : Bytes} {address : Nat}
    {next : UInt8} {large : Bool} {elements : List Jsonb}
    (fits : (payload (.array large elements)).length <
      256 ^ CValue.slot large)
    (stored : Stored memory address
      ((Jsonb.array large elements).encode ++ [next]))
    (storage : value.storage = some address) :
    value.asJson memory =
      .ok (.array (List.replicate elements.length .null)) := by
  have small := array_count_small fits
  have payloadStored : Stored memory (address + 1)
      (payload (.array large elements) ++ [next]) := stored.tail
  simp only [payload, List.append_assoc] at payloadStored
  rw [CValue.asJson_of_stored stored storage]
  cases large with
  | false =>
      have read := CValue.readJsonbArray_of_stored
        (CValue.readJsonbType memory memory.length) small payloadStored
      simp only [CValue.readJsonbType, code, Bool.false_eq_true, if_false,
        UInt8.reduceToNat, read]
      rfl
  | true =>
      have read := CValue.readJsonbArray_of_stored
        (CValue.readJsonbType memory memory.length) small payloadStored
      simp only [CValue.readJsonbType, code, if_true, UInt8.reduceToNat, read]
      rfl

theorem asJson_object {value : CValue} {memory : Bytes} {address : Nat}
    {next : UInt8} {large : Bool} {names : List Bytes} {values : List Jsonb}
    (short : ∀ name ∈ names, name.length < 65536)
    (fits : (payload (.object large names values)).length <
      256 ^ CValue.slot large)
    (stored : Stored memory address
      ((Jsonb.object large names values).encode ++ [next]))
    (storage : value.storage = some address) :
    value.asJson memory =
      .ok (if names = [] then .null
        else .object (CValue.nullMembers
          ((names.map List.length).splitLengths
            (behindKeys large names values next)) [])) := by
  have small := object_count_small fits
  have payloadStored : Stored memory (address + 1)
      (payload (.object large names values) ++ [next]) := stored.tail
  simp only [payload, List.append_assoc] at payloadStored
  have enough : (names.map List.length).sum ≤
      (behindKeys large names values next).length := by
    simp only [behindKeys, List.length_append, List.length_flatten]
    omega
  obtain ⟨pointer, read⟩ := CValue.readJsonbObject_of_stored
    (CValue.readJsonbType memory memory.length) short small enough
    payloadStored
  rw [CValue.asJson_of_stored stored storage]
  cases large with
  | false =>
      simp only [CValue.readJsonbType, code, Bool.false_eq_true, if_false,
        UInt8.reduceToNat, read]
      rfl
  | true =>
      simp only [CValue.readJsonbType, code, if_true, UInt8.reduceToNat, read]
      rfl

theorem asJson_integer {value : CValue} {memory : Bytes} {address : Nat}
    {next : UInt8} {type : IntegerType} {number : Int}
    (inRange : type.InRange number)
    (stored : Stored memory address
      ((Jsonb.integer type number).encode ++ [next]))
    (storage : value.storage = some address) :
    value.asJson memory = .ok (.integer number) := by
  have payloadStored : Stored memory (address + 1)
      (integerBytes type.width number ++ [next]) := by
    have payloadStored : Stored memory (address + 1)
      (payload (.integer type number) ++ [next]) := stored.tail
    rwa [payload] at payloadStored
  have read := @CValue.readJsonbType_integer _ _ memory.length _ _ inRange
    payloadStored.left
  rw [CValue.asJson_of_stored stored storage]
  simp only [code, read]
  rfl

theorem asJson_literal {value : CValue} {memory : Bytes} {address : Nat}
    {literal next : UInt8}
    (stored : Stored memory address [4, literal, next])
    (storage : value.storage = some address) :
    ∃ json, value.asJson memory = .ok json ∧ (next ≠ 0 → json = .null) ∧
      (literal = 0 → json = .null) := by
  obtain ⟨json, read, high, zero⟩ := CValue.readLiteral_of_stored stored.tail
  refine ⟨json, ?_, high, zero⟩
  rw [CValue.asJson_of_stored stored storage]
  simp only [CValue.readJsonbType, UInt8.reduceToNat, read]
  rfl

theorem stored_alone (tree : Jsonb) (next : UInt8) :
    Stored (tree.encode ++ [next]) 0 (tree.encode ++ [next]) :=
  ⟨[], [], by simp, rfl⟩

theorem decodes_alone {tree : Jsonb} (decodes : tree.Decodes) (next : UInt8) :
    ∃ json,
      ({ storage := some 0 } : CValue).asJson (tree.encode ++ [next]) =
          .ok json ∧
        Is json tree := by
  apply decodes (tree.encode ++ [next]) 0 next { storage := some 0 }
  · exact tree.stored_alone next
  · rfl

theorem not_decodes_boolean (value : Bool) : ¬(Jsonb.boolean value).Decodes := by
  intro decodes
  obtain ⟨json, read, same⟩ := decodes_alone decodes 1
  have stored : Stored ((Jsonb.boolean value).encode ++ [1]) 0
      [4, if value then 1 else 2, 1] := by
    refine ⟨[], [], ?_, rfl⟩
    simp [encode, code, payload]
  obtain ⟨json', read', high, _⟩ := @asJson_literal { storage := some 0 } _ _ _ _
    stored rfl
  have equal : json = json' := by
    rw [read] at read'
    exact Except.ok.inj read'
  rw [equal, high (by decide)] at same
  cases same

theorem not_decodes_string (text : Bytes) : ¬(Jsonb.string text).Decodes := by
  intro decodes
  obtain ⟨next, noEnd, different⟩ : ∃ next : UInt8,
      next ≠ 128 ∧ text.getLast? ≠ some next := by
    by_cases one : text.getLast? = some 1
    · refine ⟨2, by decide, ?_⟩
      rw [one]
      decide
    · exact ⟨1, by decide, one⟩
  obtain ⟨json, read, same⟩ := decodes_alone decodes next
  have stored : Stored ((Jsonb.string text).encode ++ [next]) 1
      (lengthGroups text.length ++ (text ++ [next])) := by
    refine ⟨[12], [], ?_, rfl⟩
    simp [encode, code, payload]
  have last : ((Jsonb.string text).encode ++ [next]).length =
      1 + (lengthGroups text.length).length + text.length + 1 := by
    simp only [encode, payload, List.length_append, List.length_cons,
      List.length_nil]
    omega
  have alone : Stored ((Jsonb.string text).encode ++ [next]) 0
      (12 :: (lengthGroups text.length ++ (text ++ [next]))) := by
    refine ⟨[], [], ?_, rfl⟩
    simp [encode, code, payload]
  rw [CValue.asJson_of_stored alone rfl] at read
  simp only [CValue.readJsonbType, UInt8.reduceToNat] at read
  cases found : CValue.readJsonbString
      ((Jsonb.string text).encode ++ [next]) 1 with
  | error fault =>
      rw [found] at read
      cases read
  | ok result =>
      have wrong := CValue.readJsonbString_of_stored stored last noEnd different
        found
      rw [found] at read
      cases same with
      | string => exact wrong (Except.ok.inj read)

/-- For every stored JSON value: `as_json` gives it back, wherever it is stored and
whatever follows it, exactly for integers, null, arrays of nulls, and objects of
nulls whose names also stand where the value entries are. -/
theorem decodes_iff {tree : Jsonb} (wellFormed : tree.WellFormed) :
    tree.Decodes ↔ tree.ReadBack := by
  cases wellFormed with
  | null =>
      constructor
      · intro _
        exact trivial
      · intro _ memory address next value stored storage
        obtain ⟨json, read, _, zero⟩ := asJson_literal stored storage
        refine ⟨json, read, ?_⟩
        rw [zero rfl]
        exact .null
  | boolean value =>
      constructor
      · intro decodes
        exact not_decodes_boolean value decodes
      · intro impossible
        cases impossible
  | integer inRange =>
      constructor
      · intro _
        exact trivial
      · intro _ memory address next value stored storage
        exact ⟨_, asJson_integer inRange stored storage, .integer _ _⟩
  | string short =>
      constructor
      · intro decodes
        exact not_decodes_string _ decodes
      · intro impossible
        cases impossible
  | array fits _ =>
      constructor
      · intro decodes
        obtain ⟨json, read, same⟩ := decodes_alone decodes 0
        rw [asJson_array fits (stored_alone _ 0) rfl] at read
        cases read
        exact Is.array_iff.mp same
      · intro nulls memory address next value stored storage
        exact ⟨_, asJson_array fits stored storage, Is.array_iff.mpr nulls⟩
  | object lengths _ short fits _ =>
      constructor
      · intro decodes
        obtain ⟨json, read, same⟩ := decodes_alone decodes 0
        rw [asJson_object short fits (stored_alone _ 0) rfl] at read
        split at read
        · cases read
          cases same
        · rename_i some
          cases read
          obtain ⟨nulls, names⟩ := (Is.object_iff lengths).mp same
          rw [splitLengths_behindKeys 0 lengths nulls] at names
          exact ⟨some, nulls, names⟩
      · intro readBack memory address next value stored storage
        obtain ⟨some, nulls, names⟩ := readBack
        rw [← splitLengths_behindKeys next lengths nulls] at names
        refine ⟨_, asJson_object short fits stored storage, ?_⟩
        rw [if_neg some]
        exact (Is.object_iff lengths).mpr ⟨nulls, names⟩

/-- The array `[null, null]`. -/
def nulls : Jsonb := .array false [.null, .null]

theorem nulls_wellFormed : nulls.WellFormed := by
  apply WellFormed.array
  · decide
  · intro element member
    have null : element = .null := by
      simpa using member
    rw [null]
    exact .null

theorem decodes_iff_nulls : nulls.Decodes := by
  have readBack : nulls.ReadBack := by
    intro element member
    simpa using member
  exact (decodes_iff nulls_wellFormed).mpr readBack

/-- The array `[1]`, which is read as `[null]`. -/
def one : Jsonb := .array false [.integer .int16 1]

theorem not_decodes_one : one.WellFormed ∧ ¬one.Decodes := by
  have fits : (payload one).length < 256 ^ CValue.slot false := by decide
  constructor
  · apply WellFormed.array fits
    intro element member
    have number : element = .integer .int16 1 := by
      simpa using member
    rw [number]
    apply WellFormed.integer
    simp [IntegerType.InRange, IntegerType.isSigned, IntegerType.width]
  · intro decodes
    obtain ⟨json, read, same⟩ := decodes_alone decodes 0
    rw [one, asJson_array fits (stored_alone _ 0) rfl] at read
    cases read
    have wrong := Is.array_iff.mp same (.integer .int16 1) (by simp)
    cases wrong

end Jsonb

end MysqlSlave
