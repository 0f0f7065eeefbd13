import MysqlSlave.ColumnDesc
import MysqlSlave.Lib.Bitmap
import MysqlSlave.Temporal

/-!
# ENUM and SET columns

A server stores an ENUM value as the position of its member and a SET value as
the bitmap of its members, and frames both as STRING columns with the real type
in the metadata.  `as_enum` reads up to four bytes, so the eight bytes of a SET
with more than 32 members are not read.
-/

namespace MysqlSlave

open Region

namespace CValue

/-- `as_enum`. -/
def asEnum (self : CValue) (memory : Bytes) : Exec Nat :=
  if self.isNull || !self.isValid ||
      (self.type != .enum && self.type != .set) then .ok 0
  else do
    let address ← self.pointer
    match self.size with
    | 1 => readLE memory address 1
    | 2 => readLE memory address 2
    | 3 => readLE memory address 3
    | 4 => readLE memory address 4
    | _ => .ok 0

/-- `as_enum(desc)`; the position before the first wraps around. -/
def asEnumName (self : CValue) (desc : CColumnDesc) (memory : Bytes) :
    Exec Bytes := do
  let pos := sizeSub (← self.asEnum memory) 1
  match desc.variants[pos]? with
  | some variant => return variant
  | none => return []

/-- The loop of `as_set(desc, result)`; a round takes one of the 64 bits off the
mask. -/
def membersOf (variants : List Bytes) : Nat → Nat → Nat → List Bytes
  | 0, _, _ => []
  | rounds + 1, mask, pos =>
      if mask = 0 then []
      else if mask % 2 = 1 then
        match variants[pos]? with
        | some variant =>
            variant :: membersOf variants rounds (mask / 2) (pos + 1)
        | none => []
      else membersOf variants rounds (mask / 2) (pos + 1)

/-- `as_set(desc, result)`. -/
def asSetNames (self : CValue) (desc : CColumnDesc) (memory : Bytes) :
    Exec (List Bytes) := do
  let mask ← self.asEnum memory
  return membersOf desc.variants 64 mask 0

/-- `as_set(desc)`: a space behind every member, but for the last. -/
def asSetText (self : CValue) (desc : CColumnDesc) (memory : Bytes) :
    Exec Bytes := do
  let names ← self.asSetNames desc memory
  return (names.flatMap (· ++ [32])).dropLast

theorem asEnum_of_stored {value : CValue} {memory bytes : Bytes}
    {address : Nat}
    (notNull : value.null = false)
    (type : value.type = .enum ∨ value.type = .set)
    (storage : value.storage = some address)
    (size : value.size = bytes.length)
    (known : bytes.length ∈ [1, 2, 3, 4])
    (stored : Stored memory address bytes) :
    value.asEnum memory = .ok (littleEndian bytes) := by
  have read := readLE_of_stored stored
  have valid : value.isValid = true := by
    have nonzero : bytes.length ≠ 0 := by
      intro zero
      simp [zero] at known
    simp [isValid, size, storage, nonzero]
  have present : value.isNull = false := by
    rcases type with type | type <;> simp [isNull, notNull, type]
  have choice : (value.type != .enum && value.type != .set) = false := by
    rcases type with type | type <;> simp [type]
  simp only [asEnum, present, valid, choice, pointer, storage, size,
    Exec.ok_bind]
  simp only [List.mem_cons, List.not_mem_nil, or_false] at known
  rcases known with length | length | length | length
  all_goals
    rw [length] at read
    simp [length, read]

theorem asEnum_of_unknown {value : CValue} {memory : Bytes} {address : Nat}
    (storage : value.storage = some address)
    (size : value.size ∉ [1, 2, 3, 4]) :
    value.asEnum memory = .ok 0 := by
  simp only [List.mem_cons, List.not_mem_nil, or_false, not_or] at size
  obtain ⟨one, two, three, four⟩ := size
  unfold asEnum
  split
  · rfl
  · simp only [pointer, storage, Exec.ok_bind]

theorem ofField_choice {memory : Bytes} {pfield metadata : Nat}
    {real : EColumnType}
    (choice : real = .enum ∨ real = .set)
    (low : EColumnType.ofCode (UInt8.ofNat (metadata % 256)) = real) :
    ofField .string memory pfield metadata =
      .ok {
        type := real, storage := some pfield, size := metadata / 256
        metadata := metadata, null := false } := by
  rcases choice with rfl | rfl
  · simp [ofField, calcFieldSize, tune, low]
  · simp [ofField, calcFieldSize, tune, low]

@[simp] theorem membersOf_zero (variants : List Bytes) (rounds pos : Nat) :
    membersOf variants rounds 0 pos = [] := by
  cases rounds <;> simp [membersOf]

end CValue

/-- The members that are chosen, in their order. -/
def chosenMembers : List Bytes → List Bool → List Bytes
  | member :: members, chosen :: rest =>
      if chosen then member :: chosenMembers members rest
      else chosenMembers members rest
  | _, _ => []

theorem chosenMembers_eq_nil_iff {members : List Bytes} {chosen : List Bool}
    (each : chosen.length = members.length) :
    chosenMembers members chosen = [] ↔ true ∉ chosen := by
  induction chosen generalizing members with
  | nil => cases members <;> simp [chosenMembers]
  | cons bit rest induction =>
      cases members with
      | nil => simp at each
      | cons member members =>
          have tail : rest.length = members.length := by
            simpa using each
          cases bit with
          | true => simp [chosenMembers]
          | false => simp [chosenMembers, induction tail]

/-- The loop takes the members whose bits are set. -/
theorem CValue.membersOf_value {variants : List Bytes} {chosen : List Bool}
    {rounds pos : Nat}
    (each : chosen.length + pos = variants.length)
    (enough : chosen.length ≤ rounds) :
    membersOf variants rounds (Bitmap.value chosen) pos =
      chosenMembers (variants.drop pos) chosen := by
  induction chosen generalizing rounds pos with
  | nil =>
      simp [chosenMembers]
  | cons bit rest induction =>
      simp only [List.length_cons] at each enough
      have inside : pos < variants.length := by omega
      have lookup : variants[pos]? = some variants[pos] :=
        List.getElem?_eq_getElem inside
      have split : variants.drop pos =
          variants[pos] :: variants.drop (pos + 1) :=
        List.drop_eq_getElem_cons inside
      cases rounds with
      | zero => omega
      | succ rounds =>
          have later := induction (by omega : rest.length + (pos + 1) = _)
            (by omega : rest.length ≤ rounds)
          have half := Bitmap.value_half bit rest
          rw [membersOf, half, later, split]
          cases bit with
          | true =>
              have odd : Bitmap.value (true :: rest) % 2 = 1 := by
                simp only [Bitmap.value_cons, Bool.toNat_true]
                omega
              have nonzero : Bitmap.value (true :: rest) ≠ 0 := by omega
              simp only [nonzero, odd, if_true, if_false, lookup,
                chosenMembers]
          | false =>
              have even : Bitmap.value (false :: rest) % 2 ≠ 1 := by
                simp only [Bitmap.value_cons, Bool.toNat_false]
                omega
              simp only [even, if_false, chosenMembers]
              split
              · rename_i zero
                have none : Bitmap.value rest = 0 := by
                  rw [← half, zero]
                simp only [Bool.false_eq_true, if_false, ← later, none,
                  membersOf_zero]
              · rfl

/-- Members with a space between them. -/
def spaced (names : List Bytes) : Bytes := List.intercalate [32] names

theorem dropLast_spaces (names : List Bytes) :
    (names.flatMap (· ++ [32])).dropLast = spaced names := by
  induction names with
  | nil => rfl
  | cons name names induction =>
      cases names with
      | nil => simp [spaced]
      | cons next rest =>
          have nonempty : (next :: rest).flatMap (· ++ [32]) ≠ [] := by
            simp
          rw [List.flatMap_cons, List.dropLast_append_of_ne_nil nonempty,
            induction]
          simp [spaced, List.intercalate]

/-- A value of an ENUM column: a position in its members, from one on, or
zero. -/
structure EnumValue where
  members : List Bytes
  index : Nat
  least : 1 ≤ members.length
  most : members.length ≤ 65535
  inside : index ≤ members.length

/-- A value of a SET column: for each of its members, whether it is chosen. -/
structure SetValue where
  members : List Bytes
  chosen : List Bool
  least : 1 ≤ members.length
  most : members.length ≤ 64
  each : chosen.length = members.length

namespace EnumValue

def bytes (value : EnumValue) : Nat :=
  if value.members.length ≤ 255 then 1 else 2

/-- The real type in the low byte, the pack length in the high byte. -/
def metadata (value : EnumValue) : Nat := 247 + 256 * value.bytes

def encode (value : EnumValue) : Bytes := bytesLE value.bytes value.index

/-- The member the value names. -/
def member (value : EnumValue) : Bytes :=
  match value.index with
  | 0 => []
  | index + 1 => value.members.getD index []

/-- The value `update_row` frames. -/
def framed (value : EnumValue) (pfield : Nat) : CValue where
  type := .enum
  storage := some pfield
  size := value.bytes
  metadata := value.metadata
  null := false

variable (value : EnumValue)

theorem bytes_cases : value.bytes = 1 ∨ value.bytes = 2 := by
  unfold bytes
  split
  · exact .inl rfl
  · exact .inr rfl

theorem ofField_framed (memory : Bytes) (pfield : Nat) :
    CValue.ofField .string memory pfield value.metadata =
      .ok (value.framed pfield) := by
  have low : value.metadata % 256 = 247 := by
    unfold metadata
    omega
  have high : value.metadata / 256 = value.bytes := by
    unfold metadata
    omega
  have real : EColumnType.ofCode (UInt8.ofNat (value.metadata % 256)) =
      .enum := by
    rw [low, EColumnType.ofCode_enum]
  rw [CValue.ofField_choice (.inl rfl) real, high]
  rfl

theorem littleEndian_encode : littleEndian value.encode = value.index := by
  apply littleEndian_bytesLE_of_lt
  have most := value.most
  have inside := value.inside
  unfold bytes
  split <;> omega

theorem asEnumName_eq {memory : Bytes} {pfield : Nat} {desc : CColumnDesc}
    (declared : desc.variants = value.members)
    (stored : Stored memory pfield value.encode) :
    (value.framed pfield).asEnumName desc memory = .ok value.member := by
  have length : value.encode.length = value.bytes := bytesLE_length _ _
  have known : value.encode.length ∈ [1, 2, 3, 4] := by
    rcases value.bytes_cases with bytes | bytes <;> simp [length, bytes]
  have read : (value.framed pfield).asEnum memory = .ok value.index := by
    rw [← value.littleEndian_encode]
    exact CValue.asEnum_of_stored rfl (.inl rfl) rfl length.symm known stored
  have most := value.most
  have inside := value.inside
  simp only [CValue.asEnumName, read, Exec.ok_bind, declared, member]
  cases position : value.index with
  | zero =>
      have outside : value.members.length ≤ sizeSub 0 1 := by
        have wrapped : sizeSub 0 1 = 2 ^ 64 - 1 := by decide
        omega
      rw [List.getElem?_eq_none outside]
      rfl
  | succ index =>
      have before : sizeSub (index + 1) 1 = index := by
        rw [sizeSub_eq (by omega) (by omega)]
        rfl
      have present : index < value.members.length := by omega
      have named : value.members[index]? = some value.members[index] :=
        List.getElem?_eq_getElem present
      simp only [before, named, List.getD_eq_getElem?_getD, Exec.pure_eq_ok,
        Option.getD_some]

end EnumValue

namespace SetValue

def bytes (value : SetValue) : Nat :=
  if (value.members.length + 7) / 8 > 4 then 8
  else (value.members.length + 7) / 8

/-- The real type in the low byte, the pack length in the high byte. -/
def metadata (value : SetValue) : Nat := 248 + 256 * value.bytes

def encode (value : SetValue) : Bytes :=
  bytesLE value.bytes (Bitmap.value value.chosen)

/-- The members of the subset. -/
def subset (value : SetValue) : List Bytes :=
  chosenMembers value.members value.chosen

/-- The value `update_row` frames. -/
def framed (value : SetValue) (pfield : Nat) : CValue where
  type := .set
  storage := some pfield
  size := value.bytes
  metadata := value.metadata
  null := false

variable (value : SetValue)

theorem bytes_known_iff :
    value.bytes ∈ [1, 2, 3, 4] ↔ value.members.length ≤ 32 := by
  have least := value.least
  have most := value.most
  simp only [bytes, List.mem_cons, List.not_mem_nil, or_false]
  split <;> omega

theorem ofField_framed (memory : Bytes) (pfield : Nat) :
    CValue.ofField .string memory pfield value.metadata =
      .ok (value.framed pfield) := by
  have low : value.metadata % 256 = 248 := by
    unfold metadata
    omega
  have high : value.metadata / 256 = value.bytes := by
    unfold metadata
    omega
  have real : EColumnType.ofCode (UInt8.ofNat (value.metadata % 256)) =
      .set := by
    rw [low, EColumnType.ofCode_set]
  rw [CValue.ofField_choice (.inr rfl) real, high]
  rfl

theorem littleEndian_encode :
    littleEndian value.encode = Bitmap.value value.chosen := by
  apply littleEndian_bytesLE_of_lt
  have wide : value.chosen.length ≤ 8 * value.bytes := by
    have most := value.most
    have each := value.each
    unfold bytes
    split <;> omega
  calc
    Bitmap.value value.chosen < 2 ^ value.chosen.length := Bitmap.value_lt _
    _ ≤ 2 ^ (8 * value.bytes) := Nat.pow_le_pow_right (by decide) wide
    _ = 256 ^ value.bytes := by rw [Nat.pow_mul]

theorem asSetNames_known {memory : Bytes} {pfield : Nat} {desc : CColumnDesc}
    (declared : desc.variants = value.members)
    (few : value.members.length ≤ 32)
    (stored : Stored memory pfield value.encode) :
    (value.framed pfield).asSetNames desc memory = .ok value.subset := by
  have length : value.encode.length = value.bytes := bytesLE_length _ _
  have known : value.encode.length ∈ [1, 2, 3, 4] := by
    rw [length]
    exact value.bytes_known_iff.mpr few
  have read : (value.framed pfield).asEnum memory =
      .ok (Bitmap.value value.chosen) := by
    rw [← value.littleEndian_encode]
    exact CValue.asEnum_of_stored rfl (.inr rfl) rfl length.symm known stored
  have most := value.most
  have each := value.each
  have members : CValue.membersOf desc.variants 64
      (Bitmap.value value.chosen) 0 =
        chosenMembers (desc.variants.drop 0) value.chosen := by
    apply CValue.membersOf_value
    · rw [declared, each]
      rfl
    · omega
  simp only [CValue.asSetNames, read, Exec.ok_bind, Exec.pure_eq_ok, members]
  rw [declared]
  rfl

/-- Of more than 32 members none is found. -/
theorem asSetNames_unknown {memory : Bytes} {pfield : Nat}
    {desc : CColumnDesc} (many : 32 < value.members.length) :
    (value.framed pfield).asSetNames desc memory = .ok [] := by
  have unknown : value.bytes ∉ [1, 2, 3, 4] := by
    intro known
    have few := value.bytes_known_iff.mp known
    omega
  have read : (value.framed pfield).asEnum memory = .ok 0 :=
    CValue.asEnum_of_unknown rfl unknown
  simp only [CValue.asSetNames, read, Exec.ok_bind, Exec.pure_eq_ok,
    CValue.membersOf_zero]

theorem asSetText_of_names {value : CValue} {desc : CColumnDesc}
    {memory : Bytes} {names : List Bytes}
    (read : value.asSetNames desc memory = .ok names) :
    value.asSetText desc memory = .ok (spaced names) := by
  simp only [CValue.asSetText, read, Exec.ok_bind, Exec.pure_eq_ok,
    dropLast_spaces]

end SetValue

/-- A value of an ENUM or of a SET column. -/
inductive ChoiceValue
  | enum (value : EnumValue)
  | set (value : SetValue)

namespace ChoiceValue

def members : ChoiceValue → List Bytes
  | enum value => value.members
  | set value => value.members

def metadata : ChoiceValue → Nat
  | enum value => value.metadata
  | set value => value.metadata

def encode : ChoiceValue → Bytes
  | enum value => value.encode
  | set value => value.encode

/-- The accessors name what the value chooses. -/
def Named (memory : Bytes) (pfield : Nat) (desc : CColumnDesc) :
    ChoiceValue → Prop
  | enum value =>
      CValue.fieldAs (fun framed => framed.asEnumName desc) .string memory
        pfield value.metadata = .ok value.member
  | set value =>
      CValue.fieldAs (fun framed => framed.asSetNames desc) .string memory
          pfield value.metadata = .ok value.subset ∧
        CValue.fieldAs (fun framed => framed.asSetText desc) .string memory
          pfield value.metadata = .ok (spaced value.subset)

/-- Not a choice from more than 32 members. -/
def Narrow : ChoiceValue → Prop
  | enum _ => True
  | set value => value.members.length ≤ 32 ∨ true ∉ value.chosen

/-- ENUM and SET values name their members, but for what is chosen from more
than 32 members. -/
theorem named_iff (value : ChoiceValue) {memory : Bytes} {pfield : Nat}
    {desc : CColumnDesc}
    (declared : desc.variants = value.members)
    (stored : Stored memory pfield value.encode) :
    value.Named memory pfield desc ↔ value.Narrow := by
  cases value with
  | enum value =>
      have named := value.asEnumName_eq declared stored
      simp only [Named, Narrow, CValue.fieldAs, value.ofField_framed,
        Exec.ok_bind, named]
  | set value =>
      simp only [Named, Narrow, CValue.fieldAs, value.ofField_framed,
        Exec.ok_bind]
      by_cases few : value.members.length ≤ 32
      · have named := value.asSetNames_known declared few stored
        have text := SetValue.asSetText_of_names named
        simp only [named, text, few, and_self, true_or]
      · have many : 32 < value.members.length := by omega
        have unnamed : (value.framed pfield).asSetNames desc memory =
            .ok [] := value.asSetNames_unknown many
        have text := SetValue.asSetText_of_names unnamed
        have empty := chosenMembers_eq_nil_iff value.each
        rw [unnamed, text]
        constructor
        · intro same
          right
          apply empty.mp
          have names := same.1
          simp only [Except.ok.injEq] at names
          exact names.symm
        · intro narrow
          have none := narrow.resolve_left few
          have nothing : value.subset = [] := empty.mpr none
          rw [nothing]
          exact ⟨rfl, rfl⟩

/-- A SET of three members, of which the first and the last are chosen. -/
def threeMembers : SetValue where
  members := [[97], [98], [99]]
  chosen := [true, false, true]
  least := Nat.le_add_left 1 2
  most := Nat.le_add_right 3 61
  each := rfl

/-- A SET of 33 members, of which the first is chosen. -/
def manyMembers : SetValue where
  members := List.replicate 33 [97]
  chosen := true :: List.replicate 32 false
  least := Nat.le_add_left 1 32
  most := Nat.le_add_right 33 31
  each := rfl

theorem named_iff_threeMembers :
    CValue.fieldAs
        (fun framed => framed.asSetNames ⟨0, threeMembers.members⟩) .string
        [5] 0 threeMembers.metadata = .ok [[97], [99]] := by
  have stored : Stored [5] 0 threeMembers.encode := ⟨[], [], rfl, rfl⟩
  have named : Named [5] 0 ⟨0, threeMembers.members⟩ (.set threeMembers) :=
    (named_iff (.set threeMembers) rfl stored).mpr (.inl (by decide))
  exact named.1

/-- The one member chosen of 33 is not found in the eight stored bytes. -/
theorem not_named_manyMembers :
    manyMembers.encode = [1, 0, 0, 0, 0, 0, 0, 0] ∧
      manyMembers.subset = [[97]] ∧
      CValue.fieldAs
        (fun framed => framed.asSetNames ⟨0, manyMembers.members⟩) .string
        manyMembers.encode 0 manyMembers.metadata = .ok [] := by
  refine ⟨by decide, by decide, ?_⟩
  simp only [CValue.fieldAs, SetValue.ofField_framed, Exec.ok_bind]
  exact manyMembers.asSetNames_unknown (by decide)

end ChoiceValue

end MysqlSlave
