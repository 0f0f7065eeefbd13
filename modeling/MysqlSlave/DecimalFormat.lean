import Mathlib.Tactic.IntervalCases
import Mathlib.Tactic.Positivity
import MysqlSlave.Decimal

/-!
# The packed form of decimals

The bytes a server stores for a decimal number, and what `_init_decimal` makes of
any bytes of that length.  A field is read through its plain form: the bytes with
the flip of the first bit and the inversion of a negative number undone.
-/

namespace MysqlSlave

open Region

/-- DECIMAL(precision, scale). -/
structure DecimalType where
  precision : Nat
  scale : Nat
  positive : 1 ≤ precision
  precisionFits : precision ≤ 65
  scaleFits : scale ≤ precision
  scaleSmall : scale ≤ 30

namespace DecimalType

def integerDigits (self : DecimalType) : Nat := self.precision - self.scale

/-- The number of digits of the group in front, 0 if there is none. -/
def leadingDigits (self : DecimalType) : Nat := self.integerDigits % 9

def integerGroups (self : DecimalType) : Nat := self.integerDigits / 9

def fractionGroups (self : DecimalType) : Nat := self.scale / 9

/-- The number of digits of the group at the end, 0 if there is none. -/
def trailingDigits (self : DecimalType) : Nat := self.scale % 9

/-- The number of bytes of a group. -/
def groupBytes (digits : Nat) : Nat :=
  [0, 1, 1, 2, 2, 3, 3, 4, 4, 4].getD digits 0

def leadingBytes (self : DecimalType) : Nat := groupBytes self.leadingDigits

def trailingBytes (self : DecimalType) : Nat := groupBytes self.trailingDigits

def length (self : DecimalType) : Nat :=
  self.leadingBytes + 4 * self.integerGroups + 4 * self.fractionGroups +
    self.trailingBytes

/-- The two metadata bytes of the column as one number. -/
def metadata (self : DecimalType) : Nat := self.precision + 256 * self.scale

theorem leadingDigits_lt (self : DecimalType) : self.leadingDigits < 9 :=
  Nat.mod_lt _ (by decide)

theorem trailingDigits_lt (self : DecimalType) : self.trailingDigits < 9 :=
  Nat.mod_lt _ (by decide)

theorem integerDigits_eq (self : DecimalType) :
    self.integerDigits = 9 * self.integerGroups + self.leadingDigits :=
  (Nat.div_add_mod _ 9).symm

theorem scale_eq (self : DecimalType) :
    self.scale = 9 * self.fractionGroups + self.trailingDigits :=
  (Nat.div_add_mod _ 9).symm

theorem groupBytes_eq {digits : Nat} (few : digits < 9) :
    groupBytes digits = (digits + 1) / 2 := by
  interval_cases digits <;> rfl

theorem dig2bytes_groupBytes {digits : Nat} (few : digits < 9) :
    CValue.dig2bytes digits = .ok (groupBytes digits) := by
  rw [CValue.dig2bytes_eq few, groupBytes_eq few]

theorem groupBytes_le (digits : Nat) : groupBytes digits ≤ 4 := by
  by_cases few : digits < 10
  · interval_cases digits <;> decide
  · have missing : groupBytes digits = 0 := by
      rw [groupBytes, List.getD_eq_getElem?_getD, List.getElem?_eq_none]
      · rfl
      · exact Nat.le_of_not_lt few
    rw [missing]
    exact Nat.zero_le 4

theorem groupBytes_pos {digits : Nat} (some : digits ≠ 0) (few : digits < 9) :
    0 < groupBytes digits := by
  interval_cases digits
  · exact absurd rfl some
  all_goals decide

theorem groupBytes_fits {digits value : Nat} (few : digits < 9)
    (fits : value < 10 ^ digits) : 2 * value < 256 ^ groupBytes digits := by
  have room : 2 * 10 ^ digits ≤ 256 ^ groupBytes digits + 1 := by
    interval_cases digits <;> decide
  omega

end DecimalType

/-- A signed decimal number of a type; `fraction` counts units of the last
fraction digit. -/
structure DecimalNumber (type : DecimalType) where
  negative : Bool
  integer : Nat
  fraction : Nat
  integerFits : integer < 10 ^ type.integerDigits
  fractionFits : fraction < 10 ^ type.scale

namespace DecimalNumber

variable {type : DecimalType}

/-- The value of the group in front. -/
def leading (self : DecimalNumber type) : Nat :=
  self.integer / 1000000000 ^ type.integerGroups

def integerGroups (self : DecimalNumber type) : List Nat :=
  digitsBE 1000000000 type.integerGroups self.integer

def fractionGroups (self : DecimalNumber type) : List Nat :=
  digitsBE 1000000000 type.fractionGroups
    (self.fraction / 10 ^ type.trailingDigits)

/-- The value of the group at the end. -/
def trailing (self : DecimalNumber type) : Nat :=
  self.fraction % 10 ^ type.trailingDigits

/-- The groups, each as a big-endian number. -/
def plain (self : DecimalNumber type) : Bytes :=
  bytesBE type.leadingBytes self.leading ++
    (self.integerGroups.flatMap (bytesBE 4) ++
      (self.fractionGroups.flatMap (bytesBE 4) ++
        bytesBE type.trailingBytes self.trailing))

/-- The packed form: all bytes inverted if negative, and the first bit flipped. -/
def encode (self : DecimalNumber type) : Bytes :=
  flipFirst (if self.negative then complement self.plain else self.plain)

end DecimalNumber

/-- `count` groups of four bytes. -/
def chunks : Nat → Bytes → List Bytes
  | 0, _ => []
  | count + 1, bytes => bytes.take 4 :: chunks count (bytes.drop 4)

namespace DecimalType

/-- Whether the first byte of a field says that its number is negative. -/
def isNegative (field : Bytes) : Bool :=
  match field with
  | [] => false
  | byte :: _ => byte.toNat < 128

/-- A field with the flip and the inversion undone. -/
def plain (field : Bytes) : Bytes :=
  if isNegative field then complement (flipFirst field) else flipFirst field

variable (type : DecimalType)

/-- The value of the group in front, as the bytes of a field have it. -/
def leadingOf (field : Bytes) : Int :=
  signedBE ((plain field).take type.leadingBytes)

def integersOf (field : Bytes) : List Int :=
  (chunks type.integerGroups ((plain field).drop type.leadingBytes)).map
    signedBE

def fractionsOf (field : Bytes) : List Int :=
  (chunks type.fractionGroups
    ((plain field).drop (type.leadingBytes + 4 * type.integerGroups))).map
    signedBE

/-- The value of the group at the end, as the bytes of a field have it. -/
def trailingOf (field : Bytes) : Int :=
  signedBE
    (((plain field).drop (type.leadingBytes + 4 * type.integerGroups +
      4 * type.fractionGroups)).take type.trailingBytes)

@[simp] theorem plain_length (field : Bytes) :
    (plain field).length = field.length := by
  rw [plain]
  split
  · simp
  · simp

end DecimalType

namespace DecimalT

theorem readGroup_eq {memory field : Bytes} {storage offset width : Nat}
    (stored : Stored memory storage field)
    (room : storage + 4 ≤ memory.length) (nonempty : 0 < width)
    (small : width ≤ 4) (inside : offset + width ≤ field.length) :
    ∃ x, readGroup memory storage (storage + offset) width = .ok x ∧
      unmask (DecimalType.isNegative field) x =
        signedBE (((DecimalType.plain field).drop offset).take width) := by
  have read : readGroup memory storage (storage + offset) width =
      .ok (signedBE (((flipFirst field).drop offset).take width)) := by
    cases offset with
    | zero =>
        have tmp : readBytes memory storage 4 =
            .ok ((memory.drop storage).take 4) := by
          rw [readBytes, if_pos (Or.inr room)]
        have same : ((memory.drop storage).take 4).take width =
            field.take width := by
          obtain ⟨before, after, rfl, rfl⟩ := stored
          have fits : width ≤ field.length := by simpa using inside
          rw [List.take_take, Nat.min_eq_left small]
          simp [List.take_append_of_le_length fits]
        simp [readGroup, tmp, flipFirst_take, same]
    | succ offset =>
        have apart : storage ≠ storage + (offset + 1) := by omega
        have group : readBytes memory (storage + (offset + 1)) width =
            .ok ((field.drop (offset + 1)).take width) := by
          have part := stored.slice width
            (show offset + 1 ≤ field.length by omega)
          have length : ((field.drop (offset + 1)).take width).length =
              width := by
            simp only [List.length_take, List.length_drop]
            omega
          have read := readBytes_of_stored part
          rwa [length] at read
        rw [readGroup, if_neg apart, group, flipFirst_drop _ (Nat.succ_pos _)]
        rfl
  have group : ((flipFirst field).drop offset).take width ≠ [] := by
    apply List.ne_nil_of_length_pos
    simp only [List.length_take, List.length_drop, flipFirst_length]
    omega
  refine ⟨_, read, ?_⟩
  rw [DecimalType.plain]
  cases DecimalType.isNegative field with
  | false => rfl
  | true =>
      have inverted : ((complement (flipFirst field)).drop offset).take width =
          complement (((flipFirst field).drop offset).take width) := by
        simp [complement]
      simp only [if_true, inverted, signedBE_complement group]
      rfl

theorem signedBE_int32 {bytes : Bytes} (small : bytes.length ≤ 4) :
    -2147483648 ≤ signedBE bytes ∧ signedBE bytes ≤ 2147483647 := by
  have bounds := signedBE_bounds bytes
  have power : (256 : Int) ^ bytes.length ≤ 256 ^ 4 :=
    pow_le_pow_right₀ (by decide) small
  omega

theorem aboveDigMax_eq_false_iff {value : Int} (low : -2147483648 ≤ value)
    (high : value ≤ 2147483647) :
    aboveDigMax value = false ↔ 0 ≤ value ∧ value ≤ 999999999 := by
  rw [aboveDigMax, decide_eq_false_iff_not]
  omega

/-- The loop over nine-digit groups: it keeps all of them, or stops with an error
at the first one out of range. -/
theorem fullGroups_eq {memory field : Bytes} {storage : Nat}
    (stored : Stored memory storage field)
    (room : storage + 4 ≤ memory.length) (push : Groups → Int → Groups)
    {rounds offset : Nat} (groups : Groups)
    (inside : offset + 4 * rounds ≤ field.length) :
    let values :=
      (chunks rounds ((DecimalType.plain field).drop offset)).map signedBE
    fullGroups push memory storage (DecimalType.isNegative field) rounds
        (storage + offset) groups =
      .ok (if ∀ value ∈ values, 0 ≤ value ∧ value ≤ 999999999 then
        some (values.foldl push groups, storage + (offset + 4 * rounds))
      else none) := by
  induction rounds generalizing offset groups with
  | zero => simp [chunks, fullGroups]
  | succ rounds induction =>
      obtain ⟨x, read, value⟩ := readGroup_eq stored room (by decide)
        (Nat.le_refl 4) (show offset + 4 ≤ field.length by omega)
      have next : storage + offset + 4 = storage + (offset + 4) := by omega
      have last : offset + 4 + 4 * rounds = offset + 4 * (rounds + 1) := by
        omega
      have bounds := signedBE_int32
        (List.length_take_le 4 ((DecimalType.plain field).drop offset))
      have test := aboveDigMax_eq_false_iff bounds.1 bounds.2
      simp only [chunks, List.map_cons, List.drop_drop, fullGroups, read,
        Exec.ok_bind, value, List.mem_cons, forall_eq_or_imp, List.foldl_cons]
      cases above : aboveDigMax
          (signedBE (((DecimalType.plain field).drop offset).take 4)) with
      | true =>
          rw [above] at test
          have wrong : ¬(0 ≤ signedBE
                (((DecimalType.plain field).drop offset).take 4) ∧
              signedBE (((DecimalType.plain field).drop offset).take 4) ≤
                999999999) := by
            intro right
            cases test.mpr right
          simp only [if_true, wrong, false_and, if_false]
          rfl
      | false =>
          have right := test.mp above
          have rest := @induction (offset + 4)
            (push groups
              (signedBE (((DecimalType.plain field).drop offset).take 4)))
            (by omega)
          simp only [Bool.false_eq_true, if_false, next, right, true_and,
            and_self]
          rw [rest, last]

theorem powers10_eq {index : Nat} (small : index ≤ 9) :
    powers10 index = .ok (10 ^ index) := by
  have inside : 0 ≤ (index : Int) ∧ (index : Int) ≤ 9 := by omega
  rw [powers10, if_pos inside, Int.toNat_natCast]

theorem leadingGroup_eq {memory field : Bytes} {storage digits : Nat}
    (stored : Stored memory storage field)
    (room : storage + 4 ≤ memory.length) (few : digits < 9) (groups : Groups)
    (empty : groups.buf = [])
    (inside : DecimalType.groupBytes digits ≤ field.length) :
    let value := signedBE
      ((DecimalType.plain field).take (DecimalType.groupBytes digits))
    leadingGroup memory storage (DecimalType.isNegative field) digits storage
        groups =
      .ok (if 0 ≤ value ∧ value < 10 ^ (digits + 1) then
        some (groups.pushInteger digits value,
          storage + DecimalType.groupBytes digits)
      else none) := by
  intro value
  by_cases none : digits = 0
  · have zero : value = 0 := by simp [value, none, DecimalType.groupBytes]; rfl
    have same : groups.pushInteger 0 0 = groups := by
      cases groups with
      | mk buf toIntg =>
          subst empty
          simp [Groups.pushInteger]
    simp [leadingGroup, none, zero, same, DecimalType.groupBytes]
  · have bytes := DecimalType.groupBytes_le digits
    obtain ⟨x, read, unmasked⟩ := @readGroup_eq _ _ _ 0 _ stored room
      (DecimalType.groupBytes_pos none few) bytes (by omega)
    have bounds := @signedBE_int32
      ((DecimalType.plain field).take (DecimalType.groupBytes digits))
      (by simp only [List.length_take]; omega)
    have limit : powers10 (digits + 1) = .ok (10 ^ (digits + 1)) :=
      powers10_eq few
    have positive : (0 : Int) < 10 ^ (digits + 1) := by positivity
    have small : (10 : Int) ^ (digits + 1) ≤ 10 ^ 9 :=
      pow_le_pow_right₀ (by decide) few
    have test : 10 ^ (digits + 1) ≤ value % 18446744073709551616 ↔
        ¬(0 ≤ value ∧ value < 10 ^ (digits + 1)) := by
      generalize (10 : Int) ^ (digits + 1) = limit at *
      simp only [value]
      omega
    have some : (digits : Int) ≠ 0 := by exact_mod_cast none
    simp only [leadingGroup, if_neg some, DecimalType.dig2bytes_groupBytes few,
      Exec.ok_bind, Nat.add_zero] at read ⊢
    simp only [read, Exec.ok_bind, limit, unmasked, List.drop_zero]
    by_cases accepted : 0 ≤ value ∧ value < 10 ^ (digits + 1)
    · rw [if_pos accepted, if_neg (fun above => test.mp above accepted)]
      rfl
    · rw [if_neg accepted, if_pos (test.mpr accepted)]
      rfl

theorem whenOk_ite {α β : Type} (test : Prop) [Decidable test] (value : α)
    (next : α → Exec (Option β)) :
    whenOk (.ok (if test then some value else none)) next =
      if test then next value else .ok none := by
  by_cases passed : test
  · simp [whenOk, passed]
  · simp [whenOk, passed]

theorem trailingGroup_eq {memory field : Bytes} {storage offset digits : Nat}
    (stored : Stored memory storage field)
    (room : storage + 4 ≤ memory.length) (few : digits < 9) (groups : Groups)
    (inside : offset + DecimalType.groupBytes digits ≤ field.length) :
    let value := signedBE (((DecimalType.plain field).drop offset).take
      (DecimalType.groupBytes digits))
    let product := value * 10 ^ (9 - digits) % 4294967296
    trailingGroup memory storage (DecimalType.isNegative field) digits
        (storage + offset) groups =
      .ok (if product ≤ 999999999 then
        some (if digits = 0 then groups else groups.pushFraction product,
          storage + offset + DecimalType.groupBytes digits)
      else none) := by
  intro value product
  by_cases none : digits = 0
  · have zero : product = 0 := by
      simp [product, value, none, DecimalType.groupBytes]
      decide
    simp [trailingGroup, none, zero, DecimalType.groupBytes]
  · have bytes := DecimalType.groupBytes_le digits
    obtain ⟨x, read, unmasked⟩ := readGroup_eq stored room
      (DecimalType.groupBytes_pos none few) bytes inside
    have some : (digits : Int) ≠ 0 := by exact_mod_cast none
    have index : (9 - digits : Int) = (9 - digits : Nat) := by omega
    have factor : powers10 (9 - digits) = .ok (10 ^ (9 - digits)) := by
      rw [index]
      exact powers10_eq (Nat.sub_le 9 digits)
    have test : aboveDigMax ((value * 10 ^ (9 - digits)).bmod 4294967296) =
        decide (999999999 < product) := by
      have same := @Int.bmod_emod (value * 10 ^ (9 - digits)) 4294967296
      rw [aboveDigMax, show (4294967296 : Int) = (4294967296 : Nat) from rfl,
        same]
      rfl
    simp only [trailingGroup, if_neg some, DecimalType.dig2bytes_groupBytes few,
      Exec.ok_bind, read, unmasked, factor, if_neg none]
    by_cases accepted : product ≤ 999999999
    · have below : ¬999999999 < product := Int.not_lt.mpr accepted
      have kept : (value * 10 ^ (9 - digits)).bmod 4294967296 = product := by
        apply Int.bmod_eq_emod_of_lt
        have small : product < 1000000000 := by omega
        exact lt_trans small (by decide)
      rw [if_pos accepted, test, decide_eq_false below, kept]
      rfl
    · have above : 999999999 < product := Int.not_le.mp accepted
      rw [if_neg accepted, test, decide_eq_true above]
      rfl

end DecimalT

namespace DecimalType

open DecimalT

variable (type : DecimalType)

/-- The tests that every group of a field passes. -/
structure Accepted (field : Bytes) : Prop where
  leading : 0 ≤ type.leadingOf field ∧
    type.leadingOf field < 10 ^ (type.leadingDigits + 1)
  integers : ∀ value ∈ type.integersOf field, 0 ≤ value ∧ value ≤ 999999999
  fractions : ∀ value ∈ type.fractionsOf field, 0 ≤ value ∧ value ≤ 999999999
  trailing : type.trailingOf field * 10 ^ (9 - type.trailingDigits) %
    4294967296 ≤ 999999999

/-- The integer groups of a field, decoded. -/
def integerPart (field : Bytes) : Groups :=
  (type.integersOf field).foldl (fun groups => groups.pushInteger 9)
    (({ toIntg := type.integerDigits } : Groups).pushInteger
      type.leadingDigits (type.leadingOf field))

/-- All groups of a field, decoded. -/
def groupsOf (field : Bytes) : Groups :=
  let groups :=
    (type.fractionsOf field).foldl Groups.pushFraction (type.integerPart field)
  if type.trailingDigits = 0 then groups
  else
    groups.pushFraction
      (type.trailingOf field * 10 ^ (9 - type.trailingDigits) % 4294967296)

def decoded (field : Bytes) (toBufLen : Nat) : DecimalT where
  sign := isNegative field
  intg := (type.groupsOf field).toIntg
  frac := type.scale
  buf := (type.groupsOf field).buf
  len := toBufLen

theorem layout_eq :
    layout type.precision type.scale = .ok {
      skipped := 0, intg0 := type.integerGroups, intg0x := type.leadingDigits
      frac0 := type.fractionGroups, frac0x := type.trailingDigits } := by
  have precisionFits := type.precisionFits
  have scaleFits := type.scaleFits
  have scaleSmall := type.scaleSmall
  have difference : (type.precision - type.scale : Int) =
      (type.integerDigits : Nat) := by
    rw [integerDigits]
    omega
  have few : type.integerDigits ≤ 65 := by
    rw [integerDigits]
    omega
  simp only [layout, difference, CValue.tdiv_nine, CValue.sub_nine]
  rw [if_pos]
  · rfl
  · split
    · split
      · omega
      · omega
    · split
      · omega
      · omega

theorem length_pos : 0 < type.length := by
  have positive := type.positive
  have digits := type.integerDigits_eq
  have scale := type.scale_eq
  have leading := type.leadingDigits_lt
  have trailing := type.trailingDigits_lt
  have whole : type.integerDigits + type.scale = type.precision :=
    Nat.sub_add_cancel type.scaleFits
  by_cases front : type.leadingDigits = 0
  · by_cases back : type.trailingDigits = 0
    · rw [length]
      omega
    · have bytes : 0 < type.trailingBytes := groupBytes_pos back trailing
      rw [length]
      omega
  · have bytes : 0 < type.leadingBytes := groupBytes_pos front leading
    rw [length]
    omega

theorem isNegative_of_stored {memory field : Bytes} {storage : Nat}
    (stored : Stored memory storage field) (nonempty : 0 < field.length) :
    ∃ first, readByte memory storage = .ok first ∧
      decide (first.toNat < 128) = isNegative field := by
  cases field with
  | nil => cases nonempty
  | cons first rest => exact ⟨first, readByte_of_stored stored, rfl⟩

theorem initDecimal_eq {memory field : Bytes} {storage : Nat} (toBufLen : Nat)
    (stored : Stored memory storage field)
    (room : storage + 4 ≤ memory.length)
    (length : field.length = type.length) [Decidable (type.Accepted field)] :
    initDecimal toBufLen type.precision type.scale memory storage =
      .ok (if type.Accepted field then
        some (type.decoded field toBufLen, storage + type.length)
      else none) := by
  have nonempty : 0 < field.length := length ▸ type.length_pos
  obtain ⟨first, read, negative⟩ := isNegative_of_stored stored nonempty
  have whole : type.length = type.leadingBytes + 4 * type.integerGroups +
      4 * type.fractionGroups + type.trailingBytes := rfl
  have front : type.leadingBytes ≤ field.length := by omega
  have leading : ∀ groups : Groups, groups.buf = [] →
      leadingGroup memory storage (isNegative field) type.leadingDigits storage
          groups =
        .ok (if 0 ≤ type.leadingOf field ∧
            type.leadingOf field < 10 ^ (type.leadingDigits + 1) then
          some (groups.pushInteger type.leadingDigits (type.leadingOf field),
            storage + type.leadingBytes)
        else none) := fun groups empty =>
    leadingGroup_eq stored room type.leadingDigits_lt groups empty front
  have integers : ∀ groups : Groups,
      fullGroups (fun groups => groups.pushInteger 9) memory storage
          (isNegative field) type.integerGroups (storage + type.leadingBytes)
          groups =
        .ok (if ∀ value ∈ type.integersOf field,
            0 ≤ value ∧ value ≤ 999999999 then
          some ((type.integersOf field).foldl
              (fun groups => groups.pushInteger 9) groups,
            storage + (type.leadingBytes + 4 * type.integerGroups))
        else none) := fun groups =>
    fullGroups_eq stored room _ groups (by omega)
  have fractions : ∀ groups : Groups,
      fullGroups Groups.pushFraction memory storage (isNegative field)
          type.fractionGroups
          (storage + (type.leadingBytes + 4 * type.integerGroups)) groups =
        .ok (if ∀ value ∈ type.fractionsOf field,
            0 ≤ value ∧ value ≤ 999999999 then
          some ((type.fractionsOf field).foldl Groups.pushFraction groups,
            storage + (type.leadingBytes + 4 * type.integerGroups +
              4 * type.fractionGroups))
        else none) := fun groups =>
    fullGroups_eq stored room _ groups (by omega)
  have trailing : ∀ groups : Groups,
      trailingGroup memory storage (isNegative field) type.trailingDigits
          (storage + (type.leadingBytes + 4 * type.integerGroups +
            4 * type.fractionGroups)) groups =
        .ok (if type.trailingOf field * 10 ^ (9 - type.trailingDigits) %
            4294967296 ≤ 999999999 then
          some (if type.trailingDigits = 0 then groups
            else groups.pushFraction (type.trailingOf field *
              10 ^ (9 - type.trailingDigits) % 4294967296),
            storage + (type.leadingBytes + 4 * type.integerGroups +
              4 * type.fractionGroups) + type.trailingBytes)
        else none) := fun groups =>
    trailingGroup_eq stored room type.trailingDigits_lt groups
      (by rw [← trailingBytes]; omega)
  have toIntg : (type.integerGroups * 9 + type.leadingDigits : Int) =
      type.integerDigits := by
    have digits := type.integerDigits_eq
    omega
  have toFrac : (type.fractionGroups * 9 + type.trailingDigits : Int) =
      type.scale := by
    have digits := type.scale_eq
    omega
  have start : ((storage : Int) + 0).toNat = storage := by simp
  simp only [initDecimal, read, Exec.ok_bind, type.layout_eq, negative, toIntg,
    toFrac, start, Int.toNat_natCast]
  rw [leading _ rfl]
  simp only [whenOk_ite, integers, fractions, trailing]
  have last : storage + (type.leadingBytes + 4 * type.integerGroups +
      4 * type.fractionGroups) + type.trailingBytes = storage + type.length := by
    omega
  rw [last]
  by_cases accepted : type.Accepted field
  · rw [if_pos accepted, if_pos accepted.leading, if_pos accepted.integers,
      if_pos accepted.fractions, if_pos accepted.trailing]
    rfl
  · rw [if_neg accepted]
    split
    · rename_i first
      split
      · rename_i second
        split
        · rename_i third
          split
          · rename_i fourth
            exact absurd ⟨first, second, third, fourth⟩ accepted
          · rfl
        · rfl
      · rfl
    · rfl

end DecimalType

end MysqlSlave
