import MysqlSlave.IntegerColumns

/-!
# BIT columns

A server stores a BIT value with its high byte first.  `as_bit` is the reader of
integers, which takes the first byte for the low one and does not know five, six
or seven bytes.
-/

namespace MysqlSlave

open Region

namespace CValue

def asBit (self : CValue) (memory : Bytes) : Exec Nat := self.asUint64 memory

theorem asInt_of_unknown {value : CValue} {memory : Bytes} (width : Nat)
    (size : value.size ∉ [1, 2, 3, 4, 8]) :
    value.asInt width memory = .ok 0 := by
  unfold asInt
  split
  · rfl
  · rename_i reads
    simp only [Bool.or_eq_true, Bool.not_eq_true', not_or,
      Bool.not_eq_false] at reads
    obtain ⟨⟨_, valid⟩, _⟩ := reads
    simp only [isValid, Bool.and_eq_true] at valid
    obtain ⟨address, storage⟩ := Option.isSome_iff_exists.mp valid.2
    simp only [List.mem_cons, List.not_mem_nil, or_false, not_or] at size
    obtain ⟨one, two, three, four, eight⟩ := size
    simp only [pointer, storage, Exec.ok_bind]
    rfl

end CValue

/-- A value of a BIT column. -/
structure BitValue where
  width : Nat
  number : Nat
  least : 1 ≤ width
  most : width ≤ 64
  fits : number < 2 ^ width

namespace BitValue

def bytes (self : BitValue) : Nat := (self.width + 7) / 8

/-- The metadata of the column: whole bytes, and the bits left over. -/
def metadata (self : BitValue) : Nat :=
  self.width % 8 + 256 * (self.width / 8)

/-- The stored bytes, high byte first. -/
def encode (self : BitValue) : Bytes := bytesBE self.bytes self.number

/-- The bytes are the same in both orders, and it is not five to seven of them,
unless all are zero. -/
structure Mirrored (value : BitValue) : Prop where
  mirrored : value.encode.reverse = value.encode
  known : 33 ≤ value.width → value.width ≤ 56 → value.number = 0

variable {self : BitValue} {memory : Bytes} {pfield : Nat}

theorem calcFieldSize_bit (self : BitValue) (memory : Bytes) (pfield : Nat) :
    CValue.calcFieldSize .bit memory pfield self.metadata =
      .ok self.bytes := by
  have most := self.most
  have whole : self.metadata / 256 % 256 = self.width / 8 := by
    unfold metadata
    omega
  have left : self.metadata % 256 = self.width % 8 := by
    unfold metadata
    omega
  simp only [CValue.calcFieldSize, whole, left, bytes, Except.ok.injEq]
  split <;> omega

theorem number_lt (self : BitValue) : self.number < 256 ^ self.bytes := by
  have power : 256 ^ self.bytes = 2 ^ (8 * self.bytes) := by
    rw [Nat.pow_mul]
  rw [power]
  apply self.fits.trans_le
  apply Nat.pow_le_pow_right (by decide)
  unfold bytes
  omega

/-- The value `update_row` frames. -/
def framed (self : BitValue) (pfield : Nat) : CValue where
  type := .bit
  storage := some pfield
  size := self.bytes
  metadata := self.metadata
  null := false

theorem fieldAs_asBit (self : BitValue) (memory : Bytes) (pfield : Nat) :
    CValue.fieldAs CValue.asBit .bit memory pfield self.metadata =
      (self.framed pfield).asBit memory := by
  simp only [CValue.fieldAs, CValue.ofField, calcFieldSize_bit, Exec.ok_bind]
  rfl

/-- The reader of integers makes the number of the mirrored bytes. -/
theorem asBit_known (known : self.bytes ∈ [1, 2, 3, 4, 8])
    (stored : Stored memory pfield self.encode) :
    (self.framed pfield).asBit memory = .ok (littleEndian self.encode) := by
  have length : self.encode.length = self.bytes := bytesBE_length _ _
  have fits : littleEndian self.encode < 2 ^ 64 := by
    have below := littleEndian_lt self.encode
    have most := self.most
    have power : 256 ^ self.encode.length ≤ 256 ^ 8 := by
      apply Nat.pow_le_pow_right (by decide)
      rw [length, bytes]
      omega
    exact below.trans_le power
  have read : (self.framed pfield).asInt 64 memory =
      .ok (BitVec.ofNat 64 (littleEndian self.encode)) :=
    CValue.asInt_of_stored rfl rfl length.symm (by rwa [length])
      (Nat.le_refl 64) stored
  simp only [CValue.asBit, CValue.asUint64, CValue.asUnsigned, read,
    Exec.ok_bind, Exec.pure_eq_ok, BitVec.toNat_ofNat]
  rw [Nat.mod_eq_of_lt fits]

theorem asBit_unknown (unknown : self.bytes ∉ [1, 2, 3, 4, 8]) :
    (self.framed pfield).asBit memory = .ok 0 := by
  have read : (self.framed pfield).asInt 64 memory = .ok 0 :=
    CValue.asInt_of_unknown 64 unknown
  simp only [CValue.asBit, CValue.asUint64, CValue.asUnsigned, read,
    Exec.ok_bind, Exec.pure_eq_ok]
  rfl

theorem bytes_known_iff (self : BitValue) :
    self.bytes ∈ [1, 2, 3, 4, 8] ↔ ¬(33 ≤ self.width ∧ self.width ≤ 56) := by
  have least := self.least
  have most := self.most
  simp only [bytes, List.mem_cons, List.not_mem_nil, or_false]
  omega

theorem littleEndian_encode_iff (self : BitValue) :
    littleEndian self.encode = self.number ↔
      self.encode.reverse = self.encode := by
  have mirrored : littleEndian self.encode = bigEndian self.encode.reverse := by
    rw [bigEndian, List.reverse_reverse]
  have value : bigEndian self.encode = self.number :=
    bigEndian_bytesBE_of_lt self.number_lt
  rw [mirrored]
  constructor
  · intro same
    apply bigEndian_injective List.length_reverse
    rw [same, value]
  · intro same
    rw [same, value]

theorem reverse_encode_zero (zero : self.number = 0) :
    self.encode.reverse = self.encode := by
  have zeros : ∀ width, bytesLE width 0 = List.replicate width 0 := by
    intro width
    induction width with
    | zero => rfl
    | succ width induction =>
        rw [bytesLE, Nat.zero_div, induction]
        rfl
  rw [encode, bytesBE, zero, zeros, List.reverse_replicate,
    List.reverse_replicate]

/-- A BIT value is read back exactly if its bytes are mirrored. -/
theorem asBit_iff (stored : Stored memory pfield self.encode) :
    CValue.fieldAs CValue.asBit .bit memory pfield self.metadata =
        .ok self.number ↔ self.Mirrored := by
  rw [fieldAs_asBit]
  by_cases known : self.bytes ∈ [1, 2, 3, 4, 8]
  · have range := self.bytes_known_iff.mp known
    rw [asBit_known known stored, Except.ok.injEq, littleEndian_encode_iff]
    constructor
    · intro mirrored
      exact ⟨mirrored, fun low high => absurd ⟨low, high⟩ range⟩
    · intro mirrored
      exact mirrored.mirrored
  · have range := not_not.mp (mt self.bytes_known_iff.mpr known)
    rw [asBit_unknown known, Except.ok.injEq]
    constructor
    · intro zero
      exact ⟨reverse_encode_zero zero.symm, fun _ _ => zero.symm⟩
    · intro mirrored
      exact (mirrored.known range.1 range.2).symm

theorem oneByte_fits {number : Nat} (small : number < 256) :
    number < 2 ^ 8 := small

/-- A value of a BIT(8) column. -/
def oneByte (number : Nat) (small : number < 256) : BitValue where
  width := 8
  number := number
  least := Nat.le_add_left 1 7
  most := Nat.le_add_right 8 56
  fits := oneByte_fits small

theorem twoBytes_fits {number : Nat} (small : number < 512) :
    number < 2 ^ 9 := small

/-- A value of a BIT(9) column. -/
def twoBytes (number : Nat) (small : number < 512) : BitValue where
  width := 9
  number := number
  least := Nat.le_add_left 1 8
  most := Nat.le_add_right 9 55
  fits := twoBytes_fits small

theorem asBit_iff_oneByte :
    CValue.fieldAs CValue.asBit .bit [5] 0 (oneByte 5 (by decide)).metadata =
      .ok 5 := by
  have stored : Stored [5] 0 (oneByte 5 (by decide)).encode :=
    ⟨[], [], rfl, rfl⟩
  exact (asBit_iff stored).mpr ⟨rfl, fun low _ => absurd low (by decide)⟩

/-- The BIT(9) value 1 is read as 256. -/
theorem not_asBit_twoBytes :
    (twoBytes 1 (by decide)).encode = [0, 1] ∧
      CValue.fieldAs CValue.asBit .bit [0, 1] 0
        (twoBytes 1 (by decide)).metadata ≠
          .ok (twoBytes 1 (by decide)).number := by
  refine ⟨by decide, ?_⟩
  decide +kernel

end BitValue

end MysqlSlave
