import Mathlib.Tactic.Linarith
import MysqlSlave.Lib.BigEndian

/-!
# Signed big-endian numbers

Two's complement numbers of any number of bytes, the complement of every byte,
and the flip of the first bit that makes signed numbers sort as unsigned ones.
-/

namespace Region

/-- The two's complement value of big-endian bytes. -/
def signedBE (bytes : Bytes) : Int :=
  if 2 * bigEndian bytes < 256 ^ bytes.length then bigEndian bytes
  else bigEndian bytes - 256 ^ bytes.length

/-- Every byte inverted. -/
def complement (bytes : Bytes) : Bytes := bytes.map (~~~ ·)

/-- The top bit of the first byte flipped. -/
def flipFirst : Bytes → Bytes
  | [] => []
  | byte :: rest => (byte ^^^ 128) :: rest

@[simp] theorem complement_length (bytes : Bytes) :
    (complement bytes).length = bytes.length := by
  simp [complement]

@[simp] theorem complement_complement (bytes : Bytes) :
    complement (complement bytes) = bytes := by
  simp [complement, Function.comp_def]

@[simp] theorem flipFirst_length (bytes : Bytes) :
    (flipFirst bytes).length = bytes.length := by
  cases bytes with
  | nil => rfl
  | cons byte rest => rfl

@[simp] theorem flipFirst_flipFirst (bytes : Bytes) :
    flipFirst (flipFirst bytes) = bytes := by
  cases bytes with
  | nil => rfl
  | cons byte rest =>
      have same : byte ^^^ 128 ^^^ 128 = byte := by
        rw [UInt8.xor_assoc, UInt8.xor_self, UInt8.xor_zero]
      rw [flipFirst, flipFirst, same]

theorem flipFirst_take (bytes : Bytes) (count : Nat) :
    (flipFirst bytes).take count = flipFirst (bytes.take count) := by
  cases bytes with
  | nil => simp [flipFirst]
  | cons byte rest =>
      cases count with
      | zero => rfl
      | succ count => rfl

theorem flipFirst_drop (bytes : Bytes) {count : Nat} (positive : 0 < count) :
    (flipFirst bytes).drop count = bytes.drop count := by
  cases bytes with
  | nil => simp [flipFirst]
  | cons byte rest =>
      cases count with
      | zero => cases positive
      | succ count => rfl

theorem toNat_flip (byte : UInt8) :
    (byte ^^^ 128).toNat = (byte.toNat + 128) % 256 := by
  have bits : ∀ value < 256, value ^^^ 128 = (value + 128) % 256 := by
    decide +kernel
  rw [UInt8.toNat_xor]
  exact bits byte.toNat byte.toNat_lt

theorem bigEndian_complement (bytes : Bytes) :
    bigEndian (complement bytes) + bigEndian bytes + 1 =
      256 ^ bytes.length := by
  induction bytes with
  | nil => rfl
  | cons byte rest induction =>
      have inverted : (~~~byte).toNat = 255 - byte.toNat := by simp
      have small := byte.toNat_lt
      have cover : 255 - byte.toNat + byte.toNat = 255 := by omega
      have tail : (complement rest).length = rest.length := by simp
      have unfolded : complement (byte :: rest) = ~~~byte :: complement rest :=
        rfl
      rw [unfolded, bigEndian_cons, bigEndian_cons, tail, inverted,
        List.length_cons, Nat.pow_succ]
      calc
        (255 - byte.toNat) * 256 ^ rest.length + bigEndian (complement rest) +
              (byte.toNat * 256 ^ rest.length + bigEndian rest) + 1
            = (255 - byte.toNat + byte.toNat) * 256 ^ rest.length +
                (bigEndian (complement rest) + bigEndian rest + 1) := by ring
        _ = 256 ^ rest.length * 256 := by
          rw [cover, induction]
          ring

/-- Inverting every byte is `-1 - ·` on the value. -/
theorem signedBE_complement {bytes : Bytes} (nonempty : bytes ≠ []) :
    signedBE (complement bytes) = -signedBE bytes - 1 := by
  have whole := bigEndian_complement bytes
  have length : 0 < bytes.length := List.length_pos_iff.mpr nonempty
  obtain ⟨half, even⟩ : ∃ half, 256 ^ bytes.length = 2 * half := by
    obtain ⟨count, count_eq⟩ := Nat.exists_eq_succ_of_ne_zero length.ne'
    refine ⟨128 * 256 ^ count, ?_⟩
    rw [count_eq, Nat.pow_succ]
    ring
  have cast : (256 : Int) ^ bytes.length = 2 * half := by
    exact_mod_cast even
  simp only [signedBE, complement_length, cast]
  rw [even] at whole ⊢
  by_cases low : 2 * bigEndian bytes < 2 * half
  · have high : ¬2 * bigEndian (complement bytes) < 2 * half := by omega
    rw [if_pos low, if_neg high]
    omega
  · have high : 2 * bigEndian (complement bytes) < 2 * half := by omega
    rw [if_neg low, if_pos high]
    omega

theorem signedBE_of_small {bytes : Bytes}
    (small : 2 * bigEndian bytes < 256 ^ bytes.length) :
    signedBE bytes = bigEndian bytes := by
  rw [signedBE, if_pos small]

theorem bigEndian_of_nonneg {bytes : Bytes} (nonneg : 0 ≤ signedBE bytes) :
    signedBE bytes = bigEndian bytes := by
  by_cases small : 2 * bigEndian bytes < 256 ^ bytes.length
  · exact signedBE_of_small small
  · have fits : (bigEndian bytes : Int) < 256 ^ bytes.length := by
      exact_mod_cast bigEndian_lt bytes
    rw [signedBE, if_neg small] at nonneg
    omega

theorem signedBE_bytesBE {width value : Nat}
    (small : 2 * value < 256 ^ width) :
    signedBE (bytesBE width value) = value := by
  have fits : bigEndian (bytesBE width value) = value := by
    apply bigEndian_bytesBE_of_lt
    omega
  rw [signedBE_of_small]
  · rw [fits]
  · rw [fits, bytesBE_length]
    exact small

theorem signedBE_bounds (bytes : Bytes) :
    -256 ^ bytes.length ≤ 2 * signedBE bytes ∧
      2 * signedBE bytes < 256 ^ bytes.length := by
  have fits : (bigEndian bytes : Int) < 256 ^ bytes.length := by
    exact_mod_cast bigEndian_lt bytes
  by_cases small : 2 * bigEndian bytes < 256 ^ bytes.length
  · have below : 2 * (bigEndian bytes : Int) < 256 ^ bytes.length := by
      exact_mod_cast small
    rw [signedBE, if_pos small]
    constructor
    · linarith
    · exact below
  · have above : (256 : Int) ^ bytes.length ≤ 2 * bigEndian bytes := by
      exact_mod_cast Nat.le_of_not_lt small
    rw [signedBE, if_neg small]
    constructor
    · linarith
    · linarith

/-- The top bit of the first byte is the sign. -/
theorem signedBE_small_iff {byte : UInt8} {rest : Bytes} :
    2 * bigEndian (byte :: rest) < 256 ^ (rest.length + 1) ↔
      byte.toNat < 128 := by
  have tail := bigEndian_lt rest
  rw [bigEndian_cons, Nat.pow_succ]
  constructor
  · intro small
    by_contra high
    have enough : 128 * 256 ^ rest.length ≤
        byte.toNat * 256 ^ rest.length :=
      Nat.mul_le_mul_right _ (Nat.le_of_not_lt high)
    omega
  · intro low
    have enough : (byte.toNat + 1) * 256 ^ rest.length ≤
        128 * 256 ^ rest.length :=
      Nat.mul_le_mul_right _ low
    rw [Nat.succ_mul] at enough
    omega

/-- The bits of a signed number, taken for a number of more bits: only a number
that is not negative stays the same. -/
theorem toInt_ofNat_emod {narrow wide : Nat} {number : Int}
    (low : -2 ^ narrow ≤ 2 * number)
    (high : 2 * number < 2 ^ narrow)
    (wider : narrow ≤ wide) :
    (BitVec.ofNat wide (number % 2 ^ narrow).toNat).toInt = number ↔
      (narrow < wide → 0 ≤ number) := by
  have positive : (0 : Int) < 2 ^ narrow := by positivity
  have nonneg := Int.emod_nonneg number positive.ne'
  have below := Int.emod_lt_of_pos number positive
  have cast : ((number % 2 ^ narrow).toNat : Int) = number % 2 ^ narrow :=
    Int.toNat_of_nonneg nonneg
  have modulus : ∀ width : Nat, ((2 ^ width : Nat) : Int) = 2 ^ width :=
    fun width => by push_cast; rfl
  rw [BitVec.toInt_ofNat', cast]
  rcases wider.eq_or_lt with rfl | more
  · have same : number.bmod (2 ^ narrow) = number := by
      apply Int.bmod_eq_of_le_mul_two
      · rw [modulus]
        omega
      · rw [modulus]
        omega
    rw [← modulus, Int.emod_bmod, same]
    simp
  · have room : 2 * (2 : Int) ^ narrow ≤ 2 ^ wide := by
      rw [← pow_succ']
      exact pow_le_pow_right₀ (by decide) more
    have same : (number % 2 ^ narrow).bmod (2 ^ wide) =
        number % 2 ^ narrow := by
      apply Int.bmod_eq_of_le_mul_two
      · rw [modulus]
        omega
      · rw [modulus]
        omega
    rw [same]
    constructor
    · intro kept _
      omega
    · intro sign
      exact Int.emod_eq_of_lt (sign more) (by omega)

end Region
