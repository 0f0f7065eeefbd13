import MysqlSlave.Lib.Bitmap
import MysqlSlave.LogEvent

/-!
# Column masks of a rows event

`build_column_mask` reads a bitmap, and `update_n1bits` packs the number of its
bits on top of it.  Unpacking gives back the number and, below the top byte, the
bits of the bitmap.
-/

namespace MysqlSlave

open Region

namespace CRowLogEvent

/-- The bits of a mask that carry columns. -/
def columnBits : BitVec 64 := 0x00FFFFFFFFFFFFFF#64

theorem getLsbD_columnBits (i : Nat) :
    columnBits.getLsbD i = decide (i < 56) := by
  have ones : columnBits = BitVec.ofNat 64 (2 ^ 56 - 1) := rfl
  rw [ones, BitVec.getLsbD_ofNat, Nat.testBit_two_pow_sub_one]
  by_cases inside : i < 56
  · simp [inside]
    omega
  · simp [inside]

theorem countBits_le (rounds : Nat) (mask : BitVec 64) (nbits : Nat) :
    countBits rounds mask nbits ≤ nbits + rounds := by
  induction rounds generalizing mask nbits with
  | zero => simp [countBits]
  | succ rounds induction =>
      have counted :
          (if mask.getLsbD 0 then nbits + 1 else nbits) ≤ nbits + 1 := by
        split <;> omega
      have later := induction (mask >>> 1)
        (if mask.getLsbD 0 then nbits + 1 else nbits)
      simp only [countBits]
      split <;> omega

theorem countBits_value {rounds : Nat} {bits : List Bool} (nbits : Nat)
    (enough : bits.length ≤ rounds) (small : bits.length ≤ 64) :
    countBits rounds (BitVec.ofNat 64 (Bitmap.value bits)) nbits =
      nbits + bits.count true := by
  induction rounds generalizing bits nbits with
  | zero =>
      have none : bits = [] := List.length_eq_zero_iff.mp (by omega)
      simp [none, countBits]
  | succ rounds induction =>
      cases bits with
      | nil => simp [countBits]
      | cons bit bits =>
          have first : (BitVec.ofNat 64
              (Bitmap.value (bit :: bits))).getLsbD 0 = bit := by
            rw [BitVec.getLsbD_ofNat, Bitmap.testBit_value]
            simp
          have below : Bitmap.value (bit :: bits) < 2 ^ 64 :=
            (Bitmap.value_lt _).trans_le
              (Nat.pow_le_pow_right (by omega) small)
          have shifted : BitVec.ofNat 64 (Bitmap.value (bit :: bits)) >>> 1 =
              BitVec.ofNat 64 (Bitmap.value bits) := by
            apply BitVec.eq_of_toNat_eq
            rw [BitVec.toNat_ushiftRight, BitVec.toNat_ofNat,
              Nat.mod_eq_of_lt below, Nat.shiftRight_eq_div_pow,
              Nat.pow_one, Bitmap.value_half, BitVec.toNat_ofNat]
            have := Bitmap.value_half bit bits
            omega
          have counted : (if bit then nbits + 1 else nbits) +
              bits.count true = nbits + (bit :: bits).count true := by
            cases bit with
            | false => simp
            | true =>
                simp
                omega
          simp only [countBits, first, shifted]
          split
          case isTrue zero =>
            have restZero : Bitmap.value bits = 0 := by
              have same := congrArg BitVec.toNat zero
              have := Bitmap.value_half bit bits
              simp only [BitVec.toNat_ofNat, BitVec.ofNat_eq_ofNat] at same
              omega
            rw [← counted, Bitmap.count_of_value_zero restZero]
            simp
          case isFalse =>
            rw [induction _ (by simpa using enough)
              (by simp at small; omega)]
            exact counted

theorem updateN1bits_mask (mask : BitVec 64) :
    updateN1bits mask &&& columnBits = mask &&& columnBits := by
  apply BitVec.eq_of_getLsbD_eq
  intro i inside
  simp only [updateN1bits, BitVec.getLsbD_and, BitVec.getLsbD_or,
    BitVec.getLsbD_shiftLeft, getLsbD_columnBits]
  have ones := getLsbD_columnBits i
  simp only [columnBits] at ones
  rw [ones]
  by_cases low : i < 56 <;> simp [low]

theorem updateN1bits_bit (mask : BitVec 64) {i : Nat} (low : i < 56) :
    (updateN1bits mask).getLsbD i = mask.getLsbD i := by
  have same := congrArg (fun bits => bits.getLsbD i) (updateN1bits_mask mask)
  simpa only [BitVec.getLsbD_and, getLsbD_columnBits, low, decide_true,
    Bool.and_true] using same

-- the accessors keep all 64 bits, the number of columns in the top byte too
theorem and_sixteenFs (packed : BitVec 64) :
    packed &&& 0x00FFFFFFFFFFFFFFFF#64 = packed := by
  have ones : 0x00FFFFFFFFFFFFFFFF#64 = BitVec.allOnes 64 := rfl
  rw [ones, BitVec.and_allOnes]

theorem usedColumnsMask_eq (self : CRowLogEvent) :
    self.usedColumnsMask = self.packedUsedColumns :=
  and_sixteenFs _

theorem usedColumnsAfterimageMask_eq (self : CRowLogEvent) :
    self.usedColumnsAfterimageMask = self.packedUsedColumnsAfterimage :=
  and_sixteenFs _

theorem updateN1bits_count (mask : BitVec 64) :
    (updateN1bits mask >>> (64 - 8)).toNat = countBits 64 mask 0 := by
  have small := countBits_le 64 mask 0
  have same : updateN1bits mask >>> (64 - 8) =
      BitVec.ofNat 64 (countBits 64 mask 0) := by
    apply BitVec.eq_of_getLsbD_eq
    intro i inside
    have ones := getLsbD_columnBits (56 + i)
    simp only [columnBits] at ones
    have high : ¬(56 + i < 56) := by omega
    by_cases low : i < 8
    · have fits : 56 + i < 64 := by omega
      simp only [updateN1bits, BitVec.getLsbD_ushiftRight,
        BitVec.getLsbD_or, BitVec.getLsbD_and, ones, high,
        BitVec.getLsbD_shiftLeft]
      simp [fits]
    · have fits : ¬(56 + i < 64) := by omega
      have out : (countBits 64 mask 0).testBit i = false := by
        apply Nat.testBit_lt_two_pow
        calc
          countBits 64 mask 0 < 2 ^ 8 := by omega
          _ ≤ 2 ^ i := Nat.pow_le_pow_right (by omega) (by omega)
      rw [BitVec.getLsbD_ushiftRight, BitVec.getLsbD_of_ge _ _ (by omega),
        BitVec.getLsbD_ofNat, out, Bool.and_false]
  rw [same, BitVec.toNat_ofNat]
  omega

theorem and_columnBits_of_lt {value : Nat} (small : value < 2 ^ 56) :
    BitVec.ofNat 64 value &&& columnBits = BitVec.ofNat 64 value := by
  apply BitVec.eq_of_getLsbD_eq
  intro i inside
  rw [BitVec.getLsbD_and, getLsbD_columnBits, BitVec.getLsbD_ofNat]
  by_cases low : i < 56
  · simp [low]
  · have out : value.testBit i = false := by
      apply Nat.testBit_lt_two_pow
      exact small.trans_le (Nat.pow_le_pow_right (by omega) (by omega))
    simp [out]

theorem mask_ne_error {number : Nat} (small : number < 256 ^ 6) :
    BitVec.ofNat 64 number ≠ -1 := by
  intro wrong
  have value := congrArg BitVec.toNat wrong
  rw [BitVec.toNat_ofNat] at value
  have minusOne : (-1 : BitVec 64).toNat = 18446744073709551615 := by simp
  rw [minusOne] at value
  omega

/-- The number of bytes `build_column_mask` takes for `n` columns. -/
theorem buildColumnMask_of_stored {memory nulls : Bytes} {ptr len n : Nat}
    (stored : Stored memory ptr nulls)
    (length : nulls.length = Bitmap.byteCount n)
    (some : 1 ≤ n) (few : n ≤ 48) :
    buildColumnMask memory ptr len n =
      .ok ⟨BitVec.ofNat 64 (littleEndian nulls), ptr + nulls.length,
        sizeSub len nulls.length⟩ := by
  have bytes : (n + 7) % 18446744073709551616 / 8 % 256 = nulls.length := by
    rw [length, Bitmap.byteCount]
    omega
  have range : 1 ≤ nulls.length ∧ nulls.length ≤ 6 := by
    rw [length, Bitmap.byteCount]
    omega
  simp only [buildColumnMask, bytes, range, and_self, if_true,
    readLE_of_stored stored, Exec.ok_bind, Exec.pure_eq_ok]

theorem buildColumnMask_eq_ok {memory : Bytes} {ptr len n : Nat}
    {built : ColumnMask} (some : 1 ≤ n) (few : n ≤ 48)
    (run : buildColumnMask memory ptr len n = .ok built) :
    ∃ mask, readLE memory ptr (Bitmap.byteCount n) = .ok mask ∧
      built = ⟨BitVec.ofNat 64 mask, ptr + Bitmap.byteCount n,
        sizeSub len (Bitmap.byteCount n)⟩ := by
  have bytes : (n + 7) % 18446744073709551616 / 8 % 256 =
      Bitmap.byteCount n := by
    rw [Bitmap.byteCount]
    omega
  have range : 1 ≤ Bitmap.byteCount n ∧ Bitmap.byteCount n ≤ 6 := by
    rw [Bitmap.byteCount]
    omega
  simp only [buildColumnMask, bytes, range, and_self, if_true] at run
  obtain ⟨mask, read, result⟩ := Exec.bind_eq_ok.mp run
  cases result
  exact ⟨mask, read, rfl⟩

end CRowLogEvent

end MysqlSlave
