import MysqlSlave.Lib.Region

/-!
# Big-endian numbers

Numbers whose first byte is the high one, as the mirror image of little-endian
numbers, so that every fact about them follows from the one about the other.
-/

namespace Region

/-- The value of big-endian bytes. -/
def bigEndian (bytes : Bytes) : Nat := littleEndian bytes.reverse

/-- The `width` big-endian bytes of `value`. -/
def bytesBE (width value : Nat) : Bytes := (bytesLE width value).reverse

/-- `width` bytes from `address` on, high byte first. -/
def readBE (memory : Bytes) (address width : Nat) : Exec Nat := do
  let bytes ← readBytes memory address width
  return bigEndian bytes

@[simp] theorem bytesBE_length (width value : Nat) :
    (bytesBE width value).length = width := by
  simp [bytesBE]

theorem bigEndian_bytesBE (width value : Nat) :
    bigEndian (bytesBE width value) = value % 256 ^ width := by
  rw [bigEndian, bytesBE, List.reverse_reverse, littleEndian_bytesLE]

theorem bigEndian_bytesBE_of_lt {width value : Nat}
    (small : value < 256 ^ width) :
    bigEndian (bytesBE width value) = value := by
  rw [bigEndian_bytesBE, Nat.mod_eq_of_lt small]

theorem bigEndian_lt (bytes : Bytes) :
    bigEndian bytes < 256 ^ bytes.length := by
  rw [bigEndian, ← List.length_reverse]
  exact littleEndian_lt bytes.reverse

theorem bytesLE_littleEndian (bytes : Bytes) :
    bytesLE bytes.length (littleEndian bytes) = bytes := by
  induction bytes with
  | nil => rfl
  | cons byte rest induction =>
      have low : UInt8.ofNat (byte.toNat + 256 * littleEndian rest) = byte := by
        apply UInt8.toNat_inj.mp
        have small := byte.toNat_lt
        simp
      have high : (byte.toNat + 256 * littleEndian rest) / 256 =
          littleEndian rest := by
        have small := byte.toNat_lt
        omega
      rw [List.length_cons, littleEndian_cons, bytesLE, low, high, induction]

theorem bytesBE_bigEndian (bytes : Bytes) :
    bytesBE bytes.length (bigEndian bytes) = bytes := by
  have mirrored := bytesLE_littleEndian bytes.reverse
  rw [List.length_reverse] at mirrored
  rw [bytesBE, bigEndian, mirrored, List.reverse_reverse]

theorem bigEndian_injective {left right : Bytes}
    (sameLength : left.length = right.length)
    (sameValue : bigEndian left = bigEndian right) : left = right := by
  rw [← bytesBE_bigEndian left, ← bytesBE_bigEndian right, sameLength,
    sameValue]

theorem bigEndian_cons (byte : UInt8) (rest : Bytes) :
    bigEndian (byte :: rest) =
      byte.toNat * 256 ^ rest.length + bigEndian rest := by
  rw [bigEndian, List.reverse_cons, littleEndian_append, List.length_reverse]
  simp only [littleEndian_cons, littleEndian_nil, bigEndian]
  ring

theorem readBE_of_stored {memory : Bytes} {address : Nat} {bytes : Bytes}
    (stored : Stored memory address bytes) :
    readBE memory address bytes.length = .ok (bigEndian bytes) := by
  simp [readBE, readBytes_of_stored stored]

theorem readBE_bytesBE {memory : Bytes} {address width value : Nat}
    (small : value < 256 ^ width)
    (stored : Stored memory address (bytesBE width value)) :
    readBE memory address width = .ok value := by
  have read := readBE_of_stored stored
  rwa [bytesBE_length, bigEndian_bytesBE_of_lt small] at read

end Region
