import MysqlSlave.Lib.Region

/-!
# Bitmaps

A bitmap is a list of bits, the lowest bit of the first byte first.  It is stored
in the fewest bytes that hold it; the bits left over in the last byte are its
padding and carry no meaning.
-/

namespace Bitmap

open Region

/-- The number with these bits. -/
def value : List Bool → Nat
  | [] => 0
  | bit :: bits => bit.toNat + 2 * value bits

/-- The lowest bits of a number. -/
def ofNumber : Nat → Nat → List Bool
  | 0, _ => []
  | width + 1, number => (number % 2 == 1) :: ofNumber width (number / 2)

/-- How many of the lowest bits of a number are set. -/
def ones (width number : Nat) : Nat := (ofNumber width number).count true

/-- The number of bytes that hold `width` bits. -/
def byteCount (width : Nat) : Nat := (width + 7) / 8

/-- The stored form of `bits`, with `padding` in the bits left over. -/
def encode (bits padding : List Bool) : Bytes :=
  bytesLE (byteCount bits.length) (value (bits ++ padding))

/-- `padding` has room in the last byte. -/
def Pads (bits padding : List Bool) : Prop :=
  (bits ++ padding).length ≤ 8 * byteCount bits.length

instance (bits padding : List Bool) : Decidable (Pads bits padding) :=
  inferInstanceAs (Decidable (_ ≤ _))

@[simp] theorem value_nil : value [] = 0 := rfl

@[simp] theorem value_cons (bit : Bool) (bits : List Bool) :
    value (bit :: bits) = bit.toNat + 2 * value bits := rfl

theorem value_lt (bits : List Bool) : value bits < 2 ^ bits.length := by
  induction bits with
  | nil => simp
  | cons bit bits induction =>
      have low : bit.toNat < 2 := Bool.toNat_lt bit
      simp only [value_cons, List.length_cons, Nat.pow_succ]
      omega

theorem value_half (bit : Bool) (bits : List Bool) :
    value (bit :: bits) / 2 = value bits := by
  have low : bit.toNat < 2 := Bool.toNat_lt bit
  simp only [value_cons]
  omega

theorem testBit_value (bits : List Bool) (i : Nat) :
    (value bits).testBit i = bits.getD i false := by
  induction bits generalizing i with
  | nil => simp
  | cons bit bits induction =>
      cases i with
      | zero => cases bit <;> simp [Nat.testBit_zero]
      | succ i =>
          rw [Nat.testBit_succ, value_half, induction]
          rfl

theorem count_of_value_zero {bits : List Bool} (zero : value bits = 0) :
    bits.count true = 0 := by
  induction bits with
  | nil => rfl
  | cons bit bits induction =>
      cases bit with
      | true => simp at zero
      | false =>
          have rest : value bits = 0 := by simpa using zero
          simp [induction rest]

@[simp] theorem ofNumber_length (width number : Nat) :
    (ofNumber width number).length = width := by
  induction width generalizing number with
  | zero => rfl
  | succ width induction => simp [ofNumber, induction]

theorem value_ofNumber {width number : Nat} (fits : number < 2 ^ width) :
    value (ofNumber width number) = number := by
  induction width generalizing number with
  | zero =>
      have zero : number = 0 := by simpa using fits
      rw [zero]
      rfl
  | succ width induction =>
      have half : number / 2 < 2 ^ width := by
        rw [Nat.pow_succ] at fits
        omega
      rw [ofNumber, value_cons, induction half]
      by_cases odd : number % 2 = 1
      · simp only [odd, beq_self_eq_true, Bool.toNat_true]
        omega
      · have even : (number % 2 == 1) = false := by simpa using odd
        rw [even, Bool.toNat_false]
        omega

theorem ones_of_lt {width wider number : Nat} (fits : number < 2 ^ width)
    (le : width ≤ wider) : ones wider number = ones width number := by
  induction width generalizing number wider with
  | zero =>
      have zero : number = 0 := by simpa using fits
      subst zero
      have nothing : value (ofNumber wider 0) = 0 :=
        value_ofNumber (Nat.two_pow_pos wider)
      exact count_of_value_zero nothing
  | succ width induction =>
      have half : number / 2 < 2 ^ width := by
        rw [Nat.pow_succ] at fits
        omega
      cases wider with
      | zero => omega
      | succ wider =>
          have rest := induction half (Nat.le_of_succ_le_succ le)
          simp only [ones, ofNumber, List.count_cons] at rest ⊢
          rw [rest]

theorem ones_add {low number : Nat} (high rest : Nat)
    (fits : number < 2 ^ low) :
    ones (low + high) (number + 2 ^ low * rest) =
      ones low number + ones high rest := by
  induction low generalizing number with
  | zero =>
      have zero : number = 0 := by simpa using fits
      simp [zero, ones, ofNumber]
  | succ low induction =>
      rw [Nat.pow_succ] at fits
      have later := induction (show number / 2 < 2 ^ low by omega)
      have split : number + 2 ^ (low + 1) * rest =
          number + 2 * (2 ^ low * rest) := by
        rw [Nat.pow_succ]
        ring
      have half : (number + 2 * (2 ^ low * rest)) / 2 =
          number / 2 + 2 ^ low * rest := by omega
      have bit : (number + 2 * (2 ^ low * rest)) % 2 = number % 2 := by omega
      simp only [ones] at later
      rw [split, Nat.add_right_comm low 1 high]
      simp only [ones, ofNumber, List.count_cons, half, bit, later]
      omega

theorem ones_eq_zero {width number : Nat} (fits : number < 2 ^ width)
    (none : ones width number = 0) : number = 0 := by
  induction width generalizing number with
  | zero => simpa using fits
  | succ width induction =>
      rw [Nat.pow_succ] at fits
      simp only [ones, ofNumber, List.count_cons] at none
      have half : number / 2 = 0 :=
        induction (by omega) (show (ofNumber width (number / 2)).count true = 0
          by omega)
      by_cases odd : number % 2 = 1
      · simp [odd] at none
      · omega

theorem byteCount_mono {left right : Nat} (le : left ≤ right) :
    byteCount left ≤ byteCount right := by
  unfold byteCount
  omega

/-- Widths between `width` and the last bit of its last byte need as many
bytes. -/
theorem byteCount_eq {width wider : Nat} (le : width ≤ wider)
    (fits : wider ≤ 8 * byteCount width) :
    byteCount wider = byteCount width := by
  unfold byteCount at *
  omega

@[simp] theorem encode_length (bits padding : List Bool) :
    (encode bits padding).length = byteCount bits.length := by
  simp [encode]

theorem littleEndian_encode {bits padding : List Bool}
    (pads : Pads bits padding) :
    littleEndian (encode bits padding) = value (bits ++ padding) := by
  refine littleEndian_bytesLE_of_lt ?_
  calc
    value (bits ++ padding) < 2 ^ (bits ++ padding).length := value_lt _
    _ ≤ 2 ^ (8 * byteCount bits.length) :=
      Nat.pow_le_pow_right (by omega) pads
    _ = 256 ^ byteCount bits.length := by rw [Nat.pow_mul]

end Bitmap
