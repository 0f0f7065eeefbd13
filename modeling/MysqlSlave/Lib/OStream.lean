import MysqlSlave.Lib.DecimalText

/-!
# Formatted output

A `std::ostream` as far as `std::hex`, `std::setfill` and `std::setw` go.  Base and
fill character stay until they are changed; the width is for one insertion.
-/

open Region

/-- The digits of a number, as characters. -/
def numeral (base number : Nat) : Bytes :=
  (Nat.toDigits base number).map fun digit => .ofNat digit.toNat

/-- A number with its sign. -/
def signedText (number : Int) : Bytes :=
  if number < 0 then 45 :: decimalText number.natAbs
  else decimalText number.toNat

/-- The flags of a stream. -/
structure OStream where
  hex : Bool := false
  fill : UInt8 := 32
  width : Nat := 0
  deriving DecidableEq, Repr

/-- What is inserted into a stream: a manipulator, a string or an integer of 64
bits. -/
inductive Insertion
  | hex
  | setfill (fill : UInt8)
  | setw (width : Nat)
  | text (text : Bytes)
  | number (number : Int)
  deriving DecidableEq, Repr

namespace OStream

def padded (self : OStream) (text : Bytes) : Bytes :=
  List.replicate (self.width - text.length) self.fill ++ text

/-- An integer in the base of the stream; in hexadecimal it has no sign. -/
def numberText (self : OStream) (number : Int) : Bytes :=
  if self.hex then numeral 16 (number % 2 ^ 64).toNat else signedText number

/-- `operator<<`: what is written, and the stream behind it. -/
def insert (self : OStream) : Insertion → Bytes × OStream
  | .hex => ([], { self with hex := true })
  | .setfill fill => ([], { self with fill })
  | .setw width => ([], { self with width })
  | .text text => (self.padded text, { self with width := 0 })
  | .number number =>
      (self.padded (self.numberText number), { self with width := 0 })

/-- A chain of insertions. -/
def insertAll (self : OStream) : List Insertion → Bytes × OStream
  | [] => ([], self)
  | insertion :: insertions =>
      let (front, next) := self.insert insertion
      let (back, last) := next.insertAll insertions
      (front ++ back, last)

theorem padded_zero {self : OStream} (narrow : self.width = 0) (text : Bytes) :
    self.padded text = text := by
  rw [padded, narrow, Nat.zero_sub, List.replicate_zero, List.nil_append]

theorem insertAll_texts {self : OStream} (narrow : self.width = 0)
    (texts : List Bytes) :
    self.insertAll (texts.map .text) = (texts.flatten, self) := by
  induction texts with
  | nil => rfl
  | cons text texts induction =>
      have same : ({ self with width := 0 } : OStream) = self := by
        rw [← narrow]
      simp only [List.map_cons, insertAll, insert, padded_zero narrow, same,
        induction, List.flatten_cons]

theorem insertAll_number {self : OStream} (narrow : self.width = 0)
    (number : Int) :
    self.insertAll [.number number] = (self.numberText number, self) := by
  have same : ({ self with width := 0 } : OStream) = self := by rw [← narrow]
  simp only [insertAll, insert, padded_zero narrow, same, List.append_nil]

end OStream

section Numerals

variable {base number : Nat}

/-- The character of a digit. -/
def digitByte (digit : Nat) : UInt8 := .ofNat digit.digitChar.toNat

theorem digitByte_injective : ∀ left < 16, ∀ right < 16,
    digitByte left = digitByte right → left = right := by
  decide

theorem digitByte_ne_minus : ∀ digit < 16, digitByte digit ≠ 45 := by
  decide

theorem numeral_of_lt (small : number < base) :
    numeral base number = [digitByte number] := by
  rw [numeral, Nat.toDigits_of_lt_base small]
  rfl

theorem numeral_of_le (more : 1 < base) (large : base ≤ number) :
    numeral base number =
      numeral base (number / base) ++ [digitByte (number % base)] := by
  rw [numeral, Nat.toDigits_of_base_le more large, List.map_append]
  rfl

theorem numeral_ne_nil : numeral base number ≠ [] := by
  rw [numeral, ne_eq, List.map_eq_nil_iff]
  exact Nat.toDigits_ne_nil

theorem minus_not_mem_numeral (number : Nat) : 45 ∉ numeral 16 number := by
  induction number using Nat.strongRecOn with
  | ind number induction =>
      by_cases small : number < 16
      · rw [numeral_of_lt small, List.mem_singleton]
        exact (digitByte_ne_minus number small).symm
      · rw [numeral_of_le (by decide) (not_lt.mp small), List.mem_append,
          List.mem_singleton, not_or]
        have last := digitByte_ne_minus (number % 16)
          (Nat.mod_lt _ (by decide))
        exact ⟨induction _ (Nat.div_lt_self (by omega) (by decide)),
          last.symm⟩

/-- The last digit and the digits in front of it, where there are some. -/
theorem numeral_split {left right : Nat}
    (same : numeral 16 left = numeral 10 right) (large : 10 ≤ right) :
    numeral 16 (left / 16) = numeral 10 (right / 10) ∧
      left % 16 = right % 10 := by
  rw [numeral_of_le (by decide) large] at same
  by_cases single : left < 16
  · rw [numeral_of_lt single, ← List.nil_append [digitByte left]] at same
    exact absurd (List.append_inj' same rfl).1.symm numeral_ne_nil
  · rw [numeral_of_le (by decide) (not_lt.mp single)] at same
    obtain ⟨front, last⟩ := List.append_inj' same rfl
    rw [List.singleton_inj] at last
    exact ⟨front, digitByte_injective (left % 16) (Nat.mod_lt _ (by decide))
      (right % 10) (by omega) last⟩

/-- The same digits are worth at least as much in base 16. -/
theorem le_of_numeral_eq {left right : Nat}
    (same : numeral 16 left = numeral 10 right) : right ≤ left := by
  induction right using Nat.strongRecOn generalizing left with
  | ind right induction =>
      by_cases small : right < 10
      · by_cases single : left < 16
        · rw [numeral_of_lt single, numeral_of_lt small,
            List.singleton_inj] at same
          exact (digitByte_injective left single right (by omega) same).ge
        · omega
      · obtain ⟨front, last⟩ := numeral_split same (not_lt.mp small)
        have earlier := induction (right / 10) (by omega) front
        omega

theorem numeral_eq_iff :
    numeral 16 number = decimalText number ↔ number < 10 := by
  constructor
  · intro same
    by_contra large
    obtain ⟨front, last⟩ := numeral_split same (not_lt.mp large)
    have earlier := le_of_numeral_eq front
    omega
  · intro small
    have large : number < 16 := by omega
    exact (numeral_of_lt large).trans (numeral_of_lt small).symm

end Numerals

theorem OStream.numberText_hex_iff {hexed plain : OStream} {number : Int}
    (hex : hexed.hex = true) (decimal : plain.hex = false)
    (high : number < 2 ^ 64) :
    hexed.numberText number = plain.numberText number ↔
      0 ≤ number ∧ number < 10 := by
  rw [numberText, if_pos hex, numberText, if_neg (by simp [decimal]),
    signedText]
  split
  · rename_i negative
    constructor
    · intro same
      have minus : 45 ∈ numeral 16 (number % 2 ^ 64).toNat := by
        rw [same]
        exact List.mem_cons_self
      exact absurd minus (minus_not_mem_numeral _)
    · omega
  · have whole : number % 2 ^ 64 = number :=
      Int.emod_eq_of_lt (by omega) high
    rw [whole, numeral_eq_iff]
    omega
