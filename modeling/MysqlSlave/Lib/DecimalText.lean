import MysqlSlave.Lib.Region

/-!
# Decimal numbers as text

What `sprintf` writes for `%d` and `%02d` of a number that is not negative: its
decimal digits, at least as many as the width, with zeros in front.  `sprintf`
has no bound of its own; text and terminator have to fit in the buffer.
-/

open Region

/-- The decimal digits of a number, as characters. -/
def decimalText (number : Nat) : Bytes :=
  (Nat.toDigits 10 number).map fun digit => .ofNat digit.toNat

/-- At least `width` characters, with zeros in front. -/
def paddedText (width number : Nat) : Bytes :=
  List.replicate (width - (decimalText number).length) 48 ++ decimalText number

/-- The string in a buffer of `capacity` bytes after `text` and a NUL are written
to it. -/
def sprintf (capacity : Nat) (text : Bytes) : Exec Bytes :=
  if text.length + 1 ≤ capacity then untilNul (text ++ [0])
  else .error .outOfBounds

theorem decimalText_length_le {number width : Nat} (wide : 0 < width)
    (small : number < 10 ^ width) : (decimalText number).length ≤ width := by
  rw [decimalText, List.length_map]
  exact (Nat.length_toDigits_le_iff (by decide) wide).mpr small

theorem paddedText_length_le {width most number : Nat} (wide : 0 < most)
    (more : width ≤ most) (small : number < 10 ^ most) :
    (paddedText width number).length ≤ most := by
  have digits := decimalText_length_le wide small
  rw [paddedText, List.length_append, List.length_replicate]
  omega

theorem decimalText_plain (number : Nat) : 0 ∉ decimalText number := by
  intro member
  obtain ⟨digit, digitMember, nul⟩ := List.mem_map.mp member
  have isDigit : digit.isDigit = true :=
    Nat.isDigit_of_mem_toDigits (by decide) (by decide) digitMember
  obtain ⟨low, high⟩ := Char.isDigit_iff_toNat.mp isDigit
  have code : digit.toNat % 256 = 0 := by
    have code := congrArg UInt8.toNat nul
    simpa using code
  have low : 48 ≤ digit.toNat := low
  have high : digit.toNat ≤ 57 := high
  omega

theorem paddedText_plain (width number : Nat) :
    0 ∉ paddedText width number := by
  intro member
  rcases List.mem_append.mp member with front | digits
  · have zero := (List.mem_replicate.mp front).2
    cases zero
  · exact decimalText_plain number digits

theorem sprintf_eq_ok_iff {capacity : Nat} {text : Bytes} (plain : 0 ∉ text) :
    sprintf capacity text = .ok text ↔ text.length < capacity := by
  unfold sprintf
  split
  case isTrue fits => exact iff_of_true (untilNul_append plain []) fits
  case isFalse long =>
    refine iff_of_false (fun impossible => ?_) long
    cases impossible
