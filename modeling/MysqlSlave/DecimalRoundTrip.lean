import MysqlSlave.DecimalFormat

/-!
# Decoding decimals

Decoding gives back every encoded number.  It does not reject everything else:
the tests of the groups in front and at the end are wider than their digits.
-/

namespace MysqlSlave

open Region

/-- A first byte that leaves the sign bit free. -/
def StartsLow (bytes : Bytes) : Prop :=
  ∀ byte ∈ bytes.head?, byte.toNat < 128

namespace StartsLow

theorem append {front back : Bytes} (first : StartsLow front)
    (second : StartsLow back) : StartsLow (front ++ back) := by
  cases front with
  | nil => exact second
  | cons byte rest => exact first

theorem bytesBE {width value : Nat} (small : 2 * value < 256 ^ width) :
    StartsLow (bytesBE width value) := by
  intro byte member
  cases bytes : Region.bytesBE width value with
  | nil =>
      rw [bytes] at member
      cases member
  | cons first rest =>
      have fits : bigEndian (first :: rest) = value := by
        rw [← bytes]
        apply bigEndian_bytesBE_of_lt
        omega
      have length : rest.length + 1 = width := by
        have length := bytesBE_length width value
        rwa [bytes] at length
      rw [bytes] at member
      cases member
      apply signedBE_small_iff.mp
      rw [fits, length]
      exact small

theorem flatMap {groups : List Nat}
    (small : ∀ group ∈ groups, group < 1000000000) :
    StartsLow (groups.flatMap (Region.bytesBE 4)) := by
  induction groups with
  | nil =>
      intro byte member
      cases member
  | cons group rest induction =>
      have head : group < 1000000000 := small group List.mem_cons_self
      rw [List.flatMap_cons]
      apply append
      · apply bytesBE
        omega
      · apply induction
        intro other member
        exact small other (List.mem_cons_of_mem group member)

end StartsLow

theorem chunks_flatMap (groups : List Nat) (rest : Bytes) :
    chunks groups.length (groups.flatMap (bytesBE 4) ++ rest) =
      groups.map (bytesBE 4) := by
  induction groups with
  | nil => rfl
  | cons group groups induction =>
      have length : (bytesBE 4 group).length = 4 := bytesBE_length 4 group
      rw [List.flatMap_cons, List.length_cons, chunks, List.append_assoc,
        List.take_left' length, List.drop_left' length, induction,
        List.map_cons]

theorem flatMap_bytesBE_length (groups : List Nat) :
    (groups.flatMap (bytesBE 4)).length = 4 * groups.length := by
  induction groups with
  | nil => rfl
  | cons group rest induction =>
      rw [List.flatMap_cons, List.length_append, bytesBE_length, induction,
        List.length_cons]
      omega

namespace DecimalNumber

variable {type : DecimalType} (self : DecimalNumber type)

theorem leading_lt : self.leading < 10 ^ type.leadingDigits := by
  apply Nat.div_lt_of_lt_mul
  have fits := self.integerFits
  rw [type.integerDigits_eq, Nat.pow_add, Nat.pow_mul] at fits
  exact fits

theorem trailing_lt : self.trailing < 10 ^ type.trailingDigits :=
  Nat.mod_lt _ (Nat.pow_pos (by decide))

theorem integerGroups_lt :
    ∀ group ∈ self.integerGroups, group < 1000000000 :=
  digitsBE_lt (by decide)

theorem fractionGroups_lt :
    ∀ group ∈ self.fractionGroups, group < 1000000000 :=
  digitsBE_lt (by decide)

theorem leading_small :
    2 * self.leading < 256 ^ type.leadingBytes :=
  DecimalType.groupBytes_fits type.leadingDigits_lt self.leading_lt

theorem trailing_small :
    2 * self.trailing < 256 ^ type.trailingBytes :=
  DecimalType.groupBytes_fits type.trailingDigits_lt self.trailing_lt

/-- The digits at the end, moved to the front of a group of nine. -/
theorem trailing_shifted :
    self.trailing * 10 ^ (9 - type.trailingDigits) < 1000000000 := by
  have few := type.trailingDigits_lt
  have power : 10 ^ type.trailingDigits * 10 ^ (9 - type.trailingDigits) =
      1000000000 := by
    rw [← Nat.pow_add, Nat.add_sub_cancel' (Nat.le_of_lt few)]
  calc
    self.trailing * 10 ^ (9 - type.trailingDigits)
        < 10 ^ type.trailingDigits * 10 ^ (9 - type.trailingDigits) :=
      Nat.mul_lt_mul_of_pos_right self.trailing_lt (Nat.pow_pos (by decide))
    _ = 1000000000 := power

theorem plain_length : self.plain.length = type.length := by
  simp only [plain, List.length_append, bytesBE_length,
    flatMap_bytesBE_length, integerGroups, fractionGroups, digitsBE_length,
    DecimalType.length]
  omega

theorem encode_length : self.encode.length = type.length := by
  rw [encode, flipFirst_length]
  cases self.negative with
  | false => exact self.plain_length
  | true =>
      simp only [if_true, complement_length]
      exact self.plain_length

theorem plain_startsLow : StartsLow self.plain := by
  apply StartsLow.append
  · exact StartsLow.bytesBE self.leading_small
  · apply StartsLow.append
    · exact StartsLow.flatMap self.integerGroups_lt
    · apply StartsLow.append
      · exact StartsLow.flatMap self.fractionGroups_lt
      · exact StartsLow.bytesBE self.trailing_small

theorem isNegative_encode :
    DecimalType.isNegative self.encode = self.negative := by
  have low := self.plain_startsLow
  have nonempty := type.length_pos
  rw [← self.plain_length] at nonempty
  cases bytes : self.plain with
  | nil =>
      rw [bytes] at nonempty
      cases nonempty
  | cons byte rest =>
      have small : byte.toNat < 128 := by
        apply low
        rw [bytes]
        rfl
      rw [encode, bytes]
      cases self.negative with
      | false =>
          have set : ¬(byte.toNat + 128) % 256 < 128 := by omega
          simp only [flipFirst, DecimalType.isNegative, toNat_flip,
            Bool.false_eq_true, if_false]
          exact decide_eq_false set
      | true =>
          have inverted : (~~~byte).toNat = 255 - byte.toNat := by simp
          have clear : ((~~~byte).toNat + 128) % 256 < 128 := by omega
          simp only [flipFirst, complement, List.map_cons, toNat_flip,
            DecimalType.isNegative, if_true]
          exact decide_eq_true clear

theorem plain_encode : DecimalType.plain self.encode = self.plain := by
  rw [DecimalType.plain, self.isNegative_encode, encode]
  cases self.negative with
  | false => simp
  | true => simp

theorem leadingOf_encode : type.leadingOf self.encode = self.leading := by
  have length : (bytesBE type.leadingBytes self.leading).length =
      type.leadingBytes := bytesBE_length _ _
  rw [DecimalType.leadingOf, self.plain_encode, plain,
    List.take_left' length]
  exact signedBE_bytesBE self.leading_small

theorem signedBE_groups {groups : List Nat}
    (small : ∀ group ∈ groups, group < 1000000000) :
    (groups.map (bytesBE 4)).map signedBE =
      groups.map (Nat.cast : Nat → Int) := by
  rw [List.map_map]
  apply List.map_congr_left
  intro group member
  apply signedBE_bytesBE
  have fits := small group member
  omega

theorem integersOf_encode :
    type.integersOf self.encode =
      self.integerGroups.map (Nat.cast : Nat → Int) := by
  have length : (bytesBE type.leadingBytes self.leading).length =
      type.leadingBytes := bytesBE_length _ _
  have count : self.integerGroups.length = type.integerGroups :=
    digitsBE_length _ _ _
  rw [DecimalType.integersOf, self.plain_encode, plain,
    List.drop_left' length, ← count, chunks_flatMap,
    signedBE_groups self.integerGroups_lt]

theorem fractionsOf_encode :
    type.fractionsOf self.encode =
      self.fractionGroups.map (Nat.cast : Nat → Int) := by
  have length : (bytesBE type.leadingBytes self.leading ++
      self.integerGroups.flatMap (bytesBE 4)).length =
      type.leadingBytes + 4 * type.integerGroups := by
    rw [List.length_append, bytesBE_length, flatMap_bytesBE_length,
      integerGroups, digitsBE_length]
  have count : self.fractionGroups.length = type.fractionGroups :=
    digitsBE_length _ _ _
  rw [DecimalType.fractionsOf, self.plain_encode, plain,
    ← List.append_assoc, List.drop_left' length, ← count, chunks_flatMap,
    signedBE_groups self.fractionGroups_lt]

theorem trailingOf_encode : type.trailingOf self.encode = self.trailing := by
  have length : (bytesBE type.leadingBytes self.leading ++
      self.integerGroups.flatMap (bytesBE 4) ++
        self.fractionGroups.flatMap (bytesBE 4)).length =
      type.leadingBytes + 4 * type.integerGroups +
        4 * type.fractionGroups := by
    rw [List.length_append, List.length_append, bytesBE_length,
      flatMap_bytesBE_length, flatMap_bytesBE_length, integerGroups,
      fractionGroups, digitsBE_length, digitsBE_length]
  have last : (bytesBE type.trailingBytes self.trailing).take
      type.trailingBytes = bytesBE type.trailingBytes self.trailing := by
    rw [List.take_of_length_le]
    rw [bytesBE_length]
  rw [DecimalType.trailingOf, self.plain_encode, plain,
    ← List.append_assoc, ← List.append_assoc, List.drop_left' length, last]
  exact signedBE_bytesBE self.trailing_small

/-- The product of the group at the end does not wrap. -/
theorem product_encode :
    (self.trailing : Int) * 10 ^ (9 - type.trailingDigits) % 4294967296 =
      (self.trailing * 10 ^ (9 - type.trailingDigits) : Nat) := by
  have shifted := self.trailing_shifted
  have cast : (self.trailing : Int) * 10 ^ (9 - type.trailingDigits) =
      (self.trailing * 10 ^ (9 - type.trailingDigits) : Nat) := by
    push_cast
    rfl
  rw [cast]
  omega

theorem accepted : type.Accepted self.encode where
  leading := by
    have fits := self.leading_lt
    have wider : 10 ^ type.leadingDigits < 10 ^ (type.leadingDigits + 1) :=
      Nat.pow_lt_pow_right (by decide) (Nat.lt_succ_self _)
    rw [self.leadingOf_encode]
    constructor
    · exact Int.natCast_nonneg _
    · exact_mod_cast lt_trans fits wider
  integers := by
    rw [self.integersOf_encode]
    intro value member
    obtain ⟨group, inside, rfl⟩ := List.mem_map.mp member
    have small := self.integerGroups_lt group inside
    omega
  fractions := by
    rw [self.fractionsOf_encode]
    intro value member
    obtain ⟨group, inside, rfl⟩ := List.mem_map.mp member
    have small := self.fractionGroups_lt group inside
    omega
  trailing := by
    rw [self.trailingOf_encode, self.product_encode]
    have shifted := self.trailing_shifted
    omega

end DecimalNumber

namespace DecimalT

/-- What `decimal_t` stands for: its groups are `integer` followed by `fraction`,
both in base 10^9; the fraction has `frac` digits and is padded to whole groups. -/
structure Denotes {type : DecimalType} (decimal : DecimalT)
    (number : DecimalNumber type) (integer fraction : List Nat) : Prop where
  sign : decimal.sign = number.negative
  frac : decimal.frac = type.scale
  groups : decimal.buf = (integer ++ fraction).map (Nat.cast : Nat → Int)
  integerCount : (integer.length : Int) = (decimal.intg + 8) / 9
  fractionCount : fraction.length = (type.scale + 8) / 9
  small : ∀ group ∈ integer ++ fraction, group < 1000000000
  noLeadingZero : integer.head? ≠ some 0
  integerValue : valueBE 1000000000 integer = number.integer
  integerFits : number.integer < 10 ^ decimal.intg.toNat
  fractionValue : valueBE 1000000000 fraction =
    number.fraction * 10 ^ (9 * fraction.length - type.scale)

namespace Groups

theorem foldl_pushInteger_started {groups : Groups} (started : groups.buf ≠ [])
    (values : List Int) :
    values.foldl (fun groups => groups.pushInteger 9) groups =
      { groups with buf := groups.buf ++ values } := by
  induction values generalizing groups with
  | nil => simp
  | cons value rest induction =>
      have pushed : groups.pushInteger 9 value =
          { groups with buf := groups.buf ++ [value] } := by
        rw [pushInteger, if_pos (Or.inl started)]
      rw [List.foldl_cons, pushed, induction (by simp)]
      simp

/-- Zero groups in front are dropped, and their digits are taken off. -/
theorem foldl_pushInteger_empty (values : List Nat) (toIntg : Int) :
    (values.map (Nat.cast : Nat → Int)).foldl
        (fun groups : Groups => groups.pushInteger 9) { toIntg } =
      { buf := (values.dropWhile (· = 0)).map (Nat.cast : Nat → Int)
        toIntg := toIntg - 9 * (values.length : Int) +
          9 * ((values.dropWhile (· = 0)).length : Int) } := by
  induction values generalizing toIntg with
  | nil => simp
  | cons value rest induction =>
      by_cases zero : value = 0
      · have pushed : ({ toIntg } : Groups).pushInteger 9 (value : Int) =
            { toIntg := toIntg - 9 } := by
          simp [pushInteger, zero]
        rw [List.map_cons, List.foldl_cons, pushed, induction]
        simp only [zero, List.dropWhile_cons, decide_true, if_true,
          List.length_cons, mk.injEq, true_and]
        push_cast
        ring
      · have pushed : ({ toIntg } : Groups).pushInteger 9 (value : Int) =
            { buf := [(value : Int)], toIntg } := by
          simp [pushInteger, zero]
        rw [List.map_cons, List.foldl_cons, pushed,
          foldl_pushInteger_started (by simp)]
        simp [zero]

theorem foldl_pushFraction (groups : Groups) (values : List Int) :
    values.foldl pushFraction groups =
      { groups with buf := groups.buf ++ values } := by
  induction values generalizing groups with
  | nil => simp
  | cons value rest induction =>
      rw [List.foldl_cons, induction]
      simp [pushFraction]

end Groups

end DecimalT

theorem valueBE_dropWhile (base : Nat) (digits : List Nat) :
    valueBE base (digits.dropWhile (· = 0)) = valueBE base digits := by
  induction digits with
  | nil => rfl
  | cons digit rest induction =>
      by_cases zero : digit = 0
      · simp [zero, induction, valueBE_cons]
      · simp [zero]

namespace DecimalNumber

open DecimalT

variable {type : DecimalType} (self : DecimalNumber type)

/-- The integer groups that decoding keeps. -/
def keptIntegers : List Nat :=
  if self.leading = 0 then self.integerGroups.dropWhile (· = 0)
  else self.leading :: self.integerGroups

/-- The fraction groups of nine digits each. -/
def paddedFractions : List Nat :=
  self.fractionGroups ++
    if type.trailingDigits = 0 then []
    else [self.trailing * 10 ^ (9 - type.trailingDigits)]

theorem leading_zero (none : type.leadingDigits = 0) : self.leading = 0 := by
  have small := self.leading_lt
  rw [none] at small
  omega

theorem integerPart_encode :
    type.integerPart self.encode =
      { buf := self.keptIntegers.map (Nat.cast : Nat → Int)
        toIntg := if self.leading = 0 then 9 * (self.keptIntegers.length : Int)
          else type.integerDigits } := by
  have digits := type.integerDigits_eq
  rw [DecimalType.integerPart, self.integersOf_encode, self.leadingOf_encode,
    keptIntegers]
  by_cases zero : self.leading = 0
  · have pushed : ({ toIntg := type.integerDigits } : Groups).pushInteger
        type.leadingDigits (self.leading : Int) =
        { toIntg := 9 * (type.integerGroups : Int) } := by
      have rest : (type.integerDigits : Int) - type.leadingDigits =
          9 * type.integerGroups := by omega
      simp [Groups.pushInteger, zero, rest]
    have count : self.integerGroups.length = type.integerGroups :=
      digitsBE_length _ _ _
    rw [pushed, Groups.foldl_pushInteger_empty, if_pos zero, if_pos zero,
      count]
    simp
  · have pushed : ({ toIntg := type.integerDigits } : Groups).pushInteger
        type.leadingDigits (self.leading : Int) =
        { buf := [(self.leading : Int)], toIntg := type.integerDigits } := by
      simp [Groups.pushInteger, zero]
    rw [pushed, Groups.foldl_pushInteger_started (by simp), if_neg zero,
      if_neg zero]
    simp

theorem groupsOf_encode :
    type.groupsOf self.encode =
      { type.integerPart self.encode with
        buf := (self.keptIntegers ++ self.paddedFractions).map
          (Nat.cast : Nat → Int) } := by
  rw [DecimalType.groupsOf, self.trailingOf_encode, self.product_encode,
    self.fractionsOf_encode, Groups.foldl_pushFraction,
    self.integerPart_encode, paddedFractions]
  by_cases none : type.trailingDigits = 0
  · simp [none]
  · simp [none, Groups.pushFraction]

theorem keptIntegers_value :
    valueBE 1000000000 self.keptIntegers = self.integer := by
  have count : self.integerGroups.length = type.integerGroups :=
    digitsBE_length _ _ _
  have groups : valueBE 1000000000 self.integerGroups =
      self.integer % 1000000000 ^ type.integerGroups :=
    valueBE_digitsBE _ _ _
  have parts := Nat.div_add_mod' self.integer (1000000000 ^ type.integerGroups)
  rw [keptIntegers]
  by_cases zero : self.leading = 0
  · have front : self.integer / 1000000000 ^ type.integerGroups = 0 := zero
    rw [front, Nat.zero_mul, Nat.zero_add] at parts
    rw [if_pos zero, valueBE_dropWhile, groups, parts]
  · rw [if_neg zero, valueBE_cons, groups, count]
    exact parts

theorem keptIntegers_lt :
    ∀ group ∈ self.keptIntegers, group < 1000000000 := by
  intro group member
  rw [keptIntegers] at member
  split at member
  · apply self.integerGroups_lt
    exact (List.dropWhile_sublist _).subset member
  · rcases List.mem_cons.mp member with first | later
    · have few := type.leadingDigits_lt
      rw [first]
      calc
        self.leading < 10 ^ type.leadingDigits := self.leading_lt
        _ ≤ 10 ^ 9 := Nat.pow_le_pow_right (by decide) (Nat.le_of_lt few)
    · exact self.integerGroups_lt group later

theorem keptIntegers_head : self.keptIntegers.head? ≠ some 0 := by
  rw [keptIntegers]
  split
  · intro head
    have found := List.head?_dropWhile_not (· = 0) self.integerGroups
    rw [head] at found
    simp at found
  · rename_i nonzero
    intro head
    exact nonzero (Option.some.inj head)

theorem paddedFractions_value :
    valueBE 1000000000 self.paddedFractions =
      self.fraction * 10 ^ (9 * self.paddedFractions.length - type.scale) := by
  have few := type.trailingDigits_lt
  have scale := type.scale_eq
  have count : self.fractionGroups.length = type.fractionGroups :=
    digitsBE_length _ _ _
  have small : self.fraction / 10 ^ type.trailingDigits <
      1000000000 ^ type.fractionGroups := by
    apply Nat.div_lt_of_lt_mul
    have fits := self.fractionFits
    rw [scale, Nat.pow_add, Nat.pow_mul, Nat.mul_comm] at fits
    exact fits
  have groups : valueBE 1000000000 self.fractionGroups =
      self.fraction / 10 ^ type.trailingDigits := by
    rw [fractionGroups, valueBE_digitsBE, Nat.mod_eq_of_lt small]
  rw [paddedFractions]
  by_cases none : type.trailingDigits = 0
  · have rest : 9 * type.fractionGroups - type.scale = 0 := by omega
    rw [none, Nat.pow_zero, Nat.div_one] at groups
    rw [if_pos none, List.append_nil, count, rest, Nat.pow_zero, Nat.mul_one,
      groups]
  · have rest : 9 * (type.fractionGroups + 1) - type.scale =
        9 - type.trailingDigits := by omega
    have power : 1000000000 =
        10 ^ type.trailingDigits * 10 ^ (9 - type.trailingDigits) := by
      rw [← Nat.pow_add, Nat.add_sub_cancel' (Nat.le_of_lt few)]
    have parts := Nat.div_add_mod' self.fraction (10 ^ type.trailingDigits)
    rw [if_neg none, valueBE_append, groups, valueBE_cons, valueBE_nil,
      List.length_append, count, List.length_singleton, List.length_nil, rest,
      Nat.pow_one, Nat.pow_zero, Nat.mul_one, Nat.add_zero]
    calc
      self.fraction / 10 ^ type.trailingDigits * 1000000000 +
            self.trailing * 10 ^ (9 - type.trailingDigits)
          = self.fraction / 10 ^ type.trailingDigits *
              (10 ^ type.trailingDigits * 10 ^ (9 - type.trailingDigits)) +
            self.trailing * 10 ^ (9 - type.trailingDigits) := by rw [← power]
      _ = (self.fraction / 10 ^ type.trailingDigits *
            10 ^ type.trailingDigits + self.trailing) *
            10 ^ (9 - type.trailingDigits) := by ring
      _ = self.fraction * 10 ^ (9 - type.trailingDigits) := by
        rw [trailing, parts]

theorem paddedFractions_length :
    self.paddedFractions.length = (type.scale + 8) / 9 := by
  have few := type.trailingDigits_lt
  have scale := type.scale_eq
  have count : self.fractionGroups.length = type.fractionGroups :=
    digitsBE_length _ _ _
  rw [paddedFractions, List.length_append, count]
  by_cases none : type.trailingDigits = 0
  · rw [if_pos none, List.length_nil]
    omega
  · rw [if_neg none, List.length_singleton]
    omega

theorem paddedFractions_lt :
    ∀ group ∈ self.paddedFractions, group < 1000000000 := by
  intro group member
  rcases List.mem_append.mp member with full | last
  · exact self.fractionGroups_lt group full
  · split at last
    · cases last
    · rw [List.mem_singleton.mp last]
      exact self.trailing_shifted

theorem keptIntegers_length :
    self.leading ≠ 0 → (self.keptIntegers.length : Int) =
      ((type.integerDigits : Int) + 8) / 9 := by
  intro nonzero
  have few := type.leadingDigits_lt
  have digits := type.integerDigits_eq
  have some : type.leadingDigits ≠ 0 := by
    intro none
    exact nonzero (self.leading_zero none)
  have count : self.integerGroups.length = type.integerGroups :=
    digitsBE_length _ _ _
  rw [keptIntegers, if_neg nonzero, List.length_cons, count]
  omega

theorem decoded_denotes (toBufLen : Nat) :
    (type.decoded self.encode toBufLen).Denotes self self.keptIntegers
      self.paddedFractions where
  sign := self.isNegative_encode
  frac := rfl
  groups := by rw [DecimalType.decoded, self.groupsOf_encode]
  integerCount := by
    rw [DecimalType.decoded, self.groupsOf_encode, self.integerPart_encode]
    by_cases zero : self.leading = 0
    · simp only [if_pos zero]
      omega
    · simp only [if_neg zero]
      exact self.keptIntegers_length zero
  fractionCount := self.paddedFractions_length
  small := by
    intro group member
    rcases List.mem_append.mp member with integer | fraction
    · exact self.keptIntegers_lt group integer
    · exact self.paddedFractions_lt group fraction
  noLeadingZero := self.keptIntegers_head
  integerValue := self.keptIntegers_value
  integerFits := by
    rw [DecimalType.decoded, self.groupsOf_encode, self.integerPart_encode]
    by_cases zero : self.leading = 0
    · have count : (9 * (self.keptIntegers.length : Int)).toNat =
          9 * self.keptIntegers.length := by omega
      have fits := valueBE_lt self.keptIntegers_lt
      simp only [if_pos zero]
      rw [self.keptIntegers_value] at fits
      rw [count, Nat.pow_mul]
      exact fits
    · simp only [if_neg zero, Int.toNat_natCast]
      exact self.integerFits
  fractionValue := self.paddedFractions_value

end DecimalNumber

namespace DecimalType

theorem length_eq (type : DecimalType) :
    type.length = decimalBytes type.integerDigits + decimalBytes type.scale := by
  simp only [length, leadingBytes, trailingBytes, leadingDigits, trailingDigits,
    integerGroups, fractionGroups, decimalBytes,
    groupBytes_eq (Nat.mod_lt _ (show 0 < 9 by decide))]
  omega

theorem decimalSize_metadata (type : DecimalType) :
    CValue.decimalSize type.metadata = .ok type.length := by
  have precisionFits := type.precisionFits
  rw [metadata, CValue.decimalSize_eq (by omega) type.scaleFits, length_eq]
  rfl

end DecimalType

/-- Decoding the packed form of any number of any type gives the sign, the groups
and the numbers of digits that denote it, and reads as many bytes as
`calc_field_size` gives for the metadata.  The four bytes that the first group is
copied from must be readable. -/
theorem DecimalNumber.initDecimal_encode {type : DecimalType}
    (number : DecimalNumber type) {memory : Bytes} {storage : Nat}
    (toBufLen : Nat)
    (stored : Stored memory storage number.encode)
    (room : storage + 4 ≤ memory.length) :
    ∃ decimal length integer fraction,
      DecimalT.initDecimal toBufLen type.precision type.scale memory storage =
          .ok (some (decimal, storage + length)) ∧
        CValue.calcFieldSize .newdecimal memory storage type.metadata =
          .ok length ∧
        number.encode.length = length ∧
        decimal.Denotes number integer fraction := by
  classical
  refine ⟨type.decoded number.encode toBufLen, type.length,
    number.keptIntegers, number.paddedFractions, ?_, ?_, ?_, ?_⟩
  · rw [type.initDecimal_eq toBufLen stored room number.encode_length,
      if_pos number.accepted]
  · exact type.decimalSize_metadata
  · exact number.encode_length
  · exact number.decoded_denotes toBufLen

/-- DECIMAL(14,4). -/
def fourteenDigits : DecimalType where
  precision := 14
  scale := 4
  positive := by decide
  precisionFits := by decide
  scaleFits := by decide
  scaleSmall := by decide

/-- The number -1234567890.1234. -/
def negativeNumber : DecimalNumber fourteenDigits where
  negative := true
  integer := 1234567890
  fraction := 1234
  integerFits := by decide
  fractionFits := by decide

theorem initDecimal_encode_negative :
    ∃ decimal length integer fraction,
      DecimalT.initDecimal 2048 14 4 negativeNumber.encode 0 =
          .ok (some (decimal, 0 + length)) ∧
        CValue.calcFieldSize .newdecimal negativeNumber.encode 0
            fourteenDigits.metadata = .ok length ∧
        negativeNumber.encode.length = length ∧
        decimal.Denotes negativeNumber integer fraction := by
  apply negativeNumber.initDecimal_encode 2048
  · exact ⟨[], [], by simp, rfl⟩
  · decide +kernel

theorem flatMap_chunks {count : Nat} {bytes : Bytes}
    (inside : 4 * count ≤ bytes.length)
    (nonneg : ∀ value ∈ (chunks count bytes).map signedBE, 0 ≤ value) :
    (((chunks count bytes).map signedBE).map Int.toNat).flatMap (bytesBE 4) =
      bytes.take (4 * count) := by
  induction count generalizing bytes with
  | zero => simp [chunks]
  | succ count induction =>
      rw [chunks, List.map_cons] at nonneg
      have head := bigEndian_of_nonneg (nonneg _ List.mem_cons_self)
      have rest := @induction (bytes.drop 4)
        (by simp only [List.length_drop]; omega)
        (fun value member => nonneg value (List.mem_cons_of_mem _ member))
      have length : (bytes.take 4).length = 4 := by
        simp only [List.length_take]
        omega
      have same := bytesBE_bigEndian (bytes.take 4)
      rw [length] at same
      have more : 4 * (count + 1) = 4 + 4 * count := by ring
      rw [chunks, List.map_cons, List.map_cons, List.flatMap_cons, head, rest,
        Int.toNat_natCast, same, more, List.take_add]

namespace DecimalType

open DecimalT

variable (type : DecimalType)

/-- The groups in front and at the end have no more digits than they may. -/
structure Fits (field : Bytes) : Prop where
  leading : type.leadingOf field < 10 ^ type.leadingDigits
  trailingNonneg : 0 ≤ type.trailingOf field
  trailing : type.trailingOf field < 10 ^ type.trailingDigits

theorem toNat_lt {values : List Int}
    (small : ∀ value ∈ values, 0 ≤ value ∧ value ≤ 999999999) :
    ∀ group ∈ values.map Int.toNat, group < 1000000000 := by
  intro group member
  obtain ⟨value, inside, rfl⟩ := List.mem_map.mp member
  have bounds := small value inside
  omega

theorem chunks_length (count : Nat) (bytes : Bytes) :
    (chunks count bytes).length = count := by
  induction count generalizing bytes with
  | zero => rfl
  | succ count induction => rw [chunks, List.length_cons, induction]

theorem integersOf_length (field : Bytes) :
    ((type.integersOf field).map Int.toNat).length = type.integerGroups := by
  rw [List.length_map, integersOf, List.length_map, chunks_length]

theorem fractionsOf_length (field : Bytes) :
    ((type.fractionsOf field).map Int.toNat).length = type.fractionGroups := by
  rw [List.length_map, fractionsOf, List.length_map, chunks_length]

theorem Fits.trailing_toNat {type : DecimalType} {field : Bytes}
    (fits : type.Fits field) :
    (type.trailingOf field).toNat < 10 ^ type.trailingDigits := by
  have small := fits.trailing
  zify
  rwa [Int.toNat_of_nonneg fits.trailingNonneg]

/-- The number that the groups of a field are the groups of. -/
def numberOf (field : Bytes) (accepted : type.Accepted field)
    (fits : type.Fits field) : DecimalNumber type where
  negative := isNegative field
  integer := valueBE 1000000000
    ((type.leadingOf field).toNat :: (type.integersOf field).map Int.toNat)
  fraction :=
    valueBE 1000000000 ((type.fractionsOf field).map Int.toNat) *
      10 ^ type.trailingDigits + (type.trailingOf field).toNat
  integerFits := by
    have count := type.integersOf_length field
    have rest := valueBE_lt (toNat_lt accepted.integers)
    have front : (type.leadingOf field).toNat < 10 ^ type.leadingDigits := by
      have nonneg := accepted.leading.1
      have small := fits.leading
      zify
      rwa [Int.toNat_of_nonneg nonneg]
    rw [count] at rest
    rw [valueBE_cons, count, type.integerDigits_eq, Nat.pow_add, Nat.pow_mul,
      Nat.mul_comm (_ ^ _)]
    calc
      (type.leadingOf field).toNat * 1000000000 ^ type.integerGroups +
            valueBE 1000000000 ((type.integersOf field).map Int.toNat)
          < (type.leadingOf field).toNat * 1000000000 ^ type.integerGroups +
              1000000000 ^ type.integerGroups := Nat.add_lt_add_left rest _
      _ = ((type.leadingOf field).toNat + 1) *
            1000000000 ^ type.integerGroups := by ring
      _ ≤ 10 ^ type.leadingDigits * (10 ^ 9) ^ type.integerGroups :=
        Nat.mul_le_mul_right _ front
  fractionFits := by
    have count := type.fractionsOf_length field
    have front := valueBE_lt (toNat_lt accepted.fractions)
    have rest := fits.trailing_toNat
    rw [count] at front
    rw [type.scale_eq, Nat.pow_add, Nat.pow_mul]
    calc
      valueBE 1000000000 ((type.fractionsOf field).map Int.toNat) *
              10 ^ type.trailingDigits + (type.trailingOf field).toNat
          < valueBE 1000000000 ((type.fractionsOf field).map Int.toNat) *
              10 ^ type.trailingDigits + 10 ^ type.trailingDigits :=
        Nat.add_lt_add_left rest _
      _ = (valueBE 1000000000 ((type.fractionsOf field).map Int.toNat) + 1) *
            10 ^ type.trailingDigits := by ring
      _ ≤ (10 ^ 9) ^ type.fractionGroups * 10 ^ type.trailingDigits :=
        Nat.mul_le_mul_right _ front

theorem integer_numberOf {field : Bytes} (accepted : type.Accepted field)
    (fits : type.Fits field) :
    (type.numberOf field accepted fits).integer =
      (type.leadingOf field).toNat * 1000000000 ^ type.integerGroups +
        valueBE 1000000000 ((type.integersOf field).map Int.toNat) := by
  have count := type.integersOf_length field
  have integer : (type.numberOf field accepted fits).integer =
      valueBE 1000000000 ((type.leadingOf field).toNat ::
        (type.integersOf field).map Int.toNat) := rfl
  rw [integer, valueBE_cons, count]

theorem fraction_numberOf {field : Bytes} (accepted : type.Accepted field)
    (fits : type.Fits field) :
    (type.numberOf field accepted fits).fraction =
      valueBE 1000000000 ((type.fractionsOf field).map Int.toNat) *
        10 ^ type.trailingDigits + (type.trailingOf field).toNat :=
  rfl

theorem leading_numberOf {field : Bytes} (accepted : type.Accepted field)
    (fits : type.Fits field) :
    (type.numberOf field accepted fits).leading =
      (type.leadingOf field).toNat := by
  have count := type.integersOf_length field
  have rest := valueBE_lt (toNat_lt accepted.integers)
  rw [count] at rest
  rw [DecimalNumber.leading, integer_numberOf, Nat.add_comm,
    Nat.add_mul_div_right _ _ (Nat.pow_pos (by decide)),
    Nat.div_eq_of_lt rest, Nat.zero_add]

theorem integerGroups_numberOf {field : Bytes}
    (accepted : type.Accepted field) (fits : type.Fits field) :
    (type.numberOf field accepted fits).integerGroups =
      (type.integersOf field).map Int.toNat := by
  have count := type.integersOf_length field
  have same := digitsBE_valueBE (by decide) (toNat_lt accepted.integers)
  rw [count] at same
  rw [DecimalNumber.integerGroups, integer_numberOf,
    digitsBE_add (by decide) _ (Nat.le_refl _), same]

theorem fractionGroups_numberOf {field : Bytes}
    (accepted : type.Accepted field) (fits : type.Fits field) :
    (type.numberOf field accepted fits).fractionGroups =
      (type.fractionsOf field).map Int.toNat := by
  have count := type.fractionsOf_length field
  have rest := fits.trailing_toNat
  have same := digitsBE_valueBE (by decide) (toNat_lt accepted.fractions)
  rw [count] at same
  rw [DecimalNumber.fractionGroups, fraction_numberOf, Nat.add_comm,
    Nat.add_mul_div_right _ _ (Nat.pow_pos (by decide)),
    Nat.div_eq_of_lt rest, Nat.zero_add, same]

theorem trailing_numberOf {field : Bytes} (accepted : type.Accepted field)
    (fits : type.Fits field) :
    (type.numberOf field accepted fits).trailing =
      (type.trailingOf field).toNat := by
  have rest := fits.trailing_toNat
  rw [DecimalNumber.trailing, fraction_numberOf, Nat.mul_add_mod_self_right,
    Nat.mod_eq_of_lt rest]

theorem bytesBE_toNat {bytes : Bytes} (nonneg : 0 ≤ signedBE bytes) {width : Nat}
    (length : bytes.length = width) :
    bytesBE width (signedBE bytes).toNat = bytes := by
  rw [bigEndian_of_nonneg nonneg, Int.toNat_natCast, ← length,
    bytesBE_bigEndian]

theorem encode_numberOf {field : Bytes} (accepted : type.Accepted field)
    (fits : type.Fits field) (length : field.length = type.length) :
    (type.numberOf field accepted fits).encode = field := by
  have size : (plain field).length = type.leadingBytes +
      4 * type.integerGroups + 4 * type.fractionGroups +
        type.trailingBytes := by
    rw [plain_length, length]
    rfl
  have front : bytesBE type.leadingBytes (type.leadingOf field).toNat =
      (plain field).take type.leadingBytes := by
    apply bytesBE_toNat accepted.leading.1
    rw [List.length_take]
    omega
  have integers := flatMap_chunks
    (show 4 * type.integerGroups ≤
        ((plain field).drop type.leadingBytes).length by
      rw [List.length_drop]
      omega)
    (fun value member => (accepted.integers value member).1)
  have fractions := flatMap_chunks
    (show 4 * type.fractionGroups ≤
        ((plain field).drop
          (type.leadingBytes + 4 * type.integerGroups)).length by
      rw [List.length_drop]
      omega)
    (fun value member => (accepted.fractions value member).1)
  have back : bytesBE type.trailingBytes (type.trailingOf field).toNat =
      (plain field).drop (type.leadingBytes + 4 * type.integerGroups +
        4 * type.fractionGroups) := by
    have whole : ((plain field).drop (type.leadingBytes +
        4 * type.integerGroups + 4 * type.fractionGroups)).length =
        type.trailingBytes := by
      rw [List.length_drop]
      omega
    have nonneg := fits.trailingNonneg
    rw [trailingOf, List.take_of_length_le (Nat.le_of_eq whole)] at nonneg ⊢
    exact bytesBE_toNat nonneg whole
  have groups : (type.numberOf field accepted fits).plain = plain field := by
    rw [DecimalNumber.plain, type.leading_numberOf, type.integerGroups_numberOf,
      type.fractionGroups_numberOf, type.trailing_numberOf, front, back,
      integersOf, integers, fractionsOf, fractions]
    simp only [← List.drop_drop, List.take_append_drop]
  rw [DecimalNumber.encode, groups]
  cases negative : isNegative field with
  | false => simp [numberOf, plain, negative]
  | true => simp [numberOf, plain, negative]

/-- Whether decoding a field succeeds for packed forms of numbers only: whenever
it does, the field is the packed form of a number, and that number is what the
result denotes. -/
def DecodesPackedOnly (toBufLen : Nat) (memory : Bytes) (storage : Nat)
    (field : Bytes) : Prop :=
  ∀ decimal pointer,
    initDecimal toBufLen type.precision type.scale memory storage =
        .ok (some (decimal, pointer)) →
      ∃ (number : DecimalNumber type) (integer fraction : List Nat),
        number.encode = field ∧ decimal.Denotes number integer fraction

/-- `DecodesPackedOnly` fails exactly for the fields whose groups all pass their
tests although the group in front or the one at the end has too many digits. -/
theorem decodesPackedOnly_iff {memory field : Bytes} {storage : Nat}
    (toBufLen : Nat)
    (stored : Stored memory storage field)
    (room : storage + 4 ≤ memory.length)
    (length : field.length = type.length) :
    type.DecodesPackedOnly toBufLen memory storage field ↔
      (type.Accepted field → type.Fits field) := by
  classical
  have run := type.initDecimal_eq toBufLen stored room length
  constructor
  · intro packed accepted
    rw [if_pos accepted] at run
    obtain ⟨number, _, _, same, _⟩ := packed _ _ run
    rw [← same]
    constructor
    · rw [number.leadingOf_encode]
      exact_mod_cast number.leading_lt
    · rw [number.trailingOf_encode]
      exact Int.natCast_nonneg _
    · rw [number.trailingOf_encode]
      exact_mod_cast number.trailing_lt
  · intro tests decimal pointer decoded
    by_cases accepted : type.Accepted field
    · have fits := tests accepted
      have same := type.encode_numberOf accepted fits length
      have denotes :=
        (type.numberOf field accepted fits).decoded_denotes toBufLen
      rw [run, if_pos accepted] at decoded
      cases decoded
      rw [same] at denotes
      exact ⟨_, _, _, same, denotes⟩
    · rw [run, if_neg accepted] at decoded
      cases decoded

end DecimalType

theorem oneDigit_positive : 1 ≤ 1 := Nat.le_refl 1

theorem oneDigit_precisionFits : 1 ≤ 65 := Nat.le_add_right 1 64

theorem oneDigit_scaleFits : 0 ≤ 1 := Nat.zero_le 1

theorem oneDigit_scaleSmall : 0 ≤ 30 := Nat.zero_le 30

/-- DECIMAL(1,0). -/
def oneDigit : DecimalType where
  precision := 1
  scale := 0
  positive := oneDigit_positive
  precisionFits := oneDigit_precisionFits
  scaleFits := oneDigit_scaleFits
  scaleSmall := oneDigit_scaleSmall

/-- The byte 0x82 is the number 2 and nothing else. -/
theorem decodesPackedOnly_iff_two :
    oneDigit.DecodesPackedOnly 2048 [130, 0, 0, 0] 0 [130] := by
  have fits : oneDigit.Fits [130] :=
    ⟨by decide +kernel, by decide +kernel, by decide +kernel⟩
  have stored : Stored [130, 0, 0, 0] 0 [130] :=
    ⟨[], [0, 0, 0], rfl, rfl⟩
  exact (oneDigit.decodesPackedOnly_iff 2048 stored (by decide) rfl).mpr
    fun _ => fits

/-- The byte 0xB2, with a group of 50 in a one-digit column, is decoded. -/
theorem not_decodesPackedOnly_fifty :
    ¬oneDigit.DecodesPackedOnly 2048 [178, 0, 0, 0] 0 [178] := by
  intro packed
  have run : DecimalT.initDecimal 2048 oneDigit.precision oneDigit.scale
      [178, 0, 0, 0] 0 =
      .ok (some
        ({ sign := false, intg := 1, frac := 0, buf := [50], len := 2048 },
          1)) := by
    decide +kernel
  obtain ⟨number, _, _, same, _⟩ := packed _ _ run
  have value : oneDigit.leadingOf number.encode = 50 := by
    rw [same]
    decide +kernel
  have small : number.leading < 10 := number.leading_lt
  rw [number.leadingOf_encode] at value
  omega

end MysqlSlave
