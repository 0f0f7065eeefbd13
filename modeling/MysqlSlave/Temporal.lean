import Mathlib.Tactic.IntervalCases
import Mathlib.Tactic.Linarith
import MysqlSlave.Lib.BigEndian
import MysqlSlave.Value

/-!
# Dates and times

The accessors `as_timestamp`, `as_date`, `as_time` and `as_datetime` of `CValue`,
and what they make of the values a server stores.
-/

namespace MysqlSlave

open Region

namespace CValue

structure TDate where
  y : Nat := 0
  m : Nat := 0
  d : Nat := 0
  deriving DecidableEq, Repr

structure TTime where
  h : Nat := 0
  m : Nat := 0
  s : Nat := 0
  deriving DecidableEq, Repr

structure TDateTime where
  date : TDate := {}
  time : TTime := {}
  deriving DecidableEq, Repr

/-- `_storage` where it is dereferenced. -/
def pointer (self : CValue) : Exec Nat :=
  match self.storage with
  | some address => .ok address
  | none => .error .nullPointer

/-- `as_timestamp`; `mi_uint4korr` reads the high byte first. -/
def asTimestamp (self : CValue) (memory : Bytes) : Exec Nat :=
  if self.null || !self.isValid || self.size ≠ 4 then .ok 0
  else do
    let address ← self.pointer
    readBE memory address 4

/-- `as_date`. -/
def asDate (self : CValue) (memory : Bytes) : Exec TDate :=
  if self.null || !self.isValid || self.size < 3 then .ok {}
  else do
    let address ← self.pointer
    let dd ← readLE memory address 3
    return { y := dd / (16 * 32) % 65536, m := dd / 32 % 16, d := dd % 32 }

/-- `as_time`; the hours are cut to eight bits. -/
def asTime (self : CValue) (memory : Bytes) : Exec TTime :=
  if self.isNull || !self.isValid || self.size < 3 then .ok {}
  else do
    let address ← self.pointer
    let tt ← readLE memory address 3
    return { h := tt / 10000 % 256, m := tt % 10000 / 100, s := tt % 100 }

/-- `_as_datetime`. -/
def asOldDatetime (self : CValue) (memory : Bytes) : Exec TDateTime :=
  if self.isNull || !self.isValid || self.size < 8 then .ok {}
  else do
    let address ← self.pointer
    let dt ← readLE memory address 8
    let d := dt / 1000000
    let t := dt % 1000000
    return {
      date :=
        { y := d / 10000 % 65536, m := d % 10000 / 100, d := d % 100 }
      time := { h := t / 10000, m := t % 10000 / 100, s := t % 100 } }

/-- `_read_bit_slice`. -/
def readBitSlice (binary start size dataLength : Nat) : Nat :=
  (binary >>> (dataLength - (start + size))) &&& ((1 <<< size) - 1)

/-- `_as_datetime2`; `uint5korr` reads the low byte first. -/
def asDatetime2 (self : CValue) (memory : Bytes) : Exec TDateTime :=
  if self.isNull || !self.isValid || self.size < 5 then .ok {}
  else do
    let address ← self.pointer
    let data ← readLE memory address 5
    let yearMonth := (data >>> 1) % 65536
    return {
      date :=
        { y := yearMonth / 13, m := yearMonth % 13
          d := readBitSlice data 18 5 40 }
      time :=
        { h := readBitSlice data 23 5 40, m := readBitSlice data 28 6 40
          s := readBitSlice data 34 6 40 } }

def asDatetime (self : CValue) (memory : Bytes) : Exec TDateTime :=
  if self.type = .datetime then self.asOldDatetime memory
  else if self.type = .datetime2 then self.asDatetime2 memory
  else .ok {}

/-- A field as `update_row` makes a value of it. -/
def ofField (type : EColumnType) (memory : Bytes) (pfield metadata : Nat) :
    Exec CValue := do
  let length ← calcFieldSize type memory pfield metadata
  tune {} type memory pfield metadata length

/-- What an accessor makes of a field. -/
def fieldAs {α : Type} (access : CValue → Bytes → Exec α) (type : EColumnType)
    (memory : Bytes) (pfield metadata : Nat) : Exec α := do
  let value ← ofField type memory pfield metadata
  access value memory

theorem readBitSlice_eq (binary start size dataLength : Nat) :
    readBitSlice binary start size dataLength =
      binary / 2 ^ (dataLength - (start + size)) % 2 ^ size := by
  rw [readBitSlice, Nat.one_shiftLeft, Nat.and_two_pow_sub_one_eq_mod,
    Nat.shiftRight_eq_div_pow]

theorem asDatetime_of_read {value : CValue} {memory : Bytes}
    {address data : Nat} (type : value.type = .datetime2)
    (notNull : value.null = false) (storage : value.storage = some address)
    (size : 5 ≤ value.size) (read : readLE memory address 5 = .ok data) :
    value.asDatetime memory = .ok {
      date :=
        { y := data / 2 % 65536 / 13, m := data / 2 % 65536 % 13
          d := data / 131072 % 32 }
      time :=
        { h := data / 4096 % 32, m := data / 64 % 64, s := data % 64 } } := by
  have long : ¬value.size < 5 := by omega
  have nonempty : value.size ≠ 0 := by omega
  simp [asDatetime, type, asDatetime2, isNull, isValid, storage, long,
    nonempty, notNull, pointer, read, readBitSlice_eq,
    Nat.shiftRight_eq_div_pow]

theorem slices_bytes {first second third rest : Nat} (firstByte : first < 256)
    (secondByte : second < 256) :
    let data := first + 256 * second + 65536 * third + 16777216 * rest
    data / 2 % 65536 = first / 2 + 128 * second + 32768 * (third % 2) ∧
      data / 131072 % 32 = third / 2 % 32 ∧
      data / 4096 % 32 = second / 16 + 16 * (third % 2) ∧
      data / 64 % 64 = first / 64 + 4 * (second % 16) ∧
      data % 64 = first % 64 := by
  refine ⟨?_, ?_, ?_, ?_, ?_⟩
  · omega
  · omega
  · omega
  · omega
  · omega

end CValue

/-- A date and time of day. -/
structure DateTime where
  year : Nat
  month : Nat
  day : Nat
  hour : Nat
  minute : Nat
  second : Nat
  yearFits : year ≤ 9999
  monthFits : month ≤ 12
  dayFits : day ≤ 31
  hourFits : hour ≤ 23
  minuteFits : minute ≤ 59
  secondFits : second ≤ 59

namespace DateTime

def fields (self : DateTime) : CValue.TDateTime where
  date := { y := self.year, m := self.month, d := self.day }
  time := { h := self.hour, m := self.minute, s := self.second }

/-- The number a DATETIME2 value stores: from the top a sign bit, 17 bits for
year and month, then day, hour, minute and second. -/
def packed (self : DateTime) : Nat :=
  549755813888 + (self.year * 13 + self.month) * 4194304 +
    self.day * 131072 + self.hour * 4096 + self.minute * 64 + self.second

def datetime2 (self : DateTime) : Bytes := bytesBE 5 self.packed

theorem datetime2_eq (self : DateTime) :
    self.datetime2 =
      [.ofNat (self.packed / 4294967296), .ofNat (self.packed / 16777216),
        .ofNat (self.packed / 65536), .ofNat (self.packed / 256),
        .ofNat self.packed] := by
  simp only [datetime2, bytesBE, bytesLE, Nat.div_div_eq_div_mul,
    Nat.reduceMul]
  rfl

/-- What `uint5korr` makes of the stored bytes. -/
theorem littleEndian_datetime2 (self : DateTime) :
    littleEndian self.datetime2 =
      self.packed / 4294967296 % 256 +
        256 * (self.packed / 16777216 % 256) +
        65536 * (self.packed / 65536 % 256) +
        16777216 * (self.packed / 256 % 256) +
        4294967296 * (self.packed % 256) := by
  simp only [datetime2_eq, littleEndian_cons, littleEndian_nil,
    UInt8.toNat_ofNat']
  ring

/-- The bits of the first two fields and the hour, as they stand in the stored
bytes. -/
structure Digits (moment : DateTime) (yearMonth : Nat) : Prop where
  first : moment.packed / 4294967296 % 256 = 128 + yearMonth / 1024
  second : moment.packed / 16777216 % 256 = yearMonth / 4 % 256
  third : moment.packed / 65536 % 256 =
    yearMonth % 4 * 64 + moment.day * 2 + moment.hour / 16

theorem digits (self : DateTime) :
    self.Digits (self.year * 13 + self.month) := by
  obtain ⟨year, month, day, hour, minute, second, _, _, _, _, _, _⟩ := self
  constructor
  · simp only [packed]
    omega
  · simp only [packed]
    omega
  · simp only [packed]
    omega

/-- Reading the mirrored bytes gives back year, month, hour, minute and second
for one choice of them only. -/
theorem mirrored_unique {yearMonth hour minute second : Nat}
    (hourFits : hour ≤ 23) (secondFits : second ≤ 59)
    (bounded : yearMonth ≤ 129999)
    (sameDate : yearMonth = 64 + yearMonth / 2048 +
      128 * (yearMonth / 4 % 256) + 32768 * (hour / 16))
    (sameHour : hour = yearMonth / 4 % 256 / 16 + 16 * (hour / 16))
    (sameMinute : minute = 2 + yearMonth / 65536 +
      4 * (yearMonth / 4 % 256 % 16))
    (sameSecond : second = yearMonth / 1024 % 64) :
    yearMonth = 2113 ∧ hour = 1 ∧ minute = 2 ∧ second = 2 := by
  obtain ⟨block, blockEq⟩ : ∃ block, yearMonth / 2048 = block := ⟨_, rfl⟩
  have few : block < 32 := by omega
  interval_cases block <;> omega

/-- What `_as_datetime2` makes of a stored date and time. -/
def misread (self : DateTime) : CValue.TDateTime :=
  let yearMonth := self.year * 13 + self.month
  let mirrored := 64 + yearMonth / 2048 + 128 * (yearMonth / 4 % 256) +
    32768 * (self.hour / 16)
  { date := { y := mirrored / 13, m := mirrored % 13, d := self.day }
    time :=
      { h := yearMonth / 4 % 256 / 16 + 16 * (self.hour / 16)
        m := 2 + yearMonth / 65536 + 4 * (yearMonth / 4 % 256 % 16)
        s := yearMonth / 1024 % 64 } }

theorem asDatetime2_stored (self : DateTime) {value : CValue}
    {memory fraction : Bytes} {address : Nat}
    (stored : Stored memory address (self.datetime2 ++ fraction))
    (storage : value.storage = some address) (size : 5 ≤ value.size)
    (type : value.type = .datetime2) (notNull : value.null = false) :
    value.asDatetime memory = .ok self.misread := by
  have read : readLE memory address 5 = .ok (littleEndian self.datetime2) := by
    have read := readLE_of_stored stored.left
    simpa [datetime2] using read
  have digits := self.digits
  have hourFits := self.hourFits
  have dayFits := self.dayFits
  have bounded : self.year * 13 + self.month ≤ 129999 := by
    have yearFits := self.yearFits
    have monthFits := self.monthFits
    omega
  rw [CValue.asDatetime_of_read type notNull storage size read,
    littleEndian_datetime2, digits.first, digits.second, digits.third,
    misread]
  generalize self.year * 13 + self.month = yearMonth at bounded ⊢
  generalize self.packed / 256 % 256 = fourth
  generalize self.packed % 256 = fifth
  have grouped : ∀ front : Nat,
      front + 16777216 * fourth + 4294967296 * fifth =
        front + 16777216 * (fourth + 256 * fifth) := by
    intro front
    omega
  have first : 128 + yearMonth / 1024 < 256 := by omega
  have second : yearMonth / 4 % 256 < 256 := Nat.mod_lt _ (by decide)
  obtain ⟨date, day, hour, minute, seconds⟩ :=
    @CValue.slices_bytes _ _ (yearMonth % 4 * 64 + self.day * 2 + self.hour / 16)
      (fourth + 256 * fifth) first second
  have sign : (128 + yearMonth / 1024) / 2 = 64 + yearMonth / 2048 := by omega
  have lastBit : (yearMonth % 4 * 64 + self.day * 2 + self.hour / 16) % 2 =
      self.hour / 16 := by omega
  have dayBits : (yearMonth % 4 * 64 + self.day * 2 + self.hour / 16) / 2 % 32 =
      self.day := by omega
  have minuteBits : (128 + yearMonth / 1024) / 64 = 2 + yearMonth / 65536 := by
    omega
  have secondBits : (128 + yearMonth / 1024) % 64 = yearMonth / 1024 % 64 := by
    omega
  rw [grouped, date, day, hour, minute, seconds, sign, lastBit, dayBits,
    minuteBits, secondBits]

theorem fieldAs_datetime2 (self : DateTime) {fsp address : Nat}
    {memory fraction : Bytes}
    (stored : Stored memory address (self.datetime2 ++ fraction)) :
    CValue.fieldAs CValue.asDatetime .datetime2 memory address fsp =
      .ok self.misread := by
  obtain ⟨length, sized, long⟩ : ∃ length,
      CValue.calcFieldSize .datetime2 memory address fsp = .ok length ∧
        5 ≤ length := by
    simp only [CValue.calcFieldSize]
    split
    · exact ⟨_, rfl, by decide⟩
    · split
      · exact ⟨_, rfl, by decide⟩
      · split
        · exact ⟨_, rfl, by decide⟩
        · exact ⟨_, rfl, by decide⟩
  simp only [CValue.fieldAs, CValue.ofField, sized, Exec.ok_bind, CValue.tune]
  exact self.asDatetime2_stored stored rfl long rfl rfl

/-- For every date and time, every number of fractional digits and every
fraction, `as_datetime` gives the six fields back exactly for 1:02:02 o'clock on
some day of July 162. -/
theorem asDatetime_datetime2_iff (self : DateTime) {fsp address : Nat}
    {memory fraction : Bytes}
    (stored : Stored memory address (self.datetime2 ++ fraction)) :
    CValue.fieldAs CValue.asDatetime .datetime2 memory address fsp =
        .ok self.fields ↔
      self.year = 162 ∧ self.month = 7 ∧ self.hour = 1 ∧ self.minute = 2 ∧
        self.second = 2 := by
  rw [self.fieldAs_datetime2 stored, Except.ok.injEq]
  constructor
  · intro same
    simp only [misread, fields, CValue.TDateTime.mk.injEq,
      CValue.TDate.mk.injEq, CValue.TTime.mk.injEq] at same
    obtain ⟨⟨year, month, _⟩, hour, minute, second⟩ := same
    have yearFits := self.yearFits
    have monthFits := self.monthFits
    have bounded : self.year * 13 + self.month ≤ 129999 := by omega
    have date : self.year * 13 + self.month =
        64 + (self.year * 13 + self.month) / 2048 +
          128 * ((self.year * 13 + self.month) / 4 % 256) +
          32768 * (self.hour / 16) := by
      omega
    obtain ⟨unique, sameHour, sameMinute, sameSecond⟩ :=
      mirrored_unique self.hourFits self.secondFits bounded date hour.symm
        minute.symm second.symm
    refine ⟨?_, ?_, sameHour, sameMinute, sameSecond⟩
    · omega
    · omega
  · rintro ⟨year, month, hour, minute, second⟩
    simp [misread, fields, year, month, hour, minute, second]

/-- The second of January 2024, 3:04:05 o'clock. -/
def january : DateTime :=
  ⟨2024, 1, 2, 3, 4, 5, by decide, by decide, by decide, by decide, by decide,
    by decide⟩

/-- It is read as a day of the year 1758. -/
theorem not_asDatetime_january :
    CValue.fieldAs CValue.asDatetime .datetime2 january.datetime2 0 0 =
        .ok january.misread ∧
      january.misread ≠ january.fields := by
  constructor
  · exact january.fieldAs_datetime2 (Stored.intro [] (january.datetime2 ++ []) [])
  · decide

/-- 1:02:02 o'clock on the fifteenth of July 162. -/
def july : DateTime :=
  ⟨162, 7, 15, 1, 2, 2, by decide, by decide, by decide, by decide, by decide,
    by decide⟩

theorem asDatetime_datetime2_iff_july :
    CValue.fieldAs CValue.asDatetime .datetime2 (july.datetime2 ++ [0] ++ []) 0
      2 = .ok july.fields :=
  (july.asDatetime_datetime2_iff
    (Stored.intro [] (july.datetime2 ++ [0]) [])).mpr
    ⟨rfl, rfl, rfl, rfl, rfl⟩

end DateTime

/-- A time of day, or an interval that is not negative. -/
structure Interval where
  hour : Nat
  minute : Nat
  second : Nat
  hourFits : hour ≤ 838
  minuteFits : minute ≤ 59
  secondFits : second ≤ 59

namespace Interval

def fields (self : Interval) : CValue.TTime where
  h := self.hour
  m := self.minute
  s := self.second

/-- A TIME value. -/
def time (self : Interval) : Bytes :=
  bytesLE 3 (self.hour * 10000 + self.minute * 100 + self.second)

/-- A TIME2 value without a fraction. -/
def time2 (self : Interval) : Bytes :=
  bytesBE 3 (8388608 + self.hour * 4096 + self.minute * 64 + self.second)

end Interval

/-- A value that `as_timestamp` or `as_time` is for. -/
inductive TimeField
  | timestamp (t : Nat) (positive : 0 < t) (small : t < 4294967296)
  | timestamp2 (t : Nat) (positive : 0 < t) (small : t < 4294967296)
  | time (interval : Interval)
  | time2 (interval : Interval)

namespace TimeField

def type : TimeField → EColumnType
  | timestamp .. => .timestamp
  | timestamp2 .. => .timestamp2
  | time _ => .time
  | time2 _ => .time2

/-- The stored bytes. -/
def bytes : TimeField → Bytes
  | timestamp t _ _ => bytesLE 4 t
  | timestamp2 t _ _ => bytesBE 4 t
  | time interval => interval.time
  | time2 interval => interval.time2

/-- The accessor gives the stored time back. -/
def ReadsBack (memory : Bytes) (address : Nat) : TimeField → Prop
  | timestamp t _ _ =>
      CValue.fieldAs CValue.asTimestamp .timestamp memory address 0 = .ok t
  | timestamp2 t _ _ =>
      CValue.fieldAs CValue.asTimestamp .timestamp2 memory address 0 = .ok t
  | time interval =>
      CValue.fieldAs CValue.asTime .time memory address 0 =
        .ok interval.fields
  | time2 interval =>
      CValue.fieldAs CValue.asTime .time2 memory address 0 =
        .ok interval.fields

/-- A TIMESTAMP whose bytes read the same from both ends, any TIMESTAMP2, a TIME
of at most 255 hours, no TIME2. -/
def Legible : TimeField → Prop
  | timestamp t _ _ =>
      t % 256 = t / 16777216 ∧ t / 256 % 256 = t / 65536 % 256
  | timestamp2 .. => True
  | time interval => interval.hour ≤ 255
  | time2 _ => False

variable {memory : Bytes} {address : Nat}

theorem asTimestamp_field {type : EColumnType} {value : Nat}
    (sized : CValue.calcFieldSize type memory address 0 = .ok 4)
    (framed : type = .timestamp ∨ type = .timestamp2)
    (read : readBE memory address 4 = .ok value) :
    CValue.fieldAs CValue.asTimestamp type memory address 0 = .ok value := by
  rcases framed with rfl | rfl
  · simp [CValue.fieldAs, CValue.ofField, sized, CValue.tune,
      CValue.asTimestamp, CValue.isValid, CValue.pointer, read]
  · simp [CValue.fieldAs, CValue.ofField, sized, CValue.tune,
      CValue.asTimestamp, CValue.isValid, CValue.pointer, read]

theorem asTime_field {type : EColumnType} {value : Nat}
    (sized : CValue.calcFieldSize type memory address 0 = .ok 3)
    (framed : type = .time ∨ type = .time2)
    (read : readLE memory address 3 = .ok value) :
    CValue.fieldAs CValue.asTime type memory address 0 =
      .ok { h := value / 10000 % 256, m := value % 10000 / 100
            s := value % 100 } := by
  rcases framed with rfl | rfl
  · simp [CValue.fieldAs, CValue.ofField, sized, CValue.tune, CValue.asTime,
      CValue.isNull, CValue.isValid, CValue.pointer, read]
  · simp [CValue.fieldAs, CValue.ofField, sized, CValue.tune, CValue.asTime,
      CValue.isNull, CValue.isValid, CValue.pointer, read]

theorem bigEndian_bytesLE (t : Nat) :
    bigEndian (bytesLE 4 t) =
      16777216 * (t % 256) + 65536 * (t / 256 % 256) +
        256 * (t / 65536 % 256) + t / 16777216 % 256 := by
  simp only [bigEndian, bytesLE, List.reverse_cons, List.reverse_nil,
    List.nil_append, List.cons_append, littleEndian_cons, littleEndian_nil,
    UInt8.toNat_ofNat', Nat.div_div_eq_div_mul, Nat.reduceMul]
  ring

theorem mirrored_eq_iff {first second third fourth : Nat}
    (b : second < 256) (c : third < 256) (d : fourth < 256) :
    16777216 * first + 65536 * second + 256 * third + fourth =
        first + 256 * second + 65536 * third + 16777216 * fourth ↔
      first = fourth ∧ second = third := by
  constructor
  · intro same
    have outer : first = fourth := by omega
    have inner : second = third := by omega
    exact ⟨outer, inner⟩
  · rintro ⟨rfl, rfl⟩
    ring

theorem timestamp_iff (t : Nat) (positive : 0 < t) (small : t < 4294967296)
    (stored : Stored memory address (timestamp t positive small).bytes) :
    (timestamp t positive small).ReadsBack memory address ↔
      (timestamp t positive small).Legible := by
  have read := readBE_of_stored stored
  rw [bytes, bytesLE_length, bigEndian_bytesLE] at read
  have digits : t = t % 256 + 256 * (t / 256 % 256) +
      65536 * (t / 65536 % 256) + 16777216 * (t / 16777216) := by
    have low : t / 256 / 256 = t / 65536 := Nat.div_div_eq_div_mul t 256 256
    have high : t / 65536 / 256 = t / 16777216 :=
      Nat.div_div_eq_div_mul t 65536 256
    omega
  have top : t / 16777216 % 256 = t / 16777216 := by omega
  have mirrored := @mirrored_eq_iff (t % 256) (t / 256 % 256)
    (t / 65536 % 256) (t / 16777216) (Nat.mod_lt _ (by decide))
    (Nat.mod_lt _ (by decide)) (by omega)
  rw [ReadsBack, asTimestamp_field rfl (Or.inl rfl) read, Except.ok.injEq,
    Legible, top, ← mirrored, ← digits]

theorem time_iff (interval : Interval)
    (stored : Stored memory address (time interval).bytes) :
    (time interval).ReadsBack memory address ↔ (time interval).Legible := by
  obtain ⟨hour, minute, second, _, _, _⟩ := interval
  have read : readLE memory address 3 =
      .ok (hour * 10000 + minute * 100 + second) := by
    apply readLE_of_stored stored |>.trans
    have small : hour * 10000 + minute * 100 + second < 256 ^ 3 := by omega
    simp only [bytes, Interval.time]
    rw [littleEndian_bytesLE_of_lt small]
  rw [ReadsBack, asTime_field rfl (Or.inl rfl) read, Except.ok.injEq, Legible]
  simp only [Interval.fields, CValue.TTime.mk.injEq]
  constructor
  · rintro ⟨sameHour, _, _⟩
    omega
  · intro few
    refine ⟨?_, ?_, ?_⟩
    · omega
    · omega
    · omega

/-- What `as_time` makes of a TIME2 value fits no number of wraps of the hour. -/
theorem no_wraps : ∀ r < 4, ∀ second < 60, ∀ wraps < 7,
    let low := 128 + 4194204 * r + 65535 * second
    let high := 159999 * ((4 * r + second) % 16) + 2560000 * wraps
    low < high ∨ (low - high) % 144 ≠ 0 ∨ 90576 < low - high := by
  decide +kernel

/-- The equation between a TIME2 value and its reading, with hour and minute
split into the digits that two bytes share. -/
theorem no_reading {block unit quarter rest second wraps : Nat}
    (blockFits : block < 16) (unitFits : unit < 16) (quarterFits : quarter < 15)
    (restFits : rest < 4) (secondFits : second < 60) (few : wraps < 7)
    (same : 128 + block + 256 * (unit * 16 + quarter) +
      65536 * (rest * 64 + second) =
        10000 * (16 * block + unit + 256 * wraps) +
          (4 * quarter + rest) * 100 + second) : False := by
  have blockDigits : block = (4 * rest + second) % 16 := by omega
  have none := no_wraps rest restFits second secondFits wraps few
  dsimp only at none
  rw [← blockDigits] at none
  omega

theorem mirrored_time2_ne {hour minute second value : Nat}
    (minuteFits : minute ≤ 59) (secondFits : second ≤ 59)
    (mirrored : value = 128 + hour / 16 +
      256 * (hour % 16 * 16 + minute / 4) + 65536 * (minute % 4 * 64 + second))
    (sameHour : value / 10000 % 256 = hour)
    (sameRest : value % 10000 = minute * 100 + second) : False := by
  have hourFits : hour < 256 := by
    rw [← sameHour]
    exact Nat.mod_lt _ (by decide)
  have hourDigits := Nat.div_add_mod hour 16
  have minuteDigits := Nat.div_add_mod minute 4
  have blockFits : hour / 16 < 16 := by omega
  have unitFits : hour % 16 < 16 := Nat.mod_lt _ (by decide)
  have quarterFits : minute / 4 < 15 := by omega
  have restFits : minute % 4 < 4 := Nat.mod_lt _ (by decide)
  have tenthousands := Nat.div_add_mod value 10000
  have hours := Nat.div_add_mod (value / 10000) 256
  rw [sameHour] at hours
  rw [sameRest, ← hours] at tenthousands
  generalize value / 10000 / 256 = wraps at tenthousands
  generalize hour / 16 = block at *
  generalize hour % 16 = unit at *
  generalize minute / 4 = quarter at *
  generalize minute % 4 = rest at *
  clear sameHour sameRest hours
  have few : wraps < 7 := by linarith
  apply no_reading blockFits unitFits quarterFits restFits
    (Nat.lt_succ_of_le secondFits) few
  rw [hourDigits, minuteDigits, ← mirrored, ← tenthousands]
  ring

theorem time2_bytes {hour minute second packed : Nat} (hourFits : hour ≤ 838)
    (minuteFits : minute ≤ 59) (secondFits : second ≤ 59)
    (same : packed = 8388608 + hour * 4096 + minute * 64 + second) :
    packed / 65536 % 256 = 128 + hour / 16 ∧
      packed / 256 % 256 = hour % 16 * 16 + minute / 4 ∧
      packed % 256 = minute % 4 * 64 + second := by
  refine ⟨?_, ?_, ?_⟩
  · omega
  · omega
  · omega

theorem littleEndian_time2 (interval : Interval) :
    littleEndian interval.time2 =
      128 + interval.hour / 16 +
        256 * (interval.hour % 16 * 16 + interval.minute / 4) +
        65536 * (interval.minute % 4 * 64 + interval.second) := by
  obtain ⟨first, middle, last⟩ := time2_bytes interval.hourFits
    interval.minuteFits interval.secondFits rfl
  rw [← first, ← middle, ← last, Interval.time2]
  generalize 8388608 + interval.hour * 4096 + interval.minute * 64 +
    interval.second = packed
  simp only [bytesBE, bytesLE, List.reverse_cons, List.reverse_nil,
    List.nil_append, List.cons_append, littleEndian_cons, littleEndian_nil,
    UInt8.toNat_ofNat', Nat.div_div_eq_div_mul, Nat.reduceMul, Nat.reducePow]
  ring

theorem time2_iff (interval : Interval)
    (stored : Stored memory address (time2 interval).bytes) :
    (time2 interval).ReadsBack memory address ↔
      (time2 interval).Legible := by
  have read : readLE memory address 3 = .ok (littleEndian interval.time2) := by
    have read := readLE_of_stored stored
    simpa only [bytes, Interval.time2, bytesBE_length] using read
  rw [ReadsBack, asTime_field rfl (Or.inr rfl) read, Except.ok.injEq, Legible,
    iff_false]
  simp only [Interval.fields, CValue.TTime.mk.injEq]
  rintro ⟨sameHour, sameMinute, sameSecond⟩
  apply mirrored_time2_ne interval.minuteFits interval.secondFits
    (littleEndian_time2 interval) sameHour
  omega

/-- For every stored time, the accessor for it gives it back exactly if the bytes
are of the format and the range that it is written for. -/
theorem readsBack_iff (field : TimeField)
    (stored : Stored memory address field.bytes) :
    field.ReadsBack memory address ↔ field.Legible := by
  cases field with
  | timestamp t positive small => exact timestamp_iff t positive small stored
  | timestamp2 t positive small =>
      have read := readBE_bytesBE small stored
      rw [ReadsBack, asTimestamp_field rfl (Or.inr rfl) read, Legible]
      simp
  | time interval => exact time_iff interval stored
  | time2 interval => exact time2_iff interval stored

/-- One second after the epoch. -/
def epoch : TimeField := .timestamp 1 (by decide) (by decide)

/-- It is read as a time half a year later. -/
theorem not_readsBack_epoch : ¬epoch.ReadsBack epoch.bytes 0 := by
  intro same
  have read : readBE epoch.bytes 0 4 = .ok 16777216 := rfl
  have later := asTimestamp_field rfl (Or.inl rfl) read
  cases later.symm.trans same

/-- 230:31:32, the value 2303132. -/
def interval : Interval := ⟨230, 31, 32, by decide, by decide, by decide⟩

theorem readsBack_iff_interval :
    (time interval).ReadsBack ([] ++ (time interval).bytes ++ []) 0 :=
  (readsBack_iff (.time interval) (Stored.intro [] _ [])).mpr
    (Nat.le_of_ble_eq_true rfl)

end TimeField

end MysqlSlave
