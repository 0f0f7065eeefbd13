import MysqlSlave.Temporal

/-!
# DATE and DATETIME values

The formats without fractional seconds: a DATE is three bytes with year, month and
day in one binary number, a DATETIME eight bytes with one decimal number.
`as_date` and `as_datetime` give back what was stored.
-/

namespace MysqlSlave

open Region

/-- A date; month and day may be zero. -/
structure Date where
  year : Nat
  month : Nat
  day : Nat
  yearFits : year ≤ 9999
  monthFits : month ≤ 12
  dayFits : day ≤ 31

namespace Date

def fields (self : Date) : CValue.TDate where
  y := self.year
  m := self.month
  d := self.day

def packed (self : Date) : Nat :=
  self.year * 512 + self.month * 32 + self.day

/-- A DATE value. -/
def date (self : Date) : Bytes := bytesLE 3 self.packed

theorem packed_lt (self : Date) : self.packed < 256 ^ 3 := by
  obtain ⟨year, month, day, _, _, _⟩ := self
  simp only [packed]
  omega

theorem unpack (self : Date) :
    self.packed / (16 * 32) % 65536 = self.year ∧
      self.packed / 32 % 16 = self.month ∧ self.packed % 32 = self.day := by
  obtain ⟨year, month, day, _, _, _⟩ := self
  simp only [packed]
  refine ⟨?_, ?_, ?_⟩
  · omega
  · omega
  · omega

end Date

namespace DateTime

/-- YYYYMMDD. -/
def dateNumber (self : DateTime) : Nat :=
  self.year * 10000 + self.month * 100 + self.day

/-- hhmmss. -/
def timeNumber (self : DateTime) : Nat :=
  self.hour * 10000 + self.minute * 100 + self.second

/-- YYYYMMDDhhmmss. -/
def number (self : DateTime) : Nat :=
  self.dateNumber * 1000000 + self.timeNumber

/-- A DATETIME value. -/
def datetime (self : DateTime) : Bytes := bytesLE 8 self.number

theorem dateNumber_le (self : DateTime) : self.dateNumber ≤ 99991231 := by
  obtain ⟨year, month, day, _, _, _, _, _, _, _, _, _⟩ := self
  simp only [dateNumber]
  omega

theorem timeNumber_le (self : DateTime) : self.timeNumber ≤ 235959 := by
  obtain ⟨_, _, _, hour, minute, second, _, _, _, _, _, _⟩ := self
  simp only [timeNumber]
  omega

theorem number_lt (self : DateTime) : self.number < 256 ^ 8 := by
  have date := self.dateNumber_le
  have time := self.timeNumber_le
  simp only [number]
  omega

/-- Date and time come apart at the sixth digit. -/
theorem split_number (self : DateTime) :
    self.number / 1000000 = self.dateNumber ∧
      self.number % 1000000 = self.timeNumber := by
  have time := self.timeNumber_le
  simp only [number]
  constructor
  · omega
  · omega

theorem dateNumber_digits (self : DateTime) :
    self.dateNumber / 10000 % 65536 = self.year ∧
      self.dateNumber % 10000 / 100 = self.month ∧
      self.dateNumber % 100 = self.day := by
  obtain ⟨year, month, day, _, _, _, _, _, _, _, _, _⟩ := self
  simp only [dateNumber]
  refine ⟨?_, ?_, ?_⟩
  · omega
  · omega
  · omega

theorem timeNumber_digits (self : DateTime) :
    self.timeNumber / 10000 = self.hour ∧
      self.timeNumber % 10000 / 100 = self.minute ∧
      self.timeNumber % 100 = self.second := by
  obtain ⟨_, _, _, hour, minute, second, _, _, _, _, _, _⟩ := self
  simp only [timeNumber]
  refine ⟨?_, ?_, ?_⟩
  · omega
  · omega
  · omega

end DateTime

namespace CValue

/-- The value is not NULL and its storage begins with the bytes. -/
structure Holds (value : CValue) (memory bytes : Bytes) : Prop where
  stored : ∃ address, value.storage = some address ∧
    Stored memory address bytes
  size : bytes.length ≤ value.size
  notNull : value.null = false

namespace Holds

variable {value : CValue} {memory : Bytes} {width number : Nat}

theorem read (holds : value.Holds memory (bytesLE width number))
    (small : number < 256 ^ width) :
    ∃ address, value.pointer = .ok address ∧
      readLE memory address width = .ok number := by
  obtain ⟨address, storage, stored⟩ := holds.stored
  have read := readLE_of_stored stored
  rw [bytesLE_length, littleEndian_bytesLE_of_lt small] at read
  exact ⟨address, by simp [pointer, storage], read⟩

theorem readable (holds : value.Holds memory (bytesLE width number))
    (wide : 0 < width) :
    value.isValid = true ∧ ¬value.size < width := by
  obtain ⟨address, storage, _⟩ := holds.stored
  have size := holds.size
  rw [bytesLE_length] at size
  have nonempty : value.size ≠ 0 := by omega
  exact ⟨by simp [isValid, storage, nonempty], by omega⟩

end Holds

end CValue

theorem Date.asDate_date (self : Date) {value : CValue} {memory : Bytes}
    (holds : value.Holds memory self.date) :
    value.asDate memory = .ok self.fields := by
  obtain ⟨address, pointer, read⟩ := CValue.Holds.read holds self.packed_lt
  obtain ⟨valid, long⟩ := CValue.Holds.readable holds (by decide)
  obtain ⟨year, month, day⟩ := self.unpack
  simp only [CValue.asDate, holds.notNull, valid, long, Bool.not_true,
    Bool.or_self, Bool.false_eq_true, decide_false, if_false, pointer, read,
    Exec.ok_bind, Exec.pure_eq_ok, year, month, day, fields]

theorem DateTime.asDatetime_datetime (self : DateTime) {value : CValue}
    {memory : Bytes} (type : value.type = .datetime)
    (holds : value.Holds memory self.datetime) :
    value.asDatetime memory = .ok self.fields := by
  obtain ⟨address, pointer, read⟩ := CValue.Holds.read holds self.number_lt
  obtain ⟨valid, long⟩ := CValue.Holds.readable holds (by decide)
  obtain ⟨date, time⟩ := self.split_number
  obtain ⟨year, month, day⟩ := self.dateNumber_digits
  obtain ⟨hour, minute, second⟩ := self.timeNumber_digits
  have notNull : value.isNull = false := by
    simp [CValue.isNull, holds.notNull, type]
  rw [CValue.asDatetime, if_pos type]
  simp only [CValue.asOldDatetime, notNull, valid, long, Bool.not_true,
    Bool.or_self, Bool.false_eq_true, decide_false, if_false, pointer, read,
    Exec.ok_bind, Exec.pure_eq_ok, date, time, year, month, day, hour, minute,
    second, fields]

/-- For every date and every date and time, the accessors give back the fields
that were stored. -/
theorem decodes_stored_dates (value : CValue) (memory : Bytes) :
    (∀ date : Date, value.Holds memory date.date →
        value.asDate memory = .ok date.fields) ∧
      ∀ moment : DateTime, value.type = .datetime →
        value.Holds memory moment.datetime →
        value.asDatetime memory = .ok moment.fields :=
  ⟨fun date holds => date.asDate_date holds,
    fun moment type holds => moment.asDatetime_datetime type holds⟩

/-- The second of January 2024, and the same day at 3:04:05 o'clock. -/
theorem decodes_stored_dates_january :
    (⟨.date, some 0, 3, 0, false, 0⟩ : CValue).asDate
        [34, 208, 15] = .ok { y := 2024, m := 1, d := 2 } ∧
      (⟨.datetime, some 0, 8, 0, false, 0⟩ : CValue).asDatetime
        [69, 124, 23, 132, 104, 18, 0, 0] = .ok DateTime.january.fields := by
  constructor
  · exact (decodes_stored_dates _ _).1
      ⟨2024, 1, 2, by decide, by decide, by decide⟩
      ⟨⟨0, rfl, [], [], by decide, rfl⟩, by decide, rfl⟩
  · exact (decodes_stored_dates _ _).2 DateTime.january rfl
      ⟨⟨0, rfl, [], [], by decide, rfl⟩, by decide, rfl⟩

end MysqlSlave
