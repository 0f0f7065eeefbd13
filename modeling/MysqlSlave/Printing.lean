import MysqlSlave.Lib.DecimalText
import MysqlSlave.Temporal

/-!
# Printing dates and times

The `operator<<` functions of `value.cpp` for dates and times.  A time is printed
into a buffer of ten bytes, which takes one field of three digits and two of two,
and a date into one of twenty.
-/

namespace MysqlSlave

open Region

namespace CValue

namespace TDate

/-- `"%d-%02d-%02d"`. -/
def text (self : TDate) : Bytes :=
  decimalText self.y ++ 45 :: paddedText 2 self.m ++ 45 :: paddedText 2 self.d

/-- `operator<<`. -/
def print (self : TDate) : Exec Bytes := sprintf 20 self.text

end TDate

namespace TTime

/-- `"%02d:%02d:%02d"`. -/
def text (self : TTime) : Bytes :=
  paddedText 2 self.h ++ 58 :: paddedText 2 self.m ++ 58 :: paddedText 2 self.s

/-- `operator<<`. -/
def print (self : TTime) : Exec Bytes := sprintf 10 self.text

end TTime

namespace TDate

/-- The fields have the widths of their types. -/
structure InRange (date : TDate) : Prop where
  y : date.y < 65536
  m : date.m < 256
  d : date.d < 256

theorem text_plain (self : TDate) : 0 ∉ self.text := by
  simp [text, decimalText_plain, paddedText_plain]

theorem text_length_le {self : TDate} (ranged : self.InRange) :
    self.text.length ≤ 13 := by
  obtain ⟨y, m, d⟩ := ranged
  have year : (decimalText self.y).length ≤ 5 :=
    decimalText_length_le (by decide) (by omega)
  have month : (paddedText 2 self.m).length ≤ 3 :=
    paddedText_length_le (by decide) (by decide) (by omega)
  have day : (paddedText 2 self.d).length ≤ 3 :=
    paddedText_length_le (by decide) (by decide) (by omega)
  simp only [text, List.length_append, List.length_cons]
  omega

theorem print_eq_ok {self : TDate} (ranged : self.InRange) :
    self.print = .ok self.text := by
  have short := text_length_le ranged
  exact (sprintf_eq_ok_iff self.text_plain).mpr (by omega)

end TDate

namespace TTime

/-- Minutes and seconds have two digits, and the hours fit in eight bits. -/
structure InRange (time : TTime) : Prop where
  h : time.h < 256
  m : time.m < 100
  s : time.s < 100

theorem text_plain (self : TTime) : 0 ∉ self.text := by
  simp [text, paddedText_plain]

theorem text_length_le {self : TTime} (ranged : self.InRange) :
    self.text.length ≤ 9 := by
  obtain ⟨h, m, s⟩ := ranged
  have hour : (paddedText 2 self.h).length ≤ 3 :=
    paddedText_length_le (by decide) (by decide) (by omega)
  have minute : (paddedText 2 self.m).length ≤ 2 :=
    paddedText_length_le (by decide) (by decide) m
  have second : (paddedText 2 self.s).length ≤ 2 :=
    paddedText_length_le (by decide) (by decide) s
  simp only [text, List.length_append, List.length_cons]
  omega

theorem print_eq_ok {self : TTime} (ranged : self.InRange) :
    self.print = .ok self.text := by
  have short := text_length_le ranged
  exact (sprintf_eq_ok_iff self.text_plain).mpr (by omega)

end TTime

/-- A value of nothing but zeros, which the accessors return for NULL. -/
theorem zero_inRange :
    ({} : TDate).InRange ∧ ({} : TTime).InRange :=
  ⟨⟨by decide, by decide, by decide⟩, ⟨by decide, by decide, by decide⟩⟩

variable {value : CValue} {memory : Bytes}

theorem asDate_inRange {date : TDate}
    (run : value.asDate memory = .ok date) : date.InRange := by
  unfold asDate at run
  split at run
  · cases run
    exact zero_inRange.1
  · obtain ⟨address, _, run⟩ := Exec.bind_eq_ok.mp run
    obtain ⟨dd, _, run⟩ := Exec.bind_eq_ok.mp run
    cases run
    constructor
    · exact Nat.mod_lt _ (by decide)
    · show dd / 32 % 16 < 256
      omega
    · show dd % 32 < 256
      omega

theorem asTime_inRange {time : TTime}
    (run : value.asTime memory = .ok time) : time.InRange := by
  unfold asTime at run
  split at run
  · cases run
    exact zero_inRange.2
  · obtain ⟨address, _, run⟩ := Exec.bind_eq_ok.mp run
    obtain ⟨tt, _, run⟩ := Exec.bind_eq_ok.mp run
    cases run
    constructor
    · exact Nat.mod_lt _ (by decide)
    · show tt % 10000 / 100 < 100
      omega
    · exact Nat.mod_lt _ (by decide)

theorem asOldDatetime_inRange {moment : TDateTime}
    (run : value.asOldDatetime memory = .ok moment) :
    moment.date.InRange ∧ moment.time.InRange := by
  unfold asOldDatetime at run
  split at run
  · cases run
    exact zero_inRange
  · obtain ⟨address, _, run⟩ := Exec.bind_eq_ok.mp run
    obtain ⟨dt, _, run⟩ := Exec.bind_eq_ok.mp run
    cases run
    constructor
    · constructor
      · exact Nat.mod_lt _ (by decide)
      · show dt / 1000000 % 10000 / 100 < 256
        omega
      · show dt / 1000000 % 100 < 256
        omega
    · constructor
      · show dt % 1000000 / 10000 < 256
        omega
      · show dt % 1000000 % 10000 / 100 < 100
        omega
      · exact Nat.mod_lt _ (by decide)

theorem readBitSlice_lt (binary start size dataLength : Nat) :
    readBitSlice binary start size dataLength < 2 ^ size := by
  rw [readBitSlice_eq]
  exact Nat.mod_lt _ (Nat.two_pow_pos size)

theorem asDatetime2_inRange {moment : TDateTime}
    (run : value.asDatetime2 memory = .ok moment) :
    moment.date.InRange ∧ moment.time.InRange := by
  unfold asDatetime2 at run
  split at run
  · cases run
    exact zero_inRange
  · obtain ⟨address, _, run⟩ := Exec.bind_eq_ok.mp run
    obtain ⟨data, _, run⟩ := Exec.bind_eq_ok.mp run
    cases run
    have day := readBitSlice_lt data 18 5 40
    have hour := readBitSlice_lt data 23 5 40
    have minute := readBitSlice_lt data 28 6 40
    have second := readBitSlice_lt data 34 6 40
    constructor
    · constructor
      · show (data >>> 1) % 65536 / 13 < 65536
        omega
      · show (data >>> 1) % 65536 % 13 < 256
        omega
      · exact day.trans (by decide)
    · constructor
      · exact hour.trans (by decide)
      · exact minute.trans (by decide)
      · exact second.trans (by decide)

theorem asDatetime_inRange {moment : TDateTime}
    (run : value.asDatetime memory = .ok moment) :
    moment.date.InRange ∧ moment.time.InRange := by
  unfold asDatetime at run
  split at run
  · exact asOldDatetime_inRange run
  · split at run
    · exact asDatetime2_inRange run
    · cases run
      exact zero_inRange

/-- For every value and whatever its bytes are, what `as_time`, `as_datetime` and
`as_date` return is printed inside the buffers. -/
theorem prints_inside (value : CValue) (memory : Bytes) :
    (∀ time, value.asTime memory = .ok time →
        ∃ text, time.print = .ok text ∧ text.length ≤ 9) ∧
      (∀ moment, value.asDatetime memory = .ok moment →
        (∃ text, moment.time.print = .ok text ∧ text.length ≤ 9) ∧
          ∃ text, moment.date.print = .ok text ∧ text.length ≤ 19) ∧
      ∀ date, value.asDate memory = .ok date →
        ∃ text, date.print = .ok text ∧ text.length ≤ 19 := by
  have time : ∀ time : TTime, time.InRange →
      ∃ text, time.print = .ok text ∧ text.length ≤ 9 :=
    fun time ranged =>
      ⟨_, TTime.print_eq_ok ranged, TTime.text_length_le ranged⟩
  have date : ∀ date : TDate, date.InRange →
      ∃ text, date.print = .ok text ∧ text.length ≤ 19 :=
    fun date ranged => ⟨_, TDate.print_eq_ok ranged,
      (TDate.text_length_le ranged).trans (by decide)⟩
  refine ⟨fun _ run => time _ (asTime_inRange run), ?_,
    fun _ run => date _ (asDate_inRange run)⟩
  intro moment run
  obtain ⟨dateRanged, timeRanged⟩ := asDatetime_inRange run
  exact ⟨time _ timeRanged, date _ dateRanged⟩

/-- Three bytes of ones are 141:72:15, which fills the buffer. -/
theorem prints_inside_ones :
    ∃ text,
      TTime.print { h := 141, m := 72, s := 15 } = .ok text ∧
        text.length ≤ 9 :=
  (prints_inside ⟨.time, some 0, 3, 0, false, 0⟩ [255, 255, 255]).1
    { h := 141, m := 72, s := 15 } (by decide)

example : (TTime.text { h := 141, m := 72, s := 15 }).length = 9 := by decide

end CValue

end MysqlSlave
