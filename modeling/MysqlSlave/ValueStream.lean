import MysqlSlave.Jsonb
import MysqlSlave.Lib.OStream
import MysqlSlave.Printing
import MysqlSlave.TypedColumns

/-!
# Values in a stream

`operator<<` of `CValue` prints ENUM and SET values in hexadecimal and does not
set the stream back, so what is printed behind one is in hexadecimal as well.
-/

namespace MysqlSlave

open Region

/-- The texts that libraries make: of a number in floating point with these bytes
(of 0, if there are none), of a time, and of a JSON value. -/
structure Formats where
  float : Bytes → Bytes
  double : Bytes → Bytes
  ctime : Nat → Bytes
  json : JsonValue → Bytes

namespace CValue

/-- The bytes that `as_double` and `as_float` have of a FLOAT or a DOUBLE. -/
def asReal (self : CValue) (memory : Bytes) : Exec Bytes :=
  if self.isNull || !self.isValid then .ok []
  else do
    let address ← self.pointer
    match self.size with
    | 4 => readBytes memory address 4
    | 8 => readBytes memory address 8
    | _ => .ok []

/-- `operator<<`. -/
def TDateTime.insertions (self : TDateTime) : Exec (List Insertion) := do
  let date ← self.date.print
  let time ← self.time.print
  return [.text date, .text [32], .text time]

/-- `operator<<`: what it inserts into the stream. -/
def insertions (self : CValue) (formats : Formats) (memory : Bytes) :
    Exec (List Insertion) :=
  match self.type with
  | .varchar | .varString | .string | .blob => do
      let s ← self.asString memory
      return [.text s]
  | .enum | .set => do
      let number ← self.asEnum memory
      return [.hex, .setfill 48, .setw 8, .number number]
  | .decimal | .tiny | .short | .long | .longlong => do
      let number ← self.asSigned 64 memory
      return [.number number]
  | .float => do
      let bytes ← self.asReal memory
      return [.text (formats.float bytes)]
  | .double => do
      let bytes ← self.asReal memory
      return [.text (formats.double bytes)]
  | .timestamp | .timestamp2 => do
      let t ← self.asTimestamp memory
      let buf ← sprintf 64 (formats.ctime t)
      -- without the end of the line
      return [.text (if 1 < buf.length then buf.dropLast else buf)]
  | .date => do
      let date ← self.asDate memory
      let text ← date.print
      return [.text text]
  | .time | .time2 => do
      let time ← self.asTime memory
      let text ← time.print
      return [.text text]
  | .datetime => do
      let moment ← self.asOldDatetime memory
      moment.insertions
  | .datetime2 => do
      let moment ← self.asDatetime2 memory
      moment.insertions
  | .year => do
      let year ← self.asYear memory
      return [.number year]
  | .json => do
      let json ← self.asJson memory
      return [.text (formats.json json)]
  | _ => .ok []

end CValue

theorem CValue.asYear_lt {value : CValue} {memory : Bytes} {year : Nat}
    (run : value.asYear memory = .ok year) : year < 2156 := by
  unfold asYear at run
  split at run
  · cases run
    decide
  · obtain ⟨address, _, run⟩ := Exec.bind_eq_ok.mp run
    obtain ⟨byte, _, run⟩ := Exec.bind_eq_ok.mp run
    cases run
    have small := byte.toNat_lt
    omega

/-- What an application prints: values, and texts and numbers of its own. -/
inductive Printed
  | value (val : CValue) (memory : Bytes)
  | text (text : Bytes)
  | number (number : Int) (fits : number < 2 ^ 64)

namespace Printed

def insertions (formats : Formats) : Printed → Exec (List Insertion)
  | value val memory => val.insertions formats memory
  | text str => .ok [.text str]
  | number amount _ => .ok [.number amount]

/-- The text of the item in a new stream. -/
def alone (formats : Formats) (item : Printed) : Exec Bytes := do
  let insertions ← item.insertions formats
  return (({} : OStream).insertAll insertions).1

/-- The texts of items that are printed one after the other into a stream. -/
def printAll (formats : Formats) :
    OStream → List Printed → Exec (List Bytes)
  | _, [] => .ok []
  | os, item :: items => do
      let insertions ← item.insertions formats
      let (piece, next) := os.insertAll insertions
      let rest ← printAll formats next items
      return piece :: rest

/-- A value of an ENUM or a SET column. -/
def IsChoice : Printed → Prop
  | value val _ => val.type = .enum ∨ val.type = .set
  | _ => False

/-- If the item is a number, it is one of 0 to 9. -/
def IsDigit (formats : Formats) (item : Printed) : Prop :=
  ∀ number : Int, item.insertions formats = .ok [.number number] →
    0 ≤ number ∧ number < 10

/-- What an item inserts. -/
inductive Inserts (item : Printed) : List Insertion → Prop where
  | choice (number : Nat) :
      item.IsChoice →
      Inserts item [.hex, .setfill 48, .setw 8, .number number]
  | number (number : Int) :
      ¬item.IsChoice → number < 2 ^ 64 → Inserts item [.number number]
  | texts (texts : List Bytes) :
      ¬item.IsChoice → Inserts item (texts.map .text)

variable {formats : Formats} {item : Printed}

theorem dateTime_inserts {moment : CValue.TDateTime}
    {insertions : List Insertion} (other : ¬item.IsChoice)
    (run : moment.insertions = .ok insertions) : item.Inserts insertions := by
  obtain ⟨date, _, run⟩ := Exec.bind_eq_ok.mp run
  obtain ⟨time, _, run⟩ := Exec.bind_eq_ok.mp run
  cases run
  exact .texts [date, [32], time] other

/-- A value inserts the number of a choice, one other number, or strings. -/
theorem inserts_of_value {val : CValue} {memory : Bytes}
    {insertions : List Insertion}
    (run : val.insertions formats memory = .ok insertions) :
    (Printed.value val memory).Inserts insertions := by
  have plain : val.type ≠ .enum → val.type ≠ .set →
      ¬(Printed.value val memory).IsChoice :=
    fun enum set => not_or.mpr ⟨enum, set⟩
  unfold CValue.insertions at run
  split at run
  -- strings, numbers in floating point and JSON
  case h_1 type | h_2 type | h_3 type | h_4 type | h_12 type | h_13 type
    | h_22 type =>
    obtain ⟨text, _, run⟩ := Exec.bind_eq_ok.mp run
    cases run
    exact .texts [_] (plain (by simp [type]) (by simp [type]))
  case h_5 type | h_6 type =>
    obtain ⟨number, _, run⟩ := Exec.bind_eq_ok.mp run
    cases run
    exact .choice number (by simp [IsChoice, type])
  case h_7 type | h_8 type | h_9 type | h_10 type | h_11 type =>
    obtain ⟨number, read, run⟩ := Exec.bind_eq_ok.mp run
    obtain ⟨bits, _, read⟩ := Exec.bind_eq_ok.mp read
    cases run
    cases read
    have low := bits.toInt_lt
    exact .number _ (plain (by simp [type]) (by simp [type])) (by omega)
  -- times in one string
  case h_14 type | h_15 type | h_16 type | h_17 type | h_18 type =>
    obtain ⟨moment, _, run⟩ := Exec.bind_eq_ok.mp run
    obtain ⟨text, _, run⟩ := Exec.bind_eq_ok.mp run
    cases run
    exact .texts [_] (plain (by simp [type]) (by simp [type]))
  case h_19 type | h_20 type =>
    obtain ⟨moment, _, run⟩ := Exec.bind_eq_ok.mp run
    exact dateTime_inserts (plain (by simp [type]) (by simp [type])) run
  case h_21 type =>
    obtain ⟨year, read, run⟩ := Exec.bind_eq_ok.mp run
    cases run
    have small := CValue.asYear_lt read
    exact .number _ (plain (by simp [type]) (by simp [type])) (by omega)
  case h_23 =>
    cases run
    exact .texts [] (plain ‹_› ‹_›)

theorem inserts_of_insertions {insertions : List Insertion}
    (run : item.insertions formats = .ok insertions) :
    item.Inserts insertions := by
  cases item with
  | value val memory => exact inserts_of_value run
  | text str =>
      cases run
      exact .texts [str] id
  | number amount fits =>
      cases run
      exact .number amount id fits

/-- The stream behind an item has no width, and is in hexadecimal if it was or the
item is a choice. -/
theorem Inserts.stream {os : OStream} {insertions : List Insertion}
    (inserts : item.Inserts insertions) (narrow : os.width = 0) :
    (os.insertAll insertions).2.width = 0 ∧
      ((os.insertAll insertions).2.hex = true ↔
        os.hex = true ∨ item.IsChoice) := by
  cases inserts with
  | choice number choice =>
      constructor
      · rfl
      · exact iff_of_true rfl (.inr choice)
  | number number other _ =>
      rw [OStream.insertAll_number narrow]
      exact ⟨narrow, by simp [other]⟩
  | texts texts other =>
      rw [OStream.insertAll_texts narrow]
      exact ⟨narrow, by simp [other]⟩

/-- An item prints as in a new stream, unless the stream is in hexadecimal and the
item a number of more than one digit. -/
theorem Inserts.text_iff {os : OStream} {insertions : List Insertion}
    (inserts : item.Inserts insertions) (narrow : os.width = 0) :
    (os.insertAll insertions).1 = (({} : OStream).insertAll insertions).1 ↔
      (os.hex = true → ∀ number : Int, insertions = [.number number] →
        0 ≤ number ∧ number < 10) := by
  cases inserts with
  | choice number _ =>
      apply iff_of_true
      · rfl
      · intro _ _ single
        cases single
  | number number _ high =>
      rw [OStream.insertAll_number narrow, OStream.insertAll_number rfl]
      cases hex : os.hex with
      | false =>
          apply iff_of_true
          · rw [OStream.numberText, hex]
            rfl
          · intro inHex
            cases inHex
      | true =>
          rw [OStream.numberText_hex_iff hex rfl high]
          simp
  | texts texts _ =>
      rw [OStream.insertAll_texts narrow, OStream.insertAll_texts rfl]
      apply iff_of_true
      · rfl
      · intro _ number single
        obtain ⟨_, _, _, other, _⟩ := List.map_eq_cons_iff.mp single
        cases other

theorem isDigit_iff {insertions : List Insertion}
    (run : item.insertions formats = .ok insertions) :
    item.IsDigit formats ↔
      ∀ number : Int, insertions = [.number number] →
        0 ≤ number ∧ number < 10 := by
  rw [IsDigit, run]
  simp only [Except.ok.injEq]

theorem printAll_cons {os : OStream} {insertions : List Insertion}
    {items : List Printed} {text : Bytes} {texts : List Bytes}
    (run : item.insertions formats = .ok insertions) :
    printAll formats os (item :: items) = .ok (text :: texts) ↔
      (os.insertAll insertions).1 = text ∧
        printAll formats (os.insertAll insertions).2 items = .ok texts := by
  rw [printAll, run]
  cases rest : printAll formats (os.insertAll insertions).2 items with
  | error failed => simp [rest, bind, Except.bind]
  | ok rest => simp [rest, bind, Except.bind, pure, Except.pure]

theorem printAll_alone_iff {os : OStream} {items : List Printed}
    {texts : List Bytes} (narrow : os.width = 0)
    (read : items.mapM (alone formats) = .ok texts) :
    printAll formats os items = .ok texts ↔
      (os.hex = true → ∀ item ∈ items, item.IsDigit formats) ∧
        items.Pairwise fun earlier later =>
          earlier.IsChoice → later.IsDigit formats := by
  induction items generalizing os texts with
  | nil =>
      cases read
      simp [printAll]
  | cons item items induction =>
      rw [List.mapM_cons] at read
      obtain ⟨text, first, read⟩ := Exec.bind_eq_ok.mp read
      obtain ⟨rest, others, read⟩ := Exec.bind_eq_ok.mp read
      obtain ⟨insertions, run, first⟩ := Exec.bind_eq_ok.mp first
      cases read
      cases first
      have inserts := inserts_of_insertions run
      obtain ⟨behind, hex⟩ := inserts.stream narrow
      rw [printAll_cons run, inserts.text_iff narrow, ← isDigit_iff run,
        induction behind others, hex, List.pairwise_cons,
        List.forall_mem_cons]
      constructor
      · rintro ⟨here, later, pairs⟩
        refine ⟨fun inHex => ⟨here inHex, later (.inl inHex)⟩, ?_, pairs⟩
        intro other member choice
        exact later (.inr choice) other member
      · rintro ⟨all, later, pairs⟩
        refine ⟨fun inHex => (all inHex).1, ?_, pairs⟩
        rintro (inHex | choice) other member
        · exact (all inHex).2 other member
        · exact later other member choice

/-- Items print one after the other as each does in a stream of its own exactly if
no number of more than one digit comes behind the value of an ENUM or a SET. -/
theorem printAll_eq_alone {items : List Printed} {texts : List Bytes}
    (read : items.mapM (alone formats) = .ok texts) :
    printAll formats {} items = .ok texts ↔
      items.Pairwise fun earlier later =>
        earlier.IsChoice → later.IsDigit formats := by
  rw [printAll_alone_iff rfl read, and_iff_right]
  intro inHex
  cases inHex

/-- The texts of 0, of the epoch and of the JSON null. -/
def zeroFormats : Formats where
  float _ := [48]
  double _ := [48]
  ctime _ := [84, 104, 117, 32, 74, 97, 110, 32, 32, 49, 32, 48, 48, 58, 48, 48,
    58, 48, 48, 32, 49, 57, 55, 48, 10]
  json _ := [110, 117, 108, 108]

/-- The second member of an ENUM column. -/
def secondMember : Printed :=
  .value { type := .enum, storage := some 0, size := 1, null := false } [2]

/-- The year 1910. -/
def decade : Printed :=
  .value { type := .year, storage := some 0, size := 1, null := false } [10]

/-- A digit prints behind the value of an ENUM column as it does in front, and a
year does not. -/
theorem printAll_eq_alone_year :
    printAll zeroFormats {}
        [decade, secondMember, .number 9 (by decide), secondMember] =
      .ok [[49, 57, 49, 48], [48, 48, 48, 48, 48, 48, 48, 50], [57],
        [48, 48, 48, 48, 48, 48, 48, 50]] ∧
    printAll zeroFormats {} [secondMember, decade] ≠
      .ok [[48, 48, 48, 48, 48, 48, 48, 50], [49, 57, 49, 48]] := by
  have digit : (Printed.number 9 (by decide)).IsDigit zeroFormats := by
    intro number run
    cases run
    decide
  have choice : secondMember.IsDigit zeroFormats := by
    intro number run
    cases run
  constructor
  · apply (printAll_eq_alone rfl).mpr
    simp [digit, choice, decade, IsChoice]
  · rw [ne_eq, printAll_eq_alone rfl]
    intro digits
    have year := List.rel_of_pairwise_cons digits (.head _) (.inl rfl)
    exact absurd (year 1910 rfl).2 (by decide)

end Printed

end MysqlSlave
