import MysqlSlave.Dispatch
import MysqlSlave.TableSchema

/-!
# Which packets are parsed inside their bounds

The sanity check of `dispatch_events` looks at four bytes of the header and at
nothing else, and the parsers behind it check almost no length.  A packet cut to
its own length tells what they read: a read past the packet is then a fault.  The
main theorem says for which packets, other than rows events, none happens.
-/

namespace MysqlSlave

open Region

/-- Where a length-encoded integer lies: the value read at `pos`, and the
address behind it. -/
inductive LengthAt (memory : Bytes) (pos : Nat) : Nat → Nat → Prop
  | one {first : UInt8} :
      memory[pos]? = some first →
      first.toNat < 251 →
      LengthAt memory pos first.toNat (pos + 1)
  | null :
      memory[pos]? = some 251 →
      LengthAt memory pos 18446744073709551615 (pos + 1)
  | two :
      memory[pos]? = some 252 →
      pos + 3 ≤ memory.length →
      LengthAt memory pos (littleEndian ((memory.drop (pos + 1)).take 2))
        (pos + 3)
  | three :
      memory[pos]? = some 253 →
      pos + 4 ≤ memory.length →
      LengthAt memory pos (littleEndian ((memory.drop (pos + 1)).take 3))
        (pos + 4)
  | more {first : UInt8} :
      memory[pos]? = some first →
      253 < first.toNat →
      pos + 5 ≤ memory.length →
      LengthAt memory pos (littleEndian ((memory.drop (pos + 1)).take 4))
        (pos + 9)

/-- The layout a TABLE_MAP body needs, in the copy that `tune` keeps: two names
that end within the name buffers, behind their length bytes, the number of
columns, and the metadata length behind that many types. -/
structure MapFits (copy : Bytes) : Prop where
  layout : ∃ (dbLen tableLen : UInt8)
      (columnCount columnTypes metadataLength metadata : Nat),
    copy[27]? = some dbLen ∧
      0 ∈ (copy.drop 28).take 255 ∧
      copy[29 + dbLen.toNat]? = some tableLen ∧
      0 ∈ (copy.drop (30 + dbLen.toNat)).take 255 ∧
      LengthAt copy (31 + dbLen.toNat + tableLen.toNat) columnCount
        columnTypes ∧
      LengthAt copy (columnTypes + columnCount) metadataLength metadata

section Reads

variable {memory : Bytes}

theorem readByte_iff {pos : Nat} {byte : UInt8} :
    readByte memory pos = .ok byte ↔ memory[pos]? = some byte := by
  unfold readByte
  split
  · rename_i there
    simp [there]
  · rename_i there
    simp [there]

theorem netFieldLength_iff {pos value behind : Nat} :
    netFieldLength memory pos = .ok (value, behind) ↔
      LengthAt memory pos value behind := by
  -- a longer integer is inside as far as it is read
  have inside : ∀ width, 0 < width → ∀ number,
      readLE memory (pos + 1) width = .ok number →
      pos + 1 + width ≤ memory.length ∧
        number = littleEndian ((memory.drop (pos + 1)).take width) := by
    intro width wide number read
    have fits := readLE_inside wide read
    rw [readLE_eq_ok fits] at read
    cases read
    exact ⟨fits, rfl⟩
  constructor
  · intro run
    obtain ⟨first, firstRead, later⟩ := Exec.bind_eq_ok.mp run
    rw [readByte_iff] at firstRead
    split at later
    · rename_i small
      cases later
      exact .one firstRead small
    · split at later
      · rename_i null
        cases later
        have same : first = 251 := UInt8.toNat_inj.mp null
        rw [same] at firstRead
        exact .null firstRead
      · split at later
        · rename_i two
          obtain ⟨number, numberRead, result⟩ := Exec.bind_eq_ok.mp later
          obtain ⟨fits, rfl⟩ := inside 2 (by decide) number numberRead
          cases result
          have same : first = 252 := UInt8.toNat_inj.mp two
          rw [same] at firstRead
          exact .two firstRead (by omega)
        · split at later
          · rename_i three
            obtain ⟨number, numberRead, result⟩ := Exec.bind_eq_ok.mp later
            obtain ⟨fits, rfl⟩ := inside 3 (by decide) number numberRead
            cases result
            have same : first = 253 := UInt8.toNat_inj.mp three
            rw [same] at firstRead
            exact .three firstRead (by omega)
          · obtain ⟨number, numberRead, result⟩ := Exec.bind_eq_ok.mp later
            obtain ⟨fits, rfl⟩ := inside 4 (by decide) number numberRead
            cases result
            exact .more firstRead (by omega) (by omega)
  · intro lies
    cases lies with
    | one there small =>
        simp [netFieldLength, readByte_iff.mpr there, small]
    | null there =>
        simp [netFieldLength, readByte_iff.mpr there]
    | two there fits =>
        have read := @readLE_eq_ok memory (pos + 1) 2 (by omega)
        simp [netFieldLength, readByte_iff.mpr there, read]
    | three there fits =>
        have read := @readLE_eq_ok memory (pos + 1) 3 (by omega)
        simp [netFieldLength, readByte_iff.mpr there, read]
    | more there large fits =>
        rename_i first
        have read := @readLE_eq_ok memory (pos + 1) 4 (by omega)
        have notOne : ¬first.toNat < 251 := by omega
        have notNull : ¬first.toNat = 251 := by omega
        have notTwo : ¬first.toNat = 252 := by omega
        have notThree : ¬first.toNat = 253 := by omega
        simp [netFieldLength, readByte_iff.mpr there, read, notOne, notNull,
          notTwo, notThree]

theorem LengthAt.inside {pos value behind : Nat}
    (lies : LengthAt memory pos value behind) : pos < memory.length := by
  cases lies with
  | one there _ => exact (List.getElem?_eq_some_iff.mp there).1
  | null there => exact (List.getElem?_eq_some_iff.mp there).1
  | two there _ => exact (List.getElem?_eq_some_iff.mp there).1
  | three there _ => exact (List.getElem?_eq_some_iff.mp there).1
  | more there _ _ => exact (List.getElem?_eq_some_iff.mp there).1

theorem copyName_iff {pos : Nat} :
    (∃ name, CTableMapLogEvent.copyName memory pos = .ok name) ↔
      0 ∈ (memory.drop pos).take 255 := by
  constructor
  · intro copied
    obtain ⟨name, run⟩ := copied
    obtain ⟨text, read, result⟩ := Exec.bind_eq_ok.mp run
    obtain ⟨ends, rfl⟩ := readCString_inv read
    split at result
    · rename_i short
      exact (takeWhile_length_lt_iff 255 ends).mp short
    · cases result
  · intro ends
    have whole := List.mem_of_mem_take ends
    have short := (takeWhile_length_lt_iff 255 whole).mpr ends
    refine ⟨cString memory pos, ?_⟩
    rw [CTableMapLogEvent.copyName, readCString_eq_ok whole, Exec.ok_bind,
      cString, if_pos short]
    rfl

end Reads

section Parsers

variable {memory : Bytes} {fmt : CFormatDescriptionLogEvent}

theorem CLogEvent.tune_inside {size : Nat} {header : CLogEvent}
    (run : CLogEvent.tune memory size fmt = .ok header) :
    19 ≤ memory.length := by
  obtain ⟨_, _, run⟩ := Exec.bind_eq_ok.mp run
  obtain ⟨_, _, run⟩ := Exec.bind_eq_ok.mp run
  obtain ⟨_, _, run⟩ := Exec.bind_eq_ok.mp run
  obtain ⟨_, _, run⟩ := Exec.bind_eq_ok.mp run
  obtain ⟨flags, flagsRead, _⟩ := Exec.bind_eq_ok.mp run
  exact readLE_inside (by decide) flagsRead

theorem CFormatDescriptionLogEvent.trailerLen_le
    (fmt : CFormatDescriptionLogEvent) : fmt.trailerLen ≤ 4 := by
  unfold CFormatDescriptionLogEvent.trailerLen
  split <;> omega

theorem readBytes_inside {address count : Nat}
    (inside : address + count ≤ memory.length) :
    readBytes memory address count =
      .ok ((memory.drop address).take count) := by
  rw [readBytes, if_pos (Or.inr inside)]

theorem readBytes_copy {trailer : Nat} (least : trailer ≤ memory.length)
    (small : memory.length < 18446744073709551616) :
    readBytes memory 0 (sizeSub memory.length trailer) =
      .ok (memory.take (memory.length - trailer)) := by
  rw [sizeSub_eq least small, readBytes_inside (by omega), List.drop_zero]

/-- `tune` of a TABLE_MAP event that comes back has found the layout. -/
theorem CTableMapLogEvent.tune_fits {rc : Int} {result : CTableMapLogEvent}
    (tuned : fmt.Tuned) (small : memory.length < 18446744073709551616)
    (run : CTableMapLogEvent.tune memory memory.length fmt =
      .ok (rc, result)) :
    MapFits (memory.take (memory.length - fmt.trailerLen)) := by
  have trailer := fmt.trailerLen_le
  unfold CTableMapLogEvent.tune at run
  obtain ⟨header, headerRead, run⟩ := Exec.bind_eq_ok.mp run
  have least := CLogEvent.tune_inside headerRead
  dsimp only at run
  rw [readBytes_copy (by omega) small, Exec.ok_bind] at run
  generalize memory.take (memory.length - fmt.trailerLen) = copy at run ⊢
  simp only [tuned.commonHeaderLen, tuned.tableMapHeaderLen,
    Nat.reduceAdd] at run
  obtain ⟨tableId, _, run⟩ := Exec.bind_eq_ok.mp run
  obtain ⟨dbLen, dbLenRead, run⟩ := Exec.bind_eq_ok.mp run
  obtain ⟨dbName, dbNameRead, run⟩ := Exec.bind_eq_ok.mp run
  obtain ⟨tableLen, tableLenRead, run⟩ := Exec.bind_eq_ok.mp run
  obtain ⟨tableName, tableNameRead, run⟩ := Exec.bind_eq_ok.mp run
  obtain ⟨⟨columnCount, columnTypes⟩, countRead, run⟩ := Exec.bind_eq_ok.mp run
  obtain ⟨⟨metadataLength, metadata⟩, metadataRead, _⟩ :=
    Exec.bind_eq_ok.mp run
  have afterDb : 28 + dbLen.toNat + 1 = 29 + dbLen.toNat := by omega
  have afterDbName : 28 + dbLen.toNat + 1 + 1 = 30 + dbLen.toNat := by omega
  have afterTable : 28 + dbLen.toNat + 1 + 1 + tableLen.toNat + 1 =
      31 + dbLen.toNat + tableLen.toNat := by omega
  rw [afterDbName] at tableNameRead
  rw [afterTable] at countRead
  rw [afterDb] at tableLenRead
  exact ⟨dbLen, tableLen, columnCount, columnTypes, metadataLength, metadata,
    readByte_iff.mp dbLenRead, copyName_iff.mp ⟨_, dbNameRead⟩,
    readByte_iff.mp tableLenRead, copyName_iff.mp ⟨_, tableNameRead⟩,
    netFieldLength_iff.mp countRead, netFieldLength_iff.mp metadataRead⟩

/-- `tune` of a TABLE_MAP event comes back where the layout fits, and the type
bytes lie in the copy. -/
theorem CTableMapLogEvent.tune_of_fits (tuned : fmt.Tuned)
    (small : memory.length < 18446744073709551616)
    (fits : MapFits (memory.take (memory.length - fmt.trailerLen))) :
    ∃ result columnTypes,
      CTableMapLogEvent.tune memory memory.length fmt = .ok (0, result) ∧
        result.columnTypes = some columnTypes ∧
        columnTypes + result.columnCount < result.data.length := by
  have trailer := fmt.trailerLen_le
  obtain ⟨dbLen, tableLen, columnCount, columnTypes, metadataLength, metadata,
    dbLenAt, dbNameEnds, tableLenAt, tableNameEnds, countAt, metadataAt⟩ :=
    fits.layout
  have inside := metadataAt.inside
  have counted := countAt.inside
  have length : (memory.take (memory.length - fmt.trailerLen)).length =
      memory.length - fmt.trailerLen := by
    rw [List.length_take]
    omega
  obtain ⟨header, headerRead⟩ := CLogEvent.tune_readable fmt
    (show 19 ≤ memory.length by omega) (Nat.le_refl memory.length)
  have copied := readBytes_copy
    (show fmt.trailerLen ≤ memory.length by omega) small
  generalize memory.take (memory.length - fmt.trailerLen) = copy at *
  obtain ⟨dbName, dbName_⟩ := copyName_iff.mpr dbNameEnds
  obtain ⟨tableName, tableName_⟩ := copyName_iff.mpr tableNameEnds
  have tableId := @readLE_eq_ok copy 19 6 (by omega)
  have notSix : ¬(8 = 6) := by decide
  have afterDb : 28 + dbLen.toNat + 1 = 29 + dbLen.toNat := by omega
  have afterDbName : 29 + dbLen.toNat + 1 = 30 + dbLen.toNat := by omega
  have afterTable : 30 + dbLen.toNat + tableLen.toNat + 1 =
      31 + dbLen.toNat + tableLen.toNat := by omega
  simp only [CTableMapLogEvent.tune, headerRead, copied,
    CTableMapLogEvent.getTableId, tuned.tableMapHeaderLen, notSix, if_false,
    tuned.commonHeaderLen, tableId, Exec.ok_bind, Nat.reduceAdd,
    readByte_iff.mpr dbLenAt, dbName_, afterDb, readByte_iff.mpr tableLenAt,
    afterDbName, tableName_, afterTable, netFieldLength_iff.mpr countAt,
    netFieldLength_iff.mpr metadataAt, Exec.pure_eq_ok]
  exact ⟨_, columnTypes, rfl, rfl, inside⟩

theorem CTable.tune_iff {self : CTable} (this : Address) (tuned : fmt.Tuned)
    (small : memory.length < 18446744073709551616) :
    (∃ result, self.tune this memory memory.length fmt = .ok result) ↔
      (self.tuned = false →
        MapFits (memory.take (memory.length - fmt.trailerLen))) := by
  constructor
  · intro comesBack untuned
    obtain ⟨result, run⟩ := comesBack
    simp only [CTable.tune, untuned] at run
    obtain ⟨⟨rc, event⟩, eventRun, _⟩ := Exec.bind_eq_ok.mp run
    exact CTableMapLogEvent.tune_fits tuned small eventRun
  · intro fits
    cases known : self.tuned with
    | true =>
        simp only [CTable.tune, known, if_true]
        exact ⟨_, rfl⟩
    | false =>
        obtain ⟨event, columnTypes, run, types, inside⟩ :=
          CTableMapLogEvent.tune_of_fits tuned small (fits known)
        have resized : ({ self.row with table := some this }.resize
            event.columnCount).data.length = 0 + event.columnCount := by
          simp only [CRow.resize, List.length_append, List.length_take,
            List.length_replicate]
          omega
        obtain ⟨row, rowRun, _⟩ := CTable.tuneRow_framed resized rfl
          (show columnTypes + (0 + event.columnCount) ≤ event.data.length
            by omega)
        have rowRun' : CTable.tuneRow event.data
            (event.columnTypes.getD 0) event.columnCount 0
              ({ self.row with table := some this }.resize
                event.columnCount) = .ok row := by
          rw [types]
          exact rowRun
        simp only [CTable.tune, known, run, Exec.ok_bind]
        split
        · exact ⟨_, rfl⟩
        · split
          · split
            · exact ⟨_, rfl⟩
            · exact ⟨_, by rw [rowRun', Exec.ok_bind]; rfl⟩
          · exact ⟨_, rfl⟩

end Parsers

/-- The outcome is one the language defines. -/
def Outcome.Defined (outcome : Outcome) : Prop :=
  outcome.exit.isUndefined = false

theorem Outcome.ofExec_defined {α : Type} {state : CLogParser} {run : Exec α}
    {next : α → Outcome} :
    (Outcome.ofExec state run next).Defined ↔
      ∃ value, run = .ok value ∧ (next value).Defined := by
  cases run with
  | ok value => simp [Outcome.ofExec]
  | error fault => simp [Outcome.ofExec, Outcome.Defined, Exit.isUndefined]

namespace CLogParser

/-- The subtractions of lengths done for a packet of `len` bytes that starts at
`memory`, minuend in front, as far as the parser gets. -/
def lengthSubtractions (fmt : CFormatDescriptionLogEvent) (type : LogEventType)
    (memory : Bytes) (len : Nat) : List (Nat × Nat) :=
  let trailer := fmt.trailerLen
  match type with
  | .rotateEvent =>
      let body := sizeSub len fmt.commonHeaderLen
      [(len, trailer), (len, fmt.commonHeaderLen), (body, trailer),
        (sizeSub body trailer, 8)]
  | .queryEvent =>
      let headers := fmt.commonHeaderLen + fmt.postHeaderLen .queryEvent
      let dataLen := sizeSub (sizeSub len headers) trailer
      let dbLen := (memory.getD (fmt.commonHeaderLen + 8) 0).toNat
      let statusVarsLen :=
        littleEndian ((memory.drop (fmt.commonHeaderLen + 11)).take 2)
      [(len, trailer), (len, headers), (sizeSub len headers, trailer)] ++
        if statusVarsLen > dataLen ∨ statusVarsLen > maxSizeLogEventStatus then
          []
        else
          [(dataLen, statusVarsLen),
            (sizeSub dataLen statusVarsLen, dbLen + 1)]
  | _ => [(len, trailer)]

/-- The parsing of the packet stays inside its `len` bytes: on memory cut behind
them nothing faults, the name buffers hold the names, and no subtraction of
lengths goes below zero. -/
structure ParsesInside (parser : CLogParser) (crc : Bytes → Nat)
    (type : LogEventType) (buf : Bytes) (len : Nat) (handlerThrows : Bool) :
    Prop where
  reads : (parser.dispatchEvent crc (buf.take len) len handlerThrows).Defined
  lengths : ∀ pair ∈ lengthSubtractions parser.fmt type (buf.take len) len,
    pair.2 ≤ pair.1

/-- A QUERY packet is long enough for its two headers and its trailer, and the
lengths inside it are within the rest or are refused. -/
def QueryFits (fmt : CFormatDescriptionLogEvent) (memory : Bytes) : Prop :=
  let dbLen := (memory.getD 27 0).toNat
  let statusVarsLen := littleEndian ((memory.drop 30).take 2)
  32 + fmt.trailerLen ≤ memory.length ∧
    (statusVarsLen + (32 + fmt.trailerLen) ≤ memory.length →
      statusVarsLen ≤ maxSizeLogEventStatus →
      statusVarsLen + dbLen + 1 + (32 + fmt.trailerLen) ≤ memory.length)

/-- A TABLE_MAP packet ends the names that are looked up in it, and has the
layout if its table is watched and gets its schema from it. -/
def MapPacketFits (parser : CLogParser) (memory : Bytes) : Prop :=
  let tableAt := 30 + (memory.getD 27 0).toNat
  let tableId := littleEndian ((memory.drop 19).take 6)
  0 ∈ memory.drop 28 ∧
    ∀ db, parser.databases.find? caseIgnorer (cString memory 28) = some db →
      0 ∈ memory.drop tableAt ∧
        ∀ tbl, db.getTable (cString memory tableAt) = some tbl →
          (parser.remapped (cString memory tableAt) tbl tableId).tuned =
              false →
            MapFits (memory.take (memory.length - parser.fmt.trailerLen))

/-- The packet is long enough for what the parser of its type reads. -/
def PacketFits (parser : CLogParser) (type : LogEventType) (memory : Bytes) :
    Prop :=
  match type with
  | .rotateEvent => 27 + parser.fmt.trailerLen ≤ memory.length
  | .formatDescriptionEvent =>
      13 ≤ memory.length ∧
        (parser.fmt.useChecksum = true → 19 ≤ memory.length)
  | .queryEvent => QueryFits parser.fmt memory
  | .tableMapEvent => parser.MapPacketFits memory
  | _ => 19 ≤ memory.length

section Branches

variable {self : CLogParser} {memory : Bytes}

theorem dispatchUnhandled_defined :
    (self.dispatchUnhandled memory memory.length).Defined ↔
      19 ≤ memory.length := by
  unfold dispatchUnhandled
  rw [Outcome.ofExec_defined]
  constructor
  · intro comesBack
    obtain ⟨event, run, _⟩ := comesBack
    obtain ⟨header, headerRead, _⟩ := Exec.bind_eq_ok.mp run
    exact CLogEvent.tune_inside headerRead
  · intro least
    obtain ⟨header, headerRead⟩ :=
      CLogEvent.tune_readable self.fmt least (Nat.le_refl memory.length)
    have inside : eventTypeOffset < memory.length := by
      simp only [eventTypeOffset]
      omega
    have code := readByte_eq_ok inside
    have run : CUnhandledLogEvent.tune memory memory.length self.fmt =
        .ok (0, { header with
          eventNumber := memory[eventTypeOffset].toNat }) := by
      simp only [CUnhandledLogEvent.tune, headerRead, code, Exec.ok_bind,
        Exec.pure_eq_ok]
    exact ⟨_, run, rfl⟩

theorem dispatchRotate_defined (tuned : self.fmt.Tuned)
    (fits : 27 + self.fmt.trailerLen ≤ memory.length)
    (small : memory.length < 18446744073709551616) :
    (self.dispatchRotate memory memory.length).Defined := by
  obtain ⟨header, headerRead⟩ := CLogEvent.tune_readable self.fmt
    (show 19 ≤ memory.length by omega) (Nat.le_refl memory.length)
  have position := @readLE_eq_ok memory 19 8 (by omega)
  have first : sizeSub memory.length 19 = memory.length - 19 :=
    sizeSub_eq (by omega) small
  have second : sizeSub (memory.length - 19) self.fmt.trailerLen =
      memory.length - 19 - self.fmt.trailerLen :=
    sizeSub_eq (by omega) (by omega)
  have third : sizeSub (memory.length - 19 - self.fmt.trailerLen) 8 =
      memory.length - 19 - self.fmt.trailerLen - 8 :=
    sizeSub_eq (by omega) (by omega)
  have run : CRotateLogEvent.tune memory memory.length self.fmt =
      .ok (0, { header with
        position := littleEndian ((memory.drop 19).take 8), newLog := 27
        len := memory.length - 19 - self.fmt.trailerLen - 8 }) := by
    simp only [CRotateLogEvent.tune, headerRead, tuned.commonHeaderLen,
      position, Exec.ok_bind, first, second, third, Exec.pure_eq_ok]
  unfold dispatchRotate
  rw [Outcome.ofExec_defined]
  refine ⟨_, run, ?_⟩
  dsimp only
  rw [if_pos rfl]
  split
  · rfl
  · have name := readBytes_inside
      (show 27 + (memory.length - 19 - self.fmt.trailerLen - 8) ≤
        memory.length by omega)
    rw [Outcome.ofExec_defined]
    exact ⟨_, name, rfl⟩

theorem dispatchQuery_defined (tuned : self.fmt.Tuned)
    (fits : QueryFits self.fmt memory)
    (small : memory.length < 18446744073709551616) :
    (self.dispatchQuery memory memory.length).Defined := by
  obtain ⟨least, inner⟩ := fits
  obtain ⟨header, headerRead⟩ := CLogEvent.tune_readable self.fmt
    (show 19 ≤ memory.length by omega) (Nat.le_refl memory.length)
  have time := @readLE_eq_ok memory 23 4 (by omega)
  have dbLen := @readByte_eq_ok memory 27 (by omega)
  have dbLenEq : (memory.getD 27 0).toNat = memory[27].toNat := by
    rw [List.getD_eq_getElem?_getD, List.getElem?_eq_getElem (by omega)]
    rfl
  have errorCode := @readLE_eq_ok memory 28 2 (by omega)
  have status := @readLE_eq_ok memory 30 2 (by omega)
  have first : sizeSub memory.length 32 = memory.length - 32 :=
    sizeSub_eq (by omega) small
  have second : sizeSub (memory.length - 32) self.fmt.trailerLen =
      memory.length - 32 - self.fmt.trailerLen :=
    sizeSub_eq (by omega) (by omega)
  have long : (13 : Nat) ≠ queryHeaderMinimalLen := by decide
  rw [dbLenEq] at inner
  generalize littleEndian ((memory.drop 30).take 2) = statusVarsLen
    at status inner
  unfold dispatchQuery
  rw [Outcome.ofExec_defined]
  simp only [CQueryLogEvent.tune, headerRead, tuned.commonHeaderLen,
    tuned.queryHeaderLen, Exec.ok_bind, Nat.reduceAdd, time, dbLen, errorCode,
    status, first, second, if_pos long]
  split
  · exact ⟨_, rfl, rfl⟩
  · rename_i accepted
    rw [not_or, Nat.not_lt, Nat.not_lt] at accepted
    have room := inner (by omega) accepted.2
    have third : sizeSub (memory.length - 32 - self.fmt.trailerLen)
        statusVarsLen =
        memory.length - 32 - self.fmt.trailerLen - statusVarsLen :=
      sizeSub_eq (by omega) (by omega)
    have fourth : sizeSub
        (memory.length - 32 - self.fmt.trailerLen - statusVarsLen)
        (memory[27].toNat + 1) =
        memory.length - 32 - self.fmt.trailerLen - statusVarsLen -
          (memory[27].toNat + 1) :=
      sizeSub_eq (by omega) (by omega)
    have query := readBytes_inside
      (show 32 + statusVarsLen + memory[27].toNat + 1 +
        (memory.length - 32 - self.fmt.trailerLen - statusVarsLen -
          (memory[27].toNat + 1)) % 4294967296 ≤ memory.length by omega)
    simp only [third, fourth, query, Exec.ok_bind, Exec.pure_eq_ok]
    exact ⟨_, rfl, rfl⟩

theorem getD_of_readByte {pos : Nat} {byte : UInt8}
    (read : readByte memory pos = .ok byte) :
    (memory.getD pos 0).toNat = byte.toNat := by
  rw [List.getD_eq_getElem?_getD, readByte_iff.mp read]
  rfl

theorem getTableId_iff (tuned : self.fmt.Tuned) {tableId : Nat} :
    CTableMapLogEvent.getTableId memory self.fmt = .ok tableId ↔
      25 ≤ memory.length ∧ tableId = littleEndian ((memory.drop 19).take 6) := by
  have notSix : ¬(8 = 6) := by decide
  simp only [CTableMapLogEvent.getTableId, tuned.tableMapHeaderLen, notSix,
    if_false, tuned.commonHeaderLen]
  constructor
  · intro read
    have inside := readLE_inside (by decide) read
    rw [readLE_eq_ok inside] at read
    cases read
    exact ⟨inside, rfl⟩
  · intro there
    obtain ⟨inside, rfl⟩ := there
    exact readLE_eq_ok inside

theorem dispatchMapped_defined {tblName : Bytes} {tbl : Address}
    (tuned : self.fmt.Tuned)
    (small : memory.length < 18446744073709551616) :
    (self.dispatchMapped memory memory.length tblName tbl).Defined ↔
      25 ≤ memory.length ∧
        ((self.remapped tblName tbl
            (littleEndian ((memory.drop 19).take 6))).tuned = false →
          MapFits (memory.take (memory.length - self.fmt.trailerLen))) := by
  unfold dispatchMapped
  rw [Outcome.ofExec_defined]
  constructor
  · intro comesBack
    obtain ⟨tableId, idRead, later⟩ := comesBack
    obtain ⟨long, rfl⟩ := (getTableId_iff tuned).mp idRead
    dsimp only at later
    rw [Outcome.ofExec_defined] at later
    obtain ⟨result, run, _⟩ := later
    exact ⟨long, (CTable.tune_iff tbl tuned small).mp ⟨result, run⟩⟩
  · intro fits
    obtain ⟨long, fits⟩ := fits
    refine ⟨_, (getTableId_iff tuned).mpr ⟨long, rfl⟩, ?_⟩
    dsimp only
    rw [Outcome.ofExec_defined]
    obtain ⟨⟨rc, table⟩, run⟩ := (CTable.tune_iff tbl tuned small).mpr fits
    refine ⟨_, run, ?_⟩
    dsimp only
    split <;> rfl

theorem dispatchTableMap_defined (tuned : self.fmt.Tuned)
    (small : memory.length < 18446744073709551616) :
    (self.dispatchTableMap memory memory.length).Defined ↔
      self.MapPacketFits memory := by
  have nameAt : 19 + 8 + 1 = 28 := rfl
  unfold dispatchTableMap
  rw [Outcome.ofExec_defined, CTableMapLogEvent.getDatabaseName,
    tuned.commonHeaderLen, tuned.tableMapHeaderLen, nameAt]
  constructor
  · intro comesBack
    obtain ⟨dbName, dbRead, later⟩ := comesBack
    obtain ⟨dbEnds, rfl⟩ := readCString_inv dbRead
    refine ⟨dbEnds, ?_⟩
    intro db watched
    simp only [watched] at later
    rw [Outcome.ofExec_defined] at later
    obtain ⟨tblName, nameRead, later⟩ := later
    obtain ⟨dbLen, dbLenRead, nameRead⟩ := Exec.bind_eq_ok.mp nameRead
    rw [tuned.commonHeaderLen, tuned.tableMapHeaderLen] at dbLenRead nameRead
    have tableAt : 19 + 8 + dbLen.toNat + 3 = 30 + dbLen.toNat := by omega
    rw [tableAt, ← getD_of_readByte dbLenRead] at nameRead
    obtain ⟨tableEnds, rfl⟩ := readCString_inv nameRead
    refine ⟨tableEnds, ?_⟩
    intro tbl found
    rw [found] at later
    exact ((dispatchMapped_defined tuned small).mp later).2
  · intro fits
    obtain ⟨dbEnds, fits⟩ := fits
    refine ⟨_, readCString_eq_ok dbEnds, ?_⟩
    have long : 28 < memory.length := by
      have some := List.length_pos_of_mem dbEnds
      rw [List.length_drop] at some
      omega
    cases watched : self.databases.find? caseIgnorer (cString memory 28) with
    | none => rfl
    | some db =>
        obtain ⟨tableEnds, fits⟩ := fits db watched
        have dbLen := @readByte_eq_ok memory 27 (by omega)
        have length := getD_of_readByte dbLen
        have tableAt : 27 + memory[27].toNat + 3 =
            30 + (memory.getD 27 0).toNat := by omega
        have name : CTableMapLogEvent.getTableName memory self.fmt =
            .ok (cString memory (30 + (memory.getD 27 0).toNat)) := by
          simp only [CTableMapLogEvent.getTableName, tuned.commonHeaderLen,
            tuned.tableMapHeaderLen, Nat.reduceAdd, dbLen, Exec.ok_bind,
            tableAt, readCString_eq_ok tableEnds]
        dsimp only
        rw [Outcome.ofExec_defined]
        refine ⟨_, name, ?_⟩
        cases found : db.getTable
            (cString memory (30 + (memory.getD 27 0).toNat)) with
        | none => rfl
        | some tbl =>
            exact (dispatchMapped_defined tuned small).mpr
              ⟨by omega, fits tbl found⟩

variable (self memory) in
theorem checksumTest_defined (crc : Bytes → Nat) :
    (∃ exit, self.checksumTest crc memory memory.length = .ok exit ∧
        exit.isUndefined = false) ↔
      (self.fmt.useChecksum = true → 19 ≤ memory.length) := by
  cases checked : self.fmt.useChecksum with
  | false =>
      constructor
      · intro _ wrong
        cases wrong
      · intro _
        refine ⟨.done, ?_, rfl⟩
        simp [checksumTest, checked]
  | true =>
      constructor
      · intro comesBack _
        obtain ⟨exit, run, _⟩ := comesBack
        rw [checksumTest, if_pos checked] at run
        obtain ⟨flags, flagsRead, _⟩ := Exec.bind_eq_ok.mp run
        exact readLE_inside (by decide) flagsRead
      · intro least
        have inside := least rfl
        have flags := @readLE_eq_ok memory flagsOffset 2 inside
        have enough : ¬memory.length < 4 := by omega
        have received := @readLE_eq_ok memory (memory.length - 4) 4 (by omega)
        have covered := readBytes_inside
          (show 0 + (memory.length - 4) ≤ memory.length by omega)
        simp only [checksumTest, checked, if_true, flags, Exec.ok_bind, enough,
          if_false, received, covered, Exec.pure_eq_ok]
        split
        · split <;> exact ⟨_, rfl, rfl⟩
        · exact ⟨_, rfl, rfl⟩

theorem checkOutcome_defined (crc : Bytes → Nat) {outcome : Outcome}
    (fmt : outcome.state.fmt = self.fmt) :
    (checkOutcome crc outcome memory memory.length).Defined ↔
      outcome.Defined ∧ (outcome.exit = .done → self.fmt.useChecksum = true →
        19 ≤ memory.length) := by
  have tested := checksumTest_defined outcome.state memory crc
  rw [fmt] at tested
  unfold checkOutcome
  cases exit : outcome.exit with
  | done =>
      have defined : outcome.Defined := by
        rw [Outcome.Defined, exit]
        rfl
      constructor
      · intro comesBack
        refine ⟨defined, fun _ => tested.mp ?_⟩
        cases run : outcome.state.checksumTest crc memory memory.length with
        | ok result =>
            rw [run] at comesBack
            exact ⟨result, rfl, comesBack⟩
        | error fault =>
            rw [run] at comesBack
            cases comesBack
      · intro fits
        obtain ⟨result, run, ends⟩ := tested.mpr (fits.2 rfl)
        rw [run]
        exact ends
  | threw exn => simp
  | undefined fault => simp

/-- What the `switch` needs to stay inside the packet. -/
theorem dispatchSwitch_defined {type : LogEventType} (handlerThrows : Bool)
    (tuned : self.fmt.Tuned) (notRows : type.isRows = false)
    (small : memory.length < 18446744073709551616)
    (fits : self.PacketFits type memory) :
    (self.dispatchSwitch type memory memory.length handlerThrows).Defined := by
  have unhandled : 19 ≤ memory.length →
      (self.dispatchUnhandled memory memory.length).Defined :=
    dispatchUnhandled_defined.mpr
  cases type with
  | rotateEvent => exact dispatchRotate_defined tuned fits small
  | formatDescriptionEvent => rfl
  | queryEvent => exact dispatchQuery_defined tuned fits small
  | tableMapEvent => exact (dispatchTableMap_defined tuned small).mpr fits
  | writeRowsEvent => cases notRows
  | updateRowsEvent => cases notRows
  | deleteRowsEvent => cases notRows
  | writeRowsV2Event => cases notRows
  | updateRowsV2Event => cases notRows
  | deleteRowsV2Event => cases notRows
  | _ => exact unhandled fits

/-- Every packet that fits holds the four bytes of the sanity check, and the
header if there is a checksum. -/
theorem PacketFits.least {type : LogEventType}
    (fits : self.PacketFits type memory) :
    13 ≤ memory.length ∧
      (self.fmt.useChecksum = true → 19 ≤ memory.length) := by
  cases type with
  | rotateEvent =>
      have least : 27 + self.fmt.trailerLen ≤ memory.length := fits
      omega
  | formatDescriptionEvent => exact fits
  | queryEvent =>
      have least := fits.1
      omega
  | tableMapEvent =>
      have some := List.length_pos_of_mem fits.1
      rw [List.length_drop] at some
      omega
  | _ =>
      have least : 19 ≤ memory.length := fits
      omega

theorem lengths_rotate (tuned : self.fmt.Tuned)
    (small : memory.length < 18446744073709551616) :
    (∀ pair ∈ lengthSubtractions self.fmt .rotateEvent memory memory.length,
        pair.2 ≤ pair.1) ↔
      27 + self.fmt.trailerLen ≤ memory.length := by
  simp only [lengthSubtractions, tuned.commonHeaderLen, List.forall_mem_cons,
    List.not_mem_nil, false_implies, implies_true, and_true]
  unfold sizeSub
  omega

theorem lengths_query (tuned : self.fmt.Tuned)
    (small : memory.length < 18446744073709551616) :
    (∀ pair ∈ lengthSubtractions self.fmt .queryEvent memory memory.length,
        pair.2 ≤ pair.1) ↔
      QueryFits self.fmt memory := by
  have trailer := self.fmt.trailerLen_le
  simp only [lengthSubtractions, tuned.commonHeaderLen, tuned.queryHeaderLen,
    QueryFits, Nat.reduceAdd, List.forall_mem_append, List.forall_mem_cons,
    List.not_mem_nil, false_implies, implies_true, and_true]
  generalize littleEndian ((memory.drop 30).take 2) = statusVarsLen
  generalize (memory.getD 27 0).toNat = dbLen
  by_cases least : 32 + self.fmt.trailerLen ≤ memory.length
  · have left : sizeSub (sizeSub memory.length 32) self.fmt.trailerLen =
        memory.length - 32 - self.fmt.trailerLen := by
      rw [sizeSub_eq (by omega) small, sizeSub_eq (by omega) (by omega)]
    have first : sizeSub memory.length 32 = memory.length - 32 :=
      sizeSub_eq (by omega) small
    rw [left, first]
    split
    · rename_i refused
      simp only [List.not_mem_nil, false_implies, implies_true, and_true]
      omega
    · rename_i accepted
      have within : sizeSub (memory.length - 32 - self.fmt.trailerLen)
          statusVarsLen =
          memory.length - 32 - self.fmt.trailerLen - statusVarsLen :=
        sizeSub_eq (by omega) (by omega)
      simp only [List.forall_mem_cons, List.not_mem_nil, false_implies,
        implies_true, and_true, within]
      omega
  · unfold sizeSub
    constructor
    · intro lengths
      omega
    · intro fits
      omega

end Branches

section Packets

variable {self : CLogParser} {crc : Bytes → Nat} {buf : Bytes} {len : Nat}
  {code : UInt8} {handlerThrows : Bool}

theorem readLE_cut {pos width : Nat} (inside : pos + width ≤ len)
    (fits : len ≤ buf.length) :
    readLE (buf.take len) pos width = readLE buf pos width := by
  have length : (buf.take len).length = len := by
    rw [List.length_take]
    omega
  have same : ((buf.take len).drop pos).take width =
      (buf.drop pos).take width := by
    rw [List.drop_take, List.take_take]
    congr 1
    omega
  rw [readLE_eq_ok (by omega), readLE_eq_ok (by omega), same]

/-- A packet that holds the bytes of the sanity check passes it on its own. -/
theorem Admitted.cut (admitted : self.Admitted buf len code)
    (least : 13 ≤ len) (fits : len ≤ buf.length) :
    self.Admitted (buf.take len) len code := by
  refine ⟨admitted.long, ?_, ?_, admitted.supported⟩
  · rw [readLE_cut (by simp only [eventLenOffset]; omega) fits]
    exact admitted.length
  · have there := readByte_iff.mp admitted.type
    apply readByte_iff.mpr
    rw [List.getElem?_take_of_lt (by simp only [eventTypeOffset]; omega)]
    exact there

theorem least_of_defined (long : eventLenOffset ≤ len)
    (fits : len ≤ buf.length)
    (defined : (self.dispatchEvent crc (buf.take len) len
      handlerThrows).Defined) : 13 ≤ len := by
  have notShort : ¬len < eventLenOffset := by omega
  unfold dispatchEvent at defined
  dsimp only at defined
  rw [if_neg notShort, Outcome.ofExec_defined] at defined
  obtain ⟨eventLen, read, _⟩ := defined
  have inside := readLE_inside (by decide) read
  simp only [List.length_take, eventLenOffset] at inside
  omega

/-- A packet of a supported type other than the rows events is parsed inside
its bounds exactly if it fits. -/
theorem parsesInside_iff (tuned : self.fmt.Tuned)
    (admitted : self.Admitted buf len code)
    (notRows : (LogEventType.ofCode code).isRows = false)
    (inside : len ≤ buf.length)
    (small : len < 18446744073709551616) :
    self.ParsesInside crc (.ofCode code) buf len handlerThrows ↔
      self.PacketFits (.ofCode code) (buf.take len) := by
  have length : (buf.take len).length = len := by
    rw [List.length_take]
    omega
  -- on its own bytes the packet passes the sanity check and the type test
  have runs : 13 ≤ len →
      self.dispatchEvent crc (buf.take len) len handlerThrows =
        checkOutcome crc (self.dispatchSwitch (.ofCode code) (buf.take len)
          (buf.take len).length handlerThrows) (buf.take len)
            (buf.take len).length := by
    intro least
    rw [length]
    exact dispatchEvent_of_admitted (admitted.cut least inside)
  generalize LogEventType.ofCode code = type at notRows runs ⊢
  constructor
  · intro parses
    have least := least_of_defined admitted.long inside parses.reads
    have reads := parses.reads
    have lengths := parses.lengths
    rw [runs least, checkOutcome_defined crc
      (self.dispatchSwitch_sameSetup _ _ _ _).fmt] at reads
    obtain ⟨branch, tested⟩ := reads
    generalize buf.take len = memory at length branch tested lengths ⊢
    subst length
    cases type with
    | rotateEvent => exact (lengths_rotate tuned small).mp lengths
    | formatDescriptionEvent => exact ⟨least, tested rfl⟩
    | queryEvent => exact (lengths_query tuned small).mp lengths
    | tableMapEvent => exact (dispatchTableMap_defined tuned small).mp branch
    | writeRowsEvent => cases notRows
    | updateRowsEvent => cases notRows
    | deleteRowsEvent => cases notRows
    | writeRowsV2Event => cases notRows
    | updateRowsV2Event => cases notRows
    | deleteRowsV2Event => cases notRows
    | _ => exact dispatchUnhandled_defined.mp branch
  · intro fits
    obtain ⟨least, header⟩ := PacketFits.least fits
    have trailer := self.fmt.trailerLen_le
    constructor
    · rw [runs (by omega), checkOutcome_defined crc
        (self.dispatchSwitch_sameSetup _ _ _ _).fmt]
      exact ⟨dispatchSwitch_defined handlerThrows tuned notRows
        (by rw [length]; exact small) fits, fun _ => header⟩
    · generalize buf.take len = memory at length least fits ⊢
      subst length
      have whole : ∀ pair ∈ [(memory.length, self.fmt.trailerLen)],
          pair.2 ≤ pair.1 := by
        intro pair member
        rw [List.mem_singleton.mp member]
        dsimp only
        omega
      cases type with
      | rotateEvent => exact (lengths_rotate tuned small).mpr fits
      | queryEvent => exact (lengths_query tuned small).mpr fits
      | _ => exact whole

end Packets

/-- A packet of this type and length: header fields of zero, then `rest`. -/
def plainPacket (code len : UInt8) (rest : Bytes) : Bytes :=
  [0, 0, 0, 0, code, 0, 0, 0, 0, len, 0, 0, 0] ++ rest

/-- A parser that talks to a server without checksums. -/
def plainParser : CLogParser where
  fmt := .ofServer [53] false

theorem plainParser_admits {code len : UInt8} (rest : Bytes)
    (long : 9 ≤ len.toNat) (known : code.toNat ≤ logEventTypes) :
    plainParser.Admitted (plainPacket code len rest) len.toNat code := by
  refine ⟨long, ?_, rfl, Or.inl (decide_eq_true known)⟩
  have bounded := len.toNat_lt
  have small : len.toNat % 4294967296 = len.toNat := by omega
  rw [small]
  rfl

/-- A ROTATE packet with a one-byte name. -/
theorem parsesInside_iff_rotate :
    plainParser.ParsesInside (fun _ => 0) (.ofCode 4)
      (plainPacket 4 28 (List.replicate 15 0)) 28 false := by
  have tuned := CFormatDescriptionLogEvent.ofServer_tuned [53] false
  have admitted : plainParser.Admitted
      (plainPacket 4 28 (List.replicate 15 0)) 28 4 :=
    plainParser_admits _ (by decide) (by decide)
  exact (parsesInside_iff tuned admitted rfl (by decide) (by decide)).mpr
    (show 27 + 0 ≤ 28 by decide)

/-- A STOP packet of 13 bytes passes the sanity check, and `tune` reads the
position and the flags behind it. -/
theorem not_parsesInside_short :
    plainParser.Admitted (plainPacket 3 13 (List.replicate 15 0)) 13 3 ∧
      ¬plainParser.ParsesInside (fun _ => 0) (.ofCode 3)
        (plainPacket 3 13 (List.replicate 15 0)) 13 false := by
  constructor
  · exact plainParser_admits _ (by decide) (by decide)
  · intro parses
    cases parses.reads

end CLogParser

end MysqlSlave
