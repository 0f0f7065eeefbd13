import Mathlib.Logic.Function.Basic
import MysqlSlave.Database

/-!
# The log parser

`CLogParser` from `logparser.h` and `logparser.cpp`: the parser's members, what
`dispatch_events` does with one packet, and the reconnect it does in front of a
read.  What the client library and the server do is input: whether a connect or
a dump request succeeds, what a read returns, whether a handler throws.
`crc` is `crc32` of zlib.
-/

namespace MysqlSlave

open Region

/-- A call of one of the three virtual handlers, with its arguments. -/
inductive HandlerCall
  | onInsert (table : Address) (newrows : List CRow)
  | onUpdate (table : Address) (newrows oldrows : List CRow)
  | onDelete (table : Address) (rows : List CRow)
  deriving DecidableEq, Repr

def HandlerCall.table : HandlerCall → Address
  | onInsert table _ => table
  | onUpdate table _ _ => table
  | onDelete table _ => table

/-- An exception that leaves `dispatch_events`. -/
inductive Exn
  | logEvent (what : String)
  | client (what : String)
  | connectFailed
  | dumpFailed (name : Bytes) (pos : Nat)
  | lengthError
  | handler
  deriving DecidableEq, Repr

/-- How a piece of `dispatch_events` ends. -/
inductive Exit
  | done
  | threw (exn : Exn)
  | undefined (fault : Fault)
  deriving DecidableEq, Repr

/-- `CLogParser`.  `tables` is the memory the `CTable`s of the databases live in,
below the address `nextTable`. -/
structure CLogParser where
  databases : OrderedMap Bytes CDatabase := {}
  tables : Address → CTable := fun _ => {}
  nextTable : Address := 0
  idToTable : Nat → Option Address := fun _ => none
  tableToId : Bytes → Option Nat := fun _ => none
  slaveId : Nat := 0
  fmt : CFormatDescriptionLogEvent := {}
  binlogName : Bytes := []
  binlogPos : Nat := 0
  isConnected : Bool := false
  dispatch : Bool := true

/-- State, handler calls in order, and how it ended. -/
structure Outcome where
  state : CLogParser
  calls : List HandlerCall := []
  exit : Exit := .done

/-- Continue with the value of a parser, in the state before it ran. -/
def Outcome.ofExec {α : Type} (state : CLogParser) (run : Exec α)
    (next : α → Outcome) : Outcome :=
  match run with
  | .ok value => next value
  | .error fault => { state, exit := .undefined fault }

namespace CLogParser

/-- `set_binlog_position`; a position is 32 bits wide. -/
def setBinlogPosition (self : CLogParser) (fname : Bytes) (pos : Nat) :
    CLogParser :=
  { self with binlogName := fname, binlogPos := pos % 4294967296 }

/-- `watch`. -/
def watch (self : CLogParser) (dbName tableName : Bytes) : CLogParser :=
  if dbName = [] ∨ tableName = [] then self
  else
    let db := (self.databases.find? caseIgnorer dbName).getD {}
    let databases := self.databases.assign caseIgnorer dbName db
    match db.getTable tableName with
    | some _ => { self with databases }
    | none =>
        { self with
          databases := databases.assign caseIgnorer dbName
            (db.setTable tableName self.nextTable)
          tables := Function.update self.tables self.nextTable {}
          nextTable := self.nextTable + 1 }

/-- The `CTable*` that the TABLE_MAP branch looks up. -/
def watched (self : CLogParser) (dbName tableName : Bytes) : Option Address :=
  (self.databases.find? caseIgnorer dbName).bind (·.getTable tableName)

section Dispatch

variable (crc : Bytes → Nat)

/-- The ROTATE branch.  `std::string::assign` throws on a length above
`max_size()`. -/
def dispatchRotate (self : CLogParser) (buf : Bytes) (len : Nat) : Outcome :=
  .ofExec self (CRotateLogEvent.tune buf len self.fmt) fun (rc, event) =>
    if rc = 0 then
      if event.len > 9223372036854775807 then
        { state := self, exit := .threw .lengthError }
      else
        .ofExec self (readBytes buf event.newLog event.len) fun name =>
          { state :=
              { self with
                binlogName := name
                binlogPos := event.position % 4294967296 } }
    else
      { state := self
        exit := .threw (.logEvent "rotate event: tuning failed") }

def dispatchQuery (self : CLogParser) (buf : Bytes) (len : Nat) : Outcome :=
  .ofExec self (CQueryLogEvent.tune {} buf len self.fmt) fun (rc, event) =>
    if rc = 0 then
      { state := { self with binlogPos := event.logPos % 4294967296 } }
    else { state := self }

/-- The watched table as the TABLE_MAP branch hands it to `tune`: the schema is
given up when `_table_2_id` has another id for the name. -/
def remapped (self : CLogParser) (tblName : Bytes) (tbl : Address)
    (tableId : Nat) : CTable :=
  if (self.tableToId tblName).any (· ≠ tableId) then
    (self.tables tbl).setTuned false
  else self.tables tbl

theorem remapped_of_renumbered {self : CLogParser} {tblName : Bytes}
    {tbl : Address} {tableId : Nat}
    (renumbered : ∃ other, self.tableToId tblName = some other ∧
      other ≠ tableId) :
    self.remapped tblName tbl tableId = (self.tables tbl).setTuned false := by
  obtain ⟨other, named, differs⟩ := renumbered
  simp [remapped, named, differs]

theorem remapped_of_known {self : CLogParser} {tblName : Bytes}
    {tbl : Address} {tableId : Nat}
    (known : ¬∃ other, self.tableToId tblName = some other ∧
      other ≠ tableId) :
    self.remapped tblName tbl tableId = self.tables tbl := by
  cases named : self.tableToId tblName with
  | none => simp [remapped, named]
  | some other =>
      have same : other = tableId := by
        by_contra differs
        exact known ⟨other, named, differs⟩
      simp [remapped, named, same]

/-- Both maps with the new id, and the table in its new state. -/
def bound (self : CLogParser) (tblName : Bytes) (tbl : Address)
    (tableId : Nat) (table : CTable) : CLogParser :=
  { self with
    tables := Function.update self.tables tbl table
    idToTable := Function.update self.idToTable tableId (some tbl)
    tableToId := Function.update self.tableToId tblName (some tableId) }

@[simp] theorem bound_tables_self (self : CLogParser) (tblName : Bytes)
    (tbl : Address) (tableId : Nat) (table : CTable) :
    (self.bound tblName tbl tableId table).tables tbl = table :=
  Function.update_self ..

/-- The part of the TABLE_MAP branch for a watched table. -/
def dispatchMapped (self : CLogParser) (buf : Bytes) (len : Nat)
    (tblName : Bytes) (tbl : Address) : Outcome :=
  .ofExec self (CTableMapLogEvent.getTableId buf self.fmt) fun tableId =>
    let table := self.remapped tblName tbl tableId
    .ofExec (self.bound tblName tbl tableId table)
      (table.tune tbl buf len self.fmt) fun (rc, table) =>
        let state := self.bound tblName tbl tableId table
        match rc with
        | .code 0 => { state }
        | .code _ => { state, exit := .threw (.logEvent "tuning failed") }
        | .lengthError => { state, exit := .threw .lengthError }

def dispatchTableMap (self : CLogParser) (buf : Bytes) (len : Nat) : Outcome :=
  .ofExec self (CTableMapLogEvent.getDatabaseName buf self.fmt) fun dbName =>
    match self.databases.find? caseIgnorer dbName with
    | none => { state := self }
    | some db =>
        .ofExec self (CTableMapLogEvent.getTableName buf self.fmt)
          fun tblName =>
            match db.getTable tblName with
            | none => { state := self }
            | some tbl => self.dispatchMapped buf len tblName tbl

/-- The handler call of a rows branch, after `update`. -/
def handlerCall (type : LogEventType) (tbl : Address) (table : CTable) :
    HandlerCall :=
  if type = .writeRowsEvent ∨ type = .writeRowsV2Event then
    .onInsert tbl table.rows
  else if type.isUpdateRows then .onUpdate tbl table.newRows table.rows
  else .onDelete tbl table.rows

/-- `get_type_code_str` of a rows event. -/
def rowsTypeStr (type : LogEventType) : String :=
  if type = .writeRowsEvent then "WRITE_ROWS_EVENT"
  else if type = .deleteRowsEvent then "DELETE_ROWS_EVENT"
  else if type = .updateRowsEvent then "UPDATE_ROWS_EVENT"
  else "unknown rows event"

/-- The three rows branches; they differ in the handler they call.  The result
of `update` is not looked at. -/
def dispatchRows (self : CLogParser) (type : LogEventType) (buf : Bytes)
    (len : Nat) (handlerThrows : Bool) : Outcome :=
  .ofExec self (CRowLogEvent.tune {} buf len self.fmt) fun (rc, event) =>
    if rc = 0 then
      match self.idToTable event.tableId with
      | none => { state := self }
      | some tbl =>
          .ofExec self ((self.tables tbl).update buf event) fun (_, table) =>
            { state :=
                { self with tables := Function.update self.tables tbl table }
              calls := [handlerCall type tbl table]
              exit := if handlerThrows then .threw .handler else .done }
    else
      { state := self
        exit := .threw (.logEvent (rowsTypeStr type ++ ": tuning failed")) }

def dispatchUnhandled (self : CLogParser) (buf : Bytes) (len : Nat) :
    Outcome :=
  .ofExec self (CUnhandledLogEvent.tune buf len self.fmt) fun (rc, event) =>
    if rc = 0 then
      { state := { self with binlogPos := event.logPos % 4294967296 } }
    else
      { state := self
        exit := .threw (.logEvent "unhandled event: rows event tuning failed") }

/-- The `switch` of `dispatch_events`. -/
def dispatchSwitch (self : CLogParser) (type : LogEventType) (buf : Bytes)
    (len : Nat) (handlerThrows : Bool) : Outcome :=
  match type with
  | .rotateEvent => self.dispatchRotate buf len
  | .formatDescriptionEvent => { state := self }
  | .queryEvent => self.dispatchQuery buf len
  | .tableMapEvent => self.dispatchTableMap buf len
  | .writeRowsEvent => self.dispatchRows .writeRowsEvent buf len handlerThrows
  | .writeRowsV2Event =>
      self.dispatchRows .writeRowsV2Event buf len handlerThrows
  | .updateRowsEvent => self.dispatchRows .updateRowsEvent buf len handlerThrows
  | .updateRowsV2Event =>
      self.dispatchRows .updateRowsV2Event buf len handlerThrows
  | .deleteRowsEvent => self.dispatchRows .deleteRowsEvent buf len handlerThrows
  | .deleteRowsV2Event =>
      self.dispatchRows .deleteRowsV2Event buf len handlerThrows
  | _ => self.dispatchUnhandled buf len

/-- The checksum test behind the `switch`. -/
def checksumTest (self : CLogParser) (buf : Bytes) (len : Nat) : Exec Exit :=
  if self.fmt.useChecksum then do
    let flags ← readLE buf flagsOffset 2
    if flags &&& logEventArtificialF = 0 then
      if len < 4 then throw .outOfBounds
      let receivedChecksum ← readLE buf (len - 4) 4
      let covered ← readBytes buf 0 (len - 4)
      if receivedChecksum ≠ crc covered then
        return .threw (.client
          ("CRC32 binlog checksums don't match. Received: " ++
            toString receivedChecksum ++ ". Calculated: " ++
            toString (crc covered)))
      else return .done
    else return .done
  else return .done

/-- What follows a branch of the `switch` that has not thrown. -/
def checkOutcome (outcome : Outcome) (buf : Bytes) (len : Nat) : Outcome :=
  match outcome.exit with
  | .done =>
      match outcome.state.checksumTest crc buf len with
      | .ok exit => { outcome with exit }
      | .error fault => { outcome with exit := .undefined fault }
  | _ => outcome

/-- What `dispatch_events` does with the event of `len` bytes at `buf`. -/
def dispatchEvent (self : CLogParser) (buf : Bytes) (len : Nat)
    (handlerThrows : Bool) : Outcome :=
  let sanityFailed : Outcome :=
    { state := self, exit := .threw (.logEvent "event sanity check failed") }
  if len < eventLenOffset then sanityFailed
  else
    .ofExec self (readLE buf eventLenOffset 4) fun eventLen =>
      if len % 4294967296 ≠ eventLen then sanityFailed
      else
        .ofExec self (readByte buf eventTypeOffset) fun code =>
          let type := LogEventType.ofCode code
          if !self.fmt.isSupported code.toNat &&
              type != .formatDescriptionEvent then
            { state := self
              exit := .threw (.logEvent
                ("event number " ++ toString code.toNat ++
                  ": not supported")) }
          else
            checkOutcome crc
              (self.dispatchSwitch type buf len handlerThrows) buf len

end Dispatch

/-- The command `request_binlog_dump` writes: position, flags, slave id and
file name, in a buffer of 1024 bytes. -/
def dumpCommand (self : CLogParser) : Exec (Except Exn Bytes) :=
  if self.binlogName = [] ∨ self.binlogPos = 0 then
    .ok (.error (.client "binlog name or position is empty"))
  else if self.binlogName.length + 10 > 1024 then .error .overflow
  else
    .ok (.ok (bytesLE 4 self.binlogPos ++ bytesLE 2 0 ++
      bytesLE 4 self.slaveId ++ self.binlogName))

/-- `disconnect`. -/
def disconnect (self : CLogParser) : CLogParser :=
  { self with isConnected := false }

end CLogParser

end MysqlSlave
