import MysqlSlave.RowsEventFormat
import MysqlSlave.TableBindings
import MysqlSlave.TableSchema

/-!
# Dispatching well-formed events

What `dispatch_events` does with an event that a server wrote, by the type of the
event.
-/

namespace MysqlSlave

open Region

/-- The table id of a ROWS event stands behind the common header. -/
theorem CRowLogEvent.tune_tableId {self event : CRowLogEvent} {data : Bytes}
    {size : Nat} {fmt : CFormatDescriptionLogEvent} {rc : Int}
    (run : self.tune data size fmt = .ok (rc, event)) :
    readLE data fmt.commonHeaderLen 6 = .ok event.tableId := by
  unfold tune at run
  obtain ⟨header, _, run⟩ := Exec.bind_eq_ok.mp run
  obtain ⟨code, _, run⟩ := Exec.bind_eq_ok.mp run
  obtain ⟨tableId, idRead, run⟩ := Exec.bind_eq_ok.mp run
  obtain ⟨rowFlags, _, run⟩ := Exec.bind_eq_ok.mp run
  obtain ⟨⟨extraDataLen, extraData, p⟩, _, run⟩ := Exec.bind_eq_ok.mp run
  obtain ⟨⟨ncolumns, behind⟩, _, run⟩ := Exec.bind_eq_ok.mp run
  obtain ⟨used, _, run⟩ := Exec.bind_eq_ok.mp run
  dsimp only at run
  split at run
  · cases run
    exact idRead
  · split at run
    · obtain ⟨after, _, run⟩ := Exec.bind_eq_ok.mp run
      split at run
      · cases run
        exact idRead
      · cases run
        exact idRead
    · cases run
      exact idRead

namespace CLogParser

variable {self : CLogParser} {memory body checksum : Bytes}
  {header : EventHeader} {code : UInt8}

theorem admitted_encodeEvent
    (stored : Stored memory 0 (encodeEvent header code body checksum))
    (supported : code.toNat ≤ logEventTypes) :
    self.Admitted memory (encodeEvent header code body checksum).length
      code := by
  refine ⟨?_, ?_, readByte_code stored, Or.inl ?_⟩
  · rw [encodeEvent_length, eventLenOffset]
    omega
  · have pieces := stored.left.left
    simp only [EventHeader.encode] at pieces
    have length := readLE_of_stored pieces.left.left.right
    rw [bytesLE_length, littleEndian_bytesLE] at length
    rw [encodeEvent_length]
    simpa [eventLenOffset] using length
  · simpa [CFormatDescriptionLogEvent.isSupported] using supported

section TableMap

variable {event : TableMapEvent} {len : Nat} {tbl : Address}

theorem placed_of_received {fmt : CFormatDescriptionLogEvent}
    (received : Received fmt event.encode memory len) :
    event.Placed memory := by
  obtain ⟨checksum, slack, _, _, rfl, _, _⟩ := received
  have stored := Stored.intro [] (event.encode checksum) slack
  have body := stored.left.right
  rw [EventHeader.encode_length] at body
  exact TableMapEvent.placed_of_stored (body.relocate rfl)

theorem admitted_of_received
    (received : Received self.fmt event.encode memory len) :
    ∃ code, self.Admitted memory len code ∧
      LogEventType.ofCode code = .tableMapEvent := by
  obtain ⟨checksum, slack, _, _, rfl, rfl, _⟩ := received
  exact ⟨19, admitted_encodeEvent (Stored.intro [] _ slack) (by decide), rfl⟩

theorem mapsTable_of_received (tuned : self.fmt.Tuned)
    (received : Received self.fmt event.encode memory len)
    (watched : self.watched event.dbName event.tableName = some tbl) :
    self.MapsTable memory len event.tableName event.tableId tbl := by
  have placed := placed_of_received received
  exact ⟨admitted_of_received received, ⟨event.dbName,
    TableMapEvent.getDatabaseName_placed tuned placed, watched⟩,
    TableMapEvent.getTableName_placed tuned placed,
    TableMapEvent.getTableId_placed tuned placed⟩

theorem mapsUnwatched_of_received (tuned : self.fmt.Tuned)
    (received : Received self.fmt event.encode memory len)
    (unwatched : self.watched event.dbName event.tableName = none) :
    self.MapsUnwatched memory len event.tableId := by
  have placed := placed_of_received received
  refine ⟨admitted_of_received received, ⟨event.dbName,
    TableMapEvent.getDatabaseName_placed tuned placed, fun tblName read => ?_⟩,
    TableMapEvent.getTableId_placed tuned placed⟩
  rw [TableMapEvent.getTableName_placed tuned placed] at read
  cases read
  exact unwatched

/-- What a TABLE_MAP event of a watched table leaves in it: the table as it was,
if it keeps its schema, and else the schema of the event. -/
theorem dispatchEvent_tableMap (crc : Bytes → Nat) (handlerThrows : Bool)
    (tuned : self.fmt.Tuned)
    (received : Received self.fmt event.encode memory len)
    (watched : self.watched event.dbName event.tableName = some tbl) :
    ∃ table content,
      (self.dispatchEvent crc memory len handlerThrows).state =
        self.bound event.tableName tbl event.tableId table ∧
      (self.dispatchEvent crc memory len handlerThrows).calls = [] ∧
      event.Placed content ∧
      ((self.remapped event.tableName tbl event.tableId).tuned = true ∧
          table = self.remapped event.tableName tbl event.tableId ∨
        (self.remapped event.tableName tbl event.tableId).tuned = false ∧
          CTable.TunedWith event content tbl
            (self.remapped event.tableName tbl event.tableId) table) := by
  have placed := placed_of_received received
  obtain ⟨checksum, slack, trailer, _, rfl, rfl, small⟩ := received
  have stored := Stored.intro [] (event.encode checksum) slack
  have admitted : self.Admitted ([] ++ event.encode checksum ++ slack)
      (event.encode checksum).length 19 :=
    admitted_encodeEvent stored (by decide)
  rw [List.nil_append] at *
  rw [dispatchEvent_of_admitted admitted, (checkOutcome_state _ _ _ _).1,
    (checkOutcome_state _ _ _ _).2]
  have branch : self.dispatchSwitch (.ofCode 19)
      (event.encode checksum ++ slack) (event.encode checksum).length
      handlerThrows = self.dispatchTableMap (event.encode checksum ++ slack)
        (event.encode checksum).length := rfl
  rw [branch]
  have names := TableMapEvent.getDatabaseName_placed tuned placed
  have tables := TableMapEvent.getTableName_placed tuned placed
  have ids := TableMapEvent.getTableId_placed tuned placed
  -- the remapped table runs `tune` to its end
  obtain ⟨table, run, left⟩ : ∃ table,
      (self.remapped event.tableName tbl event.tableId).tune tbl
          (event.encode checksum ++ slack) (event.encode checksum).length
          self.fmt = .ok (.code 0, table) ∧
      ((self.remapped event.tableName tbl event.tableId).tuned = true ∧
          table = self.remapped event.tableName tbl event.tableId ∨
        (self.remapped event.tableName tbl event.tableId).tuned = false ∧
          CTable.TunedWith event (event.content checksum) tbl
            (self.remapped event.tableName tbl event.tableId) table) := by
    cases keeps : (self.remapped event.tableName tbl event.tableId).tuned with
    | true => exact ⟨_, by simp [CTable.tune, keeps], Or.inl ⟨rfl, rfl⟩⟩
    | false =>
        obtain ⟨after, run, tunedWith⟩ :=
          CTable.tune_encode tbl keeps tuned stored trailer small
        exact ⟨after, run, Or.inr ⟨rfl, tunedWith⟩⟩
  obtain ⟨db, found, inside⟩ := Option.bind_eq_some_iff.mp watched
  have outcome : self.dispatchTableMap (event.encode checksum ++ slack)
      (event.encode checksum).length =
        { state := self.bound event.tableName tbl event.tableId table } := by
    simp [dispatchTableMap, dispatchMapped, Outcome.ofExec, names, tables, ids,
      found, inside, run]
  rw [outcome]
  exact ⟨table, event.content checksum, rfl, rfl,
    event.content_placed checksum, left⟩

theorem dispatchEvent_mapsUnwatched (crc : Bytes → Nat) (handlerThrows : Bool)
    {buf : Bytes} {tableId : Nat}
    (unwatched : self.MapsUnwatched buf len tableId) :
    ∃ exit, self.dispatchEvent crc buf len handlerThrows =
      { state := self, exit } := by
  obtain ⟨⟨code, admitted, type⟩, ⟨dbName, dbRead, missing⟩, _⟩ := unwatched
  rw [dispatchEvent_of_admitted admitted, type]
  obtain ⟨exit, same, _⟩ := checkOutcome_exit crc
    (self.dispatchTableMap buf len) buf len
  refine ⟨exit, same.trans ?_⟩
  have mapped := self.dispatchTableMap_mapped buf len
  generalize self.dispatchTableMap buf len = outcome at mapped
  have other : ∀ {dbName' tblName : Bytes} {tbl : Address},
      CTableMapLogEvent.getDatabaseName buf self.fmt = .ok dbName' →
      CTableMapLogEvent.getTableName buf self.fmt = .ok tblName →
      self.watched dbName' tblName ≠ some tbl := by
    intro dbName' tblName tbl read nameRead watched
    rw [dbRead] at read
    cases read
    rw [missing tblName nameRead] at watched
    cases watched
  cases mapped with
  | faulted fault unread => rfl
  | unwatched read none => rfl
  | bound exit read nameRead watched idRead run ended =>
      exact absurd watched (other read nameRead)
  | broke fault read nameRead watched idRead run =>
      exact absurd watched (other read nameRead)

end TableMap

section Rows

/-- A ROWS event that `tune` accepts, as `rlev`. -/
structure ReadsRows (parser : CLogParser) (buf : Bytes) (len : Nat)
    (type : LogEventType) (rlev : CRowLogEvent) : Prop where
  admitted : ∃ code, parser.Admitted buf len code ∧
    LogEventType.ofCode code = type
  rows : type.isRows = true
  tuned : CRowLogEvent.tune {} buf len parser.fmt = .ok (0, rlev)

variable {buf : Bytes} {len : Nat} {type : LogEventType} {rlev : CRowLogEvent}

theorem readsRows_of_received {event : RowsEvent} (tuned : self.fmt.Tuned)
    (received : Received self.fmt event.encode memory len) :
    ∃ rlev, self.ReadsRows memory len event.kind.type rlev ∧
      event.Parsed rlev := by
  obtain ⟨checksum, slack, trailer, _, rfl, rfl, small⟩ := received
  have stored := Stored.intro [] (event.encode checksum) slack
  obtain ⟨rlev, run, parsed⟩ :=
    RowsEvent.tune_encode {} tuned stored trailer small
  exact ⟨rlev, ⟨⟨event.kind.code,
    admitted_encodeEvent stored event.kind.code_supported,
    event.kind.ofCode_code⟩, event.kind.type_isRows, run⟩, parsed⟩

theorem dispatchSwitch_rows (self : CLogParser) {type : LogEventType}
    (rows : type.isRows = true) (buf : Bytes) (len : Nat)
    (handlerThrows : Bool) :
    self.dispatchSwitch type buf len handlerThrows =
      self.dispatchRows type buf len handlerThrows := by
  rcases self.dispatchSwitch_cases type buf len handlerThrows with
    ⟨_, other, _⟩ | ⟨rfl, _⟩ | ⟨_, same⟩
  · rw [rows] at other
    cases other
  · cases rows
  · exact same

/-- What an accepted ROWS event does: nothing, if its id has no table, and else
one handler call, with what `update` has left in the table. -/
inductive RowsOutcome (parser : CLogParser) (buf : Bytes)
    (type : LogEventType) (rlev : CRowLogEvent) : Outcome → Prop where
  | unmapped (exit : Exit) :
      parser.idToTable rlev.tableId = none →
      RowsOutcome parser buf type rlev { state := parser, exit }
  | delivered {tbl : Address} {rc : Int} {table : CTable} (exit : Exit) :
      parser.idToTable rlev.tableId = some tbl →
      (parser.tables tbl).update buf rlev = .ok (rc, table) →
      RowsOutcome parser buf type rlev
        { state :=
            { parser with tables := Function.update parser.tables tbl table }
          calls := [handlerCall type tbl table]
          exit }

theorem dispatchEvent_rows {crc : Bytes → Nat} {handlerThrows : Bool}
    (reads : self.ReadsRows buf len type rlev)
    (defined : (self.dispatchEvent crc buf len
      handlerThrows).exit.isUndefined = false) :
    RowsOutcome self buf type rlev
      (self.dispatchEvent crc buf len handlerThrows) := by
  obtain ⟨⟨code, admitted, rfl⟩, rows, run⟩ := reads
  rw [dispatchEvent_of_admitted admitted] at defined ⊢
  have reaches : self.dispatchSwitch (.ofCode code) buf len handlerThrows =
      self.dispatchRows (.ofCode code) buf len handlerThrows := by
    rcases self.dispatchSwitch_cases (.ofCode code) buf len handlerThrows with
      ⟨_, wrong, _⟩ | ⟨wrong, _⟩ | ⟨_, same⟩
    · simp [rows] at wrong
    · rw [wrong] at rows
      cases rows
    · exact same
  have delivered := self.dispatchRows_delivered (.ofCode code) buf len
    handlerThrows
  rw [← reaches] at delivered
  generalize self.dispatchSwitch (.ofCode code) buf len handlerThrows =
    outcome at delivered defined
  obtain ⟨exit, same, stays⟩ := checkOutcome_exit crc outcome buf len
  rw [same] at defined ⊢
  cases delivered with
  | faulted fault => simp [stays rfl] at defined
  | refused exn run' nonzero =>
      cases run.symm.trans run'
      exact absurd rfl nonzero
  | unmapped run' none =>
      cases run.symm.trans run'
      exact .unmapped exit none
  | delivered run' mapped updated =>
      cases run.symm.trans run'
      exact .delivered exit mapped updated

/-- What a handler gets by the type of the event: the rows of a WRITE, the new and
the old rows of an UPDATE, the rows of a DELETE. -/
inductive HandlerGets (type : LogEventType) (tbl : Address) (table : CTable) :
    HandlerCall → Prop where
  | inserted :
      type = .writeRowsEvent ∨ type = .writeRowsV2Event →
      HandlerGets type tbl table (.onInsert tbl table.rows)
  | updated :
      type = .updateRowsEvent ∨ type = .updateRowsV2Event →
      HandlerGets type tbl table (.onUpdate tbl table.newRows table.rows)
  | deleted :
      type = .deleteRowsEvent ∨ type = .deleteRowsV2Event →
      HandlerGets type tbl table (.onDelete tbl table.rows)

theorem handlerGets_iff {tbl : Address} {table : CTable} {call : HandlerCall}
    (rows : type.isRows = true) :
    HandlerGets type tbl table call ↔ call = handlerCall type tbl table := by
  constructor
  · intro gets
    cases gets with
    | inserted write => rcases write with rfl | rfl <;> rfl
    | updated update => rcases update with rfl | rfl <;> rfl
    | deleted delete => rcases delete with rfl | rfl <;> rfl
  · rintro rfl
    cases type with
    | writeRowsEvent => exact .inserted (Or.inl rfl)
    | writeRowsV2Event => exact .inserted (Or.inr rfl)
    | updateRowsEvent => exact .updated (Or.inl rfl)
    | updateRowsV2Event => exact .updated (Or.inr rfl)
    | deleteRowsEvent => exact .deleted (Or.inl rfl)
    | deleteRowsV2Event => exact .deleted (Or.inr rfl)
    | _ => cases rows

/-- What the handler is told of an accepted ROWS event: nothing if its id has no
table, and else in one call what `update` has left in the table. -/
inductive Reports (parser : CLogParser) (buf : Bytes) (type : LogEventType)
    (rlev : CRowLogEvent) : List HandlerCall → Prop where
  | unmapped :
      parser.idToTable rlev.tableId = none →
      Reports parser buf type rlev []
  | told {tbl : Address} {rc : Int} {table : CTable} {call : HandlerCall} :
      parser.idToTable rlev.tableId = some tbl →
      (parser.tables tbl).update buf rlev = .ok (rc, table) →
      HandlerGets type tbl table call →
      Reports parser buf type rlev [call]

/-- A ROWS event that is dispatched to its end has been accepted, and the handler
has been told of it. -/
theorem reports_of_done {crc : Bytes → Nat} {handlerThrows : Bool} {code : UInt8}
    (done : (self.dispatchEvent crc buf len handlerThrows).exit = .done)
    (type : readByte buf eventTypeOffset = .ok code)
    (rows : (LogEventType.ofCode code).isRows = true) :
    ∃ rlev, CRowLogEvent.tune {} buf len self.fmt = .ok (0, rlev) ∧
      self.Reports buf (.ofCode code) rlev
        (self.dispatchEvent crc buf len handlerThrows).calls := by
  obtain ⟨code', admitted⟩ : ∃ code', self.Admitted buf len code' := by
    by_contra refused
    obtain ⟨exit, same, ends⟩ := dispatchEvent_of_not_admitted crc handlerThrows
      (not_exists.mp refused)
    rw [same] at done
    rcases ends with ⟨exn, threw⟩ | ⟨_, undefined⟩
    · rw [threw] at done
      cases done
    · rw [show exit = .done from done] at undefined
      cases undefined
  obtain rfl : code = code' := Except.ok.inj (type.symm.trans admitted.type)
  have defined : (self.dispatchEvent crc buf len
      handlerThrows).exit.isUndefined = false := by
    rw [done]
    rfl
  obtain ⟨rlev, run⟩ : ∃ rlev,
      CRowLogEvent.tune {} buf len self.fmt = .ok (0, rlev) := by
    have delivered := self.dispatchRows_delivered (.ofCode code) buf len
      handlerThrows
    rw [dispatchEvent_of_admitted admitted, dispatchSwitch_rows self rows]
      at done
    have done := done_of_checkOutcome done
    generalize self.dispatchRows (.ofCode code) buf len handlerThrows =
      outcome at delivered done
    cases delivered with
    | faulted fault => cases done
    | refused exn run nonzero => cases done
    | unmapped run none => exact ⟨_, run⟩
    | delivered run mapped updated => exact ⟨_, run⟩
  refine ⟨rlev, run, ?_⟩
  have outcome :=
    dispatchEvent_rows ⟨⟨code, admitted, rfl⟩, rows, run⟩ defined
  generalize self.dispatchEvent crc buf len handlerThrows = dispatched
    at outcome
  cases outcome with
  | unmapped exit none => exact .unmapped none
  | delivered exit mapped updated =>
      exact .told mapped updated ((handlerGets_iff rows).mpr rfl)

theorem dispatchEvent_unmapped (crc : Bytes → Nat) (handlerThrows : Bool)
    {code : UInt8} (admitted : self.Admitted buf len code)
    (rows : (LogEventType.ofCode code).isRows = true)
    (unmapped : ∀ rlev, CRowLogEvent.tune {} buf len self.fmt = .ok (0, rlev) →
      self.idToTable rlev.tableId = none) :
    ∃ exit, self.dispatchEvent crc buf len handlerThrows =
      { state := self, exit } := by
  rw [dispatchEvent_of_admitted admitted, self.dispatchSwitch_rows rows]
  obtain ⟨exit, same, _⟩ := checkOutcome_exit crc
    (self.dispatchRows (.ofCode code) buf len handlerThrows) buf len
  refine ⟨exit, same.trans ?_⟩
  have delivered := self.dispatchRows_delivered (.ofCode code) buf len
    handlerThrows
  generalize self.dispatchRows (.ofCode code) buf len handlerThrows =
    outcome at delivered
  cases delivered with
  | faulted fault => rfl
  | refused exn run nonzero => rfl
  | unmapped run none => rfl
  | delivered run mapped updated =>
      rw [unmapped _ run] at mapped
      cases mapped

theorem dispatchEvent_repositioned (crc : Bytes → Nat) (handlerThrows : Bool)
    (other : ∀ code, self.Admitted buf len code →
      LogEventType.ofCode code ≠ .tableMapEvent ∧
        (LogEventType.ofCode code).isRows = false) :
    Repositioned self (self.dispatchEvent crc buf len handlerThrows) := by
  by_cases admitted : ∃ code, self.Admitted buf len code
  case neg =>
    obtain ⟨exit, same, _⟩ := dispatchEvent_of_not_admitted crc handlerThrows
      (not_exists.mp admitted)
    rw [same]
    exact .stays self exit
  obtain ⟨code, admitted⟩ := admitted
  obtain ⟨notMap, notRows⟩ := other code admitted
  rw [dispatchEvent_of_admitted admitted]
  obtain ⟨exit, same, _⟩ := checkOutcome_exit crc
    (self.dispatchSwitch (.ofCode code) buf len handlerThrows) buf len
  rw [same]
  rcases self.dispatchSwitch_cases (.ofCode code) buf len handlerThrows with
    ⟨_, _, moved⟩ | ⟨map, _⟩ | ⟨rows, _⟩
  · generalize self.dispatchSwitch (.ofCode code) buf len handlerThrows =
      outcome at moved
    cases moved with
    | intro name pos exit' => exact .intro name pos exit
  · exact absurd map notMap
  · rw [notRows] at rows
    cases rows

end Rows

end CLogParser

namespace Loop

/-- The step reads a ROWS event that `tune` accepts, as `rlev`, from `memory`. -/
def ReadsRows (next : Taken Loop Input Effect) (type : LogEventType)
    (memory : Bytes) (rlev : CRowLogEvent) : Prop :=
  ∃ packet handlerThrows, next.input = .read packet handlerThrows ∧
    memory = packet.event ∧
    next.before.parser.ReadsRows packet.event packet.eventLen type rlev

theorem step_rows {crc : Bytes → Nat} {next : Taken Loop Input Effect}
    {type : LogEventType} {memory : Bytes} {rlev : CRowLogEvent}
    (stepped : step crc next.before next.input =
      some (next.after, next.effect))
    (rows : ReadsRows next type memory rlev)
    (defined : next.effect.exit.isUndefined = false) :
    CLogParser.RowsOutcome next.before.parser memory type rlev
      { state := next.after.parser, calls := next.effect.calls
        exit := next.effect.exit } := by
  obtain ⟨packet, throws, input, rfl, rows⟩ := rows
  obtain ⟨before, _, effect, after⟩ := next
  dsimp only at *
  subst input
  obtain ⟨_, _, stepped⟩ := step_stepped stepped
  cases stepped with
  | readFailed _ what _ ended =>
      rcases ended with impossible | ⟨_, _, same, ended⟩
      · cases impossible
      · cases same
        obtain ⟨code, admitted, _⟩ := rows.admitted
        exact absurd admitted (not_admitted_of_isEnd ended)
  | dispatched _ _ outcome _ _ _ same =>
      subst same
      exact CLogParser.dispatchEvent_rows rows defined

theorem mapStep_maps (loop : Loop) (event : TableMapEvent) {tbl : Address}
    (tuned : loop.parser.fmt.Tuned)
    (unchecked : loop.parser.fmt.trailerLen = 0)
    (small : (event.encode []).length < 4294967296)
    (watched :
      loop.parser.watched event.dbName event.tableName = some tbl) :
    MapsTable (mapStep loop event) event.tableName event.tableId tbl :=
  ⟨_, _, rfl, CLogParser.mapsTable_of_received tuned
    ⟨[], [0], unchecked.symm, by decide, rfl, rfl, small⟩ watched⟩

/-- The step that reads a ROWS event without a checksum. -/
def rowsStep (loop : Loop) (event : RowsEvent) : Taken Loop Input Effect :=
  loop.readStep (fun _ => 0) (.ofEvent (event.encode []))

theorem rowsStep_reads (loop : Loop) (event : RowsEvent)
    (tuned : loop.parser.fmt.Tuned)
    (unchecked : loop.parser.fmt.trailerLen = 0)
    (small : (event.encode []).length < 4294967296) :
    ∃ rlev, ReadsRows (rowsStep loop event) event.kind.type
      (event.encode [] ++ [0]) rlev ∧ event.Parsed rlev := by
  have received : Received loop.parser.fmt event.encode
      (event.encode [] ++ [0]) (event.encode []).length :=
    ⟨[], [0], unchecked.symm, by decide, rfl, rfl, small⟩
  obtain ⟨rlev, reads, parsed⟩ :=
    CLogParser.readsRows_of_received tuned received
  exact ⟨rlev, ⟨_, _, rfl, rfl, reads⟩, parsed⟩

/-- `d.t` is watched and has the id 1. -/
def mappedStep : Taken Loop Input Effect :=
  mapStep (sampleLoop false [([100], [116])]) (sampleMap .d .t 3 1)

theorem mappedStep_run :
    Run (step fun _ => 0) (sampleLoop false [([100], [116])]) [mappedStep]
      mappedStep.after :=
  run_readStep _ .refl rfl

/-- The row (5) is inserted under the id 1. -/
def insertStep (loop : Loop) : Taken Loop Input Effect :=
  rowsStep loop (sampleRows .write 1 [0, 5, 0, 0, 0])

end Loop

end MysqlSlave
