import MysqlSlave.Dispatch
import MysqlSlave.EventFormat

/-!
# The checksum gate

The checksum is tested behind the `switch`, so an event with a wrong checksum has
had its effect by then.  `KeepsParser` says which events have none.
-/

namespace MysqlSlave

open Region

namespace CLogParser

/-- The event has a checksum and it is wrong. -/
structure Corrupt (crc : Bytes → Nat) (parser : CLogParser) (buf : Bytes)
    (len : Nat) : Prop where
  checked : parser.fmt.useChecksum = true
  genuine : ∃ flags, readLE buf flagsOffset 2 = .ok flags ∧
    flags &&& logEventArtificialF = 0
  long : 4 ≤ len
  inside : len ≤ buf.length
  wrong : ∃ received, readLE buf (len - 4) 4 = .ok received ∧
    received ≠ crc (buf.take (len - 4))

/-- `tune` leaves the table at `tbl` as it is: the table is tuned, or the event
is the one it holds already and cannot be turned into a row. -/
def TuneKeeps (parser : CLogParser) (tbl : Address) (buf : Bytes)
    (len : Nat) : Prop :=
  (parser.tables tbl).tuned = true ∨
    CTableMapLogEvent.tune buf len parser.fmt =
        .ok (0, (parser.tables tbl).toCTableMapLogEvent) ∧
      ((parser.tables tbl).isValid = false ∨
        CTable.maxRowSize < (parser.tables tbl).columnCount ∧
          (parser.tables tbl).row.table = some tbl)

/-- A TABLE_MAP event that changes nothing: its table is not watched, or it is
bound to this id already and `tune` leaves it as it is. -/
def TableMapKeeps (parser : CLogParser) (buf : Bytes) (len : Nat) : Prop :=
  ∃ dbName, CTableMapLogEvent.getDatabaseName buf parser.fmt = .ok dbName ∧
    (parser.databases.find? caseIgnorer dbName = none ∨
      ∃ tblName, CTableMapLogEvent.getTableName buf parser.fmt = .ok tblName ∧
        (parser.watched dbName tblName = none ∨
          ∃ tbl tableId, parser.watched dbName tblName = some tbl ∧
            CTableMapLogEvent.getTableId buf parser.fmt = .ok tableId ∧
            parser.idToTable tableId = some tbl ∧
            parser.tableToId tblName = some tableId ∧
            parser.TuneKeeps tbl buf len))

/-- The events that leave the parser as it is and call no handler. -/
def KeepsParser (parser : CLogParser) (type : LogEventType) (buf : Bytes)
    (len : Nat) : Prop :=
  match type with
  | .formatDescriptionEvent => True
  | .rotateEvent =>
      ∃ event, CRotateLogEvent.tune buf len parser.fmt = .ok (0, event) ∧
        (event.len > 9223372036854775807 ∨
          readBytes buf event.newLog event.len = .ok parser.binlogName ∧
            event.position % 4294967296 = parser.binlogPos)
  | .queryEvent =>
      ∃ rc event,
        CQueryLogEvent.tune {} buf len parser.fmt = .ok (rc, event) ∧
          (rc = 0 → event.logPos % 4294967296 = parser.binlogPos)
  | .tableMapEvent => parser.TableMapKeeps buf len
  | .writeRowsEvent | .writeRowsV2Event | .updateRowsEvent
  | .updateRowsV2Event | .deleteRowsEvent | .deleteRowsV2Event =>
      ∃ rc event,
        CRowLogEvent.tune {} buf len parser.fmt = .ok (rc, event) ∧
          (rc = 0 → parser.idToTable event.tableId = none)
  | _ =>
      ∃ event, CUnhandledLogEvent.tune buf len parser.fmt = .ok (0, event) ∧
        event.logPos % 4294967296 = parser.binlogPos

/-- A branch ended, by itself or with an exception, and nothing has happened. -/
structure Idle (parser : CLogParser) (outcome : Outcome) : Prop where
  calls : outcome.calls = []
  state : outcome.state = parser
  defined : outcome.exit.isUndefined = false

variable {self : CLogParser} {crc : Bytes → Nat} {buf : Bytes} {len : Nat}
  {handlerThrows : Bool}

theorem bound_eq_self {tblName : Bytes} {tbl : Address} {tableId : Nat}
    {table : CTable} :
    self.bound tblName tbl tableId table = self ↔
      self.tables tbl = table ∧ self.idToTable tableId = some tbl ∧
        self.tableToId tblName = some tableId := by
  constructor
  · intro same
    have tables := congrArg (fun parser => parser.tables tbl) same
    have ids := congrArg (fun parser => parser.idToTable tableId) same
    have names := congrArg (fun parser => parser.tableToId tblName) same
    simp only [bound, Function.update_self] at tables ids names
    exact ⟨tables.symm, ids.symm, names.symm⟩
  · rintro ⟨tables, ids, names⟩
    simp [bound, ← tables, ← ids, ← names]

theorem not_idle_undefined {state : CLogParser} {calls : List HandlerCall}
    {fault : Fault} :
    ¬Idle self { state, calls, exit := .undefined fault } := by
  rintro ⟨_, _, defined⟩
  cases defined

theorem idle_of_state {exit : Exit} (defined : exit.isUndefined = false) :
    Idle self { state := self, exit } :=
  ⟨rfl, rfl, defined⟩

theorem tuneKeeps_iff {tbl : Address} :
    self.TuneKeeps tbl buf len ↔
      ∃ rc, (self.tables tbl).tune tbl buf len self.fmt =
        .ok (rc, self.tables tbl) := by
  unfold TuneKeeps CTable.tune
  generalize self.tables tbl = table
  by_cases tuned : table.tuned = true
  · simp [tuned]
  rw [or_iff_right tuned, if_neg tuned]
  cases run : CTableMapLogEvent.tune buf len self.fmt with
  | error fault => simp [bind, Except.bind]
  | ok result =>
  obtain ⟨rc, event⟩ := result
  obtain rfl := CTableMapLogEvent.tune_returns run
  simp only [Exec.ok_bind, true_and, Except.ok.injEq, Prod.mk.injEq]
  split
  case isTrue valid =>
    split
    case isTrue large =>
      constructor
      · rintro ⟨rfl, invalid | ⟨_, held⟩⟩
        · simp [valid] at invalid
        · refine ⟨.lengthError, ?_⟩
          rw [← held]
          rfl
      · rintro ⟨rc, same⟩
        have after := (Prod.mk.inj (Except.ok.inj same)).2
        have held := congrArg CTable.toCTableMapLogEvent after
        have row := congrArg (fun table => table.row.table) after
        dsimp only at held row
        subst held
        exact ⟨rfl, Or.inr ⟨large, row.symm⟩⟩
    case isFalse small =>
      constructor
      · rintro ⟨rfl, invalid | ⟨large, _⟩⟩
        · simp [valid] at invalid
        · exact absurd large small
      · rintro ⟨rc, same⟩
        obtain ⟨row, _, same⟩ := Exec.bind_eq_ok.mp same
        have after := (Prod.mk.inj (Except.ok.inj same)).2
        have marked := congrArg CTable.tuned after
        exact absurd marked.symm tuned
  case isFalse invalid =>
    constructor
    · rintro ⟨rfl, _⟩
      exact ⟨.code 0, rfl⟩
    · rintro ⟨rc, same⟩
      have after := (Prod.mk.inj (Except.ok.inj same)).2
      have held := congrArg CTable.toCTableMapLogEvent after
      dsimp only at held
      subst held
      exact ⟨rfl, Or.inl (by simpa using invalid)⟩

theorem dispatchMapped_idle_iff {tblName : Bytes} {tbl : Address} :
    Idle self (self.dispatchMapped buf len tblName tbl) ↔
      ∃ tableId, CTableMapLogEvent.getTableId buf self.fmt = .ok tableId ∧
        self.idToTable tableId = some tbl ∧
        self.tableToId tblName = some tableId ∧
        self.TuneKeeps tbl buf len := by
  simp only [tuneKeeps_iff]
  unfold dispatchMapped
  cases idRead : CTableMapLogEvent.getTableId buf self.fmt with
  | error fault => exact iff_of_false not_idle_undefined (by simp)
  | ok tableId =>
  have keeps : self.tableToId tblName = some tableId →
      self.remapped tblName tbl tableId = self.tables tbl := by
    intro named
    simp [remapped, named]
  have unchanged : ∀ rc after,
      (self.remapped tblName tbl tableId).tune tbl buf len self.fmt =
        .ok (rc, after) →
      (self.bound tblName tbl tableId after = self ↔
        self.idToTable tableId = some tbl ∧
          self.tableToId tblName = some tableId ∧
          (self.tables tbl).tune tbl buf len self.fmt =
            .ok (rc, self.tables tbl)) := by
    intro rc after run
    rw [bound_eq_self]
    constructor
    · rintro ⟨table, ids, names⟩
      rw [keeps names] at run
      exact ⟨ids, names, by rw [run, table]⟩
    · rintro ⟨ids, names, same⟩
      rw [keeps names, same] at run
      cases run
      exact ⟨rfl, ids, names⟩
  simp only [Outcome.ofExec, Except.ok.injEq]
  cases run : (self.remapped tblName tbl tableId).tune tbl buf len self.fmt with
  | error fault =>
      constructor
      · intro idle
        exact absurd idle.defined (by simp [Exit.isUndefined])
      · rintro ⟨_, rfl, ids, names, rc, same⟩
        rw [keeps names, same] at run
        cases run
  | ok result =>
      obtain ⟨rc, after⟩ := result
      have ended : ∀ exit : Exit, exit.isUndefined = false →
          (Idle self { state := self.bound tblName tbl tableId after, exit } ↔
            ∃ tableId', tableId = tableId' ∧
              self.idToTable tableId' = some tbl ∧
              self.tableToId tblName = some tableId' ∧
              ∃ rc', (self.tables tbl).tune tbl buf len self.fmt =
                .ok (rc', self.tables tbl)) := by
        intro exit defined
        constructor
        · intro idle
          obtain ⟨ids, names, same⟩ := (unchanged rc after run).mp idle.state
          exact ⟨tableId, rfl, ids, names, rc, same⟩
        · rintro ⟨_, rfl, ids, names, rc', same⟩
          have run' := run
          rw [keeps names, same] at run'
          cases run'
          exact ⟨rfl, (unchanged _ _ run).mpr ⟨ids, names, same⟩, defined⟩
      dsimp only
      split
      · exact ended .done rfl
      · exact ended _ rfl
      · exact ended _ rfl

theorem dispatchTableMap_idle_iff :
    Idle self (self.dispatchTableMap buf len) ↔ self.TableMapKeeps buf len := by
  unfold dispatchTableMap TableMapKeeps
  cases CTableMapLogEvent.getDatabaseName buf self.fmt with
  | error fault => exact iff_of_false not_idle_undefined (by simp)
  | ok dbName =>
  simp only [Outcome.ofExec, Except.ok.injEq, exists_eq_left']
  cases found : self.databases.find? caseIgnorer dbName with
  | none => simpa using idle_of_state rfl
  | some db =>
  cases CTableMapLogEvent.getTableName buf self.fmt with
  | error fault =>
      simp only [reduceCtorEq, false_and, exists_false, or_false, iff_false]
      exact not_idle_undefined
  | ok tblName =>
  have lookup : self.watched dbName tblName = db.getTable tblName := by
    simp [watched, found]
  simp only [Except.ok.injEq, exists_eq_left', reduceCtorEq, false_or, lookup]
  cases db.getTable tblName with
  | none => simpa using idle_of_state rfl
  | some tbl =>
      simp only [reduceCtorEq, false_or, Option.some.injEq, exists_and_left,
        exists_eq_left']
      exact dispatchMapped_idle_iff

theorem moved_eq_self {name : Bytes} {pos : Nat} :
    { self with binlogName := name, binlogPos := pos } = self ↔
      name = self.binlogName ∧ pos = self.binlogPos := by
  constructor
  · intro same
    exact ⟨congrArg CLogParser.binlogName same,
      congrArg CLogParser.binlogPos same⟩
  · rintro ⟨rfl, rfl⟩
    rfl

theorem idle_moved_iff {name : Bytes} {pos : Nat} :
    Idle self
        { state := { self with binlogName := name, binlogPos := pos } } ↔
      name = self.binlogName ∧ pos = self.binlogPos := by
  rw [← moved_eq_self]
  exact ⟨Idle.state, fun same => ⟨rfl, same, rfl⟩⟩

theorem read_iff {α β : Type} {rc : α} {event : β} {good : α → β → Prop} :
    (∃ rc' event', (Except.ok (rc, event) : Exec (α × β)) = .ok (rc', event') ∧
      good rc' event') ↔ good rc event := by
  constructor
  · rintro ⟨_, _, same, holds⟩
    cases same
    exact holds
  · exact fun holds => ⟨rc, event, rfl, holds⟩

theorem dispatchRotate_idle_iff :
    Idle self (self.dispatchRotate buf len) ↔
      ∃ event, CRotateLogEvent.tune buf len self.fmt = .ok (0, event) ∧
        (event.len > 9223372036854775807 ∨
          readBytes buf event.newLog event.len = .ok self.binlogName ∧
            event.position % 4294967296 = self.binlogPos) := by
  unfold dispatchRotate
  cases run : CRotateLogEvent.tune buf len self.fmt with
  | error fault => exact iff_of_false not_idle_undefined (by simp)
  | ok result =>
  obtain ⟨rc, event⟩ := result
  simp only [Outcome.ofExec, Except.ok.injEq, Prod.mk.injEq]
  by_cases zero : rc = 0
  · simp only [zero, if_true, true_and, exists_eq_left']
    by_cases huge : event.len > 9223372036854775807
    · simpa [huge] using idle_of_state rfl
    · simp only [huge, if_false, false_or]
      cases readBytes buf event.newLog event.len with
      | error fault =>
          simp only [reduceCtorEq, false_and, iff_false]
          exact not_idle_undefined
      | ok name => simpa using idle_moved_iff
  · -- `tune` of a ROTATE event has no other result
    obtain ⟨header, _, rest⟩ := Exec.bind_eq_ok.mp run
    obtain ⟨position, _, returned⟩ := Exec.bind_eq_ok.mp rest
    cases returned
    exact absurd rfl zero

theorem dispatchQuery_idle_iff :
    Idle self (self.dispatchQuery buf len) ↔
      ∃ rc event,
        CQueryLogEvent.tune {} buf len self.fmt = .ok (rc, event) ∧
          (rc = 0 → event.logPos % 4294967296 = self.binlogPos) := by
  unfold dispatchQuery
  cases CQueryLogEvent.tune {} buf len self.fmt with
  | error fault => exact iff_of_false not_idle_undefined (by simp)
  | ok result =>
      obtain ⟨rc, event⟩ := result
      rw [read_iff]
      simp only [Outcome.ofExec]
      by_cases zero : rc = 0
      · simp only [zero, if_true, forall_const]
        exact idle_moved_iff.trans (and_iff_right rfl)
      · simp only [zero, if_false, false_implies, iff_true]
        exact idle_of_state rfl

theorem dispatchUnhandled_idle_iff :
    Idle self (self.dispatchUnhandled buf len) ↔
      ∃ event, CUnhandledLogEvent.tune buf len self.fmt = .ok (0, event) ∧
        event.logPos % 4294967296 = self.binlogPos := by
  unfold dispatchUnhandled
  cases run : CUnhandledLogEvent.tune buf len self.fmt with
  | error fault => exact iff_of_false not_idle_undefined (by simp)
  | ok result =>
      obtain ⟨rc, event⟩ := result
      obtain ⟨header, _, rest⟩ := Exec.bind_eq_ok.mp run
      obtain ⟨number, _, returned⟩ := Exec.bind_eq_ok.mp rest
      cases returned
      simp only [Outcome.ofExec, if_true, Except.ok.injEq, Prod.mk.injEq,
        true_and, exists_eq_left']
      exact idle_moved_iff.trans (and_iff_right rfl)

theorem dispatchRows_idle_iff {type : LogEventType} :
    Idle self (self.dispatchRows type buf len handlerThrows) ↔
      ∃ rc event,
        CRowLogEvent.tune {} buf len self.fmt = .ok (rc, event) ∧
          (rc = 0 → self.idToTable event.tableId = none) := by
  unfold dispatchRows
  cases CRowLogEvent.tune {} buf len self.fmt with
  | error fault => exact iff_of_false not_idle_undefined (by simp)
  | ok result =>
  obtain ⟨rc, event⟩ := result
  rw [read_iff]
  simp only [Outcome.ofExec]
  by_cases zero : rc = 0
  · simp only [zero, if_true, forall_const]
    cases self.idToTable event.tableId with
    | none => simpa using idle_of_state rfl
    | some tbl =>
        simp only [reduceCtorEq, iff_false]
        cases (self.tables tbl).update buf event with
        | error fault => exact not_idle_undefined
        | ok updated =>
            intro idle
            have calls := idle.calls
            simp at calls
  · simp only [zero, if_false, false_implies, iff_true]
    exact idle_of_state rfl

/-- A branch of the `switch` does nothing exactly for the events that keep the
parser. -/
theorem dispatchSwitch_idle_iff {type : LogEventType} :
    Idle self (self.dispatchSwitch type buf len handlerThrows) ↔
      self.KeepsParser type buf len := by
  cases type with
  | formatDescriptionEvent =>
      exact ⟨fun _ => trivial, fun _ => idle_of_state rfl⟩
  | rotateEvent => exact dispatchRotate_idle_iff
  | queryEvent => exact dispatchQuery_idle_iff
  | tableMapEvent => exact dispatchTableMap_idle_iff
  | writeRowsEvent => exact dispatchRows_idle_iff
  | writeRowsV2Event => exact dispatchRows_idle_iff
  | updateRowsEvent => exact dispatchRows_idle_iff
  | updateRowsV2Event => exact dispatchRows_idle_iff
  | deleteRowsEvent => exact dispatchRows_idle_iff
  | deleteRowsV2Event => exact dispatchRows_idle_iff
  | _ => exact dispatchUnhandled_idle_iff

section Rejection

/-- Nothing of an event is left: not in the position, the id maps or the tables,
and no handler has seen it. -/
structure Untouched (before after : CLogParser) (calls : List HandlerCall) :
    Prop where
  calls : calls = []
  binlogName : after.binlogName = before.binlogName
  binlogPos : after.binlogPos = before.binlogPos
  idToTable : after.idToTable = before.idToTable
  tableToId : after.tableToId = before.tableToId
  tables : after.tables = before.tables

/-- The event is turned away, or its branch of the `switch` does nothing. -/
def Harmless (parser : CLogParser) (buf : Bytes) (len : Nat) : Prop :=
  ∀ code, parser.Admitted buf len code →
    parser.KeepsParser (.ofCode code) buf len

theorem eq_of_untouched {after : CLogParser} {calls : List HandlerCall}
    (untouched : Untouched self after calls) (setup : SameSetup self after) :
    after = self := by
  obtain ⟨_, name, pos, ids, names, tables⟩ := untouched
  obtain ⟨databases, nextTable, slaveId, fmt, isConnected, dispatch⟩ := setup
  cases after
  cases self
  simp_all

theorem checksumTest_of_corrupt (corrupt : self.Corrupt crc buf len) :
    ∃ exn, self.checksumTest crc buf len = .ok (.threw exn) := by
  obtain ⟨checked, ⟨flags, flagsRead, genuine⟩, long, inside,
    received, receivedRead, wrong⟩ := corrupt
  have covered : readBytes buf 0 (len - 4) = .ok (buf.take (len - 4)) := by
    simp [readBytes]
    omega
  have notShort : ¬len < 4 := by omega
  simp [checksumTest, checked, flagsRead, genuine, notShort, receivedRead,
    covered, wrong]

/-- A corrupt event is rejected without a trace exactly if it is harmless. -/
theorem dispatchEvent_rejected_iff (corrupt : self.Corrupt crc buf len) :
    let outcome := self.dispatchEvent crc buf len handlerThrows
    ((∃ exn, outcome.exit = .threw exn) ∧
      Untouched self outcome.state outcome.calls) ↔ self.Harmless buf len := by
  have long : 19 ≤ buf.length := by
    obtain ⟨flags, flagsRead, _⟩ := corrupt.genuine
    exact readLE_inside (by omega) flagsRead
  dsimp only
  by_cases admitted : ∃ code, self.Admitted buf len code
  · obtain ⟨code, admitted⟩ := admitted
    have harmless : self.Harmless buf len ↔
        Idle self (self.dispatchSwitch (.ofCode code) buf len handlerThrows) := by
      rw [dispatchSwitch_idle_iff]
      constructor
      · exact fun keeps => keeps code admitted
      · intro keeps other same
        rwa [same.unique admitted]
    rw [harmless, dispatchEvent_of_admitted admitted]
    have setup := self.dispatchSwitch_sameSetup (.ofCode code) buf len
      handlerThrows
    generalize self.dispatchSwitch (.ofCode code) buf len handlerThrows =
      outcome at setup ⊢
    obtain ⟨state, calls⟩ := checkOutcome_state crc outcome buf len
    rw [state, calls]
    constructor
    · rintro ⟨⟨exn, threw⟩, untouched⟩
      refine ⟨untouched.calls, eq_of_untouched untouched setup, ?_⟩
      cases exit : outcome.exit with
      | done => rfl
      | threw exn => rfl
      | undefined fault => simp [checkOutcome, exit] at threw
    · rintro ⟨noCalls, same, defined⟩
      refine ⟨?_, by rw [same, noCalls]; exact ⟨rfl, rfl, rfl, rfl, rfl, rfl⟩⟩
      obtain ⟨exn, test⟩ := checksumTest_of_corrupt corrupt
      cases exit : outcome.exit with
      | done => exact ⟨exn, by simp [checkOutcome, exit, same, test]⟩
      | threw exn => exact ⟨exn, by simp [checkOutcome, exit]⟩
      | undefined fault => simp [exit, Exit.isUndefined] at defined
  · obtain ⟨exit, same, threw | ⟨short, _⟩⟩ :=
      dispatchEvent_of_not_admitted crc handlerThrows
        (not_exists.mp admitted)
    · rw [same]
      constructor
      · exact fun _ code other => absurd ⟨code, other⟩ admitted
      · exact fun _ => ⟨threw, rfl, rfl, rfl, rfl, rfl, rfl⟩
    · omega

end Rejection

end CLogParser

namespace Loop

open CLogParser

variable {crc : Bytes → Nat}

/-- The step reads a packet with a wrong checksum. -/
def ReadsCorrupt (crc : Bytes → Nat) (next : Taken Loop Input Effect) : Prop :=
  ∃ packet handlerThrows, next.input = .read packet handlerThrows ∧
    next.before.parser.Corrupt crc packet.event packet.eventLen

/-- The step reads a packet whose event would do nothing. -/
def ReadsHarmless (next : Taken Loop Input Effect) : Prop :=
  ∃ packet handlerThrows, next.input = .read packet handlerThrows ∧
    next.before.parser.Harmless packet.event packet.eventLen

/-- The step ends with an exception, and everything is as it was. -/
def Rejects (next : Taken Loop Input Effect) : Prop :=
  (∃ exn, next.effect.exit = .threw exn) ∧
    Untouched next.before.parser next.after.parser next.effect.calls

/-- In every run, a packet with a wrong checksum is rejected with the state as it
was exactly if its event would do nothing. -/
theorem corrupt_rejected_iff {start final : Loop}
    {taken : List (Taken Loop Input Effect)}
    (run : Run (step crc) start taken final)
    {next : Taken Loop Input Effect} (member : next ∈ taken)
    (corrupt : ReadsCorrupt crc next) :
    Rejects next ↔ ReadsHarmless next := by
  obtain ⟨front, back, split⟩ := List.append_of_mem member
  obtain ⟨_, stepped⟩ := run.at_step split
  obtain ⟨packet, handlerThrows, input, corrupt⟩ := corrupt
  have harmless : ReadsHarmless next ↔
      next.before.parser.Harmless packet.event packet.eventLen := by
    constructor
    · rintro ⟨other, throws, same, keeps⟩
      cases input.symm.trans same
      exact keeps
    · exact fun keeps => ⟨packet, handlerThrows, input, keeps⟩
  rw [harmless, Rejects]
  obtain ⟨_, _, stepped⟩ := step_stepped stepped
  obtain ⟨before, _, effect, after⟩ := next
  dsimp only at *
  subst input
  cases stepped with
  | readFailed _ what connected end_ =>
      obtain impossible | ⟨_, _, same, ended⟩ := end_
      · cases impossible
      · cases same
        have short : packet.eventLen < eventLenOffset := by
          simp only [Packet.isEnd, Bool.and_eq_true, decide_eq_true_eq]
            at ended
          simp only [Packet.eventLen, eventLenOffset]
          omega
        constructor
        · intro _ code admitted
          exact absurd admitted.long (by omega)
        · exact fun _ => ⟨⟨_, rfl⟩, rfl, rfl, rfl, rfl, rfl, rfl⟩
  | dispatched _ _ outcome connected dumped more same =>
      subst same
      exact dispatchEvent_rejected_iff corrupt

/-- An event of the given type that ends at 100 and whose checksum is sent
as 1. -/
def badEvent (code : UInt8) : Packet :=
  .ofEvent (encodeEvent ⟨0, 1, 100, 0⟩ code (List.replicate 8 0) [1, 0, 0, 0])

/-- That event is the first one the loop reads. -/
def badStep (code : UInt8) : Taken Loop Input Effect :=
  let start := sampleLoop true []
  let reached := start.read (fun _ => 0) (badEvent code) false
  ⟨start, .read (badEvent code) false, reached.2, reached.1⟩

theorem badStep_run (code : UInt8) :
    Run (step fun _ => 0) (sampleLoop true []) [badStep code]
      (badStep code).after :=
  .snoc .refl rfl

theorem badStep_corrupt (code : UInt8) :
    ReadsCorrupt (fun _ => 0) (badStep code) :=
  ⟨badEvent code, false, rfl, rfl, ⟨0, rfl, rfl⟩, by simp [badEvent],
    by simp [badEvent], 1, rfl, by decide⟩

/-- An XID event moves the position before its checksum is tested. -/
theorem not_rejects_xid :
    (sampleLoop true []).Prepared ∧
      Run (step fun _ => 0) (sampleLoop true []) [badStep 16]
        (badStep 16).after ∧
      ReadsCorrupt (fun _ => 0) (badStep 16) ∧
      (badStep 16).before.parser.binlogPos = 4 ∧
      (badStep 16).after.parser.binlogPos = 100 ∧ ¬Rejects (badStep 16) := by
  refine ⟨sampleLoop_prepared true [], badStep_run 16, badStep_corrupt 16, rfl,
    ?_, ?_⟩
  · decide +kernel
  · intro rejects
    have position := rejects.2.binlogPos
    revert position
    decide +kernel

/-- A format description event is rejected without a trace. -/
theorem corrupt_rejected_iff_format :
    ReadsHarmless (badStep 15) ∧ Rejects (badStep 15) := by
  have harmless : ReadsHarmless (badStep 15) := by
    refine ⟨badEvent 15, false, rfl, fun code admitted => ?_⟩
    have type : Except.ok 15 = (Except.ok code : Exec UInt8) := admitted.type
    cases type
    exact trivial
  exact ⟨harmless, (corrupt_rejected_iff (badStep_run 15) List.mem_cons_self
    (badStep_corrupt 15)).mpr harmless⟩

end Loop

end MysqlSlave
