import MysqlSlave.ReplicationLoop

/-!
# What one packet can do

Inversion lemmas for `dispatch_events`, one for each level: the event as a whole,
the `switch`, and the TABLE_MAP and ROWS branches.  Every invariant of the
parser is derived from them.
-/

namespace MysqlSlave

open Region

/-- The rest of the computation ran, or its input faulted and nothing else
happened. -/
theorem Outcome.ofExec_cases {α : Type} (state : CLogParser) (run : Exec α)
    (next : α → Outcome) :
    (∃ value, run = .ok value ∧
        Outcome.ofExec state run next = next value) ∨
      ∃ fault, run = .error fault ∧
        Outcome.ofExec state run next =
          { state, exit := .undefined fault } := by
  cases run with
  | ok value => exact Or.inl ⟨value, rfl, rfl⟩
  | error fault => exact Or.inr ⟨fault, rfl, rfl⟩

namespace CLogParser

variable {self : CLogParser} {crc : Bytes → Nat} {buf : Bytes} {len : Nat}
  {handlerThrows : Bool}

/-- The event passes the sanity check and the type test of `parser`. -/
structure Admitted (parser : CLogParser) (buf : Bytes) (len : Nat)
    (code : UInt8) : Prop where
  long : eventLenOffset ≤ len
  length : readLE buf eventLenOffset 4 = .ok (len % 4294967296)
  type : readByte buf eventTypeOffset = .ok code
  supported : parser.fmt.isSupported code.toNat = true ∨
    LogEventType.ofCode code = .formatDescriptionEvent

theorem Admitted.unique {left right : UInt8}
    (first : self.Admitted buf len left)
    (second : self.Admitted buf len right) : left = right := by
  have same := first.type.symm.trans second.type
  simpa using same

theorem dispatchEvent_of_admitted {code : UInt8}
    (admitted : self.Admitted buf len code) :
    self.dispatchEvent crc buf len handlerThrows =
      checkOutcome crc
        (self.dispatchSwitch (.ofCode code) buf len handlerThrows) buf len := by
  obtain ⟨long, length, type, supported⟩ := admitted
  have notShort : ¬len < eventLenOffset := by omega
  have notRefused : (!self.fmt.isSupported code.toNat &&
      LogEventType.ofCode code != .formatDescriptionEvent) = false := by
    rcases supported with supported | format
    · simp [supported]
    · simp [format]
  simp [dispatchEvent, notShort, length, Outcome.ofExec, type, notRefused]

/-- An event that is not admitted is turned away with the parser as it was. -/
theorem dispatchEvent_of_not_admitted (crc : Bytes → Nat)
    (handlerThrows : Bool) (refused : ∀ code, ¬self.Admitted buf len code) :
    ∃ exit, self.dispatchEvent crc buf len handlerThrows =
        { state := self, exit } ∧
      ((∃ exn, exit = .threw exn) ∨
        buf.length < 13 ∧ exit.isUndefined = true) := by
  unfold dispatchEvent
  dsimp only
  split
  case isTrue => exact ⟨_, rfl, Or.inl ⟨_, rfl⟩⟩
  case isFalse notShort =>
    rcases Outcome.ofExec_cases self (readLE buf eventLenOffset 4) _ with
      ⟨eventLen, length, same⟩ | ⟨fault, failed, same⟩
    · rw [same]
      split
      case isTrue => exact ⟨_, rfl, Or.inl ⟨_, rfl⟩⟩
      case isFalse equal =>
        rcases Outcome.ofExec_cases self (readByte buf eventTypeOffset) _ with
          ⟨code, type, same⟩ | ⟨fault, failed, same⟩
        · rw [same]
          split
          case isTrue => exact ⟨_, rfl, Or.inl ⟨_, rfl⟩⟩
          case isFalse passed =>
            refine absurd ⟨by omega, ?_, type, ?_⟩ (refused code)
            · simp only [ne_eq, not_not] at equal
              rw [length, equal]
            · simp only [Bool.and_eq_true, Bool.not_eq_true', bne_iff_ne,
                ne_eq, not_and, not_not] at passed
              by_cases supported : self.fmt.isSupported code.toNat = true
              · exact Or.inl supported
              · exact Or.inr (passed (by simpa using supported))
        · rw [same]
          refine ⟨_, rfl, Or.inr ⟨?_, rfl⟩⟩
          by_contra wide
          rw [readByte_eq_ok (by simp only [eventTypeOffset]; omega)] at failed
          cases failed
    · rw [same]
      refine ⟨_, rfl, Or.inr ⟨?_, rfl⟩⟩
      by_contra wide
      rw [readLE_eq_ok (by simp only [eventLenOffset]; omega)] at failed
      cases failed

/-- A branch that is not of a TABLE_MAP or ROWS event moves the position at
most. -/
inductive Repositioned (parser : CLogParser) : Outcome → Prop where
  | intro (name : Bytes) (pos : Nat) (exit : Exit) :
      Repositioned parser
        { state := { parser with binlogName := name, binlogPos := pos }, exit }

theorem Repositioned.stays (parser : CLogParser) (exit : Exit) :
    Repositioned parser { state := parser, exit } :=
  .intro parser.binlogName parser.binlogPos exit

theorem dispatchRotate_repositioned (self : CLogParser) (buf : Bytes)
    (len : Nat) : Repositioned self (self.dispatchRotate buf len) := by
  unfold dispatchRotate
  rcases Outcome.ofExec_cases self (CRotateLogEvent.tune buf len self.fmt) _
    with ⟨⟨rc, event⟩, _, same⟩ | ⟨fault, _, same⟩
  · rw [same]
    dsimp only
    split
    case isTrue =>
      split
      case isTrue => exact .stays self _
      case isFalse =>
        rcases Outcome.ofExec_cases self
          (readBytes buf event.newLog event.len) _
          with ⟨name, _, same⟩ | ⟨fault, _, same⟩
        · rw [same]
          exact .intro _ _ _
        · rw [same]
          exact .stays self _
    case isFalse => exact .stays self _
  · rw [same]
    exact .stays self _

theorem dispatchQuery_repositioned (self : CLogParser) (buf : Bytes)
    (len : Nat) : Repositioned self (self.dispatchQuery buf len) := by
  unfold dispatchQuery
  rcases Outcome.ofExec_cases self (CQueryLogEvent.tune {} buf len self.fmt) _
    with ⟨⟨rc, event⟩, _, same⟩ | ⟨fault, _, same⟩
  · rw [same]
    dsimp only
    split
    case isTrue => exact .intro self.binlogName _ _
    case isFalse => exact .stays self _
  · rw [same]
    exact .stays self _

theorem dispatchUnhandled_repositioned (self : CLogParser) (buf : Bytes)
    (len : Nat) : Repositioned self (self.dispatchUnhandled buf len) := by
  unfold dispatchUnhandled
  rcases Outcome.ofExec_cases self (CUnhandledLogEvent.tune buf len self.fmt) _
    with ⟨⟨rc, event⟩, _, same⟩ | ⟨fault, _, same⟩
  · rw [same]
    dsimp only
    split
    case isTrue => exact .intro self.binlogName _ _
    case isFalse => exact .stays self _
  · rw [same]
    exact .stays self _

theorem dispatchSwitch_cases (self : CLogParser) (type : LogEventType)
    (buf : Bytes) (len : Nat) (handlerThrows : Bool) :
    (type ≠ .tableMapEvent ∧ type.isRows = false ∧
        Repositioned self
          (self.dispatchSwitch type buf len handlerThrows)) ∨
      (type = .tableMapEvent ∧
        self.dispatchSwitch type buf len handlerThrows =
          self.dispatchTableMap buf len) ∨
      (type.isRows = true ∧
        self.dispatchSwitch type buf len handlerThrows =
          self.dispatchRows type buf len handlerThrows) := by
  cases type with
  | tableMapEvent => exact Or.inr (Or.inl ⟨rfl, rfl⟩)
  | writeRowsEvent => exact Or.inr (Or.inr ⟨rfl, rfl⟩)
  | writeRowsV2Event => exact Or.inr (Or.inr ⟨rfl, rfl⟩)
  | updateRowsEvent => exact Or.inr (Or.inr ⟨rfl, rfl⟩)
  | updateRowsV2Event => exact Or.inr (Or.inr ⟨rfl, rfl⟩)
  | deleteRowsEvent => exact Or.inr (Or.inr ⟨rfl, rfl⟩)
  | deleteRowsV2Event => exact Or.inr (Or.inr ⟨rfl, rfl⟩)
  | rotateEvent =>
      exact Or.inl ⟨nofun, rfl, dispatchRotate_repositioned self buf len⟩
  | queryEvent =>
      exact Or.inl ⟨nofun, rfl, dispatchQuery_repositioned self buf len⟩
  | formatDescriptionEvent => exact Or.inl ⟨nofun, rfl, .stays self _⟩
  | other code =>
      exact Or.inl ⟨nofun, rfl, dispatchUnhandled_repositioned self buf len⟩
  | _ => exact Or.inl ⟨nofun, rfl, dispatchUnhandled_repositioned self buf len⟩

/-- What a TABLE_MAP event does: nothing, or it binds its id to the watched
table and runs `tune` on it. -/
inductive Mapped (parser : CLogParser) (buf : Bytes) (len : Nat) :
    Outcome → Prop where
  | faulted (fault : Fault) :
      (∀ dbName tblName tableId,
        CTableMapLogEvent.getDatabaseName buf parser.fmt = .ok dbName →
        CTableMapLogEvent.getTableName buf parser.fmt = .ok tblName →
        CTableMapLogEvent.getTableId buf parser.fmt ≠ .ok tableId) →
      Mapped parser buf len { state := parser, exit := .undefined fault }
  | unwatched {dbName : Bytes} :
      CTableMapLogEvent.getDatabaseName buf parser.fmt = .ok dbName →
      (∀ tblName, CTableMapLogEvent.getTableName buf parser.fmt =
        .ok tblName → parser.watched dbName tblName = none) →
      Mapped parser buf len { state := parser }
  | bound {dbName tblName : Bytes} {tbl : Address} {tableId : Nat}
      {rc : Return} {after : CTable} (exit : Exit) :
      CTableMapLogEvent.getDatabaseName buf parser.fmt = .ok dbName →
      CTableMapLogEvent.getTableName buf parser.fmt = .ok tblName →
      parser.watched dbName tblName = some tbl →
      CTableMapLogEvent.getTableId buf parser.fmt = .ok tableId →
      (parser.remapped tblName tbl tableId).tune tbl buf len parser.fmt =
        .ok (rc, after) →
      (exit = .done ∧ rc = .code 0 ∨
        ∃ exn, exit = .threw exn ∧ rc ≠ .code 0) →
      Mapped parser buf len
        { state := parser.bound tblName tbl tableId after, exit }
  | broke {dbName tblName : Bytes} {tbl : Address} {tableId : Nat}
      (fault : Fault) :
      CTableMapLogEvent.getDatabaseName buf parser.fmt = .ok dbName →
      CTableMapLogEvent.getTableName buf parser.fmt = .ok tblName →
      parser.watched dbName tblName = some tbl →
      CTableMapLogEvent.getTableId buf parser.fmt = .ok tableId →
      (parser.remapped tblName tbl tableId).tune tbl buf len parser.fmt =
        .error fault →
      Mapped parser buf len
        { state := parser.bound tblName tbl tableId
            (parser.remapped tblName tbl tableId)
          exit := .undefined fault }

theorem dispatchTableMap_mapped (self : CLogParser) (buf : Bytes)
    (len : Nat) : Mapped self buf len (self.dispatchTableMap buf len) := by
  unfold dispatchTableMap
  rcases Outcome.ofExec_cases self
    (CTableMapLogEvent.getDatabaseName buf self.fmt) _
    with ⟨dbName, dbRead, same⟩ | ⟨fault, unread, same⟩
  · rw [same]
    split
    · rename_i missing
      exact .unwatched dbRead (fun tblName _ => by simp [watched, missing])
    · rename_i db found
      rcases Outcome.ofExec_cases self
        (CTableMapLogEvent.getTableName buf self.fmt) _
        with ⟨tblName, nameRead, same⟩ | ⟨fault, unread, same⟩
      · rw [same]
        split
        · rename_i missing
          refine .unwatched dbRead fun other otherRead => ?_
          rw [nameRead] at otherRead
          cases otherRead
          simp [watched, found, missing]
        · rename_i tbl tblFound
          unfold dispatchMapped
          have isWatched : self.watched dbName tblName = some tbl := by
            simp [watched, found, tblFound]
          rcases Outcome.ofExec_cases self
            (CTableMapLogEvent.getTableId buf self.fmt) _
            with ⟨tableId, idRead, same⟩ | ⟨fault, unread, same⟩
          · rw [same]
            dsimp only
            rcases Outcome.ofExec_cases
              (self.bound tblName tbl tableId
                (self.remapped tblName tbl tableId))
              ((self.remapped tblName tbl tableId).tune tbl buf len self.fmt) _
              with ⟨⟨rc, after⟩, run, same⟩ | ⟨fault, run, same⟩
            · rw [same]
              dsimp only
              split
              · exact .bound _ dbRead nameRead isWatched idRead run
                  (Or.inl ⟨rfl, rfl⟩)
              · rename_i code nonzero
                exact .bound _ dbRead nameRead isWatched idRead run
                  (Or.inr ⟨_, rfl, by simpa using nonzero⟩)
              · exact .bound _ dbRead nameRead isWatched idRead run
                  (Or.inr ⟨_, rfl, by simp⟩)
            · rw [same]
              exact .broke fault dbRead nameRead isWatched idRead run
          · rw [same]
            exact .faulted _ fun _ _ _ _ _ => by simp [unread]
      · rw [same]
        exact .faulted _ fun _ _ _ _ => by simp [unread]
  · rw [same]
    exact .faulted _ fun _ _ _ => by simp [unread]

/-- What a ROWS event does: nothing, or it decodes into the table its id is bound
to and calls the handler. -/
inductive Delivered (parser : CLogParser) (type : LogEventType) (buf : Bytes)
    (len : Nat) (handlerThrows : Bool) : Outcome → Prop where
  | faulted (fault : Fault) :
      Delivered parser type buf len handlerThrows
        { state := parser, exit := .undefined fault }
  | refused {rc : Int} {event : CRowLogEvent} (exn : Exn) :
      CRowLogEvent.tune {} buf len parser.fmt = .ok (rc, event) → rc ≠ 0 →
      Delivered parser type buf len handlerThrows
        { state := parser, exit := .threw exn }
  | unmapped {event : CRowLogEvent} :
      CRowLogEvent.tune {} buf len parser.fmt = .ok (0, event) →
      parser.idToTable event.tableId = none →
      Delivered parser type buf len handlerThrows { state := parser }
  | delivered {event : CRowLogEvent} {tbl : Address} {rc : Int}
      {table : CTable} :
      CRowLogEvent.tune {} buf len parser.fmt = .ok (0, event) →
      parser.idToTable event.tableId = some tbl →
      (parser.tables tbl).update buf event = .ok (rc, table) →
      Delivered parser type buf len handlerThrows
        { state :=
            { parser with tables := Function.update parser.tables tbl table }
          calls := [handlerCall type tbl table]
          exit := if handlerThrows then .threw .handler else .done }

theorem dispatchRows_delivered (self : CLogParser) (type : LogEventType)
    (buf : Bytes) (len : Nat) (handlerThrows : Bool) :
    Delivered self type buf len handlerThrows
      (self.dispatchRows type buf len handlerThrows) := by
  unfold dispatchRows
  rcases Outcome.ofExec_cases self (CRowLogEvent.tune {} buf len self.fmt) _
    with ⟨⟨rc, event⟩, run, same⟩ | ⟨fault, _, same⟩
  · rw [same]
    dsimp only
    split
    case isTrue zero =>
      subst zero
      split
      · rename_i unmapped
        exact .unmapped run unmapped
      · rename_i tbl mapped
        rcases Outcome.ofExec_cases self
          ((self.tables tbl).update buf event) _
          with ⟨⟨rc, table⟩, updated, same⟩ | ⟨fault, _, same⟩
        · rw [same]
          exact .delivered run mapped updated
        · rw [same]
          exact .faulted fault
    case isFalse nonzero => exact .refused _ run nonzero
  · rw [same]
    exact .faulted fault

section Frame

/-- What no event changes. -/
structure SameSetup (before after : CLogParser) : Prop where
  databases : after.databases = before.databases
  nextTable : after.nextTable = before.nextTable
  slaveId : after.slaveId = before.slaveId
  fmt : after.fmt = before.fmt
  isConnected : after.isConnected = before.isConnected
  dispatch : after.dispatch = before.dispatch

theorem checkOutcome_state (crc : Bytes → Nat) (outcome : Outcome)
    (buf : Bytes) (len : Nat) :
    (checkOutcome crc outcome buf len).state = outcome.state ∧
      (checkOutcome crc outcome buf len).calls = outcome.calls := by
  unfold checkOutcome
  split
  · split <;> exact ⟨rfl, rfl⟩
  · exact ⟨rfl, rfl⟩

/-- The checksum test can only change how the branch ends. -/
theorem checkOutcome_exit (crc : Bytes → Nat) (outcome : Outcome)
    (buf : Bytes) (len : Nat) :
    ∃ exit, checkOutcome crc outcome buf len = { outcome with exit } ∧
      (outcome.exit.isUndefined = true → exit.isUndefined = true) := by
  unfold checkOutcome
  split
  case h_1 done =>
    split
    · exact ⟨_, rfl, by simp [done, Exit.isUndefined]⟩
    · exact ⟨_, rfl, by simp [done, Exit.isUndefined]⟩
  case h_2 => exact ⟨outcome.exit, rfl, id⟩

theorem done_of_checkOutcome {crc : Bytes → Nat} {outcome : Outcome}
    {buf : Bytes} {len : Nat}
    (done : (checkOutcome crc outcome buf len).exit = .done) :
    outcome.exit = .done := by
  unfold checkOutcome at done
  split at done
  · assumption
  · exact done

theorem dispatchSwitch_sameSetup (self : CLogParser) (type : LogEventType)
    (buf : Bytes) (len : Nat) (handlerThrows : Bool) :
    SameSetup self (self.dispatchSwitch type buf len handlerThrows).state := by
  rcases self.dispatchSwitch_cases type buf len handlerThrows with
    ⟨_, _, moved⟩ | ⟨_, same⟩ | ⟨_, same⟩
  · generalize self.dispatchSwitch type buf len handlerThrows = outcome at moved
    cases moved
    exact ⟨rfl, rfl, rfl, rfl, rfl, rfl⟩
  · have mapped := self.dispatchTableMap_mapped buf len
    rw [← same] at mapped
    generalize self.dispatchSwitch type buf len handlerThrows = outcome
      at mapped
    cases mapped <;> exact ⟨rfl, rfl, rfl, rfl, rfl, rfl⟩
  · have delivered := self.dispatchRows_delivered type buf len handlerThrows
    rw [← same] at delivered
    generalize self.dispatchSwitch type buf len handlerThrows = outcome
      at delivered
    cases delivered <;> exact ⟨rfl, rfl, rfl, rfl, rfl, rfl⟩

theorem dispatchEvent_sameSetup (crc : Bytes → Nat) (self : CLogParser)
    (buf : Bytes) (len : Nat) (handlerThrows : Bool) :
    SameSetup self (self.dispatchEvent crc buf len handlerThrows).state := by
  by_cases admitted : ∃ code, self.Admitted buf len code
  · obtain ⟨code, admitted⟩ := admitted
    rw [dispatchEvent_of_admitted admitted, (checkOutcome_state _ _ _ _).1]
    exact self.dispatchSwitch_sameSetup _ buf len handlerThrows
  · obtain ⟨exit, same, _⟩ := dispatchEvent_of_not_admitted crc handlerThrows
      (not_exists.mp admitted)
    rw [same]
    exact ⟨rfl, rfl, rfl, rfl, rfl, rfl⟩

end Frame

end CLogParser

namespace Loop

variable {crc : Bytes → Nat} {before after : Loop} {input : Input}
  {effect : Effect}

/-- What a step does, one constructor for each way it can go. -/
inductive Stepped (crc : Bytes → Nat) (before : Loop) :
    Input → Loop → Effect → Prop where
  | stopped :
      Stepped crc before .stop
        { before with parser := { before.parser with dispatch := false } } {}
  | reconnected (connects dumps : Bool) :
      before.parser.isConnected = false →
      Stepped crc before (.reconnect connects dumps)
        (before.reconnect connects dumps).1 (before.reconnect connects dumps).2
  | readFailed (input : Input) (what : String) :
      before.parser.isConnected = true →
      (input = .readError ∨
        ∃ packet handlerThrows, input = .read packet handlerThrows ∧
          packet.isEnd = true) →
      Stepped crc before input (before.readFailed what).1
        (before.readFailed what).2
  | dispatched (packet : Packet) (handlerThrows : Bool) (outcome : Outcome) :
      before.parser.isConnected = true → before.dump.isSome = true →
      packet.isEnd = false →
      outcome = before.parser.dispatchEvent crc packet.event packet.eventLen
        handlerThrows →
      Stepped crc before (.read packet handlerThrows)
        { before with
          parser := outcome.state, halted := outcome.exit.isUndefined }
        { calls := outcome.calls, exit := outcome.exit }

theorem step_stepped (stepped : step crc before input = some (after, effect)) :
    before.halted = false ∧ before.parser.dispatch = true ∧
      Stepped crc before input after effect := by
  unfold step at stepped
  split at stepped
  case isTrue => cases stepped
  case isFalse running =>
    have running : before.halted = false ∧ before.parser.dispatch = true := by
      simpa using running
    refine ⟨running.1, running.2, ?_⟩
    cases input with
    | stop =>
        cases stepped
        exact .stopped
    | reconnect connects dumps =>
        dsimp only at stepped
        split at stepped
        case isTrue => cases stepped
        case isFalse disconnected =>
          have reached := @Stepped.reconnected crc before connects dumps
            (Bool.eq_false_of_not_eq_true disconnected)
          rwa [Option.some.inj stepped] at reached
    | readError =>
        dsimp only at stepped
        split at stepped
        case isTrue connected =>
          cases stepped
          exact .readFailed _ _ connected (Or.inl rfl)
        case isFalse => cases stepped
    | read packet handlerThrows =>
        dsimp only at stepped
        split at stepped
        case isTrue open_ =>
          obtain ⟨connected, dumped⟩ := Bool.and_eq_true _ _ ▸ open_
          unfold read at stepped
          split at stepped
          case isTrue ended =>
            cases stepped
            exact .readFailed _ _ connected
              (Or.inr ⟨packet, handlerThrows, rfl, ended⟩)
          case isFalse more =>
            cases stepped
            exact .dispatched packet handlerThrows _ connected dumped
              (by simpa using more) rfl
        case isFalse => cases stepped

theorem run_keeps {start final : Loop} {taken : List (Taken Loop Input Effect)}
    (run : Run (step crc) start taken final) :
    final.parser.fmt = start.parser.fmt ∧
      final.parser.databases = start.parser.databases := by
  induction run with
  | refl => exact ⟨rfl, rfl⟩
  | @snoc _ before _ _ _ earlier stepped induction =>
      obtain ⟨_, _, stepped⟩ := step_stepped stepped
      cases stepped with
      | stopped => exact induction
      | reconnected connects dumps _ =>
          rw [parser_reconnect]
          exact induction
      | readFailed _ what _ _ => exact induction
      | dispatched packet throws outcome _ _ _ same =>
          subst same
          have setup := before.parser.dispatchEvent_sameSetup crc packet.event
            packet.eventLen throws
          exact ⟨setup.fmt.trans induction.1,
            setup.databases.trans induction.2⟩

end Loop

end MysqlSlave
