import MysqlSlave.Binlog
import MysqlSlave.ResumeRequest

/-!
# Events that move the position

Where an event of a binlog leaves the parser that dispatches it.  TABLE_MAP and
ROWS events leave it where it is, a ROTATE event takes it to another file, and the
others take it behind themselves.
-/

namespace MysqlSlave

open Region

theorem LogEventType.ofCode_injective : Function.Injective ofCode := by
  intro left right same
  have distinct : named.Nodup := by decide
  have noOther : ∀ code, other code ∉ named := by simp [named]
  unfold ofCode at same
  rw [List.getD_eq_getElem?_getD, List.getD_eq_getElem?_getD] at same
  by_cases leftNamed : left.toNat < named.length
  · rw [List.getElem?_eq_getElem leftNamed, Option.getD_some] at same
    by_cases rightNamed : right.toNat < named.length
    · rw [List.getElem?_eq_getElem rightNamed, Option.getD_some] at same
      exact UInt8.toNat_inj.mp (distinct.getElem_inj_iff.mp same)
    · rw [List.getElem?_eq_none (Nat.le_of_not_lt rightNamed),
        Option.getD_none] at same
      exact absurd (same ▸ List.getElem_mem leftNamed) (noOther right)
  · rw [List.getElem?_eq_none (Nat.le_of_not_lt leftNamed),
      Option.getD_none] at same
    by_cases rightNamed : right.toNat < named.length
    · rw [List.getElem?_eq_getElem rightNamed, Option.getD_some] at same
      exact absurd (same ▸ List.getElem_mem rightNamed) (noOther left)
    · rw [List.getElem?_eq_none (Nat.le_of_not_lt rightNamed),
        Option.getD_none] at same
      exact other.inj same

/-- The branches of the `switch` that leave the position as it is. -/
def LogEventType.keepsPosition (type : LogEventType) : Bool :=
  type == formatDescriptionEvent || type == tableMapEvent || type.isRows

namespace LogEntry

/-- The event moves the position of a parser. -/
def isCheckpoint (entry : LogEntry) : Bool := !entry.event.type.keepsPosition

/-- The event reaches a rows branch. -/
def isRows (entry : LogEntry) : Bool := entry.event.type.isRows

/-- The position is the end of the event or the target of its ROTATE. -/
def LeadsTo (entry : LogEntry) (position : Bytes × Nat) : Prop :=
  position = (entry.file, entry.event.endPos) ∨
    entry.event.RotatesTo position

end LogEntry

namespace CLogParser

variable {self : CLogParser} {crc : Bytes → Nat} {memory : Bytes}
  {event : BinlogEvent} {handlerThrows : Bool}

theorem dispatchEvent_position {buf : Bytes} {len : Nat} {code : UInt8}
    (admitted : self.Admitted buf len code) :
    (self.dispatchEvent crc buf len handlerThrows).state.position =
      self.eventPosition (.ofCode code) buf len :=
  (self.dispatchEvent_leavesAt crc buf len handlerThrows).unique
    (.event admitted)

/-- A FORMAT_DESCRIPTION, TABLE_MAP or ROWS event does not move the position. -/
theorem dispatchEvent_keeps (stored : Stored memory 0 event.encode)
    (supported : event.code.toNat ≤ logEventTypes)
    (keeps : event.type.keepsPosition = true) :
    (self.dispatchEvent crc memory event.encode.length
      handlerThrows).state.position = self.position := by
  have admitted : self.Admitted memory event.encode.length event.code :=
    admitted_encodeEvent stored supported
  rw [dispatchEvent_position admitted]
  change self.eventPosition event.type memory _ = _
  generalize event.type = type at keeps
  cases type
  all_goals first | rfl | cases keeps

theorem queryPosition_stored (stored : Stored memory 0 event.encode)
    (below : event.endPos < 4294967296)
    (reads : ∃ query,
      CQueryLogEvent.tune {} memory event.encode.length self.fmt =
        .ok (0, query)) :
    self.queryPosition memory event.encode.length =
      (self.binlogName, event.endPos) := by
  obtain ⟨query, run⟩ := reads
  obtain ⟨header, headerRead, logPos⟩ := CLogEvent.tune_stored self.fmt stored
  have same : query.toCLogEvent = header := by
    obtain ⟨header', headerRead', run⟩ := Exec.bind_eq_ok.mp run
    cases headerRead.symm.trans headerRead'
    obtain ⟨_, _, run⟩ := Exec.bind_eq_ok.mp run
    obtain ⟨_, _, run⟩ := Exec.bind_eq_ok.mp run
    obtain ⟨_, _, run⟩ := Exec.bind_eq_ok.mp run
    dsimp only at run
    split at run
    · obtain ⟨_, _, run⟩ := Exec.bind_eq_ok.mp run
      split at run
      · cases run
      · obtain ⟨_, _, run⟩ := Exec.bind_eq_ok.mp run
        cases run
        rfl
    · cases run
  have position : query.logPos % 4294967296 = event.endPos := by
    rw [same, logPos, Nat.mod_mod]
    exact Nat.mod_eq_of_lt below
  simp only [queryPosition, run, if_true, position]

theorem unhandledPosition_stored (stored : Stored memory 0 event.encode)
    (below : event.endPos < 4294967296) :
    self.unhandledPosition memory event.encode.length =
      (self.binlogName, event.endPos) := by
  obtain ⟨header, headerRead, logPos⟩ := CLogEvent.tune_stored self.fmt stored
  have code := readByte_code stored
  have run : CUnhandledLogEvent.tune memory event.encode.length self.fmt =
      .ok (0, { header with eventNumber := event.code.toNat }) :=
    Exec.bind_eq_ok.mpr ⟨header, headerRead,
      Exec.bind_eq_ok.mpr ⟨event.code, code, rfl⟩⟩
  have position : header.logPos % 4294967296 = event.endPos := by
    rw [logPos, Nat.mod_mod]
    exact Nat.mod_eq_of_lt below
  simp only [unhandledPosition, run, position]

/-- Every event but a ROTATE that moves the position moves it behind itself. -/
theorem dispatchEvent_ends (stored : Stored memory 0 event.encode)
    (supported : event.code.toNat ≤ logEventTypes)
    (below : event.endPos < 4294967296)
    (plain : event.code ≠ 4) (moves : event.type.keepsPosition = false)
    (reads : event.type = .queryEvent → ∃ query,
      CQueryLogEvent.tune {} memory event.encode.length self.fmt =
        .ok (0, query)) :
    (self.dispatchEvent crc memory event.encode.length
      handlerThrows).state.position = (self.binlogName, event.endPos) := by
  have admitted : self.Admitted memory event.encode.length event.code :=
    admitted_encodeEvent stored supported
  have noRotate : event.type ≠ .ofCode 4 := fun rotate =>
    plain (LogEventType.ofCode_injective rotate)
  have ends := self.unhandledPosition_stored stored below
  rw [dispatchEvent_position admitted]
  change self.eventPosition event.type memory _ = _
  generalize event.type = type at moves noRotate reads
  cases type with
  | queryEvent => exact self.queryPosition_stored stored below (reads rfl)
  | rotateEvent => exact absurd rfl noRotate
  | formatDescriptionEvent => cases moves
  | tableMapEvent => cases moves
  | writeRowsEvent => cases moves
  | writeRowsV2Event => cases moves
  | updateRowsEvent => cases moves
  | updateRowsV2Event => cases moves
  | deleteRowsEvent => cases moves
  | deleteRowsV2Event => cases moves
  | _ => exact ends

theorem dispatchEvent_rotates {position : Bytes × Nat}
    (tuned : self.fmt.Tuned) (unchecked : self.fmt.useChecksum = false)
    (stored : Stored memory 0 event.encode)
    (rotates : event.RotatesTo position)
    (named : position.1 ≠ []) (short : position.1.length ≤ 1014)
    (positive : 0 < position.2) (below : position.2 < 4294967296)
    (accepted : (self.dispatchEvent crc memory event.encode.length
      handlerThrows).exit = .done) :
    (self.dispatchEvent crc memory event.encode.length
      handlerThrows).state.position = position := by
  obtain ⟨header, code, body⟩ := event
  obtain ⟨rfl, rfl⟩ := rotates
  let rotate : RotateEvent := {
    header, position := position.2, name := position.1, positive
    positionFits := below.trans (by decide), nameNonempty := named }
  have trailer : ([] : Bytes).length = self.fmt.trailerLen := by
    simp [CFormatDescriptionLogEvent.trailerLen, unchecked]
  have length : (rotate.encode []).length = 27 + position.1.length := by
    simp [RotateEvent.encode, RotateEvent.body, rotate]
    omega
  have whole : Stored memory 0 (rotate.encode []) := stored
  obtain ⟨name, pos⟩ :=
    dispatchEvent_rotate tuned whole trailer (by omega) accepted
  exact Prod.ext name (pos.trans (Nat.mod_eq_of_lt below))

end CLogParser

end MysqlSlave
