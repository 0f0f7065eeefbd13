import MysqlSlave.EventDispatch
import MysqlSlave.Lib.Projection

/-!
# Event objects that are used again

`event_query` and `event_row` are locals of `dispatch_events`: an event is read
into the object that the last one of its kind has left.  Nothing of that is seen
in what the loop does.
-/

namespace MysqlSlave

open Region

/-- The locals whose `tune` leaves members alone.  Before the first event of a
call they hold anything. -/
structure EventObjects where
  query : CQueryLogEvent
  row : CRowLogEvent

namespace CLogParser

variable (crc : Bytes → Nat)

/-- The QUERY branch, and what it leaves in `event_query`. -/
def dispatchQueryInto (self : CLogParser) (event : CQueryLogEvent)
    (buf : Bytes) (len : Nat) : CQueryLogEvent × Outcome :=
  match event.tune buf len self.fmt with
  | .error fault => (event, { state := self, exit := .undefined fault })
  | .ok (rc, event) =>
      (event,
        if rc = 0 then
          { state := { self with binlogPos := event.logPos % 4294967296 } }
        else { state := self })

/-- The rows branches, and what they leave in `event_row`. -/
def dispatchRowsInto (self : CLogParser) (event : CRowLogEvent)
    (type : LogEventType) (buf : Bytes) (len : Nat) (handlerThrows : Bool) :
    CRowLogEvent × Outcome :=
  match event.tune buf len self.fmt with
  | .error fault => (event, { state := self, exit := .undefined fault })
  | .ok (rc, event) =>
      (event,
        if rc = 0 then
          match self.idToTable event.tableId with
          | none => { state := self }
          | some tbl =>
              .ofExec self ((self.tables tbl).update buf event)
                fun (_, table) =>
                  { state :=
                      { self with
                        tables := Function.update self.tables tbl table }
                    calls := [handlerCall type tbl table]
                    exit := if handlerThrows then .threw .handler else .done }
        else
          { state := self
            exit := .threw (.logEvent (rowsTypeStr type ++ ": tuning failed")) })

/-- The `switch`, with the objects that it reads events into. -/
def dispatchSwitchInto (self : CLogParser) (objects : EventObjects)
    (type : LogEventType) (buf : Bytes) (len : Nat) (handlerThrows : Bool) :
    EventObjects × Outcome :=
  if type = .queryEvent then
    let (query, outcome) := self.dispatchQueryInto objects.query buf len
    ({ objects with query }, outcome)
  else if type.isRows then
    let (row, outcome) :=
      self.dispatchRowsInto objects.row type buf len handlerThrows
    ({ objects with row }, outcome)
  else (objects, self.dispatchSwitch type buf len handlerThrows)

def dispatchEventInto (self : CLogParser) (objects : EventObjects)
    (buf : Bytes) (len : Nat) (handlerThrows : Bool) :
    EventObjects × Outcome :=
  let sanityFailed : Outcome :=
    { state := self, exit := .threw (.logEvent "event sanity check failed") }
  if len < eventLenOffset then (objects, sanityFailed)
  else
    match readLE buf eventLenOffset 4 with
    | .error fault => (objects, { state := self, exit := .undefined fault })
    | .ok eventLen =>
        if len % 4294967296 ≠ eventLen then (objects, sanityFailed)
        else
          match readByte buf eventTypeOffset with
          | .error fault =>
              (objects, { state := self, exit := .undefined fault })
          | .ok code =>
              let type := LogEventType.ofCode code
              if !self.fmt.isSupported code.toNat &&
                  type != .formatDescriptionEvent then
                (objects,
                  { state := self
                    exit := .threw (.logEvent
                      ("event number " ++ toString code.toNat ++
                        ": not supported")) })
              else
                let (objects, outcome) := self.dispatchSwitchInto objects type
                  buf len handlerThrows
                (objects, checkOutcome crc outcome buf len)

end CLogParser

/-- The loop inside or between calls of `dispatch_events`. -/
structure LoopFrame where
  loop : Loop
  objects : Option EventObjects := none

namespace LoopFrame

/-- Behind a step: an exception leaves the call, and its objects are gone. -/
def left (objects : EventObjects) (result : Loop × Effect) :
    LoopFrame × Effect :=
  ({ loop := result.1
     objects := if result.2.exit = .done then some objects else none },
    result.2)

/-- One step; a call that begins with it has the objects of the input. -/
def step (crc : Bytes → Nat) (self : LoopFrame)
    (input : Input × EventObjects) : Option (LoopFrame × Effect) :=
  let objects := self.objects.getD input.2
  match input.1 with
  | .read packet handlerThrows =>
      if self.loop.halted || !self.loop.parser.dispatch then none
      else if self.loop.parser.isConnected && self.loop.dump.isSome then
        if packet.isEnd then
          some (left objects (self.loop.read crc packet handlerThrows))
        else
          let (objects, outcome) := self.loop.parser.dispatchEventInto crc
            objects packet.event packet.eventLen handlerThrows
          some (left objects
            ({ self.loop with
                parser := outcome.state, halted := outcome.exit.isUndefined },
              { calls := outcome.calls, exit := outcome.exit }))
      else none
  | other => (self.loop.step crc other).map (left objects)

end LoopFrame

section Objects

variable {left right : CRowLogEvent} {memory : Bytes}

/-- What the loop uses of an event object is the same in both.  The columns of the
after image count only where there is one. -/
structure CRowLogEvent.Alike (left right : CRowLogEvent) : Prop where
  type : left.type = right.type
  tableId : left.tableId = right.tableId
  ncolumns : left.ncolumns = right.ncolumns
  used : left.packedUsedColumns = right.packedUsedColumns
  usedAfter : left.getTypeCode.isUpdateRows = true →
    left.packedUsedColumnsAfterimage = right.packedUsedColumnsAfterimage
  data : left.data = right.data
  len : left.len = right.len
  valid : left.valid = right.valid

/-- An event that is read into two objects leaves them alike. -/
theorem CRowLogEvent.tune_alike (left right : CRowLogEvent) (memory : Bytes)
    (size : Nat) (fmt : CFormatDescriptionLogEvent) :
    Exec.Related
      (fun first second => first.1 = second.1 ∧
        (first.1 = 0 → first.2.Alike second.2))
      (left.tune memory size fmt) (right.tune memory size fmt) := by
  unfold CRowLogEvent.tune
  refine (Exec.Related.same (fun _ => rfl) _).bind ?_
  rintro header _ rfl
  refine (Exec.Related.same (fun _ => rfl) _).bind ?_
  rintro type _ rfl
  refine (Exec.Related.same (fun _ => rfl) _).bind ?_
  rintro tableId _ rfl
  refine (Exec.Related.same (fun _ => rfl) _).bind ?_
  rintro rowFlags _ rfl
  refine (Exec.Related.same (fun _ => rfl) _).bind ?_
  rintro ⟨extraDataLen, extraData, p⟩ _ rfl
  refine (Exec.Related.same (fun _ => rfl) _).bind ?_
  rintro ⟨ncolumns, behind⟩ _ rfl
  refine (Exec.Related.same (fun _ => rfl) _).bind ?_
  rintro used _ rfl
  dsimp only
  split
  · exact .ok ⟨rfl, nofun⟩
  split
  · refine (Exec.Related.same (fun _ => rfl) _).bind ?_
    rintro after _ rfl
    split
    · exact .ok ⟨rfl, nofun⟩
    · exact .ok ⟨rfl, fun _ => ⟨rfl, rfl, rfl, rfl, fun _ => rfl, rfl, rfl, rfl⟩⟩
  · rename_i other
    refine .ok ⟨rfl, fun _ => ⟨rfl, rfl, rfl, rfl, fun update => ?_, rfl, rfl,
      rfl⟩⟩
    exact absurd update (by simpa [CRowLogEvent.getTypeCode] using other)

theorem CQueryLogEvent.tune_alike (left right : CQueryLogEvent)
    (memory : Bytes) (size : Nat) (fmt : CFormatDescriptionLogEvent) :
    Exec.Related
      (fun first second => first.1 = second.1 ∧
        first.2.logPos = second.2.logPos)
      (left.tune memory size fmt) (right.tune memory size fmt) := by
  unfold CQueryLogEvent.tune
  refine (Exec.Related.same (fun _ => rfl) _).bind ?_
  rintro header _ rfl
  refine (Exec.Related.same (fun _ => rfl) _).bind ?_
  rintro qExecTime _ rfl
  refine (Exec.Related.same (fun _ => rfl) _).bind ?_
  rintro dbLen _ rfl
  refine (Exec.Related.same (fun _ => rfl) _).bind ?_
  rintro errorCode _ rfl
  dsimp only
  split
  · refine (Exec.Related.same (fun _ => rfl) _).bind ?_
    rintro statusVarsLen _ rfl
    split
    · exact .ok ⟨rfl, rfl⟩
    · refine (Exec.Related.same (fun _ => rfl) _).bind ?_
      rintro query _ rfl
      exact .ok ⟨rfl, rfl⟩
  · exact .ok ⟨rfl, rfl⟩

namespace CTable

theorem updateImage_reused (self : CTable) (alike : left.Alike right)
    (row : CRow) (pfields len usedCount : Nat) (usedMask : BitVec 64) :
    self.updateImage memory left row pfields len usedCount usedMask =
      self.updateImage memory right row pfields len usedCount usedMask := by
  unfold updateImage
  rw [alike.ncolumns]

theorem updateRound_reused (self : CTable) (alike : left.Alike right)
    (cursor : RowsCursor) :
    self.updateRound memory left cursor =
      self.updateRound memory right cursor := by
  have code : left.getTypeCode = right.getTypeCode := by
    rw [CRowLogEvent.getTypeCode, alike.type, CRowLogEvent.getTypeCode]
  unfold updateRound
  refine Exec.bind_congr ?_ fun before _ => ?_
  · rw [self.updateImage_reused alike, CRowLogEvent.usedColumns1bitCount,
      CRowLogEvent.usedColumnsMask, alike.used]
    rfl
  · dsimp only
    rw [code]
    split
    · rename_i update
      have after := alike.usedAfter (code ▸ update.2)
      rw [self.updateImage_reused alike,
        CRowLogEvent.usedColumnsAfterimage1bitCount,
        CRowLogEvent.usedColumnsAfterimageMask, after]
      rfl
    · rfl

theorem updateRounds_reused (self : CTable) (alike : left.Alike right)
    (rounds : Nat) (cursor : RowsCursor) :
    self.updateRounds memory left rounds cursor =
      self.updateRounds memory right rounds cursor := by
  induction rounds generalizing cursor with
  | zero => simp only [updateRounds]
  | succ rounds induction =>
      simp only [updateRounds, self.updateRound_reused alike, induction]

theorem update_reused (self : CTable) (alike : left.Alike right)
    (memory : Bytes) :
    self.update memory left = self.update memory right := by
  unfold update
  rw [alike.valid, alike.tableId, CRowLogEvent.rowsLen, alike.len,
    CRowLogEvent.rowsData, alike.data]
  simp only [self.updateRounds_reused alike]
  rfl

end CTable

end Objects

namespace CLogParser

variable {self : CLogParser} {crc : Bytes → Nat} {buf : Bytes} {len : Nat}
  {handlerThrows : Bool}

theorem dispatchRowsInto_outcome (event : CRowLogEvent) (type : LogEventType) :
    (self.dispatchRowsInto event type buf len handlerThrows).2 =
      self.dispatchRows type buf len handlerThrows := by
  have alike := CRowLogEvent.tune_alike event {} buf len self.fmt
  unfold dispatchRowsInto dispatchRows
  generalize event.tune buf len self.fmt = run at alike ⊢
  generalize CRowLogEvent.tune {} buf len self.fmt = run' at alike ⊢
  cases alike with
  | error fault => rfl
  | @ok first second related =>
      obtain ⟨rc, event⟩ := first
      obtain ⟨rc', event'⟩ := second
      obtain ⟨(rfl : rc = rc'), alike⟩ := related
      simp only [Outcome.ofExec]
      split
      · rename_i zero
        have alike : event.Alike event' := alike zero
        have ids := alike.tableId
        cases bound : self.idToTable event'.tableId with
        | none => simp only [ids, bound]
        | some tbl =>
            have updates := (self.tables tbl).update_reused alike buf
            cases run : (self.tables tbl).update buf event' with
            | error fault => simp only [ids, bound, updates, run]
            | ok result => simp only [ids, bound, updates, run]
      · rfl

theorem dispatchQueryInto_outcome (event : CQueryLogEvent) :
    (self.dispatchQueryInto event buf len).2 = self.dispatchQuery buf len := by
  have alike := CQueryLogEvent.tune_alike event {} buf len self.fmt
  unfold dispatchQueryInto dispatchQuery
  generalize event.tune buf len self.fmt = run at alike ⊢
  generalize CQueryLogEvent.tune {} buf len self.fmt = run' at alike ⊢
  cases alike with
  | error fault => rfl
  | @ok first second related =>
      obtain ⟨rc, event⟩ := first
      obtain ⟨rc', event'⟩ := second
      obtain ⟨(rfl : rc = rc'), (pos : event.logPos = event'.logPos)⟩ := related
      simp only [Outcome.ofExec, pos]

theorem dispatchSwitchInto_outcome (objects : EventObjects)
    (type : LogEventType) :
    (self.dispatchSwitchInto objects type buf len handlerThrows).2 =
      self.dispatchSwitch type buf len handlerThrows := by
  unfold dispatchSwitchInto
  split
  · rename_i query
    subst query
    exact dispatchQueryInto_outcome objects.query
  split
  · rename_i rows
    rw [self.dispatchSwitch_rows rows]
    exact dispatchRowsInto_outcome objects.row type
  · rfl

theorem dispatchEventInto_outcome (objects : EventObjects) :
    (self.dispatchEventInto crc objects buf len handlerThrows).2 =
      self.dispatchEvent crc buf len handlerThrows := by
  unfold dispatchEventInto dispatchEvent
  dsimp only
  split
  · rfl
  cases readLE buf eventLenOffset 4 with
  | error fault => rfl
  | ok eventLen =>
      simp only [Outcome.ofExec]
      split
      · rfl
      cases readByte buf eventTypeOffset with
      | error fault => rfl
      | ok code =>
          dsimp only
          split
          · rfl
          · rw [← dispatchSwitchInto_outcome objects]

end CLogParser

namespace LoopFrame

/-- The step of the loop, but for the objects. -/
theorem step_projects (crc : Bytes → Nat) :
    Projects LoopFrame.loop Prod.fst (step crc) (Loop.step crc) := by
  rintro ⟨loop, objects⟩ ⟨input, stack⟩
  have forgets : ∀ result : Option (Loop × Effect),
      (result.map (left (objects.getD stack))).map
        (Prod.map LoopFrame.loop id) = result := by
    intro result
    rw [Option.map_map]
    exact Option.map_id' ..
  cases input with
  | stop => exact forgets _
  | reconnect connects dumps => exact forgets _
  | readError => exact forgets _
  | read packet handlerThrows =>
      simp only [step, Loop.step]
      split
      · rfl
      split
      · cases ended : packet.isEnd with
        | true => simp [left]
        | false =>
            simp [left, Loop.read, ended, CLogParser.dispatchEventInto_outcome]
      · rfl

/-- Whatever the objects hold when a call begins and whatever the events leave in
them: the loop that uses them again and the loop that takes new ones show the same
and come to the same states. -/
theorem objects_unseen (crc : Bytes → Nat) (start : LoopFrame)
    (inputs : List (Input × EventObjects)) (shown : List Effect)
    (final : Loop) :
    (∃ taken last, Run (step crc) start taken last ∧
        taken.map Taken.input = inputs ∧ taken.map Taken.effect = shown ∧
        last.loop = final) ↔
      ∃ taken, Run (Loop.step crc) start.loop taken final ∧
        taken.map Taken.input = inputs.map Prod.fst ∧
        taken.map Taken.effect = shown :=
  Run.seen_iff (step_projects crc)

end LoopFrame

end MysqlSlave
