import Mathlib.Data.List.TakeWhile
import MysqlSlave.EventDispatch

/-!
# After an exception

Only a failed read clears `_is_connected`.  After any other exception the next
call of `dispatch_events` goes on reading, so the packet in question comes again
only if the connection happens to break right behind it.
-/

namespace MysqlSlave

open Region

namespace CLogParser

variable {self : CLogParser} {crc : Bytes → Nat} {buf : Bytes} {len : Nat}
  {type : LogEventType} {handlerThrows : Bool}

/-- Where the parser stands in the binlog. -/
def position (self : CLogParser) : Bytes × Nat :=
  (self.binlogName, self.binlogPos)

/-- The position a ROTATE event names; the one the parser has, if it cannot be
read. -/
def rotatePosition (self : CLogParser) (buf : Bytes) (len : Nat) :
    Bytes × Nat :=
  match CRotateLogEvent.tune buf len self.fmt with
  | .ok (_, event) =>
      if event.len > 9223372036854775807 then self.position
      else
        match readBytes buf event.newLog event.len with
        | .ok name => (name, event.position % 4294967296)
        | .error _ => self.position
  | .error _ => self.position

/-- The end of a QUERY event that can be read. -/
def queryPosition (self : CLogParser) (buf : Bytes) (len : Nat) :
    Bytes × Nat :=
  match CQueryLogEvent.tune {} buf len self.fmt with
  | .ok (rc, event) =>
      if rc = 0 then (self.binlogName, event.logPos % 4294967296)
      else self.position
  | .error _ => self.position

/-- The end of any other event. -/
def unhandledPosition (self : CLogParser) (buf : Bytes) (len : Nat) :
    Bytes × Nat :=
  match CUnhandledLogEvent.tune buf len self.fmt with
  | .ok (_, event) => (self.binlogName, event.logPos % 4294967296)
  | .error _ => self.position

/-- The position an event of this type leaves the parser at. -/
def eventPosition (self : CLogParser) (type : LogEventType) (buf : Bytes)
    (len : Nat) : Bytes × Nat :=
  match type with
  | .rotateEvent => self.rotatePosition buf len
  | .queryEvent => self.queryPosition buf len
  | .formatDescriptionEvent | .tableMapEvent
  | .writeRowsEvent | .writeRowsV2Event | .updateRowsEvent
  | .updateRowsV2Event | .deleteRowsEvent | .deleteRowsV2Event =>
      self.position
  | _ => self.unhandledPosition buf len

theorem dispatchRotate_position (self : CLogParser) (buf : Bytes) (len : Nat) :
    (self.dispatchRotate buf len).state.position =
      self.rotatePosition buf len := by
  unfold dispatchRotate rotatePosition
  cases run : CRotateLogEvent.tune buf len self.fmt with
  | error fault => rfl
  | ok result =>
      obtain ⟨rc, event⟩ := result
      obtain rfl := CRotateLogEvent.tune_returns run
      simp only [Outcome.ofExec, if_true]
      split
      · rfl
      · cases readBytes buf event.newLog event.len with
        | error fault => rfl
        | ok name => rfl

theorem dispatchQuery_position (self : CLogParser) (buf : Bytes) (len : Nat) :
    (self.dispatchQuery buf len).state.position =
      self.queryPosition buf len := by
  unfold dispatchQuery queryPosition
  cases CQueryLogEvent.tune {} buf len self.fmt with
  | error fault => rfl
  | ok result =>
      simp only [Outcome.ofExec]
      split <;> rfl

theorem dispatchUnhandled_position (self : CLogParser) (buf : Bytes)
    (len : Nat) :
    (self.dispatchUnhandled buf len).state.position =
      self.unhandledPosition buf len := by
  unfold dispatchUnhandled unhandledPosition
  cases run : CUnhandledLogEvent.tune buf len self.fmt with
  | error fault => rfl
  | ok result =>
      obtain ⟨rc, event⟩ := result
      obtain rfl := CUnhandledLogEvent.tune_returns run
      rfl

theorem dispatchTableMap_position (self : CLogParser) (buf : Bytes)
    (len : Nat) :
    (self.dispatchTableMap buf len).state.position = self.position := by
  have mapped := self.dispatchTableMap_mapped buf len
  generalize self.dispatchTableMap buf len = outcome at mapped
  cases mapped <;> rfl

theorem dispatchRows_position (self : CLogParser) (type : LogEventType)
    (buf : Bytes) (len : Nat) (handlerThrows : Bool) :
    (self.dispatchRows type buf len handlerThrows).state.position =
      self.position := by
  have delivered := self.dispatchRows_delivered type buf len handlerThrows
  generalize self.dispatchRows type buf len handlerThrows = outcome
    at delivered
  cases delivered <;> rfl

theorem dispatchSwitch_position (self : CLogParser) (type : LogEventType)
    (buf : Bytes) (len : Nat) (handlerThrows : Bool) :
    (self.dispatchSwitch type buf len handlerThrows).state.position =
      self.eventPosition type buf len := by
  cases type with
  | formatDescriptionEvent => rfl
  | rotateEvent => exact self.dispatchRotate_position buf len
  | queryEvent => exact self.dispatchQuery_position buf len
  | tableMapEvent => exact self.dispatchTableMap_position buf len
  | writeRowsEvent => exact self.dispatchRows_position _ buf len _
  | writeRowsV2Event => exact self.dispatchRows_position _ buf len _
  | updateRowsEvent => exact self.dispatchRows_position _ buf len _
  | updateRowsV2Event => exact self.dispatchRows_position _ buf len _
  | deleteRowsEvent => exact self.dispatchRows_position _ buf len _
  | deleteRowsV2Event => exact self.dispatchRows_position _ buf len _
  | _ => exact self.dispatchUnhandled_position buf len

/-- Where an event leaves the parser: an event that is turned away, where it
is. -/
inductive LeavesAt (parser : CLogParser) (buf : Bytes) (len : Nat) :
    Bytes × Nat → Prop where
  | refused :
      (∀ code, ¬parser.Admitted buf len code) →
      LeavesAt parser buf len parser.position
  | event {code : UInt8} :
      parser.Admitted buf len code →
      LeavesAt parser buf len (parser.eventPosition (.ofCode code) buf len)

theorem LeavesAt.unique {left right : Bytes × Nat}
    (first : self.LeavesAt buf len left)
    (second : self.LeavesAt buf len right) : left = right := by
  cases first with
  | refused none =>
      cases second with
      | refused _ => rfl
      | event admitted => exact absurd admitted (none _)
  | event admitted =>
      cases second with
      | refused none => exact absurd admitted (none _)
      | event admitted' => rw [admitted.unique admitted']

theorem dispatchEvent_leavesAt (crc : Bytes → Nat) (self : CLogParser)
    (buf : Bytes) (len : Nat) (handlerThrows : Bool) :
    self.LeavesAt buf len
      (self.dispatchEvent crc buf len handlerThrows).state.position := by
  by_cases admitted : ∃ code, self.Admitted buf len code
  · obtain ⟨code, admitted⟩ := admitted
    rw [dispatchEvent_of_admitted admitted, (checkOutcome_state _ _ _ _).1,
      dispatchSwitch_position]
    exact .event admitted
  · have none := not_exists.mp admitted
    obtain ⟨exit, same, _⟩ :=
      dispatchEvent_of_not_admitted crc handlerThrows none
    rw [same]
    exact .refused none

end CLogParser

namespace Loop

variable {crc : Bytes → Nat} {start loop final : Loop}
  {taken quiet : List (Taken Loop Input Effect)}
  {next : Taken Loop Input Effect}

/-- The step hands a packet to the parser. -/
def readsPacket (next : Taken Loop Input Effect) : Bool :=
  match next.input with
  | .read packet _ => !packet.isEnd
  | _ => false

/-- The step finds the connection broken. -/
def readFails (next : Taken Loop Input Effect) : Bool :=
  match next.input with
  | .read packet _ => packet.isEnd
  | .readError => true
  | _ => false

/-- The server is answering a dump request. -/
def streaming (self : Loop) : Bool :=
  self.parser.isConnected && self.dump.isSome

theorem reconnect_streaming (self : Loop) (connects dumps : Bool) :
    (self.reconnect connects dumps).1.streaming =
      (self.reconnect connects dumps).2.request.isSome := by
  unfold reconnect
  dsimp only
  split
  · split
    · rfl
    · rfl
    · split <;> rfl
  · rfl

theorem step_quiet
    (stepped : step crc next.before next.input =
      some (next.after, next.effect))
    (noPacket : readsPacket next = false) :
    next.after.parser.position = next.before.parser.position ∧
      next.after.streaming = (next.effect.request.isSome ||
        next.before.streaming && !readFails next) ∧
      (next.effect.request.isSome = true →
        next.before.parser.isConnected = false) ∧
      (readFails next = false →
        next.before.parser.isConnected = true →
          next.after.parser.isConnected = true) := by
  obtain ⟨before, input, effect, after⟩ := next
  dsimp only at stepped
  obtain ⟨_, _, stepped⟩ := step_stepped stepped
  cases stepped with
  | stopped => exact ⟨rfl, by simp [streaming, readFails], by simp, by simp⟩
  | reconnected connects dumps disconnected =>
      refine ⟨?_, ?_, fun _ => disconnected, ?_⟩
      · rw [parser_reconnect]
        rfl
      · dsimp only
        rw [reconnect_streaming]
        simp [streaming, disconnected]
      · intro _ connected
        rw [disconnected] at connected
        cases connected
  | readFailed _ what connected ended =>
      have fails : readFails ⟨before, input, (before.readFailed what).2,
          (before.readFailed what).1⟩ = true := by
        rcases ended with rfl | ⟨packet, throws, rfl, ended⟩
        · rfl
        · exact ended
      rw [fails]
      exact ⟨rfl, by simp [streaming, readFailed], by simp [readFailed],
        by simp⟩
  | dispatched packet throws outcome _ _ more same =>
      simp [readsPacket, more] at noPacket

theorem quiet_position (run : Run (step crc) loop quiet final)
    (noPacket : ∀ next ∈ quiet, readsPacket next = false) :
    final.parser.position = loop.parser.position ∧
      ∀ next ∈ quiet,
        next.before.parser.position = loop.parser.position := by
  induction run with
  | refl => exact ⟨rfl, by simp⟩
  | snoc earlier stepped induction =>
      obtain ⟨position, inside⟩ := induction fun next member =>
        noPacket next (List.mem_append_left _ member)
      have last := step_quiet stepped
        (noPacket _ (List.mem_append_right _ List.mem_cons_self))
      refine ⟨last.1.trans position, fun next member => ?_⟩
      rcases List.mem_append.mp member with old | new
      · exact inside next old
      · obtain rfl := List.mem_singleton.mp new
        exact position

/-- If the server answers in the end, then a dump was requested, or the server
answered already and no read has failed. -/
theorem quiet_request_of_streaming (run : Run (step crc) loop quiet final)
    (noPacket : ∀ next ∈ quiet, readsPacket next = false)
    (answers : final.streaming = true) :
    (∃ next ∈ quiet, next.effect.request.isSome = true) ∨
      ∀ next ∈ quiet, readFails next = false := by
  induction run with
  | refl => exact Or.inr (by simp)
  | snoc earlier stepped induction =>
      have last := step_quiet stepped
        (noPacket _ (List.mem_append_right _ List.mem_cons_self))
      rw [last.2.1, Bool.or_eq_true, Bool.and_eq_true,
        Bool.not_eq_true'] at answers
      rcases answers with requested | ⟨answered, reads⟩
      · exact Or.inl ⟨_, List.mem_append_right _ List.mem_cons_self,
          requested⟩
      · rcases induction (fun next member =>
            noPacket next (List.mem_append_left _ member)) answered with
          ⟨next, member, requested⟩ | never
        · exact Or.inl ⟨next, List.mem_append_left _ member, requested⟩
        · refine Or.inr fun next member => ?_
          rcases List.mem_append.mp member with old | new
          · exact never next old
          · obtain rfl := List.mem_singleton.mp new
            exact reads

/-- A dump is requested only behind a failed read. -/
theorem quiet_readFails_of_request (run : Run (step crc) loop quiet final)
    (noPacket : ∀ next ∈ quiet, readsPacket next = false)
    (connected : loop.parser.isConnected = true)
    (never : ∀ next ∈ quiet, readFails next = false) :
    final.parser.isConnected = true ∧
      ∀ next ∈ quiet, next.effect.request.isSome = false := by
  induction run with
  | refl => exact ⟨connected, by simp⟩
  | snoc earlier stepped induction =>
      obtain ⟨before, inside⟩ := induction
        (fun next member => noPacket next (List.mem_append_left _ member))
        fun next member => never next (List.mem_append_left _ member)
      have last := step_quiet stepped
        (noPacket _ (List.mem_append_right _ List.mem_cons_self))
      refine ⟨last.2.2.2 (never _ (List.mem_append_right _
        List.mem_cons_self)) before, fun next member => ?_⟩
      rcases List.mem_append.mp member with old | new
      · exact inside next old
      · obtain rfl := List.mem_singleton.mp new
        by_contra requested
        have disconnected :=
          last.2.2.1 (Bool.eq_true_of_not_eq_false requested)
        dsimp only at before disconnected
        rw [before] at disconnected
        cases disconnected

/-- The step processes a packet and throws before its rows have been handed
over. -/
structure FailsUndelivered (next : Taken Loop Input Effect) : Prop where
  packet : readsPacket next = true
  threw : ∃ exn, next.effect.exit = .threw exn
  undelivered : next.effect.calls = [] ∨ next.effect.exit = .threw .handler

/-- What is done until the next packet is processed. -/
def untilPacket (back : List (Taken Loop Input Effect)) :
    List (Taken Loop Input Effect) :=
  back.takeWhile fun next => !readsPacket next

/-- A dump is requested in this file, not behind this position. -/
def AsksFrom (origin : Bytes × Nat) (next : Taken Loop Input Effect) : Prop :=
  next.effect.request.isSome = true ∧
    next.before.parser.binlogName = origin.1 ∧
    next.before.parser.binlogPos ≤ origin.2

/-- If another packet is processed, then the one that starts at `origin` has been
asked for before. -/
def Redelivered (back : List (Taken Loop Input Effect))
    (origin : Bytes × Nat) : Prop :=
  (∃ later ∈ back, readsPacket later = true) →
    ∃ next ∈ untilPacket back, AsksFrom origin next

/-- The step's event leaves the parser in the file of `origin`, not behind it. -/
def StaysBehind (next : Taken Loop Input Effect) (origin : Bytes × Nat) :
    Prop :=
  ∃ packet handlerThrows pos, next.input = .read packet handlerThrows ∧
    next.before.parser.LeavesAt packet.event packet.eventLen (origin.1, pos) ∧
    pos ≤ origin.2

theorem untilPacket_quiet {back : List (Taken Loop Input Effect)} :
    ∀ next ∈ untilPacket back, readsPacket next = false := by
  intro next member
  simpa using List.mem_takeWhile_imp member

theorem untilPacket_append {back : List (Taken Loop Input Effect)}
    (some : ∃ later ∈ back, readsPacket later = true) :
    ∃ later rest, back = untilPacket back ++ later :: rest ∧
      readsPacket later = true := by
  induction back with
  | nil => simp at some
  | cons first rest induction =>
      cases reads : readsPacket first with
      | true => exact ⟨first, rest, by simp [untilPacket, reads], reads⟩
      | false =>
          obtain ⟨later, more, split, laterReads⟩ :=
            induction (by simpa [reads] using some)
          refine ⟨later, more, ?_, laterReads⟩
          have front : untilPacket (first :: rest) =
              first :: untilPacket rest := by
            simp [untilPacket, reads]
          rw [front, List.cons_append, ← split]

/-- A step that processes a packet: the server answers before and the connection
stands afterwards. -/
theorem step_packet
    (stepped : step crc next.before next.input =
      some (next.after, next.effect))
    (reads : readsPacket next = true) :
    next.before.streaming = true ∧
      next.after.parser.isConnected = true ∧
      ∃ packet handlerThrows, next.input = .read packet handlerThrows ∧
        next.before.parser.LeavesAt packet.event packet.eventLen
          next.after.parser.position := by
  obtain ⟨before, input, effect, after⟩ := next
  dsimp only at stepped
  obtain ⟨_, _, stepped⟩ := step_stepped stepped
  cases stepped with
  | stopped => simp [readsPacket] at reads
  | reconnected connects dumps disconnected => simp [readsPacket] at reads
  | readFailed _ what connected ended =>
      rcases ended with rfl | ⟨packet, throws, rfl, ended⟩
      · simp [readsPacket] at reads
      · simp [readsPacket, ended] at reads
  | dispatched packet throws outcome connected dumped more same =>
      subst same
      have setup := before.parser.dispatchEvent_sameSetup crc packet.event
        packet.eventLen throws
      exact ⟨by simp [streaming, connected, dumped],
        setup.isConnected.trans connected, packet, throws, rfl,
        before.parser.dispatchEvent_leavesAt crc _ _ _⟩

/-- In every run, a packet that was not delivered comes again before another one
is processed exactly if no other is, or a read happens to fail before that and
the packet has not moved the position behind its own start. -/
theorem redelivered_iff {start : Loop}
    {front back : List (Taken Loop Input Effect)}
    (run : Run (step crc) start taken final)
    (split : taken = front ++ next :: back) (failed : FailsUndelivered next)
    (origin : Bytes × Nat) :
    Redelivered back origin ↔
      ((∃ later ∈ back, readsPacket later = true) →
        (∃ broken ∈ untilPacket back, readFails broken = true) ∧
          StaysBehind next origin) := by
  subst split
  obtain ⟨middle, _, second⟩ := run.split
  obtain ⟨_, stepped, rest⟩ := second.cons_inv
  obtain ⟨_, connected, packet, throws, input, leaves⟩ :=
    step_packet stepped failed.packet
  refine forall_congr' fun some => ?_
  obtain ⟨later, more, whole, laterReads⟩ := untilPacket_append some
  have noPacket := @untilPacket_quiet back
  generalize untilPacket back = quiet at whole noPacket ⊢
  subst whole
  obtain ⟨between, waiting, resumed⟩ := rest.split
  obtain ⟨begins, laterStepped, _⟩ := resumed.cons_inv
  have answers : between.streaming = true := by
    rw [← begins]
    exact (step_packet laterStepped laterReads).1
  have position := (quiet_position waiting noPacket).2
  constructor
  · rintro ⟨asking, member, requested, name, pos⟩
    constructor
    · by_contra never
      have reads : ∀ step ∈ quiet, readFails step = false := by
        intro step inside
        by_contra fails
        exact never ⟨step, inside, Bool.eq_true_of_not_eq_false fails⟩
      have none := (quiet_readFails_of_request waiting noPacket connected
        reads).2 asking member
      rw [requested] at none
      cases none
    · refine ⟨packet, throws, asking.before.parser.binlogPos, input, ?_, pos⟩
      have stands : next.after.parser.position =
          (origin.1, asking.before.parser.binlogPos) := by
        rw [← position asking member, ← name]
        rfl
      rwa [stands] at leaves
  · rintro ⟨⟨broken, inside, fails⟩, packet', throws', pos, input', at_, less⟩
    cases input.symm.trans input'
    have same := leaves.unique at_
    rcases quiet_request_of_streaming waiting noPacket answers with
      ⟨asking, member, requested⟩ | never
    · have stands := (position asking member).trans same
      exact ⟨asking, member, requested, congrArg Prod.fst stands,
        (congrArg Prod.snd stands).trans_le less⟩
    · rw [never broken inside] at fails
      cases fails

/-- The handler throws on the row (5). -/
def throwingInsert : Taken Loop Input Effect :=
  let packet : Packet :=
    .ofEvent ((sampleRows .write 1 [0, 5, 0, 0, 0]).encode [])
  let reached := mappedStep.after.read (fun _ => 0) packet true
  ⟨mappedStep.after, .read packet true, reached.2, reached.1⟩

/-- The XID event of the transaction, which ends at 300, is read next. -/
def commitStep (loop : Loop) : Taken Loop Input Effect :=
  loop.readStep (fun _ => 0)
    (.ofEvent (encodeEvent ⟨0, 1, 300, 0⟩ 16 (List.replicate 8 0) []))

/-- The row is lost: the position is behind it and nothing has asked for it. -/
theorem not_redelivered_throwing :
    (sampleLoop false [([100], [116])]).Prepared ∧
      Run (step fun _ => 0) (sampleLoop false [([100], [116])])
        [mappedStep, throwingInsert, commitStep throwingInsert.after]
        (commitStep throwingInsert.after).after ∧
      FailsUndelivered throwingInsert ∧
      throwingInsert.before.parser.position = ([98], 4) ∧
      (commitStep throwingInsert.after).after.parser.position = ([98], 300) ∧
      ¬Redelivered [commitStep throwingInsert.after] ([98], 4) := by
  have thrown : Run (step fun _ => 0) (sampleLoop false [([100], [116])])
      [mappedStep, throwingInsert] throwingInsert.after :=
    .snoc mappedStep_run (step_read_of_ready (by decide +kernel))
  refine ⟨sampleLoop_prepared _ _, run_readStep _ thrown (by decide +kernel),
    ⟨rfl, ⟨.handler, by decide +kernel⟩, Or.inr (by decide +kernel)⟩,
    by decide +kernel, by decide +kernel, fun redelivered => ?_⟩
  obtain ⟨asking, member, _⟩ :=
    redelivered ⟨_, List.mem_cons_self, rfl⟩
  cases member

/-- A packet that is too short for an event. -/
def shortStep : Taken Loop Input Effect :=
  (sampleLoop false []).readStep (fun _ => 0) (.ofEvent [1, 2, 3])

/-- The connection breaks behind it. -/
def brokenStep : Taken Loop Input Effect :=
  let reached := shortStep.after.readFailed "Error reading packet from server"
  ⟨shortStep.after, .readError, reached.2, reached.1⟩

/-- The dump is requested anew. -/
def askingStep : Taken Loop Input Effect :=
  let reached := brokenStep.after.reconnect true true
  ⟨brokenStep.after, .reconnect true true, reached.2, reached.1⟩

theorem redelivered_iff_short :
    Redelivered [brokenStep, askingStep, commitStep askingStep.after]
      ([98], 4) := by
  have run : Run (step fun _ => 0) (sampleLoop false [])
      [shortStep, brokenStep, askingStep, commitStep askingStep.after]
      (commitStep askingStep.after).after :=
    run_readStep _ (.snoc (.snoc (run_readStep _ .refl rfl) rfl) rfl) rfl
  have failed : FailsUndelivered shortStep :=
    ⟨rfl, ⟨_, rfl⟩, Or.inl rfl⟩
  have stays : StaysBehind shortStep ([98], 4) :=
    ⟨_, _, 4, rfl, .refused fun _ admitted =>
      absurd admitted.long (by decide), Nat.le_refl 4⟩
  have split : [shortStep, brokenStep, askingStep,
      commitStep askingStep.after] = [] ++ shortStep ::
        [brokenStep, askingStep, commitStep askingStep.after] := rfl
  exact (redelivered_iff run split failed ([98], 4)).mpr
    fun _ => ⟨⟨brokenStep, List.mem_cons_self, rfl⟩, stays⟩

end Loop

end MysqlSlave
