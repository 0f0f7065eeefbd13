import MysqlSlave.Checkpoints
import MysqlSlave.Lib.ResumingReader
import MysqlSlave.MasterSession

/-!
# Resuming the log

The replication loop is a reader whose checkpoints are the events that move the
position of the parser.
-/

namespace MysqlSlave

open Region

namespace Replication

/-- The loop after `prepare`, at this position of a master without checksums. -/
structure Started (master : Master) (origin : Bytes × Nat)
    (state : Replication) : Prop where
  tuned : state.loop.parser.fmt.Tuned
  unchecked : state.loop.parser.fmt.useChecksum = false
  streaming : state.loop.streaming = true
  position : state.position = origin
  ahead : state.ahead = master.answer origin

/-- A packet that is read passes its `tune` and the handler. -/
def Passes (next : Taken Replication Input Effect) : Prop :=
  ∀ packet handlerThrows, next.input = .read packet handlerThrows →
    packet.isEnd = false →
    next.effect.exit = .done ∧
      (readByte packet.event eventTypeOffset = .ok 2 → ∃ query,
        CQueryLogEvent.tune {} packet.event packet.eventLen
          next.before.loop.parser.fmt = .ok (0, query))

/-- The step gets the ROWS event `entry` of the log and dispatches it: `tune`
accepts it, and the handler of its type is told of it. -/
inductive Dispatches (entry : LogEntry)
    (next : Taken Replication Input Effect) : Prop where
  | intro {packet : Packet} {handlerThrows : Bool} {rlev : CRowLogEvent} :
      received next = some entry →
      next.input = .read packet handlerThrows →
      packet.carries entry.event.encode = true →
      CRowLogEvent.tune {} packet.event packet.eventLen
        next.before.loop.parser.fmt = .ok (0, rlev) →
      next.before.loop.parser.Reports packet.event entry.event.type rlev
        next.effect.calls →
      Dispatches entry next

/-- Every dump that is requested starts where the run did or where an event that
it has read leads to, and each of the ROWS events that lie behind has been
dispatched, in order. -/
structure LosesNothing (master : Master) (origin : Bytes × Nat)
    (taken : List (Taken Replication Input Effect)) (final : Replication) :
    Prop where
  requests : ∀ front next back, taken = front ++ next :: back →
    next.input = .reconnect true true →
    ∃ command position, next.effect.request = some command ∧
      decodeDump command = some position ∧
      (position = origin ∨ ∃ entry ∈ processed front, entry.LeadsTo position)
  rows : ∃ behind dispatching,
    master.binlog.logFrom origin = behind ++ final.remaining master ∧
    dispatching.Sublist taken ∧
    List.Forall₂ Dispatches (behind.filter LogEntry.isRows) dispatching

variable {master : Master} {reader : ResumingReader LogEntry}
  {state : Replication} {origin : Bytes × Nat}

/-- The replication does what the reader does: the reader would go on from the
position of the parser, and gets what is ahead on the connection. -/
structure Follows (master : Master) (reader : ResumingReader LogEntry)
    (state : Replication) : Prop where
  tuned : state.loop.parser.fmt.Tuned
  unchecked : state.loop.parser.fmt.useChecksum = false
  positive : 0 < state.position.2
  below : state.position.2 < 4294967296
  resume : reader.resume = master.binlog.logFrom state.position
  stands : master.binlog.Stands state.position.1 reader.resume
  current : master.binlog.Stands state.position.1 reader.current
  ahead : state.loop.streaming = true → ∃ announced,
    announced <:+ master.announcement state.position ∧
      state.ahead = announced ++ reader.current.map .logged
  idle : state.loop.streaming = false → reader.current = reader.resume

theorem Follows.name
    (short : ∀ file ∈ master.binlog.files, file.name.length ≤ 1014)
    (follows : Follows master reader state) :
    state.position.1 ≠ [] ∧ state.position.1.length ≤ 1014 := by
  obtain ⟨file, member, name⟩ := follows.stands.file
  rw [← name]
  exact ⟨file.named, short file member⟩

theorem Follows.dumpCommand
    (short : ∀ file ∈ master.binlog.files, file.name.length ≤ 1014)
    (follows : Follows master reader state) :
    ∃ command, state.loop.parser.dumpCommand = .ok (.ok command) ∧
      decodeDump command = some state.position := by
  obtain ⟨named, fits⟩ := follows.name short
  exact CLogParser.dumpCommand_position named fits follows.positive
    follows.below

/-- The parser stays where it is, and so does the reader. -/
theorem Follows.unmoved {after : Replication}
    (follows : Follows master reader state)
    (fmt : after.loop.parser.fmt = state.loop.parser.fmt)
    (position : after.position = state.position)
    (ahead : after.loop.streaming = true → ∃ announced,
      announced <:+ master.announcement state.position ∧
        after.ahead = announced ++ reader.current.map .logged)
    (idle : after.loop.streaming = false → reader.current = reader.resume) :
    Follows master reader after := by
  constructor
  · exact fmt ▸ follows.tuned
  · exact fmt ▸ follows.unchecked
  · exact position ▸ follows.positive
  · exact position ▸ follows.below
  · exact position ▸ follows.resume
  · exact position ▸ follows.stands
  · exact position ▸ follows.current
  · exact position ▸ ahead
  · exact idle

theorem Follows.broken (follows : Follows master reader state)
    (what : String) :
    Follows master reader.restart
      { loop := (state.loop.readFailed what).1 } where
  tuned := follows.tuned
  unchecked := follows.unchecked
  positive := follows.positive
  below := follows.below
  resume := follows.resume
  stands := follows.stands
  current := follows.stands
  ahead := nofun
  idle := fun _ => rfl

/-- A new connection brings what the reader would go on with. -/
theorem Follows.reconnected
    (short : ∀ file ∈ master.binlog.files, file.name.length ≤ 1014)
    (follows : Follows master reader state)
    (silent : state.loop.streaming = false) (connects dumps : Bool) :
    Follows master reader
      { loop := (state.loop.reconnect connects dumps).1
        ahead := (state.loop.reconnect connects dumps).2.request.elim []
          master.answerCommand } := by
  obtain ⟨command, asks, decoded⟩ := follows.dumpCommand short
  have parser := state.loop.parser_reconnect connects dumps
  have streams := state.loop.reconnect_streaming connects dumps
  have request := request_reconnect asks connects dumps
  have position : (state.loop.reconnect connects dumps).1.parser.position =
      state.position := by
    rw [parser]
    rfl
  have fmt : (state.loop.reconnect connects dumps).1.parser.fmt =
      state.loop.parser.fmt := by
    rw [parser]
  refine follows.unmoved fmt position ?_ fun _ => follows.idle silent
  intro answered
  rw [streams, request] at answered
  rw [request]
  split at answered
  · rename_i both
    refine ⟨master.announcement state.position, List.suffix_rfl, ?_⟩
    rw [if_pos both, Option.elim_some, Master.answerCommand, decoded,
      follows.idle silent, follows.resume]
    rfl
  · cases answered

theorem Follows.announced {crc : Bytes → Nat} {packet : Packet}
    {handlerThrows : Bool} {event : BinlogEvent} {announced : List Sent}
    {outcome : Outcome}
    (short : ∀ file ∈ master.binlog.files, file.name.length ≤ 1014)
    (follows : Follows master reader state)
    (coming : .artificial event :: announced <:+
      master.announcement state.position)
    (carries : packet.carries event.encode = true)
    (dispatched : outcome = state.loop.parser.dispatchEvent crc packet.event
      packet.eventLen handlerThrows)
    (accepted : outcome.exit = .done) :
    outcome.state.position = state.position := by
  obtain ⟨stored, length⟩ := stored_of_carries carries
  obtain ⟨named, fits⟩ := follows.name short
  rw [dispatched, length] at accepted ⊢
  have either : event = master.rotate state.position ∨
      event = master.format := by
    have inside := coming.subset List.mem_cons_self
    simpa [Master.announcement] using inside
  rcases either with rfl | rfl
  · exact CLogParser.dispatchEvent_rotates follows.tuned follows.unchecked
      stored ⟨rfl, rfl⟩ named fits follows.positive follows.below accepted
  · have code := master.isFormat
    apply CLogParser.dispatchEvent_keeps stored
    · rw [code]
      decide
    · rw [BinlogEvent.type, code]
      rfl

/-- Where an event of the log takes the parser. -/
theorem Follows.logged_position {crc : Bytes → Nat} {packet : Packet}
    {handlerThrows : Bool} {entry : LogEntry} {rest : List LogEntry}
    {outcome : Outcome}
    (short : ∀ file ∈ master.binlog.files, file.name.length ≤ 1014)
    (follows : Follows master reader state)
    (next : reader.current = entry :: rest)
    (carries : packet.carries entry.event.encode = true)
    (dispatched : outcome = state.loop.parser.dispatchEvent crc packet.event
      packet.eventLen handlerThrows)
    (accepted : outcome.exit = .done)
    (reads : readByte packet.event eventTypeOffset = .ok 2 → ∃ query,
      CQueryLogEvent.tune {} packet.event packet.eventLen
        state.loop.parser.fmt = .ok (0, query)) :
    entry.isCheckpoint = false ∧ outcome.state.position = state.position ∧
        master.binlog.Stands state.position.1 rest ∨
      entry.isCheckpoint = true ∧ entry.LeadsTo outcome.state.position ∧
        0 < outcome.state.position.2 ∧
        outcome.state.position.2 < 4294967296 ∧
        rest = master.binlog.logFrom outcome.state.position ∧
        master.binlog.Stands outcome.state.position.1 rest := by
  obtain ⟨stored, length⟩ := stored_of_carries carries
  rw [length] at dispatched reads
  have current := follows.current
  rw [next] at current
  obtain ⟨_, file, _, _, _, _, _, events, inFile, _⟩ := current.next
  have member : entry.event ∈ file.events := by simp [events]
  have supported := file.supported _ member
  have positive := file.positive.trans (file.start_lt member)
  have below := file.endPos_lt member
  by_cases rotates : entry.event.code = 4
  · obtain ⟨target, inside, leads, stands, log⟩ := current.rotate rotates
    have moved : outcome.state.position = (target.name, target.start) := by
      rw [dispatched] at accepted ⊢
      exact CLogParser.dispatchEvent_rotates follows.tuned follows.unchecked
        stored leads target.named (short target inside) target.positive
        (target.below _ List.mem_cons_self) accepted
    have moves : entry.isCheckpoint = true := by
      rw [LogEntry.isCheckpoint, BinlogEvent.type, rotates]
      rfl
    rw [moved]
    exact Or.inr ⟨moves, Or.inr leads, target.positive,
      target.below _ List.mem_cons_self, log.symm, stands⟩
  obtain ⟨stands, log⟩ := current.plain rotates
  cases keeps : entry.event.type.keepsPosition with
  | true =>
      have same : outcome.state.position = state.position := by
        rw [dispatched]
        exact CLogParser.dispatchEvent_keeps stored supported keeps
      exact Or.inl ⟨by simp [LogEntry.isCheckpoint, keeps], same, stands⟩
  | false =>
      have moved : outcome.state.position =
          (state.position.1, entry.event.endPos) := by
        rw [dispatched]
        apply CLogParser.dispatchEvent_ends stored supported below rotates
          keeps
        intro (query : LogEventType.ofCode entry.event.code = .ofCode 2)
        have code := LogEventType.ofCode_injective query
        exact reads (code ▸ readByte_code stored)
      rw [moved]
      exact Or.inr ⟨by simp [LogEntry.isCheckpoint, keeps],
        Or.inl (by rw [inFile]), positive, below, log.symm, stands⟩

/-- What the reader does in a step: it gets the event that is read, or nothing and
may have to start anew. -/
inductive Advances (reader : ResumingReader LogEntry)
    (next : Taken Replication Input Effect) :
    ResumingReader LogEntry → Prop where
  | stays :
      received next = none →
      next.after.position = next.before.position →
      Advances reader next reader
  | restarts :
      received next = none →
      next.after.position = next.before.position →
      Advances reader next reader.restart
  | delivers {entry : LogEntry} {rest : List LogEntry} :
      received next = some entry →
      reader.current = entry :: rest →
      (next.after.position = next.before.position ∨
        entry.LeadsTo next.after.position) →
      Advances reader next (reader.deliver LogEntry.isCheckpoint entry rest)

theorem Follows.reads {crc : Bytes → Nat} {packet : Packet}
    {handlerThrows : Bool} {sent : Sent} {ahead : List Sent}
    {outcome : Outcome} {next : Taken Replication Input Effect}
    (short : ∀ file ∈ master.binlog.files, file.name.length ≤ 1014)
    (follows : Follows master reader next.before)
    (streaming : next.before.loop.streaming = true)
    (input : next.input = .read packet handlerThrows)
    (more : packet.isEnd = false)
    (coming : next.before.ahead = sent :: ahead)
    (carries : packet.carries sent.event.encode = true)
    (dispatched : outcome = next.before.loop.parser.dispatchEvent crc
      packet.event packet.eventLen handlerThrows)
    (after : next.after = {
      loop := { next.before.loop with
        parser := outcome.state, halted := outcome.exit.isUndefined }
      ahead })
    (accepted : outcome.exit = .done)
    (reads : readByte packet.event eventTypeOffset = .ok 2 → ∃ query,
      CQueryLogEvent.tune {} packet.event packet.eventLen
        next.before.loop.parser.fmt = .ok (0, query)) :
    ∃ reader', Follows master reader' next.after ∧
      Advances reader next reader' := by
  have setup := next.before.loop.parser.dispatchEvent_sameSetup crc
    packet.event packet.eventLen handlerThrows
  rw [← dispatched] at setup
  have read : Replication.received next = sent.entry := by
    simp [Replication.received, input, coming, more]
  have answers : next.after.loop.streaming = true := by
    rw [after, ← streaming]
    simp only [Loop.streaming, setup.isConnected]
  have fmt : next.after.loop.parser.fmt = next.before.loop.parser.fmt := by
    rw [after]
    exact setup.fmt
  obtain ⟨announced, part, whole⟩ := follows.ahead streaming
  rw [coming] at whole
  cases announced with
  | cons first announced =>
      -- the reader waits for the announcement to end
      obtain ⟨rfl, rfl⟩ := List.cons.inj whole
      obtain ⟨event, rfl⟩ :=
        Master.artificial_of_announced (part.subset List.mem_cons_self)
      have same := follows.announced short part carries dispatched accepted
      have position : next.after.position = next.before.position := by
        rw [after]
        exact same
      refine ⟨reader, follows.unmoved fmt position ?_ ?_, .stays read position⟩
      · intro _
        rw [after]
        exact ⟨announced, (List.suffix_cons _ _).trans part, rfl⟩
      · intro silent
        rw [answers] at silent
        cases silent
  | nil =>
      cases next' : reader.current with
      | nil => simp [next'] at whole
      | cons entry rest =>
          rw [next', List.nil_append, List.map_cons] at whole
          obtain ⟨rfl, rfl⟩ := List.cons.inj whole
          have outcomes := follows.logged_position short next' carries
            dispatched accepted reads
          have position : next.after.position = outcome.state.position := by
            rw [after]
            rfl
          rw [← position] at outcomes
          refine ⟨reader.deliver LogEntry.isCheckpoint entry rest, ?_,
            .delivers read next' ?_⟩
          · have ahead : ∃ announced,
                announced <:+ master.announcement next.after.position ∧
                  next.after.ahead = announced ++ rest.map .logged := by
              rw [after]
              exact ⟨[], List.nil_suffix, rfl⟩
            have idle : next.after.loop.streaming = false →
                rest = (reader.deliver LogEntry.isCheckpoint entry
                  rest).resume := by
              intro silent
              rw [answers] at silent
              cases silent
            rcases outcomes with ⟨keeps, same, stands⟩ |
              ⟨moves, _, positive, below, log, stands⟩
            · have resume : (reader.deliver LogEntry.isCheckpoint entry
                  rest).resume = reader.resume := by
                rw [ResumingReader.deliver, keeps, if_neg Bool.false_ne_true]
              exact ⟨fmt ▸ follows.tuned, fmt ▸ follows.unchecked,
                same ▸ follows.positive, same ▸ follows.below,
                resume ▸ same ▸ follows.resume,
                resume ▸ same ▸ follows.stands, same ▸ stands,
                fun _ => ahead, idle⟩
            · have resume : (reader.deliver LogEntry.isCheckpoint entry
                  rest).resume = rest := by
                rw [ResumingReader.deliver, moves, if_pos rfl]
              exact ⟨fmt ▸ follows.tuned, fmt ▸ follows.unchecked, positive,
                below, resume.trans log, resume.symm ▸ stands, stands,
                fun _ => ahead, idle⟩
          · rcases outcomes with ⟨_, same, _⟩ | ⟨_, leads, _⟩
            · exact Or.inl same
            · exact Or.inr leads

theorem Follows.onward {crc : Bytes → Nat}
    {next : Taken Replication Input Effect}
    (short : ∀ file ∈ master.binlog.files, file.name.length ≤ 1014)
    (follows : Follows master reader next.before)
    (stepped : step crc master next.before next.input =
      some (next.after, next.effect))
    (passes : Passes next) :
    ∃ reader', Follows master reader' next.after ∧
      Advances reader next reader' := by
  obtain ⟨before, input, effect, after⟩ := next
  dsimp only at follows stepped
  have replicated := step_replicated stepped
  cases replicated with
  | @stopped loop position fmt streaming =>
      have same : Replication.position { before with loop } =
          before.position := position
      refine ⟨reader, follows.unmoved fmt same ?_ ?_, .stays rfl same⟩
      · rw [streaming]
        exact follows.ahead
      · rw [streaming]
        exact follows.idle
  | broken what ended asks =>
      have none : received ⟨before, input, effect,
          { loop := (before.loop.readFailed what).1 }⟩ = none := by
        cases input with
        | read packet throws =>
            cases coming : before.ahead with
            | nil => simp [received, coming]
            | cons sent ahead => simp [received, coming, ended _ _ rfl]
        | _ => rfl
      exact ⟨_, follows.broken what, .restarts none rfl⟩
  | reconnected connects dumps silent =>
      have position : (before.loop.reconnect connects dumps).1.parser.position =
          before.position := by
        rw [before.loop.parser_reconnect connects dumps]
        rfl
      exact ⟨reader, follows.reconnected short silent connects dumps,
        .stays rfl position⟩
  | received streaming more coming carries dispatched =>
      obtain ⟨accepted, reads⟩ := passes _ _ rfl more
      exact follows.reads short streaming rfl more coming carries
        dispatched rfl accepted reads

/-- In every run the replication follows a reader that loses nothing. -/
theorem follows_run {crc : Bytes → Nat}
    {taken : List (Taken Replication Input Effect)} {final : Replication}
    (short : ∀ file ∈ master.binlog.files, file.name.length ≤ 1014)
    (started : Started master origin state)
    (boundary : master.binlog.Boundary (·.code ≠ 4) origin)
    (run : Run (step crc master) state taken final)
    (passes : ∀ next ∈ taken, Passes next) :
    ∃ reader, Follows master reader final ∧
      ResumingReader.Sound LogEntry.isCheckpoint
        (master.binlog.logFrom origin) reader ∧
      reader.delivered = processed taken ∧
      (final.position = origin ∨
        ∃ entry ∈ processed taken, entry.LeadsTo final.position) := by
  induction run with
  | refl =>
      have stands := Binlog.stands_of_boundary boundary
      obtain ⟨positive, below⟩ := Binlog.boundary_bounds boundary
      refine ⟨.start (master.binlog.logFrom origin), ?_,
        ResumingReader.sound_start _ _, rfl, Or.inl started.position⟩
      constructor
      · exact started.tuned
      · exact started.unchecked
      · rwa [started.position]
      · rwa [started.position]
      · rw [started.position]
        rfl
      · rwa [started.position]
      · rwa [started.position]
      · intro _
        rw [started.position]
        exact ⟨_, List.suffix_rfl, started.ahead⟩
      · intro silent
        rw [started.streaming] at silent
        cases silent
  | @snoc earlier before after input effect _ stepped induction =>
      obtain ⟨reader, follows, sound, delivered, known⟩ := induction
        fun next member => passes next (List.mem_append_left _ member)
      let next : Taken Replication Input Effect :=
        ⟨before, input, effect, after⟩
      have followsNext : Follows master reader next.before := follows
      obtain ⟨reader', follows', advances⟩ := followsNext.onward short stepped
        (passes next (List.mem_append_right _ List.mem_cons_self))
      refine ⟨reader', follows', ?_⟩
      rw [processed_snoc]
      cases advances with
      | stays none same =>
          rw [none, Option.toList_none, List.append_nil]
          exact ⟨sound, delivered, same.symm ▸ known⟩
      | restarts none same =>
          rw [none, Option.toList_none, List.append_nil]
          exact ⟨sound.restart, delivered, same.symm ▸ known⟩
      | @delivers entry rest read coming leads =>
          rw [read, Option.toList_some]
          refine ⟨sound.deliver coming, ?_, ?_⟩
          · rw [← delivered]
            rfl
          · rcases leads with same | leads
            · rcases known with start | ⟨old, member, known⟩
              · exact Or.inl (same.trans start)
              · exact Or.inr ⟨old, List.mem_append_left _ member,
                  same.symm ▸ known⟩
            · exact Or.inr ⟨entry, List.mem_append_right _
                List.mem_cons_self, leads⟩

theorem Follows.remaining (follows : Follows master reader state) :
    state.remaining master = reader.current := by
  unfold Replication.remaining
  cases streaming : state.loop.streaming with
  | false =>
      rw [if_neg Bool.false_ne_true, follows.idle streaming, follows.resume]
  | true =>
      obtain ⟨announced, part, ahead⟩ := follows.ahead streaming
      have silent : announced.filterMap Sent.entry = [] := by
        apply List.filterMap_eq_nil_iff.mpr
        intro sent member
        obtain ⟨event, rfl⟩ :=
          Master.artificial_of_announced (part.subset member)
        rfl
      have logged : ∀ entries : List LogEntry,
          (entries.map .logged).filterMap Sent.entry = entries := by
        intro entries
        rw [List.filterMap_map]
        exact List.filterMap_some
      rw [if_pos rfl, ahead, List.filterMap_append, silent, logged,
        List.nil_append]

theorem dispatches_of_passes {crc : Bytes → Nat} {entry : LogEntry}
    {next : Taken Replication Input Effect}
    (stepped : step crc master next.before next.input =
      some (next.after, next.effect))
    (passes : Passes next) (read : received next = some entry)
    (rows : entry.isRows = true) : Dispatches entry next := by
  obtain ⟨before, input, effect, after⟩ := next
  dsimp only at stepped
  cases step_replicated stepped with
  | stopped => cases read
  | broken what ended asks =>
      cases input with
      | read packet throws =>
          cases coming : before.ahead with
          | nil => simp [received, coming] at read
          | cons sent ahead => simp [received, coming, ended _ _ rfl] at read
      | _ => cases read
  | reconnected connects dumps silent => cases read
  | @received packet handlerThrows sent ahead outcome streaming more coming
      carries dispatched =>
      obtain ⟨done, _⟩ := passes _ _ rfl more
      subst dispatched
      have same : sent.entry = some entry := by
        simpa [received, coming, more] using read
      obtain rfl : sent = .logged entry := by
        cases sent with
        | artificial event => cases same
        | logged other =>
            cases same
            rfl
      have code := readByte_code (stored_of_carries carries).1
      obtain ⟨rlev, tuned, reports⟩ :=
        CLogParser.reports_of_done done code rows
      exact .intro read rfl carries tuned reports

/-- Whenever the connection breaks, and however often it cannot be replaced, the
loop goes on from where it has been and dispatches every ROWS event. -/
theorem loses_nothing {crc : Bytes → Nat}
    {taken : List (Taken Replication Input Effect)} {final : Replication}
    (short : ∀ file ∈ master.binlog.files, file.name.length ≤ 1014)
    (started : Started master origin state)
    (boundary : master.binlog.Boundary (·.code ≠ 4) origin)
    (run : Run (step crc master) state taken final)
    (passes : ∀ next ∈ taken, Passes next) :
    LosesNothing master origin taken final := by
  constructor
  · intro front next back split input
    subst split
    obtain ⟨earlier, stepped⟩ := run.at_step rfl
    obtain ⟨reader, follows, _, _, known⟩ :=
      follows_run short started boundary earlier fun next member =>
        passes next (List.mem_append_left _ member)
    obtain ⟨command, asks, decoded⟩ := follows.dumpCommand short
    refine ⟨command, _, ?_, decoded, known⟩
    obtain ⟨before, _, effect, after⟩ := next
    dsimp only at input asks stepped
    subst input
    have replicated := step_replicated stepped
    cases replicated with
    | broken what ended asks => exact absurd rfl (asks true true)
    | reconnected connects dumps silent =>
        exact request_reconnect asks true true
  · obtain ⟨reader, follows, sound, delivered, _⟩ :=
      follows_run short started boundary run passes
    obtain ⟨behind, whole, rows⟩ := sound.delivered LogEntry.isRows
    rw [delivered, processed, List.filter_filterMap] at rows
    have each : ∀ next ∈ taken, ∀ entry,
        (received next).filter LogEntry.isRows = some entry →
        Dispatches entry next := by
      intro next member entry read
      obtain ⟨front, back, split⟩ := List.append_of_mem member
      obtain ⟨_, stepped⟩ := run.at_step split
      obtain ⟨read, isRows⟩ := Option.filter_eq_some_iff.mp read
      exact dispatches_of_passes stepped (passes next member) read isRows
    obtain ⟨dispatching, part, pairs⟩ := rows.exists_shown each
    rw [follows.remaining]
    exact ⟨behind, dispatching, whole, part, pairs⟩

/-- The row (5) is inserted, and a ROTATE event to `next`. -/
def sampleEvents (next : Bytes) : List BinlogEvent :=
  [⟨⟨0, 1, 60, 0⟩, 23, (sampleRows .write 1 [0, 5, 0, 0, 0]).body⟩,
    ⟨⟨0, 1, 120, 0⟩, 4, bytesLE 8 4 ++ next⟩]

/-- A transaction is committed. -/
def sampleCommit : List BinlogEvent := [⟨⟨0, 1, 100, 0⟩, 16, List.replicate 8 0⟩]

theorem sampleEvents_ascending (next : Bytes) :
    (4 :: (sampleEvents next).map BinlogEvent.endPos).Pairwise (· < ·) := by
  simp [sampleEvents, BinlogEvent.endPos]

theorem sampleEvents_below (next : Bytes) :
    ∀ pos ∈ 4 :: (sampleEvents next).map BinlogEvent.endPos,
      pos < 4294967296 := by
  simp [sampleEvents, BinlogEvent.endPos]

theorem sampleEvents_supported (next : Bytes) :
    ∀ event ∈ sampleEvents next, event.code.toNat ≤ logEventTypes := by
  simp [sampleEvents, logEventTypes]

theorem sampleCommit_ascending :
    (4 :: sampleCommit.map BinlogEvent.endPos).Pairwise (· < ·) := by
  simp [sampleCommit, BinlogEvent.endPos]

theorem sampleCommit_below :
    ∀ pos ∈ 4 :: sampleCommit.map BinlogEvent.endPos, pos < 4294967296 := by
  simp [sampleCommit, BinlogEvent.endPos]

theorem sampleCommit_supported :
    ∀ event ∈ sampleCommit, event.code.toNat ≤ logEventTypes := by
  simp [sampleCommit, logEventTypes]

theorem sampleFiles_named : [(98 : UInt8)] ≠ [] := List.cons_ne_nil 98 []

theorem sampleFiles_positive : 0 < 4 := Nat.succ_pos 3

/-- The files `b` and `next`. -/
def sampleFiles (next : Bytes) (named : next ≠ []) : List BinlogFile :=
  [⟨[98], 4, sampleEvents next, sampleFiles_named, sampleFiles_positive,
      sampleEvents_ascending next, sampleEvents_below next,
      sampleEvents_supported next⟩,
    ⟨next, 4, sampleCommit, named, sampleFiles_positive,
      sampleCommit_ascending, sampleCommit_below, sampleCommit_supported⟩]

theorem sampleFiles_distinct {next : Bytes} (named : next ≠ [])
    (other : next ≠ [98]) :
    ((sampleFiles next named).map BinlogFile.name).Nodup := by
  simp [sampleFiles, other.symm]

theorem sampleFiles_linked {next : Bytes} (named : next ≠ []) :
    BinlogFile.Linked (sampleFiles next named) := by
  refine ⟨⟨[_], _, rfl, ?_, rfl, rfl⟩, ?_⟩
  · simp
  · simp [BinlogFile.Linked, sampleCommit]

def sampleMaster (next : Bytes) (named : next ≠ []) (other : next ≠ [98]) :
    Master where
  binlog := ⟨sampleFiles next named, sampleFiles_distinct named other,
    sampleFiles_linked named⟩
  rotateHeader := ⟨0, 1, 0, logEventArtificialF⟩
  format := ⟨⟨0, 1, 0, 0⟩, 15, []⟩
  isFormat := rfl

/-- The loop at a position of the file `b`. -/
def sampleStart (master : Master) (pos : Nat) : Replication where
  loop := {
    parser := { CLogParser.sampleParser with
      binlogName := [98], binlogPos := pos, isConnected := true }
    dump := some (bytesLE 4 pos ++ bytesLE 2 0 ++ bytesLE 4 0 ++ [98]) }
  ahead := master.answer ([98], pos)

theorem sampleStart_started (master : Master) (pos : Nat) :
    Started master ([98], pos) (sampleStart master pos) where
  tuned := CFormatDescriptionLogEvent.ofServer_tuned [53] false
  unchecked := rfl
  streaming := rfl
  position := rfl
  ahead := rfl

/-- A step on this input, if it can be taken. -/
def advance (master : Master) (state : Replication) (input : Input) :
    Taken Replication Input Effect :=
  match step (fun _ => 0) master state input with
  | some (after, effect) => ⟨state, input, effect, after⟩
  | none => ⟨state, input, {}, state⟩

/-- The step can be taken. -/
def canAdvance (master : Master) (state : Replication) (input : Input) : Bool :=
  (step (fun _ => 0) master state input).isSome

/-- The event that comes next. -/
def nextEvent (master : Master) (state : Replication) : BinlogEvent :=
  (state.ahead.head?.map Sent.event).getD master.format

/-- The packet that comes next. -/
def nextRead (master : Master) (state : Replication) : Input :=
  .read (.ofEvent (nextEvent master state).encode) false

theorem advance_input (master : Master) (state : Replication)
    (input : Input) : (advance master state input).input = input := by
  unfold advance
  split <;> rfl

theorem stepped_advance {master : Master} {state : Replication} {input : Input}
    (able : canAdvance master state input = true) :
    step (fun _ => 0) master state input =
        some ((advance master state input).after,
          (advance master state input).effect) ∧
      advance master state input = ⟨state, input,
        (advance master state input).effect,
        (advance master state input).after⟩ := by
  obtain ⟨⟨after, effect⟩, stepped⟩ := Option.isSome_iff_exists.mp able
  simp [advance, stepped]

/-- The step that reads the packet that comes next. -/
def readNext (master : Master) (state : Replication) :
    Taken Replication Input Effect :=
  advance master state (nextRead master state)

/-- The next packets are read. -/
def reads (master : Master) :
    Nat → Replication → List (Taken Replication Input Effect)
  | 0, _ => []
  | count + 1, state =>
      readNext master state :: reads master count (readNext master state).after

def afterReads (master : Master) : Nat → Replication → Replication
  | 0, state => state
  | count + 1, state => afterReads master count (readNext master state).after

/-- The next packets pass, and none is a QUERY event. -/
def readable (master : Master) : Nat → Replication → Bool
  | 0, _ => true
  | count + 1, state =>
      canAdvance master state (nextRead master state) &&
        (readNext master state).effect.exit == .done &&
        (nextEvent master state).code != 2 &&
        readable master count (readNext master state).after

/-- The connection breaks. -/
def lost (master : Master) (state : Replication) :
    Taken Replication Input Effect :=
  advance master state .readError

/-- A new connection is asked for a dump. -/
def asked (master : Master) (state : Replication) :
    Taken Replication Input Effect :=
  advance master (lost master state).after (.reconnect true true)

/-- Packets are read, and then the connection is replaced. -/
def brokenRun (master : Master) (count : Nat) (start : Replication) :
    List (Taken Replication Input Effect) :=
  reads master count start ++ [lost master (afterReads master count start)] ++
    [asked master (afterReads master count start)]

theorem passes_readNext {master : Master} {state : Replication}
    (done : (readNext master state).effect.exit = .done)
    (notQuery : (nextEvent master state).code ≠ 2) :
    Passes (readNext master state) := by
  intro packet throws same _
  refine ⟨done, fun query => absurd query ?_⟩
  rw [readNext, advance_input] at same
  cases same
  have stored := Stored.intro [] (nextEvent master state).encode [0]
  have code := readByte_code stored
  intro query
  exact notQuery (Except.ok.inj (code.symm.trans query))

theorem passes_advance {master : Master} {state : Replication} {input : Input}
    (other : ∀ packet handlerThrows, input ≠ .read packet handlerThrows) :
    Passes (advance master state input) := by
  intro packet throws same _
  rw [advance_input] at same
  exact absurd same (other packet throws)

theorem run_reads {master : Master} {count : Nat} {start : Replication}
    (good : readable master count start = true) :
    Run (step (fun _ => 0) master) start (reads master count start)
        (afterReads master count start) ∧
      ∀ next ∈ reads master count start, Passes next := by
  induction count generalizing start with
  | zero => exact ⟨.refl, by simp [reads]⟩
  | succ count induction =>
      simp only [readable, Bool.and_eq_true, beq_iff_eq, bne_iff_ne] at good
      obtain ⟨⟨⟨able, done⟩, notQuery⟩, later⟩ := good
      obtain ⟨run, passes⟩ := induction later
      obtain ⟨stepped, same⟩ := stepped_advance able
      constructor
      · rw [reads, readNext, same]
        exact run.cons stepped
      · intro next member
        rcases List.mem_cons.mp member with rfl | inside
        · exact passes_readNext done notQuery
        · exact passes next inside

theorem run_brokenRun {master : Master} {count : Nat} {start : Replication}
    (good : readable master count start = true)
    (breaks : canAdvance master (afterReads master count start) .readError =
      true)
    (asks : canAdvance master (lost master
      (afterReads master count start)).after (.reconnect true true) = true) :
    Run (step (fun _ => 0) master) start (brokenRun master count start)
        (asked master (afterReads master count start)).after ∧
      ∀ next ∈ brokenRun master count start, Passes next := by
  obtain ⟨run, passes⟩ := run_reads good
  obtain ⟨broken, same⟩ := stepped_advance breaks
  obtain ⟨replaced, same'⟩ := stepped_advance asks
  constructor
  · rw [brokenRun, lost, asked, same, same']
    exact .snoc (.snoc run broken) replaced
  · intro next member
    simp only [brokenRun, List.mem_append, List.mem_singleton] at member
    rcases member with (inside | rfl) | rfl
    · exact passes next inside
    · exact passes_advance nofun
    · exact passes_advance nofun

theorem next_named : [(99 : UInt8)] ≠ [] := by decide

theorem next_other : [(99 : UInt8)] ≠ [98] := by decide

/-- The files `b` and `c`. -/
def twoFiles : Master := sampleMaster [99] next_named next_other

/-- The row is read and asked for once more. -/
theorem loses_nothing_oneRow :
    LosesNothing twoFiles ([98], 4)
      (brokenRun twoFiles 3 (sampleStart twoFiles 4))
      (asked twoFiles (afterReads twoFiles 3 (sampleStart twoFiles 4))).after := by
  obtain ⟨run, passes⟩ := @run_brokenRun twoFiles 3 (sampleStart twoFiles 4)
    (by decide +kernel) (by decide +kernel) (by decide +kernel)
  refine loses_nothing ?_ (sampleStart_started _ _) ?_ run passes
  · simp [twoFiles, sampleMaster, sampleFiles]
  · exact ⟨_, List.mem_cons_self, rfl, Or.inl rfl⟩

theorem longNext_named : (98 : UInt8) :: List.replicate 1014 98 ≠ [] :=
  List.cons_ne_nil 98 _

theorem longNext_other : (98 : UInt8) :: List.replicate 1014 98 ≠ [98] := by
  intro same
  have length := congrArg List.length same
  rw [List.length_cons, List.length_replicate] at length
  cases length

/-- The file `b`, and a next file with a name of 1015 bytes. -/
def longFiles : Master :=
  sampleMaster (98 :: List.replicate 1014 98) longNext_named longNext_other

/-- Behind the ROTATE event of a file the parser takes the next file for that
file, and a file name of 1015 bytes is never asked for. -/
theorem not_losesNothing_behindRotate :
    (Started twoFiles ([98], 120) (sampleStart twoFiles 120) ∧
      twoFiles.binlog.Boundary (fun _ => True) ([98], 120) ∧
      Run (step (fun _ => 0) twoFiles) (sampleStart twoFiles 120)
        (brokenRun twoFiles 3 (sampleStart twoFiles 120))
        (asked twoFiles
          (afterReads twoFiles 3 (sampleStart twoFiles 120))).after ∧
      (∀ next ∈ brokenRun twoFiles 3 (sampleStart twoFiles 120),
        Passes next) ∧
      ¬LosesNothing twoFiles ([98], 120)
        (brokenRun twoFiles 3 (sampleStart twoFiles 120))
        (asked twoFiles
          (afterReads twoFiles 3 (sampleStart twoFiles 120))).after) ∧
    Started longFiles ([98], 60) (sampleStart longFiles 60) ∧
      longFiles.binlog.Boundary (·.code ≠ 4) ([98], 60) ∧
      Run (step (fun _ => 0) longFiles) (sampleStart longFiles 60)
        (brokenRun longFiles 3 (sampleStart longFiles 60))
        (asked longFiles
          (afterReads longFiles 3 (sampleStart longFiles 60))).after ∧
      (∀ next ∈ brokenRun longFiles 3 (sampleStart longFiles 60),
        Passes next) ∧
      ¬LosesNothing longFiles ([98], 60)
        (brokenRun longFiles 3 (sampleStart longFiles 60))
        (asked longFiles
          (afterReads longFiles 3 (sampleStart longFiles 60))).after := by
  constructor
  · obtain ⟨run, passes⟩ := @run_brokenRun twoFiles 3
      (sampleStart twoFiles 120) (by decide +kernel) (by decide +kernel)
      (by decide +kernel)
    refine ⟨sampleStart_started _ _, ?_, run, passes, fun loses => ?_⟩
    · exact ⟨_, List.mem_cons_self, rfl,
        Or.inr ⟨_, List.mem_cons_of_mem _ List.mem_cons_self, trivial, rfl⟩⟩
    obtain ⟨command, position, request, decoded, known⟩ :=
      loses.requests _ _ [] rfl (advance_input _ _ _)
    have asks : (asked twoFiles (afterReads twoFiles 3
        (sampleStart twoFiles 120))).effect.request =
          some (bytesLE 4 100 ++ bytesLE 2 0 ++ bytesLE 4 0 ++ [98]) := by
      decide +kernel
    cases request.symm.trans asks
    have names := decodeDump_command 0 [98]
      (show 100 < 4294967296 by decide)
    cases decoded.symm.trans names
    have only : processed (reads twoFiles 3 (sampleStart twoFiles 120) ++
        [lost twoFiles (afterReads twoFiles 3 (sampleStart twoFiles 120))]) =
          [⟨[99], ⟨⟨0, 1, 100, 0⟩, 16, List.replicate 8 0⟩⟩] := by
      decide +kernel
    rcases known with same | ⟨entry, member, leads⟩
    · cases same
    · rw [only] at member
      cases List.mem_singleton.mp member
      rcases leads with same | ⟨code, _⟩
      · cases same
      · cases code
  · obtain ⟨run, passes⟩ := @run_brokenRun longFiles 3
      (sampleStart longFiles 60) (by decide +kernel) (by decide +kernel)
      (by decide +kernel)
    refine ⟨sampleStart_started _ _, ?_, run, passes, fun loses => ?_⟩
    · exact ⟨_, List.mem_cons_self, rfl,
        Or.inr ⟨_, List.mem_cons_self, by decide, rfl⟩⟩
    obtain ⟨command, position, request, _⟩ :=
      loses.requests _ _ [] rfl (advance_input _ _ _)
    have silent : (asked longFiles (afterReads longFiles 3
        (sampleStart longFiles 60))).effect.request = none := by
      decide +kernel
    cases request.symm.trans silent

end Replication

end MysqlSlave
