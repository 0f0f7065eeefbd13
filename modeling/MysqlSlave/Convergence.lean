import MysqlSlave.ChangeStream
import MysqlSlave.Lib.Replay
import MysqlSlave.Resumption

/-!
# Convergence

An application keeps the rows it is told of by table and key.  Some of them come
again when the connection has been replaced.  The log of the master, each event
once, is what its tables come to in the end.
-/

namespace MysqlSlave

open Region

section Replica

variable {κ : Type}

/-- What an application writes that keeps rows by table and key. -/
def Delivery.writes (key : Address → List ShownCell → κ)
    (delivery : Delivery) :
    List (KeyedWrite (Address × κ) (List ShownCell)) :=
  let place (row : List ShownCell) := (delivery.table, key delivery.table row)
  match delivery.op with
  | .write => delivery.rows.map fun row => (place row, some row)
  | .update => (delivery.rows.zip delivery.newRows).flatMap fun (old, new) =>
      [(place old, none), (place new, some new)]
  | .delete => delivery.rows.map fun row => (place row, none)

end Replica

/-- What an event of a binlog says. -/
inductive BinlogEvent.Tells (event : BinlogEvent) : MasterEvent → Prop where
  | tableMap (map : TableMapEvent) :
      event.encode = map.encode [] → event.encode.length < 4294967296 →
      Tells event (.tableMap map)
  | rows (change : TableChanges) :
      event.encode = change.event.encode [] →
      event.encode.length < 4294967296 →
      Tells event (.rows change)
  | foreignRows {tableId : Nat} {rest : Bytes} :
      event.type.isRows = true → event.code.toNat ≤ logEventTypes →
      event.body = bytesLE 6 tableId ++ rest → tableId < 281474976710656 →
      Tells event (.foreignRows tableId)
  | other :
      event.type ≠ .tableMapEvent → event.type.isRows = false →
      Tells event .other

/-- What the log of a master says, read with `tells`.  The TABLE_MAP event of a
ROWS event stands in front of it in the same transaction, with no other TABLE_MAP
event of the table between them. -/
structure Narrates (log : List LogEntry) (tells : LogEntry → MasterEvent)
    (watched : Bytes → Bytes → Option Address) : Prop where
  meant : ∀ entry ∈ log, entry.event.Tells (tells entry)
  named : WellNamed watched (log.map tells)
  announced : ∀ front entry back, log = front ++ entry :: back →
    ∀ change, tells entry = .rows change →
      ∀ tbl, change.map.target watched = some tbl →
        ∃ far first near map, front = far ++ first :: near ∧
          tells first = .tableMap map ∧ map.SameTable change.map ∧
          (∀ other ∈ first :: near, other.isCheckpoint = false) ∧
          ∀ other ∈ near, (tells other).mapOf watched tbl = none

/-- What the entries tell an application. -/
def told (watched : Bytes → Bytes → Option Address)
    (tells : LogEntry → MasterEvent) (entries : List LogEntry) :
    List Delivery :=
  entries.flatMap fun entry => (tells entry).meaning watched

namespace Replication

variable {master : Master} {reader : ResumingReader LogEntry}
  {state final : Replication} {origin : Bytes × Nat} {crc : Bytes → Nat}
  {taken : List (Taken Replication Input Effect)}
  {next : Taken Replication Input Effect}
  {tells : LogEntry → MasterEvent}
  {watched : Bytes → Bytes → Option Address}

/-- What the packet of a step says. -/
def said (tells : LogEntry → MasterEvent)
    (next : Taken Replication Input Effect) : MasterEvent :=
  (received next).elim .other tells

/-- The packet that comes next: a ROTATE or FORMAT_DESCRIPTION event of the
connection, or what the reader gets next. -/
theorem Follows.sent {sent : Sent} {ahead : List Sent}
    (follows : Follows master reader state)
    (streaming : state.loop.streaming = true)
    (coming : state.ahead = sent :: ahead) :
    (∃ event, sent = .artificial event ∧
        (event.code = 4 ∨ event.code = 15)) ∨
      ∃ entry rest, sent = .logged entry ∧ reader.current = entry :: rest := by
  obtain ⟨announced, part, whole⟩ := follows.ahead streaming
  rw [coming] at whole
  cases announced with
  | cons first announced =>
      obtain ⟨rfl, _⟩ := List.cons.inj whole
      have inside := part.subset List.mem_cons_self
      simp only [Master.announcement, List.mem_cons, List.not_mem_nil,
        or_false] at inside
      rcases inside with rfl | rfl
      · exact Or.inl ⟨_, rfl, Or.inl rfl⟩
      · exact Or.inl ⟨_, rfl, Or.inr master.isFormat⟩
  | nil =>
      cases current : reader.current with
      | nil => simp [current] at whole
      | cons entry rest =>
          rw [current, List.nil_append, List.map_cons] at whole
          exact Or.inr ⟨entry, rest, (List.cons.inj whole).1, rfl⟩

theorem readsEvent_of_carries {parser : CLogParser} {packet : Packet}
    {event : BinlogEvent} {meant : MasterEvent}
    (unchecked : parser.fmt.useChecksum = false)
    (carries : packet.carries event.encode = true) (tells : event.Tells meant) :
    parser.ReadsEvent packet.event packet.eventLen meant := by
  obtain ⟨stored, length⟩ := stored_of_carries carries
  have code : readByte packet.event eventTypeOffset = .ok event.code :=
    readByte_code stored
  have trailer : parser.fmt.trailerLen = 0 := by
    simp [CFormatDescriptionLogEvent.trailerLen, unchecked]
  obtain ⟨slack, room, whole⟩ : ∃ slack, slack ≠ [] ∧
      packet.event = event.encode ++ slack := by
    obtain ⟨front, slack, whole, start⟩ := stored
    rw [List.length_eq_zero_iff] at start
    subst start
    refine ⟨slack, ?_, by simpa using whole⟩
    rintro rfl
    have inside := packet.inside
    have total := congrArg List.length whole
    simp only [Packet.event, List.length_drop, List.nil_append,
      List.append_nil] at total
    simp only [Packet.eventLen] at length
    have some := packet.some
    omega
  cases tells with
  | tableMap map same small =>
      exact .tableMap map ⟨[], slack, trailer.symm, room, same ▸ whole,
        same ▸ length, length ▸ small⟩
  | rows change same small =>
      exact .rows change ⟨[], slack, trailer.symm, room, same ▸ whole,
        same ▸ length, length ▸ small⟩
  | @foreignRows tableId rest rows supported body small =>
      have admitted : parser.Admitted packet.event packet.eventLen
          event.code := by
        rw [length]
        exact CLogParser.admitted_encodeEvent stored supported
      refine .foreignRows admitted rows (readLE_bytesLE small ?_)
      have inside := stored.left.right
      rw [EventHeader.encode_length, body] at inside
      exact inside.left.relocate rfl
  | other notMap notRows =>
      refine .other fun other admitted => ?_
      cases code.symm.trans admitted.type
      exact ⟨notMap, notRows⟩

theorem reads_said (follows : Follows master reader next.before)
    (stepped : step crc master next.before next.input =
      some (next.after, next.effect))
    (meant : ∀ entry ∈ reader.current, entry.event.Tells (tells entry)) :
    Loop.Reads (loopStep next) (said tells next) := by
  obtain ⟨before, input, effect, after⟩ := next
  dsimp only at follows stepped
  cases input with
  | stop => rfl
  | reconnect connects dumps => rfl
  | readError => rfl
  | read packet throws =>
      cases step_replicated stepped with
      | broken what ended asks =>
          have nothing : received ⟨before, .read packet throws, effect,
              { loop := (before.loop.readFailed what).1 }⟩ = none := by
            cases coming : before.ahead with
            | nil => simp [received, coming]
            | cons sent ahead => simp [received, coming, ended _ _ rfl]
          rw [said, nothing]
          exact .other fun code admitted =>
            absurd admitted (Loop.not_admitted_of_isEnd (ended _ _ rfl))
      | @received _ _ sent ahead outcome streaming more coming carries _ =>
          have read : received ⟨before, .read packet throws,
              { calls := outcome.calls, exit := outcome.exit },
              { loop := { before.loop with
                  parser := outcome.state
                  halted := outcome.exit.isUndefined }, ahead }⟩ =
                sent.entry := by
            simp [Replication.received, coming, more]
          rw [said, read]
          rcases follows.sent streaming coming with
            ⟨event, rfl, code⟩ | ⟨entry, rest, rfl, current⟩
          · refine readsEvent_of_carries follows.unchecked carries
              (.other ?_ ?_)
            · rcases code with code | code <;>
                simp [BinlogEvent.type, Sent.event, code] <;> decide
            · rcases code with code | code <;>
                simp [BinlogEvent.type, Sent.event, code] <;> decide
          · exact readsEvent_of_carries follows.unchecked carries
              (meant entry (current ▸ List.mem_cons_self))

section Run

theorem reached_run
    (short : ∀ file ∈ master.binlog.files, file.name.length ≤ 1014)
    (started : Started master origin state)
    (boundary : master.binlog.Boundary (·.code ≠ 4) origin)
    (run : Run (step crc master) state taken final)
    (passes : ∀ next ∈ taken, Passes next) :
    ∃ reader, Follows master reader final ∧
      ResumingReader.Reached LogEntry.isCheckpoint
        (master.binlog.logFrom origin) reader ∧
      reader.delivered = processed taken := by
  induction run with
  | refl =>
      have nothing : Run (step crc master) state [] state := .refl
      obtain ⟨reader, follows, sound, delivered, _⟩ :=
        follows_run short started boundary nothing (by simp)
      refine ⟨reader, follows, ?_, delivered⟩
      rw [sound.eq_start delivered]
      exact .start
  | @snoc earlier before after input effect _ stepped induction =>
      obtain ⟨reader, follows, reached, delivered⟩ := induction
        fun next member => passes next (List.mem_append_left _ member)
      let next : Taken Replication Input Effect :=
        ⟨before, input, effect, after⟩
      have followsNext : Follows master reader next.before := follows
      obtain ⟨reader', follows', advances⟩ := followsNext.onward short stepped
        (passes next (List.mem_append_right _ List.mem_cons_self))
      refine ⟨reader', follows', ?_⟩
      rw [processed_snoc]
      cases advances with
      | stays none same =>
          rw [none, Option.toList_none, List.append_nil]
          exact ⟨reached, delivered⟩
      | restarts none same =>
          rw [none, Option.toList_none, List.append_nil]
          exact ⟨reached.restart, delivered⟩
      | @delivers entry rest read coming leads =>
          rw [read, Option.toList_some]
          refine ⟨reached.deliver coming, ?_⟩
          rw [← delivered]
          rfl

theorem mapOf_said (tbl : Address)
    (taken : List (Taken Replication Input Effect)) :
    (taken.map (said tells)).filterMap (MasterEvent.mapOf watched tbl) =
      (processed taken).filterMap
        fun entry => (tells entry).mapOf watched tbl := by
  rw [processed, List.filterMap_map, List.filterMap_filterMap]
  congr 1
  funext next
  simp only [Function.comp_apply, said]
  cases received next <;> rfl

theorem meaning_said (taken : List (Taken Replication Input Effect)) :
    ((taken.map (said tells)).map (MasterEvent.meaning watched)).flatten =
      told watched tells (processed taken) := by
  induction taken with
  | nil => rfl
  | cons next taken induction =>
      rw [List.map_cons, List.map_cons, List.flatten_cons, induction]
      cases read : received next with
      | none => simp [said, read, processed, MasterEvent.meaning]
      | some entry => simp [said, read, processed, told]

theorem step_narrated {front back : List (Taken Replication Input Effect)}
    (narrates : Narrates (master.binlog.logFrom origin) tells watched)
    (short : ∀ file ∈ master.binlog.files, file.name.length ≤ 1014)
    (started : Started master origin state)
    (boundary : master.binlog.Boundary (·.code ≠ 4) origin)
    (run : Run (step crc master) state taken final)
    (passes : ∀ next ∈ taken, Passes next)
    (split : taken = front ++ next :: back) :
    ∃ reader acknowledged repeated,
      ResumingReader.Unbroken LogEntry.isCheckpoint
        (master.binlog.logFrom origin) acknowledged repeated reader ∧
      reader.delivered = processed front ∧
      (∀ entry, received next = some entry →
        ∃ rest, reader.current = entry :: rest) ∧
      Loop.Reads (loopStep next) (said tells next) := by
  subst split
  obtain ⟨earlier, stepped⟩ := run.at_step rfl
  obtain ⟨reader, follows, reached, delivered⟩ := reached_run short started
    boundary earlier fun other member =>
      passes other (List.mem_append_left _ member)
  obtain ⟨_, _, advances⟩ := follows.onward short stepped
    (passes next (List.mem_append_right _ List.mem_cons_self))
  obtain ⟨acknowledged, repeated, unbroken⟩ := reached.unbroken
  refine ⟨reader, acknowledged, repeated, unbroken, delivered, ?_,
    reads_said follows stepped ?_⟩
  · intro entry read
    cases advances with
    | stays none _ => simp [none] at read
    | restarts none _ => simp [none] at read
    | @delivers other rest read' coming _ =>
        cases read.symm.trans read'
        exact ⟨rest, coming⟩
  · intro entry member
    refine narrates.meant entry ?_
    rw [unbroken.behind.log]
    exact List.mem_append_right _ member

/-- The events of a session, some of them more than once, are a coherent log. -/
theorem coherent_said
    (narrates : Narrates (master.binlog.logFrom origin) tells watched)
    (short : ∀ file ∈ master.binlog.files, file.name.length ≤ 1014)
    (started : Started master origin state)
    (boundary : master.binlog.Boundary (·.code ≠ 4) origin)
    (run : Run (step crc master) state taken final)
    (passes : ∀ next ∈ taken, Passes next) :
    Coherent watched (taken.map (said tells)) := by
  refine ⟨narrates.named.of_subset ?_, ?_⟩
  · intro event member
    obtain ⟨next, inside, rfl⟩ := List.mem_map.mp member
    obtain ⟨front, back, split⟩ := List.append_of_mem inside
    obtain ⟨reader, _, _, unbroken, _, reads, _⟩ :=
      step_narrated narrates short started boundary run passes split
    cases read : received next with
    | none => exact Or.inl (by simp [said, read])
    | some entry =>
        obtain ⟨rest, coming⟩ := reads entry read
        refine Or.inr (List.mem_map.mpr ⟨entry, ?_, by simp [said, read]⟩)
        rw [unbroken.behind.log, coming]
        exact List.mem_append_right _ List.mem_cons_self
  · intro front' change back' split tbl target
    obtain ⟨front, tail, rfl, rfl, rest⟩ := List.map_eq_append_iff.mp split
    obtain ⟨next, back, rfl, event, rfl⟩ := List.map_eq_cons_iff.mp rest
    obtain ⟨reader, acknowledged, repeated, unbroken, delivered, reads, _⟩ :=
      step_narrated narrates short started boundary run passes rfl
    cases read : received next with
    | none => simp [said, read] at event
    | some entry =>
        rw [said, read, Option.elim_some] at event
        obtain ⟨ahead, coming⟩ := reads entry read
        have whole := unbroken.behind.log
        rw [coming] at whole
        obtain ⟨far, first, near, map, parts, isMap, same, plain, silent⟩ :=
          narrates.announced _ entry ahead whole change event tbl target
        obtain ⟨old, recent⟩ := unbroken.near parts plain
        refine ⟨map, ?_, same⟩
        have named : (tells first).mapOf watched tbl = some map :=
          mapOf_eq_some.mpr ⟨isMap, same.target.trans target⟩
        have heard : (first :: near).filterMap
            (fun entry => (tells entry).mapOf watched tbl) = [map] := by
          rw [List.filterMap_cons, named]
          exact congrArg _ (List.filterMap_eq_nil_iff.mpr silent)
        rw [lastMap, mapOf_said, ← delivered, ← recent, List.filterMap_append,
          heard, List.getLast?_concat]

/-- Whenever the connection breaks, and however often it has to be replaced: a
replica that still gets the events that come again is where the log leads to. -/
theorem replica_converges {κ : Type} [DecidableEq κ]
    (key : Address → List ShownCell → κ)
    (snapshot : Address × κ → Option (List ShownCell))
    (fresh : state.loop.parser.Fresh)
    (narrates : Narrates (master.binlog.logFrom origin) tells
      state.loop.parser.watched)
    (short : ∀ file ∈ master.binlog.files, file.name.length ≤ 1014)
    (started : Started master origin state)
    (boundary : master.binlog.Boundary (·.code ≠ 4) origin)
    (run : Run (step crc master) state taken final)
    (passes : ∀ next ∈ taken, Passes next) :
    ∃ delivered seen pending ahead,
      (taken.map loopStep).mapM Loop.observed = .ok delivered ∧
      master.binlog.logFrom origin = seen ++ ahead ∧ pending <:+ seen ∧
      final.remaining master = pending ++ ahead ∧
      KeyedStore.writeAll snapshot ((delivered.flatten ++
          told state.loop.parser.watched tells pending).flatMap
            (Delivery.writes key)) =
        KeyedStore.writeAll snapshot
          ((told state.loop.parser.watched tells seen).flatMap
            (Delivery.writes key)) := by
  obtain ⟨reader, follows, reached, delivered⟩ :=
    reached_run short started boundary run passes
  have reads : List.Forall₂ Loop.Reads (taken.map loopStep)
      (taken.map (said tells)) := by
    rw [List.forall₂_map_left_iff, List.forall₂_map_right_iff,
      List.forall₂_same]
    intro next member
    obtain ⟨front, back, split⟩ := List.append_of_mem member
    obtain ⟨_, _, _, _, _, _, reads⟩ :=
      step_narrated narrates short started boundary run passes split
    exact reads
  obtain ⟨_, observed⟩ := Loop.run_hasRead fresh (run_loop run) reads
    (coherent_said narrates short started boundary run passes)
  have all : ∀ entries : List LogEntry, entries.flatMap (fun entry =>
      ((tells entry).meaning state.loop.parser.watched).flatMap
        (Delivery.writes key)) =
      (told state.loop.parser.watched tells entries).flatMap
        (Delivery.writes key) := fun entries => List.flatMap_assoc.symm
  obtain ⟨seen, pending, ahead, log, part, current, leads⟩ :=
    reached.converges (fun entry =>
      ((tells entry).meaning state.loop.parser.watched).flatMap
        (Delivery.writes key)) snapshot
  rw [all, all, delivered] at leads
  refine ⟨_, seen, pending, ahead, observed, log, part,
    follows.remaining.trans current, ?_⟩
  rw [meaning_said, ← leads]
  simp only [told, List.flatMap_append]

end Run

/-- The TABLE_MAP event of `d.t` at its place in the file `b`. -/
def loggedMap : TableMapEvent := { pairMap with header := ⟨0, 1, 60, 0⟩ }

/-- The UPDATE event behind it. -/
def loggedRows : RowsEvent := { pairRows with header := ⟨0, 1, 100, 0⟩ }

def loggedUpdate : TableChanges where
  map := loggedMap
  event := loggedRows
  table := pairTable
  changes := [pairChange]
  describes := ⟨rfl, rfl⟩
  supported := Loop.pairUpdate.supported
  carries := by
    obtain ⟨ncolumns, used, usedAfter, images, full⟩ := pairRows_carries
    exact ⟨ncolumns, used, usedAfter, images, full⟩
  sameId := rfl

/-- The row (1, "ab") of `d.t` becomes (1, NULL). -/
def updateEvents : List BinlogEvent :=
  [⟨loggedMap.header, 19, loggedMap.body⟩,
    ⟨loggedRows.header, 31, loggedRows.body⟩,
    ⟨⟨0, 1, 120, 0⟩, 16, List.replicate 8 0⟩]

theorem updateEvents_ascending :
    (4 :: updateEvents.map BinlogEvent.endPos).Pairwise (· < ·) := by decide

theorem updateEvents_below :
    ∀ pos ∈ 4 :: updateEvents.map BinlogEvent.endPos, pos < 4294967296 := by
  decide

theorem updateEvents_supported :
    ∀ event ∈ updateEvents, event.code.toNat ≤ logEventTypes := by decide

def updateFile : BinlogFile where
  name := [98]
  start := 4
  events := updateEvents
  named := sampleFiles_named
  positive := sampleFiles_positive
  ascending := updateEvents_ascending
  below := updateEvents_below
  supported := updateEvents_supported

theorem updateFile_linked : BinlogFile.Linked [updateFile] := by
  intro event member
  revert event
  decide

theorem updateFile_distinct : ([updateFile].map BinlogFile.name).Nodup :=
  List.nodup_singleton [98]

def updateMaster : Master where
  binlog := ⟨[updateFile], updateFile_distinct, updateFile_linked⟩
  rotateHeader := ⟨0, 1, 0, logEventArtificialF⟩
  format := twoFiles.format
  isFormat := twoFiles.isFormat

/-- The start of the file `b`, with `d.t` watched. -/
def updateStart : Replication where
  loop := sampleLoop false [([100], [116])]
  ahead := updateMaster.answer ([98], 4)

theorem updateStart_started : Started updateMaster ([98], 4) updateStart where
  tuned := CFormatDescriptionLogEvent.ofServer_tuned [53] false
  unchecked := rfl
  streaming := rfl
  position := rfl
  ahead := rfl

def updateTells (entry : LogEntry) : MasterEvent :=
  if entry.event.code = 19 then .tableMap loggedMap
  else if entry.event.code = 31 then .rows loggedUpdate
  else .other

theorem updateLog :
    updateMaster.binlog.logFrom ([98], 4) =
      updateEvents.map (LogEntry.mk [98]) := by decide +kernel

theorem updateLog_narrates (watched : Bytes → Bytes → Option Address) :
    Narrates (updateMaster.binlog.logFrom ([98], 4)) updateTells watched := by
  rw [updateLog]
  have only : ∀ map ∈ (updateEvents.map (LogEntry.mk [98])).map
      updateTells |>.filterMap MasterEvent.map?, map = loggedMap := by
    simp [updateEvents, updateTells, MasterEvent.map?, loggedUpdate]
  refine ⟨?_, ⟨?_, ?_, ?_⟩, ?_⟩
  · intro entry member
    simp only [updateEvents, List.map_cons, List.map_nil, List.mem_cons,
      List.not_mem_nil, or_false] at member
    rcases member with rfl | rfl | rfl
    · exact .tableMap loggedMap rfl (by decide)
    · exact .rows loggedUpdate rfl (by decide)
    · exact .other (by decide) (by decide)
  · intro left leftMem right rightMem _
    rw [only left leftMem, only right rightMem]
    exact ⟨rfl, rfl, rfl, rfl, rfl⟩
  · intro left leftMem right rightMem tbl _ _
    rw [only left leftMem, only right rightMem]
  · intro tableId member
    simp [updateEvents, updateTells] at member
  · intro front entry back split change isRows tbl target
    rcases front with _ | ⟨first, _ | ⟨second, _ | ⟨third, rest⟩⟩⟩
    · simp only [updateEvents, List.map_cons, List.nil_append,
        List.cons.injEq] at split
      obtain ⟨rfl, _⟩ := split
      simp [updateTells] at isRows
    · simp only [updateEvents, List.map_cons, List.cons_append,
        List.nil_append, List.cons.injEq] at split
      obtain ⟨rfl, rfl, _⟩ := split
      cases isRows
      exact ⟨[], _, [], loggedMap, rfl, rfl, ⟨rfl, rfl, rfl, rfl, rfl⟩,
        by decide, by simp⟩
    · simp only [updateEvents, List.map_cons, List.map_nil,
        List.cons_append, List.nil_append, List.cons.injEq] at split
      obtain ⟨_, _, rfl, _⟩ := split
      simp [updateTells] at isRows
    · simp [updateEvents] at split

/-- The connection breaks behind the UPDATE event. -/
def updateRun : List (Taken Replication Input Effect) :=
  brokenRun updateMaster 4 updateStart

/-- The row (1, NULL) is written again. -/
theorem replica_converges_oneRow :
    ∃ delivered seen pending ahead,
      (updateRun.map loopStep).mapM Loop.observed = .ok delivered ∧
      updateMaster.binlog.logFrom ([98], 4) = seen ++ ahead ∧
      pending <:+ seen ∧
      (asked updateMaster
        (afterReads updateMaster 4 updateStart)).after.remaining updateMaster =
          pending ++ ahead ∧
      KeyedStore.writeAll (fun _ => none) ((delivered.flatten ++
          told updateStart.loop.parser.watched updateTells pending).flatMap
            (Delivery.writes fun _ row => row.head?)) =
        KeyedStore.writeAll (fun _ => none)
          ((told updateStart.loop.parser.watched updateTells seen).flatMap
            (Delivery.writes fun _ row => row.head?)) := by
  obtain ⟨run, passes⟩ := @run_brokenRun updateMaster 4 updateStart
    (by decide +kernel) (by decide +kernel) (by decide +kernel)
  refine replica_converges _ _ (sampleLoop_prepared _ _).fresh
    (updateLog_narrates _) ?_ updateStart_started ?_ run passes
  · simp [updateMaster, updateFile]
  · exact ⟨_, List.mem_cons_self, rfl, Or.inl rfl⟩

end Replication

end MysqlSlave
