import MysqlSlave.Lib.Run
import MysqlSlave.LogParser

/-!
# The replication loop

`while (dispatch()) try { dispatch_events(); } catch (...) {}` as a step function.
An input is one thing the outside decides: that the application stops the loop,
whether a reconnect gets a connection and a dump, that a read fails, or which
packet it returns and whether a handler throws on it.
-/

namespace MysqlSlave

open Region

/-- What `cli_safe_read` hands over: `len` bytes at the front of `memory`.  The
client library keeps a terminating byte behind every packet. -/
structure Packet where
  memory : Bytes
  len : Nat
  some : 1 ≤ len
  inside : len < memory.length

namespace Packet

/-- The event of the packet, behind the status byte. -/
def event (packet : Packet) : Bytes := packet.memory.drop 1

def eventLen (packet : Packet) : Nat := packet.len - 1

/-- A short packet that starts with 254 ends the dump. -/
def isEnd (packet : Packet) : Bool :=
  packet.len < 8 && packet.memory.head? == Option.some 254

/-- The packet an event arrives in. -/
def ofEvent (event : Bytes) : Packet where
  memory := 0 :: (event ++ [0])
  len := event.length + 1
  some := by omega
  inside := by simp

@[simp] theorem event_ofEvent (event : Bytes) :
    (ofEvent event).event = event ++ [0] := rfl

@[simp] theorem eventLen_ofEvent (event : Bytes) :
    (ofEvent event).eventLen = event.length := rfl

end Packet

inductive Input
  | stop
  | reconnect (connects dumps : Bool)
  | readError
  | read (packet : Packet) (handlerThrows : Bool)

/-- The parser and its session: `dump` is the dump command the server is
answering on the open connection.  `halted` is set by undefined behaviour. -/
structure Loop where
  parser : CLogParser
  dump : Option Bytes := none
  halted : Bool := false

/-- What a step shows to the outside. -/
structure Effect where
  request : Option Bytes := none
  calls : List HandlerCall := []
  exit : Exit := .done
  deriving DecidableEq, Repr

def Exit.isUndefined : Exit → Bool
  | undefined _ => true
  | _ => false

namespace Loop

/-- `reconnect`.  A connection that comes up stays up when the dump request
fails on it. -/
def reconnect (self : Loop) (connects dumps : Bool) : Loop × Effect :=
  let parser := self.parser.disconnect
  if connects then
    let parser := { parser with isConnected := true }
    match parser.dumpCommand with
    | .error fault =>
        ({ parser, halted := true }, { exit := .undefined fault })
    | .ok (.error exn) => ({ parser }, { exit := .threw exn })
    | .ok (.ok command) =>
        if dumps then
          ({ parser, dump := some command }, { request := some command })
        else
          let failed : Exn :=
            .dumpFailed parser.binlogName parser.binlogPos
          ({ parser }, { exit := .threw failed })
  else ({ parser }, { exit := .threw .connectFailed })

/-- The exception of a failed read. -/
def readFailed (self : Loop) (what : String) : Loop × Effect :=
  ({ parser := { self.parser with isConnected := false } },
    { exit := .threw (.client what) })

/-- One packet. -/
def read (crc : Bytes → Nat) (self : Loop) (packet : Packet)
    (handlerThrows : Bool) : Loop × Effect :=
  if packet.isEnd then
    self.readFailed "Resv end packet from server,  apparent master shutdown"
  else
    let outcome := self.parser.dispatchEvent crc packet.event packet.eventLen
      handlerThrows
    ({ self with
        parser := outcome.state, halted := outcome.exit.isUndefined },
      { calls := outcome.calls, exit := outcome.exit })

/-- A packet can only come in answer to a dump command. -/
def step (crc : Bytes → Nat) (self : Loop) (input : Input) :
    Option (Loop × Effect) :=
  if self.halted || !self.parser.dispatch then none
  else
    match input with
    | .stop =>
        some ({ self with parser := { self.parser with dispatch := false } },
          {})
    | .reconnect connects dumps =>
        if self.parser.isConnected then none
        else some (self.reconnect connects dumps)
    | .readError =>
        if self.parser.isConnected then
          some (self.readFailed "Error reading packet from server")
        else none
    | .read packet handlerThrows =>
        if self.parser.isConnected && self.dump.isSome then
          some (self.read crc packet handlerThrows)
        else none

theorem parser_reconnect (self : Loop) (connects dumps : Bool) :
    (self.reconnect connects dumps).1.parser =
      { self.parser with isConnected := connects } := by
  unfold reconnect
  dsimp only
  split
  case isTrue connected =>
    subst connected
    split
    · rfl
    · rfl
    · split <;> rfl
  case isFalse refused =>
    obtain rfl := Bool.eq_false_of_not_eq_true refused
    rfl

theorem calls_reconnect (self : Loop) (connects dumps : Bool) :
    (self.reconnect connects dumps).2.calls = [] := by
  unfold reconnect
  dsimp only
  split
  case isTrue =>
    split
    · rfl
    · rfl
    · split <;> rfl
  case isFalse => rfl

/-- The loop can read a packet. -/
def ready (self : Loop) : Bool :=
  !self.halted && self.parser.dispatch && self.parser.isConnected &&
    self.dump.isSome

/-- The step that reads a packet with a handler that does not throw. -/
def readStep (crc : Bytes → Nat) (self : Loop) (packet : Packet) :
    Taken Loop Input Effect :=
  ⟨self, .read packet false, (self.read crc packet false).2,
    (self.read crc packet false).1⟩

theorem step_read_of_ready {crc : Bytes → Nat} {loop : Loop}
    {packet : Packet} {handlerThrows : Bool} (able : loop.ready = true) :
    step crc loop (.read packet handlerThrows) =
      some (loop.read crc packet handlerThrows) := by
  simp only [ready, Bool.and_eq_true, Bool.not_eq_true'] at able
  simp [step, able]

theorem run_readStep {crc : Bytes → Nat} {start loop : Loop}
    {taken : List (Taken Loop Input Effect)} (packet : Packet)
    (run : Run (step crc) start taken loop) (able : loop.ready = true) :
    Run (step crc) start (taken ++ [loop.readStep crc packet])
      (loop.readStep crc packet).after :=
  .snoc run (step_read_of_ready able)

end Loop

/-- A parser that has its databases and the server's format, and has not seen
an event yet. -/
structure CLogParser.Fresh (parser : CLogParser) : Prop where
  fmt : parser.fmt.Tuned
  tables : ∀ address, (parser.tables address).tuned = false ∧
    (parser.tables address).rows = [] ∧ (parser.tables address).newRows = []
  idToTable : ∀ id, parser.idToTable id = none
  tableToId : ∀ name, parser.tableToId name = none

/-- The state `prepare` leaves: connected, with the dump requested. -/
structure Loop.Prepared (loop : Loop) : Prop where
  fresh : loop.parser.Fresh
  connected : loop.parser.isConnected = true
  dump : ∃ command, loop.parser.dumpCommand = .ok (.ok command) ∧
    loop.dump = some command
  running : loop.halted = false

theorem CLogParser.Fresh.watch {parser : CLogParser} (fresh : parser.Fresh)
    (dbName tableName : Bytes) : (parser.watch dbName tableName).Fresh := by
  obtain ⟨fmt, tables, idToTable, tableToId⟩ := fresh
  unfold CLogParser.watch
  split
  · exact ⟨fmt, tables, idToTable, tableToId⟩
  · dsimp only
    split
    · exact ⟨fmt, tables, idToTable, tableToId⟩
    · refine ⟨fmt, fun address => ?_, idToTable, tableToId⟩
      dsimp only
      by_cases new : address = parser.nextTable
      · simp [new]
      · simpa [Function.update_of_ne new] using tables address

theorem CLogParser.watch_session (parser : CLogParser)
    (dbName tableName : Bytes) :
    (parser.watch dbName tableName).isConnected = parser.isConnected ∧
      (parser.watch dbName tableName).dumpCommand = parser.dumpCommand := by
  unfold CLogParser.watch
  split
  · exact ⟨rfl, rfl⟩
  · dsimp only
    split <;> exact ⟨rfl, rfl⟩

/-- A parser watching the given tables, connected at the start of file `b`. -/
def sampleLoop (useChecksum : Bool) (watched : List (Bytes × Bytes)) : Loop :=
  let parser : CLogParser :=
    { fmt := .ofServer [53] useChecksum
      binlogName := [98], binlogPos := 4, isConnected := true }
  { parser := watched.foldl (fun parser name => parser.watch name.1 name.2)
      parser
    dump := some (bytesLE 4 4 ++ bytesLE 2 0 ++ bytesLE 4 0 ++ [98]) }

theorem sampleLoop_prepared (useChecksum : Bool)
    (watched : List (Bytes × Bytes)) :
    (sampleLoop useChecksum watched).Prepared := by
  have keeps : ∀ parser : CLogParser, parser.Fresh →
      let after := watched.foldl
        (fun parser name => parser.watch name.1 name.2) parser
      after.Fresh ∧ after.isConnected = parser.isConnected ∧
        after.dumpCommand = parser.dumpCommand := by
    induction watched with
    | nil => exact fun parser fresh => ⟨fresh, rfl, rfl⟩
    | cons name rest induction =>
        intro parser fresh
        obtain ⟨after, connected, command⟩ :=
          induction _ (fresh.watch name.1 name.2)
        have session := parser.watch_session name.1 name.2
        exact ⟨after, connected.trans session.1, command.trans session.2⟩
  obtain ⟨fresh, connected, command⟩ := keeps
    { fmt := .ofServer [53] useChecksum
      binlogName := [98], binlogPos := 4, isConnected := true }
    ⟨CFormatDescriptionLogEvent.ofServer_tuned _ _,
      fun _ => ⟨rfl, rfl, rfl⟩, fun _ => rfl, fun _ => rfl⟩
  exact ⟨fresh, connected, ⟨_, command, rfl⟩, rfl⟩

end MysqlSlave
