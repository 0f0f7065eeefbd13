import MysqlSlave.Binlog
import MysqlSlave.ErrorRecovery
import MysqlSlave.ResumeRequest

/-!
# A session with a master

The replication loop reads from a master that answers every dump request with an
artificial ROTATE event, a FORMAT_DESCRIPTION event and the events of its binlog
from the requested position on.
-/

namespace MysqlSlave

open Region

/-- What a master sends: an event made up for the connection, or one of the
log. -/
inductive Sent
  | artificial (event : BinlogEvent)
  | logged (entry : LogEntry)
  deriving DecidableEq, Repr

namespace Sent

def event : Sent → BinlogEvent
  | artificial event => event
  | logged entry => entry.event

def entry : Sent → Option LogEntry
  | artificial _ => none
  | logged entry => some entry

end Sent

/-- A master, with the header of its artificial ROTATE events and its
FORMAT_DESCRIPTION event. -/
structure Master where
  binlog : Binlog
  rotateHeader : EventHeader
  format : BinlogEvent
  isFormat : format.code = 15

namespace Master

def rotate (master : Master) (position : Bytes × Nat) : BinlogEvent where
  header := master.rotateHeader
  code := 4
  body := bytesLE 8 position.2 ++ position.1

/-- What stands in front of the events. -/
def announcement (master : Master) (position : Bytes × Nat) : List Sent :=
  [.artificial (master.rotate position), .artificial master.format]

def answer (master : Master) (position : Bytes × Nat) : List Sent :=
  master.announcement position ++ (master.binlog.logFrom position).map .logged

theorem artificial_of_announced {master : Master} {position : Bytes × Nat}
    {sent : Sent} (member : sent ∈ master.announcement position) :
    ∃ event, sent = .artificial event := by
  simp only [announcement, List.mem_cons, List.not_mem_nil, or_false] at member
  rcases member with same | same
  · exact ⟨_, same⟩
  · exact ⟨_, same⟩

/-- The answer to a COM_BINLOG_DUMP command. -/
def answerCommand (master : Master) (payload : Bytes) : List Sent :=
  match decodeDump payload with
  | some position => master.answer position
  | none => []

end Master

/-- The packet carries these bytes and no more. -/
def Packet.carries (packet : Packet) (event : Bytes) : Bool :=
  packet.event.take event.length == event && packet.eventLen == event.length

/-- The loop, and what the master has still to send on the connection. -/
structure Replication where
  loop : Loop
  ahead : List Sent := []

namespace Replication

/-- The loop takes a step, with the next packet of the master if it reads one.
What is under way is lost with the connection. -/
def step (crc : Bytes → Nat) (master : Master) (self : Replication)
    (input : Input) : Option (Replication × Effect) :=
  match Loop.step crc self.loop input with
  | none => none
  | some (loop, effect) =>
      match input with
      | .stop => some ({ self with loop }, effect)
      | .readError => some ({ loop }, effect)
      | .reconnect _ _ =>
          some ({ loop, ahead := effect.request.elim [] master.answerCommand },
            effect)
      | .read packet _ =>
          if packet.isEnd then some ({ loop }, effect)
          else
            match self.ahead with
            | [] => none
            | sent :: ahead =>
                if packet.carries sent.event.encode then
                  some ({ loop, ahead }, effect)
                else none

/-- The position of the parser. -/
def position (self : Replication) : Bytes × Nat := self.loop.parser.position

/-- What the present connection still brings of the log; without one, what the
next request brings. -/
def remaining (master : Master) (self : Replication) : List LogEntry :=
  if self.loop.streaming then self.ahead.filterMap Sent.entry
  else master.binlog.logFrom self.position

/-- The event of the log that a step reads. -/
def received (next : Taken Replication Input Effect) : Option LogEntry :=
  match next.input, next.before.ahead with
  | .read packet _, sent :: _ => if packet.isEnd then none else sent.entry
  | _, _ => none

/-- The events of the log that a run has read, in order. -/
def processed (taken : List (Taken Replication Input Effect)) :
    List LogEntry :=
  taken.filterMap received

theorem processed_snoc (taken : List (Taken Replication Input Effect))
    (next : Taken Replication Input Effect) :
    processed (taken ++ [next]) =
      processed taken ++ (received next).toList := by
  rw [processed, List.filterMap_append]
  cases read : received next with
  | none => simp [processed, read]
  | some entry => simp [processed, read]

theorem request_reconnect {loop : Loop} {command : Bytes}
    (asks : loop.parser.dumpCommand = .ok (.ok command))
    (connects dumps : Bool) :
    (loop.reconnect connects dumps).2.request =
      if connects && dumps then some command else none := by
  have asks' : CLogParser.dumpCommand
      { loop.parser.disconnect with isConnected := true } =
        .ok (.ok command) := asks
  unfold Loop.reconnect
  cases connects with
  | false => rfl
  | true =>
      simp only [if_true, asks']
      cases dumps <;> rfl

theorem stored_of_carries {packet : Packet} {event : Bytes}
    (carries : packet.carries event = true) :
    Stored packet.event 0 event ∧ packet.eventLen = event.length := by
  unfold Packet.carries at carries
  rw [Bool.and_eq_true, beq_iff_eq, beq_iff_eq] at carries
  refine ⟨⟨[], packet.event.drop event.length, ?_, rfl⟩, carries.2⟩
  rw [List.nil_append]
  calc
    packet.event = packet.event.take event.length ++
        packet.event.drop event.length := (List.take_append_drop _ _).symm
    _ = event ++ packet.event.drop event.length := by rw [carries.1]

variable {crc : Bytes → Nat} {master : Master} {before after : Replication}
  {input : Input} {effect : Effect}

/-- What a step does, one constructor for each way it can go. -/
inductive Replicated (crc : Bytes → Nat) (master : Master)
    (before : Replication) : Input → Replication → Effect → Prop
  | stopped {loop : Loop} :
      loop.parser.position = before.position →
      loop.parser.fmt = before.loop.parser.fmt →
      loop.streaming = before.loop.streaming →
      Replicated crc master before .stop { before with loop } {}
  | broken {input : Input} {effect : Effect} (what : String) :
      (∀ packet handlerThrows, input = .read packet handlerThrows →
        packet.isEnd = true) →
      (∀ connects dumps, input ≠ .reconnect connects dumps) →
      Replicated crc master before input
        { loop := (before.loop.readFailed what).1 } effect
  | reconnected (connects dumps : Bool) :
      before.loop.streaming = false →
      Replicated crc master before (.reconnect connects dumps)
        { loop := (before.loop.reconnect connects dumps).1
          ahead := (before.loop.reconnect connects dumps).2.request.elim []
            master.answerCommand }
        (before.loop.reconnect connects dumps).2
  | received {packet : Packet} {handlerThrows : Bool} {sent : Sent}
      {ahead : List Sent} {outcome : Outcome} :
      before.loop.streaming = true →
      packet.isEnd = false →
      before.ahead = sent :: ahead →
      packet.carries sent.event.encode = true →
      outcome = before.loop.parser.dispatchEvent crc packet.event
        packet.eventLen handlerThrows →
      Replicated crc master before (.read packet handlerThrows)
        { loop := { before.loop with
            parser := outcome.state, halted := outcome.exit.isUndefined }
          ahead }
        { calls := outcome.calls, exit := outcome.exit }

theorem step_replicated
    (stepped : step crc master before input = some (after, effect)) :
    Replicated crc master before input after effect := by
  unfold step at stepped
  cases looped : Loop.step crc before.loop input with
  | none =>
      rw [looped] at stepped
      cases stepped
  | some result =>
      obtain ⟨loop, shown⟩ := result
      rw [looped] at stepped
      obtain ⟨_, _, looped⟩ := Loop.step_stepped looped
      cases looped with
      | stopped =>
          cases stepped
          exact .stopped rfl rfl rfl
      | reconnected connects dumps disconnected =>
          cases stepped
          exact .reconnected connects dumps
            (by simp [Loop.streaming, disconnected])
      | readFailed _ what _ ended =>
          rcases ended with rfl | ⟨packet, throws, rfl, ended⟩
          · cases stepped
            exact .broken what (by simp) (by simp)
          · dsimp only at stepped
            rw [if_pos ended] at stepped
            cases stepped
            exact .broken what (by simp [ended]) (by simp)
      | dispatched packet throws outcome connected dumped more same =>
          dsimp only at stepped
          rw [more, if_neg Bool.false_ne_true] at stepped
          split at stepped
          case h_1 => cases stepped
          case h_2 sent ahead coming =>
            split at stepped
            case isTrue carries =>
              cases stepped
              exact .received (by simp [Loop.streaming, connected, dumped])
                more coming carries same
            case isFalse => cases stepped

/-- The step of the loop in a step of the session. -/
def loopStep (next : Taken Replication Input Effect) :
    Taken Loop Input Effect :=
  ⟨next.before.loop, next.input, next.effect, next.after.loop⟩

theorem step_loop (stepped : step crc master before input = some (after, effect)) :
    Loop.step crc before.loop input = some (after.loop, effect) := by
  unfold step at stepped
  cases looped : Loop.step crc before.loop input with
  | none =>
      rw [looped] at stepped
      cases stepped
  | some result =>
      obtain ⟨loop, shown⟩ := result
      rw [looped] at stepped
      cases input with
      | stop =>
          cases stepped
          rfl
      | reconnect connects dumps =>
          cases stepped
          rfl
      | readError =>
          cases stepped
          rfl
      | read packet handlerThrows =>
          dsimp only at stepped
          split at stepped
          · cases stepped
            rfl
          · split at stepped
            · cases stepped
            · split at stepped
              · cases stepped
                rfl
              · cases stepped

theorem run_loop {start final : Replication}
    {taken : List (Taken Replication Input Effect)}
    (run : Run (step crc master) start taken final) :
    Run (Loop.step crc) start.loop (taken.map loopStep) final.loop := by
  induction run with
  | refl => exact .refl
  | snoc earlier stepped induction =>
      rw [List.map_append]
      exact .snoc induction (step_loop stepped)

end Replication

end MysqlSlave
