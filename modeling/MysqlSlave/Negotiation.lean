import MysqlSlave.Dispatch
import MysqlSlave.Preparation

/-!
# Checksums on every session

The server appends checksums to the events of a session if
`@master_binlog_checksum` has been set on it, and a new connection starts with
the variable unset.  `prepare` sets it, `reconnect` does not.
-/

namespace MysqlSlave

/-- The parser with its connection; `checksumSet` is the session variable. -/
structure Conversation where
  loop : Loop
  checksumSet : Bool := false

/-- A call of `prepare`, or one round of the replication loop. -/
inductive Act
  | prepare (answers : Answers)
  | loop (input : Input)

namespace Loop

/-- `request_binlog_dump`. -/
def requestBinlogDump (self : Loop) (dumps : Bool) : Loop × Effect :=
  match self.parser.dumpCommand with
  | .error fault =>
      ({ parser := self.parser, halted := true },
        { exit := .undefined fault })
  | .ok (.error exn) => ({ parser := self.parser }, { exit := .threw exn })
  | .ok (.ok command) =>
      if dumps then
        ({ parser := self.parser, dump := some command },
          { request := some command })
      else
        ({ parser := self.parser },
          { exit := .threw
              (.dumpFailed self.parser.binlogName self.parser.binlogPos) })

theorem requestBinlogDump_dump (self : Loop) (dumps : Bool) :
    (self.requestBinlogDump dumps).1.dump =
      (self.requestBinlogDump dumps).2.request := by
  unfold requestBinlogDump
  cases self.parser.dumpCommand with
  | error fault => rfl
  | ok answer =>
      cases answer with
      | error exn => rfl
      | ok command => cases dumps <;> rfl

theorem requestBinlogDump_keeps (self : Loop) (dumps : Bool) :
    (self.requestBinlogDump dumps).1.parser = self.parser := by
  unfold requestBinlogDump
  cases self.parser.dumpCommand with
  | error fault => rfl
  | ok answer =>
      cases answer with
      | error exn => rfl
      | ok command => cases dumps <;> rfl

/-- `reconnect` on a connection that comes up ends in `request_binlog_dump`. -/
theorem reconnect_connected (self : Loop) (dumps : Bool) :
    self.reconnect true dumps =
      requestBinlogDump { parser := { self.parser with isConnected := true } }
        dumps := by
  unfold reconnect requestBinlogDump
  rfl

end Loop

namespace Conversation

/-- `prepare`.  `connect` throws the old connection away; on the new one
`setup_master_binlog_checksum` sets the session variable if the server uses
checksums. -/
def prepare (self : Conversation) (answers : Answers) :
    Conversation × Effect :=
  if answers.connects then
    let opened : CLogParser := { self.loop.parser with isConnected := true }
    let format := opened.getBinlogFormat answers
    if format.exit = .done then
      let useChecksum := format.state.fmt.useChecksum
      if useChecksum && !answers.setsChecksum then
        ({ loop := { parser := format.state } },
          { exit := .threw
              (.client "Can not setup master_binlog_checksum") })
      else
        let built := format.state.buildDbStructure answers
        if built.exit = .done then
          let requested :=
            Loop.requestBinlogDump { parser := built.state } answers.dumps
          ({ loop := requested.1, checksumSet := useChecksum }, requested.2)
        else
          ({ loop :=
              { parser := built.state, halted := built.exit.isUndefined }
             checksumSet := useChecksum },
            { exit := built.exit })
    else
      ({ loop :=
          { parser := format.state, halted := format.exit.isUndefined } },
        { exit := format.exit })
  else
    ({ loop := { parser := self.loop.parser } },
      { exit := .threw .connectFailed })

/-- A round of the loop; `reconnect` opens a new session. -/
def round (crc : Bytes → Nat) (self : Conversation) (input : Input) :
    Option (Conversation × Effect) :=
  (self.loop.step crc input).map fun reached =>
    ({ loop := reached.1
       checksumSet :=
        match input with
        | .reconnect _ _ => false
        | _ => self.checksumSet },
      reached.2)

def step (crc : Bytes → Nat) (self : Conversation) :
    Act → Option (Conversation × Effect)
  | .prepare answers =>
      if self.loop.halted then none else some (self.prepare answers)
  | .loop input => self.round crc input

/-- While a dump is being answered, the parser looks for checksums exactly if the
session has them. -/
def Agrees (self : Conversation) : Prop :=
  self.loop.dump.isSome = true →
    self.loop.parser.fmt.useChecksum = self.checksumSet

/-- The parser as its constructor and `watch` leave it: nothing is open. -/
def Closed (self : Conversation) : Prop := self.loop.dump = none

section Frame

open CLogParser

theorem describeTables_fmt (db : CDatabase) (answers : List TableAnswer)
    (self : CLogParser) :
    (describeTables db answers self).state.fmt = self.fmt := by
  induction answers generalizing self with
  | nil => rfl
  | cons answer rest induction =>
      unfold describeTables
      split
      · exact induction self
      · split
        · rfl
        · split
          · rfl
          · exact induction _

theorem describeDatabases_fmt (answers : List DatabaseAnswer)
    (self : CLogParser) :
    (describeDatabases answers self).state.fmt = self.fmt := by
  induction answers generalizing self with
  | nil => rfl
  | cons answer rest induction =>
      unfold describeDatabases
      split
      · exact induction self
      · split
        · rfl
        · rename_i _ db _ _ tables _
          have first := describeTables_fmt db tables self
          unfold Outcome.andThen
          split
          · exact (induction _).trans first
          · exact first

theorem getLastBinlogPosition_fmt (answers : Answers) (self : CLogParser) :
    (self.getLastBinlogPosition answers).state.fmt = self.fmt := by
  unfold getLastBinlogPosition
  split <;> rfl

theorem buildDbStructure_fmt (self : CLogParser) (answers : Answers) :
    (self.buildDbStructure answers).state.fmt = self.fmt := by
  unfold buildDbStructure
  split
  · rfl
  · split
    · rfl
    · rename_i databases _
      have first := describeDatabases_fmt databases self
      unfold Outcome.andThen
      split
      · dsimp only
        split
        · exact (getLastBinlogPosition_fmt answers _).trans first
        · exact first
      · exact first

end Frame

/-- After `prepare`, parser and session agree, and a dump that is answered has
been requested. -/
theorem prepare_agrees (self : Conversation) (answers : Answers) :
    (self.prepare answers).1.Agrees ∧
      (self.prepare answers).1.loop.dump =
        (self.prepare answers).2.request := by
  unfold prepare
  split
  case isFalse => exact ⟨nofun, rfl⟩
  case isTrue =>
    dsimp only
    split
    case isFalse => exact ⟨nofun, rfl⟩
    case isTrue =>
      split
      case isTrue => exact ⟨nofun, rfl⟩
      case isFalse =>
        split
        case isFalse => exact ⟨nofun, rfl⟩
        case isTrue =>
          constructor
          · intro _
            dsimp only
            rw [Loop.requestBinlogDump_keeps]
            exact congrArg CFormatDescriptionLogEvent.useChecksum
              (buildDbStructure_fmt _ answers)
          · exact Loop.requestBinlogDump_dump _ _

/-- What a round of the loop does to the connection. -/
inductive Rounded (before after : Conversation) : Input → Effect → Prop where
  | resumed (connects dumps : Bool) {effect : Effect} :
      after.checksumSet = false →
      after.loop.parser.fmt = before.loop.parser.fmt →
      after.loop.dump = effect.request →
      Rounded before after (.reconnect connects dumps) effect
  | continued {input : Input} {effect : Effect} :
      (∀ connects dumps, input ≠ .reconnect connects dumps) →
      after.checksumSet = before.checksumSet →
      after.loop.parser.fmt = before.loop.parser.fmt →
      (after.loop.dump = none ∨ after.loop.dump = before.loop.dump) →
      effect.request = none →
      Rounded before after input effect

theorem round_rounded {crc : Bytes → Nat} {before after : Conversation}
    {input : Input} {effect : Effect}
    (stepped : before.round crc input = some (after, effect)) :
    Rounded before after input effect := by
  obtain ⟨⟨loop, shown⟩, moved, same⟩ := Option.map_eq_some_iff.mp stepped
  obtain ⟨rfl, rfl⟩ := Prod.mk.inj same
  obtain ⟨_, _, reached⟩ := Loop.step_stepped moved
  dsimp only
  cases reached with
  | stopped =>
      exact .continued (fun _ _ => nofun) rfl rfl (Or.inr rfl) rfl
  | reconnected connects dumps _ =>
      apply Rounded.resumed
      · rfl
      · dsimp only
        rw [Loop.parser_reconnect]
      · cases connects with
        | false => rfl
        | true =>
            rw [Loop.reconnect_connected]
            exact Loop.requestBinlogDump_dump _ dumps
  | readFailed _ what _ ended =>
      have notReconnect : ∀ connects dumps,
          input ≠ .reconnect connects dumps := by
        intro connects dumps same
        subst same
        rcases ended with impossible | ⟨_, _, impossible, _⟩
        · cases impossible
        · cases impossible
      refine .continued notReconnect ?_ rfl (Or.inl rfl) rfl
      cases input with
      | reconnect connects dumps => exact absurd rfl (notReconnect _ _)
      | _ => rfl
  | dispatched packet throws outcome _ _ _ dispatched =>
      subst dispatched
      have setup := before.loop.parser.dispatchEvent_sameSetup crc packet.event
        packet.eventLen throws
      exact .continued (fun _ _ => nofun) rfl setup.fmt (Or.inr rfl) rfl

/-- A dump request is sent with the session variable set, if the parser is going
to look for checksums, and parser and session agree afterwards. -/
def Negotiated (next : Taken Conversation Act Effect) : Prop :=
  (next.effect.request.isSome = true →
      next.after.loop.parser.fmt.useChecksum = true →
      next.after.checksumSet = true) ∧
    next.after.Agrees

/-- A reconnect requests the dump while the parser looks for checksums. -/
def ResumesChecked (next : Taken Conversation Act Effect) : Prop :=
  next.before.loop.parser.fmt.useChecksum = true ∧
    next.effect.request.isSome = true ∧
    ∃ connects dumps, next.input = .loop (.reconnect connects dumps)

section Runs

variable {crc : Bytes → Nat} {start final : Conversation}
  {taken : List (Taken Conversation Act Effect)}

theorem not_negotiated_of_resumes {next : Taken Conversation Act Effect}
    (stepped : next.before.step crc next.input =
      some (next.after, next.effect))
    (resumes : ResumesChecked next) : ¬Negotiated next := by
  obtain ⟨before, input, effect, after⟩ := next
  obtain ⟨checks, requested, connects, dumps, same⟩ := resumes
  dsimp only at *
  subst same
  intro negotiated
  have rounded := round_rounded stepped
  cases rounded with
  | resumed _ _ unset sameFmt _ =>
      have set := negotiated.1 requested
        ((congrArg CFormatDescriptionLogEvent.useChecksum sameFmt).trans checks)
      dsimp only at set
      rw [unset] at set
      cases set
  | continued other _ _ _ _ => exact other connects dumps rfl

/-- One step: whoever agrees goes on agreeing, unless a reconnect forgets the
session variable. -/
theorem step_negotiated {next : Taken Conversation Act Effect}
    (stepped : next.before.step crc next.input =
      some (next.after, next.effect))
    (agrees : next.before.Agrees) (kept : ¬ResumesChecked next) :
    Negotiated next := by
  obtain ⟨before, input, effect, after⟩ := next
  dsimp only at *
  cases input with
  | prepare answers =>
      simp only [step] at stepped
      split at stepped
      · cases stepped
      · have prepared := before.prepare_agrees answers
        rw [Option.some.inj stepped] at prepared
        constructor
        · intro requested checks
          dsimp only at requested checks ⊢
          rw [← prepared.1 (prepared.2.symm ▸ requested)]
          exact checks
        · exact prepared.1
  | loop input =>
      have rounded := round_rounded stepped
      cases rounded with
      | resumed connects dumps unset sameFmt answered =>
          have unchecked : effect.request.isSome = true →
              after.loop.parser.fmt.useChecksum = false := by
            intro requested
            by_contra checks
            apply kept
            refine ⟨?_, requested, connects, dumps, rfl⟩
            rw [← sameFmt]
            exact Bool.eq_true_of_not_eq_false checks
          constructor
          · intro requested checks
            rw [unchecked requested] at checks
            cases checks
          · intro open_
            dsimp only at open_ ⊢
            rw [unset, unchecked (answered ▸ open_)]
      | continued _ sameSession sameFmt dump silent =>
          constructor
          · intro requested
            dsimp only at requested
            rw [silent] at requested
            cases requested
          · intro open_
            dsimp only at open_ ⊢
            rw [sameFmt, sameSession]
            apply agrees
            rcases dump with closed | same
            · rw [closed] at open_
              cases open_
            · rwa [← same]

/-- In every run that starts with nothing open, every dump request finds the
session variable as the parser expects it exactly if no reconnect requests a dump
while the parser looks for checksums. -/
theorem negotiated_iff (closed : start.Closed)
    (run : Run (step crc) start taken final) :
    (∀ next ∈ taken, Negotiated next) ↔
      ∀ next ∈ taken, ¬ResumesChecked next := by
  constructor
  · intro negotiated next member resumes
    obtain ⟨front, back, split⟩ := List.append_of_mem member
    exact not_negotiated_of_resumes (run.at_step split).2 resumes
      (negotiated next member)
  · intro kept
    suffices held : final.Agrees ∧ ∀ next ∈ taken, Negotiated next from held.2
    induction run with
    | refl =>
        constructor
        · intro open_
          rw [closed] at open_
          cases open_
        · simp
    | snoc earlier stepped induction =>
        obtain ⟨agrees, before⟩ := induction fun next member =>
          kept next (List.mem_append_left _ member)
        have last := step_negotiated stepped agrees
          (kept _ (List.mem_append_right _ List.mem_cons_self))
        constructor
        · exact last.2
        · intro next member
          rcases List.mem_append.mp member with old | new
          · exact before next old
          · obtain rfl := List.mem_singleton.mp new
            exact last

end Runs

/-- A parser watching `d.t`, with nothing open, that is to start at position 4 of
the file `b`. -/
def sampleClosed : Conversation :=
  let parser : CLogParser := { binlogName := [98], binlogPos := 4 }
  { loop := { parser := parser.watch [100] [116] } }

/-- A server of version 5.6 that uses CRC32 checksums. -/
def checkedAnswers : Answers where
  connects := true
  version := some [53, 46, 54]
  binlogChecksum := some (some [67, 82, 67, 51, 50])
  setsChecksum := true
  databases := some []
  masterStatus := none
  dumps := true

/-- The parser is prepared. -/
def preparedStep : Taken Conversation Act Effect :=
  let reached := sampleClosed.prepare checkedAnswers
  ⟨sampleClosed, .prepare checkedAnswers, reached.2, reached.1⟩

/-- A read fails. -/
def droppedStep : Taken Conversation Act Effect :=
  let reached := preparedStep.after.loop.readFailed
    "Error reading packet from server"
  ⟨preparedStep.after, .loop .readError, reached.2,
    { loop := reached.1, checksumSet := preparedStep.after.checksumSet }⟩

/-- The connection is replaced. -/
def resumedStep : Taken Conversation Act Effect :=
  let reached := droppedStep.after.loop.reconnect true true
  ⟨droppedStep.after, .loop (.reconnect true true), reached.2,
    { loop := reached.1 }⟩

/-- The session that is opened second has no checksums, and the parser looks for
them. -/
theorem not_negotiated_resumed :
    sampleClosed.Closed ∧
      Run (step fun _ => 0) sampleClosed
        [preparedStep, droppedStep, resumedStep] resumedStep.after ∧
      resumedStep.after.loop.parser.fmt.useChecksum = true ∧
      resumedStep.after.checksumSet = false ∧ ¬Negotiated resumedStep := by
  have resumes : ResumesChecked resumedStep := ⟨rfl, rfl, true, true, rfl⟩
  have stepped : resumedStep.before.step (fun _ => 0) resumedStep.input =
      some (resumedStep.after, resumedStep.effect) := rfl
  refine ⟨rfl, ?_, rfl, rfl, not_negotiated_of_resumes stepped resumes⟩
  exact .snoc (.snoc (.snoc .refl rfl) rfl) stepped

theorem negotiated_iff_prepared : Negotiated preparedStep := by
  have run : Run (step fun _ => 0) sampleClosed [preparedStep]
      preparedStep.after := .snoc .refl rfl
  have closed : sampleClosed.Closed := rfl
  have none : ∀ next ∈ [preparedStep], ¬ResumesChecked next := by
    intro next member resumes
    obtain rfl := List.mem_singleton.mp member
    obtain ⟨_, _, _, _, impossible⟩ := resumes
    cases impossible
  exact (negotiated_iff closed run).mpr none preparedStep
    (List.mem_singleton.mpr rfl)

end Conversation

end MysqlSlave
