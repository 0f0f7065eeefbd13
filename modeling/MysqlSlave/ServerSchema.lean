import MysqlSlave.ErrorRecovery
import MysqlSlave.Negotiation
import MysqlSlave.Watching

/-!
# The schema of the server

`prepare` on a parser that has been set up: it takes the columns of the watched
tables from what the server lists, and leaves the loop ready to read.
-/

namespace MysqlSlave

/-- The column lists that are given for a table. -/
def listed (answers : List DatabaseAnswer) (name : FoldedName) :
    List (List (Bytes × Bytes)) :=
  answers.flatMap fun database =>
    (database.tables.getD []).filterMap fun table =>
      if foldedName database.name table.name = name then table.columns
      else none

/-- The columns as they are kept. -/
def columnEntries (columns : List (Bytes × Bytes)) :
    List (Bytes × CColumnDesc) :=
  columns.zipIdx.map fun column =>
    (column.1.1, ({} : CColumnDesc).update column.2 column.1.2)

namespace CLogParser

/-- The column lists that reach the table at an address. -/
def listedAt (self : CLogParser) (answers : List DatabaseAnswer)
    (address : Address) : List (List (Bytes × Bytes)) :=
  answers.flatMap fun database =>
    (database.tables.getD []).filterMap fun table =>
      if self.watched database.name table.name = some address then
        table.columns
      else none

variable {self : CLogParser} {answers : Answers}

theorem Registers.listedAt_eq {names : List FoldedName} {name : FoldedName}
    {address : Address} (registers : self.Registers names)
    (here : names[address]? = some name) (answers : List DatabaseAnswer) :
    self.listedAt answers address = listed answers name := by
  simp only [listedAt, listed, registers.watched, here, Option.some.injEq]
  simp only [eq_comm]

theorem describeTables_done {db : CDatabase} {tables : List TableAnswer}
    (done : (describeTables db tables self).exit = .done) :
    (describeTables db tables self).state =
      { self with
        tables := fun address =>
          (tables.filterMap fun table =>
            if db.getTable table.name = some address then table.columns
            else none).foldl describe (self.tables address) } := by
  induction tables generalizing self with
  | nil => rfl
  | cons table rest induction =>
      unfold describeTables at done ⊢
      cases found : db.getTable table.name with
      | none =>
          simp only [found] at done ⊢
          simpa [found] using induction done
      | some tbl =>
          simp only [found] at done ⊢
          split at done
          · cases done
          · rename_i short
            rw [if_neg short]
            cases columns : table.columns with
            | none =>
                simp only [columns] at done
                cases done
            | some columns' =>
                simp only [columns] at done ⊢
                rw [induction done]
                congr 1
                funext address
                by_cases here : tbl = address
                · subst here
                  simp [found, columns]
                · have kept : Function.update self.tables tbl
                      (describe (self.tables tbl) columns') address =
                      self.tables address :=
                    Function.update_of_ne (Ne.symm here) _ _
                  simp [found, here, kept]

theorem describeDatabases_done {databases : List DatabaseAnswer}
    (done : (describeDatabases databases self).exit = .done) :
    (describeDatabases databases self).state =
      { self with
        tables := fun address =>
          (self.listedAt databases address).foldl describe
            (self.tables address) } := by
  induction databases generalizing self with
  | nil => rfl
  | cons database rest induction =>
      unfold describeDatabases at done ⊢
      cases found : self.databases.find? caseIgnorer database.name with
      | none =>
          simp only [found] at done ⊢
          rw [induction done]
          congr 1
          funext address
          simp [listedAt, watched, found]
      | some db =>
          simp only [found] at done ⊢
          cases given : database.tables with
          | none =>
              simp only [given] at done
              cases done
          | some tables =>
              simp only [given] at done ⊢
              unfold Outcome.andThen at done ⊢
              cases first : (describeTables db tables self).exit with
              | done =>
                  simp only [first] at done ⊢
                  rw [describeTables_done first] at done ⊢
                  rw [induction done]
                  congr 1
                  funext address
                  have whole : self.listedAt (database :: rest) address =
                      (tables.filterMap fun table =>
                        if db.getTable table.name = some address then
                          table.columns
                        else none) ++ self.listedAt rest address := by
                    simp [listedAt, watched, found, given]
                  rw [whole, List.foldl_append]
                  rfl
              | threw exn =>
                  simp only [first] at done
                  cases done
              | undefined fault =>
                  simp only [first] at done
                  cases done

theorem foldl_describe (lists : List (List (Bytes × Bytes)))
    (table : CTable) :
    lists.foldl describe table =
      { table with
        columns := table.columns.assignAll caseIgnorer
          (lists.flatMap columnEntries) } := by
  induction lists generalizing table with
  | nil => rfl
  | cons columns rest induction =>
      have added : ∀ (pairs : List ((Bytes × Bytes) × Nat)) (table : CTable),
          pairs.foldl (fun table column =>
              table.addColumn column.1.1 column.2 column.1.2) table =
            { table with
              columns := table.columns.assignAll caseIgnorer
                (pairs.map fun column =>
                  (column.1.1,
                    ({} : CColumnDesc).update column.2 column.1.2)) } := by
        intro pairs
        induction pairs with
        | nil => exact fun table => rfl
        | cons pair pairs induction => exact fun table => induction _
      rw [List.foldl_cons, induction, describe, added, List.flatMap_cons,
        OrderedMap.assignAll, OrderedMap.assignAll, OrderedMap.assignAll,
        List.foldl_append]
      rfl

/-- The position that the dump starts from. -/
def StartsAt (self : CLogParser) (answers : Answers)
    (position : Bytes × Nat) : Prop :=
  if self.binlogName = [] ∨ self.binlogPos = 0 then
    ∃ name pos, answers.masterStatus = some (some (some name, some pos)) ∧
      position = (name, (atoll pos % 4294967296).toNat)
  else position = self.position

theorem getLastBinlogPosition_done
    (done : (self.getLastBinlogPosition answers).exit = .done) :
    ∃ name pos, answers.masterStatus = some (some (some name, some pos)) ∧
      (self.getLastBinlogPosition answers).state =
        { self with
          binlogName := name
          binlogPos := (atoll pos % 4294967296).toNat } := by
  unfold getLastBinlogPosition at done ⊢
  split at done
  · cases done
  · cases done
  · rename_i first name pos status
    exact ⟨first :: name, pos, status, rfl⟩
  · cases done

theorem buildDbStructure_done
    (done : (self.buildDbStructure answers).exit = .done) :
    ∃ databases position, answers.databases = some databases ∧
      self.StartsAt answers position ∧
      (self.buildDbStructure answers).state =
        { self with
          tables := fun address =>
            (self.listedAt databases address).foldl describe
              (self.tables address)
          binlogName := position.1
          binlogPos := position.2 } := by
  unfold buildDbStructure at done ⊢
  split at done
  · cases done
  · rename_i some
    rw [if_neg some]
    cases given : answers.databases with
    | none =>
        simp only [given] at done
        cases done
    | some databases =>
        simp only [given] at done ⊢
        unfold Outcome.andThen at done ⊢
        cases first : (describeDatabases databases self).exit with
        | done =>
            simp only [first, describeDatabases_done first] at done ⊢
            unfold StartsAt
            by_cases unset : self.binlogName = [] ∨ self.binlogPos = 0
            · simp only [if_pos unset] at done ⊢
              obtain ⟨name, pos, status, state⟩ :=
                getLastBinlogPosition_done done
              exact ⟨databases, _, rfl, ⟨name, pos, status, rfl⟩, state⟩
            · simp only [if_neg unset] at done ⊢
              exact ⟨databases, _, rfl, rfl, rfl⟩
        | threw exn =>
            simp only [first] at done
            cases done
        | undefined fault =>
            simp only [first] at done
            cases done

theorem getBinlogFormat_done
    (done : (self.getBinlogFormat answers).exit = .done) :
    ∃ fmt : CFormatDescriptionLogEvent, fmt.Tuned ∧
      (self.getBinlogFormat answers).state = { self with fmt } := by
  unfold getBinlogFormat at done ⊢
  split at done
  · cases done
  · rename_i version _
    split at done
    · cases done
    · dsimp only at done ⊢
      split at done
      · rename_i value _ accepted
        simp only [accepted, if_true]
        exact ⟨_, ⟨rfl, rfl, rfl⟩, rfl⟩
      · cases done

theorem setUp_new (calls : List Setup) :
    (∀ address, (setUp calls).tables address = {}) ∧
      (∀ id, (setUp calls).idToTable id = none) ∧
      ∀ name, (setUp calls).tableToId name = none := by
  induction calls using List.reverseRecOn with
  | nil => exact ⟨fun _ => rfl, fun _ => rfl, fun _ => rfl⟩
  | append_singleton calls call induction =>
      rw [setUp, List.foldl_concat, ← setUp]
      obtain ⟨tables, ids, names⟩ := induction
      cases call with
      | setConnectionParams slaveId => exact ⟨tables, ids, names⟩
      | setBinlogPosition fname pos => exact ⟨tables, ids, names⟩
      | watch dbName tableName =>
          dsimp only [takeSetup]
          unfold watch
          split
          · exact ⟨tables, ids, names⟩
          · dsimp only
            split
            · exact ⟨tables, ids, names⟩
            · refine ⟨fun address => ?_, ids, names⟩
              dsimp only
              rw [Function.update_apply]
              split
              · rfl
              · exact tables address

end CLogParser

namespace Conversation

open CLogParser

theorem requestBinlogDump_done {loop : Loop} {dumps : Bool}
    (done : (loop.requestBinlogDump dumps).2.exit = .done) :
    ∃ command, loop.parser.dumpCommand = .ok (.ok command) ∧
      (loop.requestBinlogDump dumps).1 =
        { parser := loop.parser, dump := some command } := by
  unfold Loop.requestBinlogDump at done ⊢
  split at done
  · cases done
  · cases done
  · rename_i command asked
    split at done
    · rename_i granted
      exact ⟨command, asked, by simp only [granted, if_true]⟩
    · cases done

theorem prepare_done {self : Conversation} {answers : Answers}
    (done : (self.prepare answers).2.exit = .done) :
    ∃ fmt databases position command parser, fmt.Tuned ∧
      answers.databases = some databases ∧
      self.loop.parser.StartsAt answers position ∧
      parser =
        { self.loop.parser with
          fmt
          isConnected := true
          tables := fun address =>
            (self.loop.parser.listedAt databases address).foldl describe
              (self.loop.parser.tables address)
          binlogName := position.1
          binlogPos := position.2 } ∧
      parser.dumpCommand = .ok (.ok command) ∧
      (self.prepare answers).1 =
        { loop := { parser, dump := some command }
          checksumSet := fmt.useChecksum } := by
  unfold prepare at done ⊢
  split at done
  case isFalse => cases done
  case isTrue connects =>
    rw [if_pos connects]
    dsimp only at done ⊢
    split at done
    case isFalse notDone => exact absurd done notDone
    case isTrue formatted =>
      rw [if_pos formatted]
      obtain ⟨fmt, tuned, format⟩ := getBinlogFormat_done formatted
      rw [format] at done ⊢
      split at done
      case isTrue => cases done
      case isFalse set =>
        rw [if_neg set]
        split at done
        case isFalse notDone => exact absurd done notDone
        case isTrue built =>
          rw [if_pos built]
          obtain ⟨databases, position, given, starts, state⟩ :=
            buildDbStructure_done built
          rw [state] at done ⊢
          obtain ⟨command, asked, requested⟩ := requestBinlogDump_done done
          exact ⟨fmt, databases, position, command, _, tuned, given, starts,
            rfl, asked, congrArg (Conversation.mk · fmt.useChecksum)
              requested⟩

/-- What a parser that has been set up is after `prepare`. -/
structure Opened (calls : List Setup) (answers : Answers)
    (session : Conversation) : Prop where
  prepared : session.loop.Prepared
  agrees : session.loop.parser.fmt.useChecksum = session.checksumSet
  databases : session.loop.parser.databases = (setUp calls).databases
  position : (setUp calls).StartsAt answers session.loop.parser.position
  tables : ∀ address, ∃ columns,
    session.loop.parser.tables address = { columns }
  columns : ∃ databases, answers.databases = some databases ∧
    ∀ dbName tableName address,
      (setUp calls).watched dbName tableName = some address →
        session.loop.parser.tables address =
          (listed databases (foldedName dbName tableName)).foldl describe {}

/-- The session of a parser that has been set up. -/
def fresh (calls : List Setup) : Conversation :=
  { loop := { parser := setUp calls } }

theorem prepare_tables {calls : List Setup} {answers : Answers}
    {parser : CLogParser}
    (same : ((fresh calls).prepare answers).1.loop.parser = parser)
    (done : ((fresh calls).prepare answers).2.exit = .done) :
    parser.databases = (setUp calls).databases ∧
      (∀ id, parser.idToTable id = none) ∧
      (∀ address, ∃ columns, parser.tables address = { columns }) ∧
      ∃ databases, answers.databases = some databases ∧
        ∀ dbName tableName address,
          (setUp calls).watched dbName tableName = some address →
            parser.tables address =
              (listed databases (foldedName dbName tableName)).foldl describe
                {} := by
  obtain ⟨untouched, ids, _⟩ := setUp_new calls
  obtain ⟨fmt, databases, position, command, after, _, given, _, asIs, _,
    session⟩ := prepare_done done
  rw [session] at same
  subst same asIs
  refine ⟨rfl, ids, ?_, databases, given, ?_⟩
  · intro address
    have new := untouched address
    simp only [fresh, new, foldl_describe]
    exact ⟨_, rfl⟩
  · intro dbName tableName address here
    have registers := setUp_registers calls
    have name := (registers.watched ..).mp here
    dsimp only [fresh]
    rw [untouched address, registers.listedAt_eq name]

/-- Whatever calls set the parser up and whatever the server answers: a `prepare`
that comes back leaves a loop that can read, the columns that the server lists for
each watched table, and the dump requested from the position that was set or that
the server has. -/
theorem prepare_opened {calls : List Setup} {answers : Answers}
    (done : ((fresh calls).prepare answers).2.exit = .done) :
    Opened calls answers ((fresh calls).prepare answers).1 := by
  obtain ⟨databases, ids, new, columns⟩ := prepare_tables rfl done
  obtain ⟨_, _, names⟩ := setUp_new calls
  obtain ⟨fmt, _, position, command, parser, tuned, _, starts, same, asked,
    session⟩ := prepare_done done
  rw [session] at databases ids new columns ⊢
  have untuned : ∀ address, (parser.tables address).tuned = false ∧
      (parser.tables address).rows = [] ∧
      (parser.tables address).newRows = [] := by
    intro address
    obtain ⟨columns, table⟩ := new address
    dsimp only at table
    rw [table]
    exact ⟨rfl, rfl, rfl⟩
  refine ⟨⟨⟨?_, untuned, ids, ?_⟩, ?_, ⟨command, asked, rfl⟩, rfl⟩, ?_,
    databases, ?_, new, columns⟩
  · exact same ▸ tuned
  · exact same ▸ names
  · exact same ▸ rfl
  · exact same ▸ rfl
  · exact same ▸ starts

/-- The table `d.t` is watched from the start of the file `b`. -/
def watchPair : List Setup :=
  [.setConnectionParams 5, .setBinlogPosition [98] 4, .watch [100] [116]]

/-- The columns `ID` and `n`. -/
def pairColumns : List (Bytes × Bytes) :=
  [([73, 68], [105, 110, 116]), ([110], [116, 101, 120, 116])]

/-- A server without checksums lists these columns for `D.T`. -/
def listPair : Answers where
  connects := true
  version := some [53, 46, 53]
  binlogChecksum := some none
  setsChecksum := true
  databases := some [⟨[68], some [⟨[84], some pairColumns⟩]⟩]
  masterStatus := none
  dumps := true

theorem prepare_opened_pair :
    Opened watchPair listPair ((fresh watchPair).prepare listPair).1 :=
  prepare_opened (by decide +kernel)

end Conversation

end MysqlSlave
