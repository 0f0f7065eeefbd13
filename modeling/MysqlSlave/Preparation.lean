import MysqlSlave.ReplicationLoop

/-!
# Preparing the parser

`prepare` from `logparser.cpp`: connect, read the server's version and checksum
setting, ask for checksums on the new session, read the columns of the watched
tables, request the dump.  What the server answers is input.
-/

namespace MysqlSlave

/-- The columns of a table, by name and type text; nothing if the query fails. -/
structure TableAnswer where
  name : Bytes
  columns : Option (List (Bytes × Bytes))

/-- The tables of a database; nothing if it cannot be selected. -/
structure DatabaseAnswer where
  name : Bytes
  tables : Option (List TableAnswer)

/-- What the outside answers to one call of `prepare`.  A query that fails has
no answer; a row may be missing, and a field of a row may be NULL. -/
structure Answers where
  connects : Bool
  version : Option Bytes
  binlogChecksum : Option (Option Bytes)
  setsChecksum : Bool
  databases : Option (List DatabaseAnswer)
  masterStatus : Option (Option (Option Bytes × Option Bytes))
  dumps : Bool

/-- `atoll`. -/
def atoll (text : Bytes) : Int :=
  let digits (text : Bytes) : Nat :=
    (text.takeWhile fun byte => 48 ≤ byte.toNat && byte.toNat ≤ 57).foldl
      (fun value byte => 10 * value + (byte.toNat - 48)) 0
  match text.dropWhile fun byte =>
      byte = 32 || (9 ≤ byte.toNat && byte.toNat ≤ 13) with
  | 45 :: rest => -(digits rest : Int)
  | 43 :: rest => digits rest
  | rest => digits rest

/-- Go on where the first part ended, unless it threw. -/
def Outcome.andThen (first : Outcome) (next : CLogParser → Outcome) :
    Outcome :=
  match first.exit with
  | .done => next first.state
  | _ => first

namespace CLogParser

/-- The version test of `get_binlog_format`. -/
def acceptsVersion (version : Bytes) : Bool :=
  version.head? = some 53 ||
    [[49, 48, 46, 48], [49, 48, 46, 49], [49, 48, 46, 51],
      [49, 48, 46, 52]].contains (version.take 4)

/-- `get_binlog_format`.  The message about a wrong version is formatted from a
string that has been freed. -/
def getBinlogFormat (self : CLogParser) (answers : Answers) : Outcome :=
  match answers.version with
  | none =>
      { state := self
        exit := .threw (.client "could not get server version") }
  | some version =>
      match answers.binlogChecksum with
      | none =>
          { state := self
            exit := .threw
              (.client "could not get 'BINLOG_CHECKSUM' global variable") }
      | some value =>
          let useChecksum := value.any (· ≠ [78, 79, 78, 69])
          if acceptsVersion version then
            let (rc, fmt) := self.fmt.tune 4 (some version) useChecksum
            { state := { self with fmt }
              exit :=
                if rc = 0 then .done
                else .threw (.client "cannot tune format log description") }
          else { state := self, exit := .undefined .useAfterFree }

/-- The columns of one table. -/
def describe (table : CTable) (columns : List (Bytes × Bytes)) : CTable :=
  columns.zipIdx.foldl
    (fun table column => table.addColumn column.1.1 column.2 column.1.2) table

/-- The loop of `build_db_structure` over the tables of one database.  The query
text is put together in 256 bytes. -/
def describeTables (db : CDatabase) :
    List TableAnswer → CLogParser → Outcome
  | [], self => { state := self }
  | answer :: rest, self =>
      match db.getTable answer.name with
      | none => describeTables db rest self
      | some tbl =>
          if answer.name.length + 18 ≥ 256 then
            { state := self, exit := .undefined .overflow }
          else
            match answer.columns with
            | none =>
                { state := self
                  exit := .threw (.client
                    "build_db_structure() call to 'SHOW COLUMNS' failed") }
            | some columns =>
                describeTables db rest
                  { self with
                    tables := Function.update self.tables tbl
                      (describe (self.tables tbl) columns) }

/-- The loop over the databases of the server. -/
def describeDatabases : List DatabaseAnswer → CLogParser → Outcome
  | [], self => { state := self }
  | answer :: rest, self =>
      match self.databases.find? caseIgnorer answer.name with
      | none => describeDatabases rest self
      | some db =>
          match answer.tables with
          | none =>
              { state := self
                exit := .threw (.client
                  "build_db_structure() call to 'mysql_list_tables()' failed") }
          | some tables =>
              (describeTables db tables self).andThen (describeDatabases rest)

/-- `get_last_binlog_position`. -/
def getLastBinlogPosition (answers : Answers) (self : CLogParser) : Outcome :=
  match answers.masterStatus with
  | none =>
      { state := self
        exit := .threw (.client
          "get_last_binlog_position() call to 'show master status' failed") }
  | some none =>
      { state := self
        exit := .threw (.client
          "get_last_binlog_position() 'show master status' returns 0 rows") }
  | some (some (some (first :: name), some pos)) =>
      { state :=
          { self with
            binlogName := first :: name
            binlogPos := (atoll pos % 4294967296).toNat } }
  | some (some _) =>
      { state := self
        exit := .threw (.client
          "get_last_binlog_position() returns invalid row") }

/-- `build_db_structure`. -/
def buildDbStructure (self : CLogParser) (answers : Answers) : Outcome :=
  if self.databases.entries = [] then
    { state := self
      exit := .threw
        (.client "build_db_structure() failed: no databases filtered") }
  else
    match answers.databases with
    | none =>
        { state := self
          exit := .threw (.client
            "build_db_structure() call to 'show databases' failed") }
    | some databases =>
        (describeDatabases databases self).andThen fun self =>
          if self.binlogName = [] ∨ self.binlogPos = 0 then
            self.getLastBinlogPosition answers
          else { state := self }

end CLogParser

end MysqlSlave
