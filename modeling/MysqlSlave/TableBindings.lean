import MysqlSlave.Dispatch
import MysqlSlave.EventFormat

/-!
# The id maps over a run

`_id_2_table` and `_table_2_id` hold what the TABLE_MAP events of watched tables
have put there: for every id the table of the last such event with that id, and
for every name the id of the last such event with that name.
-/

namespace MysqlSlave

open Region

namespace CLogParser

/-- A TABLE_MAP event of a watched table. -/
structure MapsTable (parser : CLogParser) (buf : Bytes) (len : Nat)
    (tblName : Bytes) (tableId : Nat) (tbl : Address) : Prop where
  admitted : ∃ code, parser.Admitted buf len code ∧
    LogEventType.ofCode code = .tableMapEvent
  watched : ∃ dbName,
    CTableMapLogEvent.getDatabaseName buf parser.fmt = .ok dbName ∧
      parser.watched dbName tblName = some tbl
  tblName : CTableMapLogEvent.getTableName buf parser.fmt = .ok tblName
  tableId : CTableMapLogEvent.getTableId buf parser.fmt = .ok tableId

/-- A TABLE_MAP event that names no watched table. -/
structure MapsUnwatched (parser : CLogParser) (buf : Bytes) (len : Nat)
    (tableId : Nat) : Prop where
  admitted : ∃ code, parser.Admitted buf len code ∧
    LogEventType.ofCode code = .tableMapEvent
  unwatched : ∃ dbName,
    CTableMapLogEvent.getDatabaseName buf parser.fmt = .ok dbName ∧
      ∀ tblName, CTableMapLogEvent.getTableName buf parser.fmt = .ok tblName →
        parser.watched dbName tblName = none
  tableId : CTableMapLogEvent.getTableId buf parser.fmt = .ok tableId

variable {self : CLogParser} {crc : Bytes → Nat} {buf : Bytes} {len : Nat}
  {handlerThrows : Bool} {tblName tblName' : Bytes} {tableId tableId' : Nat}
  {tbl tbl' : Address}

theorem MapsTable.unique (first : self.MapsTable buf len tblName tableId tbl)
    (second : self.MapsTable buf len tblName' tableId' tbl') :
    tblName = tblName' ∧ tableId = tableId' ∧ tbl = tbl' := by
  have names : tblName = tblName' := by
    simpa using first.tblName.symm.trans second.tblName
  have ids : tableId = tableId' := by
    simpa using first.tableId.symm.trans second.tableId
  obtain ⟨dbName, dbRead, watched⟩ := first.watched
  obtain ⟨dbName', dbRead', watched'⟩ := second.watched
  have databases : dbName = dbName' := by
    simpa using dbRead.symm.trans dbRead'
  subst names databases
  exact ⟨rfl, ids, by simpa using watched.symm.trans watched'⟩

/-- An event changes the id maps only as a TABLE_MAP of a watched table. -/
theorem dispatchEvent_maps (crc : Bytes → Nat) (self : CLogParser)
    (buf : Bytes) (len : Nat) (handlerThrows : Bool) :
    let after := (self.dispatchEvent crc buf len handlerThrows).state
    (∃ tblName tableId tbl, self.MapsTable buf len tblName tableId tbl ∧
        after.idToTable =
          Function.update self.idToTable tableId (some tbl) ∧
        after.tableToId =
          Function.update self.tableToId tblName (some tableId)) ∨
      (∀ tblName tableId tbl,
          ¬self.MapsTable buf len tblName tableId tbl) ∧
        after.idToTable = self.idToTable ∧
        after.tableToId = self.tableToId := by
  dsimp only
  by_cases admitted : ∃ code, self.Admitted buf len code
  case neg =>
    obtain ⟨exit, same, _⟩ := dispatchEvent_of_not_admitted crc handlerThrows
      (not_exists.mp admitted)
    rw [same]
    refine Or.inr ⟨fun tblName tableId tbl maps => ?_, rfl, rfl⟩
    obtain ⟨code, passed, _⟩ := maps.admitted
    exact admitted ⟨code, passed⟩
  obtain ⟨code, admitted⟩ := admitted
  rw [dispatchEvent_of_admitted admitted, (checkOutcome_state _ _ _ _).1]
  have other : LogEventType.ofCode code ≠ .tableMapEvent →
      ∀ tblName tableId tbl,
        ¬self.MapsTable buf len tblName tableId tbl := by
    intro wrong tblName tableId tbl maps
    obtain ⟨code', passed, type⟩ := maps.admitted
    rw [passed.unique admitted] at type
    exact wrong type
  rcases self.dispatchSwitch_cases (.ofCode code) buf len handlerThrows with
    ⟨wrong, _, moved⟩ | ⟨type, same⟩ | ⟨rows, same⟩
  · generalize self.dispatchSwitch (.ofCode code) buf len handlerThrows =
      outcome at moved
    cases moved
    exact Or.inr ⟨other wrong, rfl, rfl⟩
  · have mapped := self.dispatchTableMap_mapped buf len
    rw [← same] at mapped
    generalize self.dispatchSwitch (.ofCode code) buf len handlerThrows =
      outcome at mapped
    cases mapped with
    | faulted fault unread =>
        refine Or.inr ⟨fun tblName tableId tbl maps => ?_, rfl, rfl⟩
        obtain ⟨dbName, dbRead, _⟩ := maps.watched
        exact unread dbName tblName tableId dbRead maps.tblName maps.tableId
    | unwatched dbRead missing =>
        refine Or.inr ⟨fun tblName tableId tbl maps => ?_, rfl, rfl⟩
        obtain ⟨dbName, dbRead', watched⟩ := maps.watched
        rw [dbRead] at dbRead'
        cases dbRead'
        simp [missing tblName maps.tblName] at watched
    | bound exit dbRead nameRead watched idRead run ended =>
        exact Or.inl ⟨_, _, _,
          ⟨⟨code, admitted, type⟩, ⟨_, dbRead, watched⟩, nameRead, idRead⟩,
          rfl, rfl⟩
    | broke fault dbRead nameRead watched idRead run =>
        exact Or.inl ⟨_, _, _,
          ⟨⟨code, admitted, type⟩, ⟨_, dbRead, watched⟩, nameRead, idRead⟩,
          rfl, rfl⟩
  · have delivered := self.dispatchRows_delivered (.ofCode code) buf len
      handlerThrows
    rw [← same] at delivered
    generalize self.dispatchSwitch (.ofCode code) buf len handlerThrows =
      outcome at delivered
    have wrong : LogEventType.ofCode code ≠ .tableMapEvent := by
      intro type
      rw [type] at rows
      cases rows
    cases delivered <;> exact Or.inr ⟨other wrong, rfl, rfl⟩

end CLogParser

namespace Loop

variable {crc : Bytes → Nat} {start final : Loop}
  {taken : List (Taken Loop Input Effect)}

/-- The step reads a TABLE_MAP event of a watched table. -/
def MapsTable (next : Taken Loop Input Effect) (tblName : Bytes)
    (tableId : Nat) (tbl : Address) : Prop :=
  ∃ packet handlerThrows, next.input = .read packet handlerThrows ∧
    next.before.parser.MapsTable packet.event packet.eventLen tblName tableId
      tbl

/-- The step reads a TABLE_MAP event that names no watched table. -/
def MapsUnwatched (next : Taken Loop Input Effect) (tableId : Nat) : Prop :=
  ∃ packet handlerThrows, next.input = .read packet handlerThrows ∧
    next.before.parser.MapsUnwatched packet.event packet.eventLen tableId

theorem MapsTable.unique {next : Taken Loop Input Effect}
    {tblName tblName' : Bytes} {tableId tableId' : Nat} {tbl tbl' : Address}
    (first : MapsTable next tblName tableId tbl)
    (second : MapsTable next tblName' tableId' tbl') :
    tblName = tblName' ∧ tableId = tableId' ∧ tbl = tbl' := by
  obtain ⟨packet, throws, input, maps⟩ := first
  obtain ⟨packet', throws', input', maps'⟩ := second
  cases input.symm.trans input'
  exact maps.unique maps'

theorem not_admitted_of_isEnd {packet : Packet} {parser : CLogParser}
    {code : UInt8} (ended : packet.isEnd = true) :
    ¬parser.Admitted packet.event packet.eventLen code := by
  intro admitted
  have long := admitted.long
  simp only [Packet.isEnd, Bool.and_eq_true, decide_eq_true_eq] at ended
  simp only [Packet.eventLen, eventLenOffset] at long
  omega

theorem step_maps {next : Taken Loop Input Effect}
    (stepped : step crc next.before next.input =
      some (next.after, next.effect)) :
    (∃ tblName tableId tbl, MapsTable next tblName tableId tbl ∧
        next.after.parser.idToTable =
          Function.update next.before.parser.idToTable tableId (some tbl) ∧
        next.after.parser.tableToId =
          Function.update next.before.parser.tableToId tblName
            (some tableId)) ∨
      (∀ tblName tableId tbl, ¬MapsTable next tblName tableId tbl) ∧
        next.after.parser.idToTable = next.before.parser.idToTable ∧
        next.after.parser.tableToId = next.before.parser.tableToId := by
  obtain ⟨before, input, effect, after⟩ := next
  dsimp only at stepped
  obtain ⟨_, _, stepped⟩ := step_stepped stepped
  cases stepped with
  | stopped =>
      refine Or.inr ⟨?_, rfl, rfl⟩
      rintro _ _ _ ⟨_, _, input, _⟩
      cases input
  | reconnected connects dumps disconnected =>
      refine Or.inr ⟨?_, ?_⟩
      · rintro _ _ _ ⟨_, _, input, _⟩
        cases input
      · rw [parser_reconnect]
        exact ⟨rfl, rfl⟩
  | readFailed _ what connected ended =>
      refine Or.inr ⟨?_, rfl, rfl⟩
      rintro _ _ _ ⟨packet, throws, same, maps⟩
      obtain ⟨code, admitted, _⟩ := maps.admitted
      dsimp only at same
      subst same
      rcases ended with impossible | ⟨packet', throws', same, ended⟩
      · cases impossible
      · cases same
        exact not_admitted_of_isEnd ended admitted
  | dispatched packet throws outcome connected dumped more same =>
      subst same
      rcases before.parser.dispatchEvent_maps crc packet.event packet.eventLen
        throws with ⟨tblName, tableId, tbl, maps, ids, names⟩ | ⟨none, ids⟩
      · exact Or.inl ⟨tblName, tableId, tbl, ⟨packet, throws, rfl, maps⟩, ids,
          names⟩
      · refine Or.inr ⟨?_, ids⟩
        rintro tblName tableId tbl ⟨packet', throws', same, maps⟩
        cases same
        exact none tblName tableId tbl maps

theorem tableToId_iff_latest (prepared : start.Prepared)
    (run : Run (step crc) start taken final) (tblName : Bytes)
    (tableId : Nat) :
    final.parser.tableToId tblName = some tableId ↔
      Latest (fun next id => ∃ tbl, MapsTable next tblName id tbl) taken
        tableId := by
  refine Run.latest_iff (fun loop => loop.parser.tableToId)
    (fun next name id => ∃ tbl, MapsTable next name id tbl)
    prepared.fresh.tableToId ?_ run tblName tableId
  intro next stepped
  rcases step_maps stepped with
    ⟨name, id, tbl, maps, _, names⟩ | ⟨none, _, names⟩
  · refine Or.inl ⟨name, id, ⟨tbl, maps⟩, names, ?_⟩
    rintro name' id' ⟨tbl', maps'⟩
    exact ⟨(maps'.unique maps).1, (maps'.unique maps).2.1⟩
  · exact Or.inr ⟨fun name id ⟨tbl, maps⟩ => none name id tbl maps, names⟩

theorem idToTable_iff_latest (prepared : start.Prepared)
    (run : Run (step crc) start taken final) (tableId : Nat)
    (tbl : Address) :
    final.parser.idToTable tableId = some tbl ↔
      Latest (fun next tbl => ∃ name, MapsTable next name tableId tbl) taken
        tbl := by
  refine Run.latest_iff (fun loop => loop.parser.idToTable)
    (fun next id tbl => ∃ name, MapsTable next name id tbl)
    prepared.fresh.idToTable ?_ run tableId tbl
  intro next stepped
  rcases step_maps stepped with
    ⟨name, id, tbl, maps, ids, _⟩ | ⟨none, ids, _⟩
  · refine Or.inl ⟨id, tbl, ⟨name, maps⟩, ids, ?_⟩
    rintro id' tbl' ⟨name', maps'⟩
    exact ⟨(maps'.unique maps).2.1, (maps'.unique maps).2.2⟩
  · exact Or.inr ⟨fun id tbl ⟨name, maps⟩ => none name id tbl maps, ids⟩

/-- The step that reads a TABLE_MAP event without a checksum. -/
def mapStep (loop : Loop) (event : TableMapEvent) : Taken Loop Input Effect :=
  loop.readStep (fun _ => 0) (.ofEvent (event.encode []))

end Loop

end MysqlSlave
