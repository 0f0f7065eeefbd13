import MysqlSlave.EventDispatch

/-!
# Schema freshness

A table gives up its schema when `_table_2_id` has another id for its name.  That
map is keyed by the name as the event spells it, for all databases together, so
it need not know the table.
-/

namespace MysqlSlave

open Region

/-- The table holds the schema of the event. -/
structure CTable.HasSchema (table : CTable) (event : TableMapEvent) : Prop where
  tableId : table.tableId = event.tableId
  columnCount : table.columnCount = event.types.length
  types : ∃ p, table.columnTypes = some p ∧ Stored table.data p event.types
  metadataLength : table.metadataLength = event.metadata.length
  metadata : event.metadata ≠ [] →
    ∃ p, table.metadata = some p ∧ Stored table.data p event.metadata

theorem CTable.TunedWith.hasSchema {event : TableMapEvent} {content : Bytes}
    {this : Address} {before after : CTable} (placed : event.Placed content)
    (tunedWith : TunedWith event content this before after) :
    after.HasSchema event := by
  have parsed := tunedWith.parsed
  refine ⟨parsed.tableId, parsed.columnCount, ⟨_, parsed.columnTypes, ?_⟩,
    parsed.metadataLength, fun some => ⟨event.metadataOffset, ?_, ?_⟩⟩
  · rw [parsed.data]
    exact placed.types
  · rw [parsed.metadata, if_pos (by simpa using some)]
  · rw [parsed.data]
    exact placed.metadata

namespace CLogParser

variable {self : CLogParser} {crc : Bytes → Nat} {memory : Bytes} {len : Nat}
  {event : TableMapEvent} {tbl : Address} {handlerThrows : Bool}

/-- After a TABLE_MAP event the table has its schema exactly if the table had no
schema, or its name another id, or it had this schema before. -/
theorem dispatchEvent_hasSchema_iff (tuned : self.fmt.Tuned)
    (received : Received self.fmt event.encode memory len)
    (watched : self.watched event.dbName event.tableName = some tbl) :
    ((self.dispatchEvent crc memory len handlerThrows).state.tables
        tbl).HasSchema event ↔
      (self.tables tbl).tuned = false ∨
        (∃ other, self.tableToId event.tableName = some other ∧
          other ≠ event.tableId) ∨
        (self.tables tbl).HasSchema event := by
  obtain ⟨table, content, state, _, placed, left⟩ :=
    dispatchEvent_tableMap crc handlerThrows tuned received watched
  rw [state, bound_tables_self]
  by_cases renumbered : ∃ other,
    self.tableToId event.tableName = some other ∧ other ≠ event.tableId
  · rw [remapped_of_renumbered renumbered] at left
    rcases left with ⟨keeps, _⟩ | ⟨_, tunedWith⟩
    · cases keeps
    · exact ⟨fun _ => Or.inr (Or.inl renumbered),
        fun _ => tunedWith.hasSchema placed⟩
  · rw [remapped_of_known renumbered] at left
    rw [or_iff_right renumbered]
    rcases left with ⟨keeps, rfl⟩ | ⟨gives, tunedWith⟩
    · simp [keeps]
    · exact ⟨fun _ => Or.inl gives, fun _ => tunedWith.hasSchema placed⟩

end CLogParser

namespace Loop

variable {crc : Bytes → Nat} {start final : Loop}
  {taken front back : List (Taken Loop Input Effect)}
  {next : Taken Loop Input Effect} {event : TableMapEvent} {tbl : Address}

/-- The step reads this TABLE_MAP event, and `tbl` is the watched table it
names. -/
structure ReadsMap (next : Taken Loop Input Effect) (event : TableMapEvent)
    (tbl : Address) : Prop where
  read : ∃ packet handlerThrows, next.input = .read packet handlerThrows ∧
    Received next.before.parser.fmt event.encode packet.event packet.eventLen
  watched : next.before.parser.watched event.dbName event.tableName = some tbl

/-- The last TABLE_MAP event of a watched table with this name, in whatever
database, had another id. -/
def Renumbered (front : List (Taken Loop Input Effect)) (tblName : Bytes)
    (tableId : Nat) : Prop :=
  ∃ other, Latest (fun next id => ∃ tbl, MapsTable next tblName id tbl) front
    other ∧ other ≠ tableId

/-- In every run, a TABLE_MAP event of a watched table leaves its schema in the
table exactly if the table had no schema, or the last event with the same name
another id, or the table had this schema already. -/
theorem hasSchema_iff (prepared : start.Prepared)
    (run : Run (step crc) start taken final)
    (split : taken = front ++ next :: back) (reads : ReadsMap next event tbl) :
    (next.after.parser.tables tbl).HasSchema event ↔
      (next.before.parser.tables tbl).tuned = false ∨
        Renumbered front event.tableName event.tableId ∨
        (next.before.parser.tables tbl).HasSchema event := by
  obtain ⟨earlier, stepped⟩ := run.at_step split
  have tuned : next.before.parser.fmt.Tuned := by
    rw [(run_keeps earlier).1]
    exact prepared.fresh.fmt
  have renumbered : Renumbered front event.tableName event.tableId ↔
      ∃ other, next.before.parser.tableToId event.tableName = some other ∧
        other ≠ event.tableId := by
    simp only [Renumbered, tableToId_iff_latest prepared earlier]
  rw [renumbered]
  obtain ⟨⟨packet, throws, input, received⟩, watched⟩ := reads
  obtain ⟨before, _, effect, after⟩ := next
  dsimp only at *
  subst input
  obtain ⟨_, _, stepped⟩ := step_stepped stepped
  cases stepped with
  | readFailed _ what _ ended =>
      rcases ended with impossible | ⟨_, _, same, ended⟩
      · cases impossible
      · cases same
        obtain ⟨code, admitted, _⟩ :=
          (CLogParser.mapsTable_of_received tuned received watched).admitted
        exact absurd admitted (not_admitted_of_isEnd ended)
  | dispatched _ _ outcome _ _ _ same =>
      subst same
      exact CLogParser.dispatchEvent_hasSchema_iff tuned received watched

/-- `d.T` is mapped with another id and a TINYINT column. -/
def renamedMap : Taken Loop Input Effect :=
  mapStep mappedStep.after (sampleMap .d .T 1 2)

theorem renamedMap_run :
    Run (step fun _ => 0) (sampleLoop false [([100], [116])])
      [mappedStep, renamedMap] renamedMap.after :=
  run_readStep _ mappedStep_run (by decide +kernel)

theorem renamedMap_reads :
    ReadsMap renamedMap (sampleMap .d .T 1 2) 0 :=
  ⟨⟨_, _, rfl, [], [0], by decide +kernel, by decide, rfl, rfl, by decide⟩,
    by decide +kernel⟩

/-- The table keeps the old id and column: its name is new to `_table_2_id`. -/
theorem not_hasSchema_renamed :
    (sampleLoop false [([100], [116])]).Prepared ∧
      Run (step fun _ => 0) (sampleLoop false [([100], [116])])
        [mappedStep, renamedMap] renamedMap.after ∧
      ReadsMap renamedMap (sampleMap .d .T 1 2) 0 ∧
      renamedMap.effect.exit = .done ∧
      ¬(renamedMap.after.parser.tables 0).HasSchema (sampleMap .d .T 1 2) := by
  refine ⟨sampleLoop_prepared _ _, renamedMap_run, renamedMap_reads,
    by decide +kernel, fun has => ?_⟩
  have tableId := has.tableId
  revert tableId
  decide +kernel

theorem hasSchema_iff_first :
    (mappedStep.after.parser.tables 0).HasSchema (sampleMap .d .t 3 1) := by
  have reads : ReadsMap mappedStep (sampleMap .d .t 3 1) 0 :=
    ⟨⟨_, _, rfl, [], [0], rfl, by decide, rfl, rfl, by decide⟩, rfl⟩
  have front : [mappedStep, renamedMap] = [] ++ mappedStep :: [renamedMap] := rfl
  exact (hasSchema_iff (sampleLoop_prepared _ _) renamedMap_run front
    reads).mpr (Or.inl rfl)

end Loop

end MysqlSlave
