import MysqlSlave.ChangeLog
import MysqlSlave.EventDispatch
import MysqlSlave.RowHistory

/-!
# The stream of changes

`_id_2_table`, `_table_2_id` and the schemas the tables keep add up to the plain
reading of the log: over every run the handlers are told of the changes of the
watched tables, each once and in order.
-/

namespace MysqlSlave

open Region

section Schema

/-- The table has the columns of the event, and its buffer has a value for each
of them. -/
structure CTable.HoldsMap (table : CTable) (tbl : Address)
    (map : TableMapEvent) : Prop where
  tuned : table.tuned = true
  parsed : ∃ (known : TableMapEvent) (content : Bytes), known.SameTable map ∧
    known.Placed content ∧ known.Parsed content table.toCTableMapLogEvent
  framed : table.row.Framed map.types.length
  table : table.row.table = some tbl

/-- The rows are the changes as they stand in memory, with a byte behind them. -/
def CTable.Decodes (table : CTable) (memory : Bytes) (change : TableChanges) :
    Prop :=
  ∃ owner address behind, behind ≠ [] ∧
    Stored memory address (encodeChanges change.changes ++ behind) ∧
    table.rows = decodedRows owner change.changes address ∧
    table.newRows = decodedNewRows owner change.changes address

theorem CTable.Decodes.shows {table : CTable} {memory : Bytes}
    {change : TableChanges} (decodes : table.Decodes memory change) :
    List.Forall₂ (Shows memory) (change.changes.map RowChange.before)
        table.rows ∧
      List.Forall₂ (Shows memory) (change.changes.filterMap RowChange.after)
        table.newRows := by
  obtain ⟨owner, address, behind, _, stored, rows, newRows⟩ := decodes
  rw [rows, newRows]
  exact decodedRows_show owner stored

namespace CTable.HoldsMap

variable {table : CTable} {tbl : Address} {map other : TableMapEvent}
  {memory : Bytes}

theorem congr (holds : table.HoldsMap tbl map) (same : map.SameTable other) :
    table.HoldsMap tbl other := by
  obtain ⟨tuned, ⟨known, content, alike, placed, parsed⟩, framed, owner⟩ :=
    holds
  refine ⟨tuned, ⟨known, content, ?_, placed, parsed⟩, same.types ▸ framed,
    owner⟩
  exact ⟨alike.tableId.trans same.tableId, alike.dbName.trans same.dbName,
    alike.tableName.trans same.tableName, alike.types.trans same.types,
    alike.metadata.trans same.metadata⟩

theorem of_tuned {content : Bytes} {before after : CTable}
    (placed : map.Placed content)
    (tunedWith : TunedWith map content tbl before after) :
    after.HoldsMap tbl map :=
  ⟨tunedWith.tuned, ⟨map, content, ⟨rfl, rfl, rfl, rfl, rfl⟩, placed,
    tunedWith.parsed⟩, tunedWith.framed, tunedWith.table⟩

theorem tableId (holds : table.HoldsMap tbl map) :
    table.tableId = map.tableId := by
  obtain ⟨known, content, same, _, parsed⟩ := holds.parsed
  exact parsed.tableId.trans same.tableId

variable {change : TableChanges}

theorem hasColumns (holds : table.HoldsMap tbl change.map) :
    table.HasColumns (change.table.columns.map ColumnSpec.column) := by
  obtain ⟨known, content, same, placed, parsed⟩ := holds.parsed
  refine CTable.hasColumns_of_parsed ⟨?_, ?_⟩ change.supported parsed placed
  · exact same.types.trans change.describes.types
  · exact same.metadata.trans change.describes.metadata

theorem readsFull (holds : table.HoldsMap tbl change.map)
    {rlev : CRowLogEvent} (parsed : change.event.Parsed rlev) :
    ReadsFull table rlev change.table change.event.kind.op := by
  have carries := change.carries
  refine ⟨holds.hasColumns, change.supported, ?_, ?_, ?_, ?_⟩
  · rw [parsed.ncolumns, carries.ncolumns]
  · rw [parsed.typeCode, RowsKind.type_isUpdateRows]
  · obtain ⟨padding, pads, bitmap⟩ := carries.used
    have built := parsed.used
    rw [bitmap] at built
    rw [CRowLogEvent.usedColumnsMask_eq]
    exact fullMask_of_encode pads change.table.nonempty change.table.few built
  · intro update
    obtain ⟨padding, pads, bitmap⟩ := carries.usedAfter update
    have built := parsed.usedAfter update
    rw [bitmap] at built
    rw [CRowLogEvent.usedColumnsAfterimageMask_eq]
    exact fullMask_of_encode pads change.table.nonempty change.table.few built

/-- `update` with a received event of the table: the rows are its changes, and the
table still has its columns. -/
theorem update (holds : table.HoldsMap tbl change.map)
    {rlev : CRowLogEvent} {checksum slack : Bytes}
    (parsed : change.event.Parsed rlev) (room : slack ≠ [])
    (small : (change.event.encode checksum).length < 4294967296) :
    ∃ after,
      table.update (change.event.encode checksum ++ slack) rlev =
        .ok (0, after) ∧
      after.HoldsMap tbl change.map ∧
      after.Decodes (change.event.encode checksum ++ slack) change := by
  have carries := change.carries
  have images : Stored (change.event.encode checksum ++ slack) rlev.rowsData
      (encodeChanges change.changes ++ (checksum ++ slack)) := by
    rw [← carries.images, parsed.rowsData]
    exact change.event.images_stored checksum slack
  have length : rlev.rowsLen = (encodeChanges change.changes).length := by
    rw [parsed.rowsLen, carries.images]
  have whole : (change.event.encode checksum).length =
      19 + change.event.body.length + checksum.length := encodeEvent_length ..
  have part : change.event.body.length =
      change.event.front.length + change.event.images.length :=
    List.length_append
  have short : rlev.rowsLen < 4294967296 := by
    rw [parsed.rowsLen]
    omega
  have roomLeft : checksum ++ slack ≠ [] :=
    List.append_ne_nil_of_right_ne_nil _ room
  have framed : table.row.Framed change.table.columns.length := by
    have framed := holds.framed
    rwa [change.describes.types, List.length_map] at framed
  have enough := length_le_encodeChanges carries.full
  rw [← length] at enough
  let start : CTable.RowsCursor :=
    { row := table.row, rows := [], newRows := [], pfields := rlev.rowsData
      len := rlev.rowsLen }
  have startLength : start.len = (encodeChanges change.changes).length := length
  obtain ⟨row, run⟩ := updateRounds_encode (holds.readsFull parsed)
    carries.full framed images (List.length_pos_of_ne_nil roomLeft) startLength
    short enough
  have kept : CRow.Shaped table.row.table (table.row.data.map CValue.pos)
      row :=
    (updateRounds_shaped ⟨.self table.row, by simp [start], by simp [start]⟩
      run).row
  have accepted : (!rlev.valid || decide (table.tableId ≠ rlev.tableId)) =
      false := by
    simp [parsed.valid, parsed.tableId, holds.tableId, change.sameId]
  refine ⟨{ table with
      row := row
      rows := decodedRows table.row.table change.changes rlev.rowsData
      newRows := decodedNewRows table.row.table change.changes rlev.rowsData },
    ?_, ?_, ⟨_, _, _, roomLeft, images, rfl, rfl⟩⟩
  · simp only [start, List.nil_append] at run
    simp only [CTable.update, accepted]
    exact Exec.bind_eq_ok.mpr ⟨_, run, rfl⟩
  · refine ⟨holds.tuned, holds.parsed, ?_, ?_⟩
    · exact kept.positions.trans holds.framed
    · exact kept.table.trans holds.table

end CTable.HoldsMap

end Schema

/-- What the parser holds after it has read a log. -/
structure CLogParser.HasRead (watched : Bytes → Bytes → Option Address)
    (log : List MasterEvent) (parser : CLogParser) : Prop where
  fmt : parser.fmt.Tuned
  sees : parser.watched = watched
  mapped : ∀ tbl map, lastMap watched tbl log = some map →
    (parser.tables tbl).HoldsMap tbl map
  unmapped : ∀ tbl, lastMap watched tbl log = none →
    (parser.tables tbl).tuned = false
  bound : ∀ map tbl, .tableMap map ∈ log → map.target watched = some tbl →
    parser.idToTable map.tableId = some tbl
  binds : ∀ tableId tbl, parser.idToTable tableId = some tbl →
    ∃ map, .tableMap map ∈ log ∧ map.tableId = tableId ∧
      map.target watched = some tbl
  named : ∀ tbl map, lastMap watched tbl log = some map →
    ∃ named, .tableMap named ∈ log ∧
      parser.tableToId map.tableName = some named.tableId ∧
      (named.target watched = some tbl → named.tableId = map.tableId)

namespace CLogParser.HasRead

variable {watched : Bytes → Bytes → Option Address}
  {log front : List MasterEvent} {self after : CLogParser}
  {map : TableMapEvent} {tbl : Address}

theorem nil (fresh : self.Fresh) : self.HasRead self.watched [] := by
  refine ⟨fresh.fmt, rfl, ?_, fun tbl _ => (fresh.tables tbl).1, ?_, ?_, ?_⟩
  · intro tbl map last
    cases last
  · intro map tbl member
    cases member
  · intro tableId tbl bound
    rw [fresh.idToTable] at bound
    cases bound
  · intro tbl map last
    cases last

/-- An event that is no TABLE_MAP event of a watched table leaves the maps and the
schemas alone. -/
theorem silent {event : MasterEvent} (hasRead : self.HasRead watched front)
    (unheard : ∀ tbl, event.mapOf watched tbl = none)
    (fmt : after.fmt = self.fmt) (databases : after.watched = self.watched)
    (ids : after.idToTable = self.idToTable)
    (names : after.tableToId = self.tableToId)
    (mapped : ∀ tbl map, lastMap watched tbl front = some map →
      (after.tables tbl).HoldsMap tbl map)
    (unmapped : ∀ tbl, lastMap watched tbl front = none →
      (after.tables tbl).tuned = false) :
    after.HasRead watched (front ++ [event]) := by
  have last : ∀ tbl, lastMap watched tbl (front ++ [event]) =
      lastMap watched tbl front := by
    intro tbl
    rw [lastMap_snoc, unheard tbl, Option.none_or]
  refine ⟨fmt ▸ hasRead.fmt, databases.trans hasRead.sees, ?_, ?_, ?_, ?_,
    ?_⟩
  · intro tbl map here
    rw [last] at here
    exact mapped tbl map here
  · intro tbl here
    rw [last] at here
    exact unmapped tbl here
  · intro map tbl member target
    rw [ids]
    refine hasRead.bound map tbl ?_ target
    rcases List.mem_append.mp member with old | new
    · exact old
    · have speaks := mapOf_eq_some.mpr
        ⟨(List.mem_singleton.mp new).symm, target⟩
      rw [unheard tbl] at speaks
      cases speaks
  · intro tableId tbl bound
    rw [ids] at bound
    obtain ⟨map, member, rest⟩ := hasRead.binds tableId tbl bound
    exact ⟨map, List.mem_append_left _ member, rest⟩
  · intro tbl map here
    rw [last] at here
    obtain ⟨named, member, rest⟩ := hasRead.named tbl map here
    rw [← names] at rest
    exact ⟨named, List.mem_append_left _ member, rest⟩

theorem mentioned (part : front <+: log) (member : .tableMap map ∈ front) :
    map ∈ log.filterMap MasterEvent.map? :=
  List.mem_filterMap.mpr ⟨_, part.subset member, rfl⟩

/-- The table has the columns of its last TABLE_MAP event, whether it has taken
them now or kept them. -/
theorem holdsMap (coherent : Coherent watched log)
    (part : front ++ [.tableMap map] <+: log)
    (hasRead : self.HasRead watched front)
    (target : map.target watched = some tbl) {table : CTable}
    {content : Bytes} (placed : map.Placed content)
    (left : (self.remapped map.tableName tbl map.tableId).tuned = true ∧
        table = self.remapped map.tableName tbl map.tableId ∨
      (self.remapped map.tableName tbl map.tableId).tuned = false ∧
        CTable.TunedWith map content tbl
          (self.remapped map.tableName tbl map.tableId) table) :
    table.HoldsMap tbl map := by
  rcases left with ⟨keeps, rfl⟩ | ⟨_, tunedWith⟩
  case inr => exact .of_tuned placed tunedWith
  have known : ¬∃ other, self.tableToId map.tableName = some other ∧
      other ≠ map.tableId := by
    intro renumbered
    rw [remapped_of_renumbered renumbered] at keeps
    cases keeps
  rw [remapped_of_known known] at keeps ⊢
  cases last : lastMap watched tbl front with
  | none =>
      rw [hasRead.unmapped tbl last] at keeps
      cases keeps
  | some earlier =>
      have earlierPart : front <+: log := (List.prefix_append _ _).trans part
      have here := mentioned part (List.mem_append_right _ List.mem_cons_self)
      obtain ⟨member, earlierTarget⟩ := lastMap_mem last
      have spelled := coherent.spelling earlier (mentioned earlierPart member)
        map here tbl earlierTarget target
      -- the name has the id of the event, so the last event had it too
      obtain ⟨named, namedMember, id, own⟩ := hasRead.named tbl earlier last
      rw [spelled] at id
      have sameId : named.tableId = map.tableId := by
        by_contra differs
        exact known ⟨_, id, differs⟩
      have namedSame := coherent.ids named (mentioned earlierPart namedMember)
        map here sameId
      have ids : earlier.tableId = map.tableId :=
        (own (namedSame.target.trans target)).symm.trans sameId
      exact (hasRead.mapped tbl earlier last).congr
        (coherent.ids earlier (mentioned earlierPart member) map here ids)

theorem bound_hasRead (coherent : Coherent watched log)
    (part : front ++ [.tableMap map] <+: log)
    (hasRead : self.HasRead watched front)
    (target : map.target watched = some tbl) {table : CTable}
    (holds : table.HoldsMap tbl map) :
    (self.bound map.tableName tbl map.tableId table).HasRead watched
      (front ++ [.tableMap map]) := by
  have speaks : ∀ other, (MasterEvent.tableMap map).mapOf watched other =
      if other = tbl then some map else none := by
    intro other
    simp only [MasterEvent.mapOf, target, Option.some.injEq, eq_comm]
  have newest : .tableMap map ∈ front ++ [.tableMap map] :=
    List.mem_append_right _ List.mem_cons_self
  have here := mentioned part newest
  refine ⟨hasRead.fmt, hasRead.sees, ?_, ?_, ?_, ?_, ?_⟩
  · intro other last lastIs
    rw [lastMap_snoc, speaks] at lastIs
    by_cases same : other = tbl
    · subst same
      rw [if_pos rfl, Option.some_or, Option.some.injEq] at lastIs
      subst lastIs
      rwa [bound_tables_self]
    · rw [if_neg same, Option.none_or] at lastIs
      simp only [CLogParser.bound, Function.update_of_ne same]
      exact hasRead.mapped other last lastIs
  · intro other none
    rw [lastMap_snoc, speaks] at none
    by_cases same : other = tbl
    · simp [same] at none
    · rw [if_neg same, Option.none_or] at none
      simp only [CLogParser.bound, Function.update_of_ne same]
      exact hasRead.unmapped other none
  · intro other tbl' member target'
    by_cases same : other.tableId = map.tableId
    · have alike := coherent.ids other (mentioned part member) map here same
      have tables : some tbl = some tbl' := by
        rw [← target, ← target', alike.target]
      rw [same, ← tables]
      exact Function.update_self ..
    · have old : .tableMap other ∈ front := by
        rcases List.mem_append.mp member with old | new
        · exact old
        · cases List.mem_singleton.mp new
          exact absurd rfl same
      simp only [CLogParser.bound, Function.update_of_ne same]
      exact hasRead.bound other tbl' old target'
  · intro tableId tbl' binds
    by_cases same : tableId = map.tableId
    · subst same
      simp only [CLogParser.bound, Function.update_self, Option.some.injEq] at binds
      subst binds
      exact ⟨map, newest, rfl, target⟩
    · simp only [CLogParser.bound, Function.update_of_ne same] at binds
      obtain ⟨other, member, rest⟩ := hasRead.binds tableId tbl' binds
      exact ⟨other, List.mem_append_left _ member, rest⟩
  · intro other last lastIs
    rw [lastMap_snoc, speaks] at lastIs
    by_cases same : other = tbl
    · subst same
      rw [if_pos rfl, Option.some_or, Option.some.injEq] at lastIs
      subst lastIs
      exact ⟨map, newest, Function.update_self .., fun _ => rfl⟩
    · rw [if_neg same, Option.none_or] at lastIs
      obtain ⟨named, member, id, own⟩ := hasRead.named other last lastIs
      by_cases spelled : last.tableName = map.tableName
      · refine ⟨map, newest, ?_, fun own => ?_⟩
        · rw [spelled]
          exact Function.update_self ..
        · rw [target, Option.some.injEq] at own
          exact absurd own.symm same
      · simp only [CLogParser.bound, Function.update_of_ne spelled]
        exact ⟨named, List.mem_append_left _ member, id, own⟩

end CLogParser.HasRead

namespace CLogParser

variable {watched : Bytes → Bytes → Option Address}
  {log front : List MasterEvent} {self : CLogParser} {memory : Bytes}
  {len : Nat} {event : MasterEvent} {tbl : Address}

/-- The packet brings an event that says this. -/
inductive ReadsEvent (parser : CLogParser) (memory : Bytes) (len : Nat) :
    MasterEvent → Prop where
  | tableMap (map : TableMapEvent) :
      Received parser.fmt map.encode memory len →
      ReadsEvent parser memory len (.tableMap map)
  | rows (change : TableChanges) :
      Received parser.fmt change.event.encode memory len →
      ReadsEvent parser memory len (.rows change)
  | foreignRows {code : UInt8} {tableId : Nat} :
      parser.Admitted memory len code →
      (LogEventType.ofCode code).isRows = true →
      readLE memory 19 6 = .ok tableId →
      ReadsEvent parser memory len (.foreignRows tableId)
  | other :
      (∀ code, parser.Admitted memory len code →
        LogEventType.ofCode code ≠ .tableMapEvent ∧
          (LogEventType.ofCode code).isRows = false) →
      ReadsEvent parser memory len .other

theorem handlerCall_type (kind : RowsKind) (table : CTable) :
    handlerCall kind.type tbl table =
      match kind.op with
      | .write => .onInsert tbl table.rows
      | .update => .onUpdate tbl table.newRows table.rows
      | .delete => .onDelete tbl table.rows := by
  obtain ⟨op, v2⟩ := kind
  cases op <;> cases v2 <;> rfl

/-- An application that copies the rows of the call has the changes. -/
theorem handlerCall_copied {change : TableChanges} {table : CTable}
    (decodes : table.Decodes memory change) :
    (handlerCall change.event.kind.type tbl table).copied memory =
      .ok (change.delivery tbl) := by
  obtain ⟨rows, newRows⟩ := decodes.shows
  have rowsRead := mapM_copied rows
  have newRowsRead := mapM_copied newRows
  rw [List.map_map] at rowsRead
  have noAfter : change.event.kind.op ≠ .update →
      change.changes.filterMap RowChange.after = [] := by
    intro other
    rw [List.filterMap_eq_nil_iff]
    intro entry _
    simpa [other] using entry.paired
  rw [handlerCall_type]
  cases op : change.event.kind.op with
  | write =>
      have none := noAfter (by rw [op]; exact RowsOp.noConfusion)
      simp only [HandlerCall.copied, rowsRead, Exec.ok_bind, Exec.pure_eq_ok,
        TableChanges.delivery, op, none, List.map_nil]
      rfl
  | update =>
      simp only [HandlerCall.copied, rowsRead, newRowsRead, Exec.ok_bind,
        Exec.pure_eq_ok, TableChanges.delivery, op]
      rfl
  | delete =>
      have none := noAfter (by rw [op]; exact RowsOp.noConfusion)
      simp only [HandlerCall.copied, rowsRead, Exec.ok_bind, Exec.pure_eq_ok,
        TableChanges.delivery, op, none, List.map_nil]
      rfl

theorem dispatchSwitch_change {change : TableChanges} (handlerThrows : Bool)
    (tuned : self.fmt.Tuned)
    (received : Received self.fmt change.event.encode memory len)
    (mapped : self.idToTable change.map.tableId = some tbl)
    (holds : (self.tables tbl).HoldsMap tbl change.map) :
    ∃ code table, self.Admitted memory len code ∧
      self.dispatchSwitch (.ofCode code) memory len handlerThrows =
        { state :=
            { self with tables := Function.update self.tables tbl table }
          calls := [handlerCall change.event.kind.type tbl table]
          exit := if handlerThrows then .threw .handler else .done } ∧
      table.Decodes memory change ∧ table.HoldsMap tbl change.map := by
  obtain ⟨rlev, ⟨⟨code, admitted, type⟩, rows, run⟩, parsed⟩ :=
    readsRows_of_received tuned received
  obtain ⟨checksum, slack, _, room, rfl, rfl, small⟩ := received
  obtain ⟨table, updated, holds', decodes⟩ := holds.update parsed room small
  refine ⟨code, table, admitted, ?_, decodes, holds'⟩
  rw [type, self.dispatchSwitch_rows rows]
  simp only [dispatchRows, run, Outcome.ofExec, if_true, parsed.tableId,
    change.sameId, mapped, updated]

theorem dispatchEvent_change {change : TableChanges} (crc : Bytes → Nat)
    (handlerThrows : Bool) (tuned : self.fmt.Tuned)
    (received : Received self.fmt change.event.encode memory len)
    (mapped : self.idToTable change.map.tableId = some tbl)
    (holds : (self.tables tbl).HoldsMap tbl change.map) :
    ∃ table,
      (self.dispatchEvent crc memory len handlerThrows).state =
        { self with tables := Function.update self.tables tbl table } ∧
      (self.dispatchEvent crc memory len handlerThrows).calls =
        [handlerCall change.event.kind.type tbl table] ∧
      table.Decodes memory change ∧ table.HoldsMap tbl change.map := by
  obtain ⟨code, table, admitted, reaches, decodes, holds'⟩ :=
    dispatchSwitch_change handlerThrows tuned received mapped holds
  rw [dispatchEvent_of_admitted admitted, (checkOutcome_state _ _ _ _).1,
    (checkOutcome_state _ _ _ _).2, reaches]
  exact ⟨table, rfl, rfl, decodes, holds'⟩

section Step

variable (crc : Bytes → Nat) (handlerThrows : Bool)

theorem HasRead.ignored {exit : Exit} (hasRead : self.HasRead watched front)
    (ignored : self.dispatchEvent crc memory len handlerThrows =
      { state := self, exit })
    (unheard : ∀ tbl, event.mapOf watched tbl = none)
    (nothing : event.meaning watched = []) :
    (self.dispatchEvent crc memory len handlerThrows).state.HasRead watched
        (front ++ [event]) ∧
      (self.dispatchEvent crc memory len handlerThrows).calls.mapM
        (HandlerCall.copied memory) = .ok (event.meaning watched) := by
  rw [ignored, nothing]
  exact ⟨hasRead.silent unheard rfl rfl rfl rfl hasRead.mapped hasRead.unmapped,
    rfl⟩

theorem HasRead.unbound (part : front <+: log)
    (hasRead : self.HasRead watched front) {tableId : Nat}
    (foreign : ∀ map ∈ log.filterMap MasterEvent.map?, map.tableId = tableId →
      map.target watched = none) :
    self.idToTable tableId = none := by
  cases bound : self.idToTable tableId with
  | none => rfl
  | some tbl =>
      obtain ⟨map, member, id, target⟩ := hasRead.binds tableId tbl bound
      rw [foreign map (mentioned part member) id] at target
      cases target

theorem HasRead.unbound_change {change : TableChanges}
    (coherent : Coherent watched log)
    (part : front ++ [.rows change] <+: log)
    (hasRead : self.HasRead watched front)
    (target : change.map.target watched = none) :
    self.idToTable change.map.tableId = none := by
  have mention : change.map ∈ log.filterMap MasterEvent.map? :=
    List.mem_filterMap.mpr ⟨.rows change,
      part.subset (List.mem_append_right _ List.mem_cons_self), rfl⟩
  refine hasRead.unbound ((List.prefix_append _ _).trans part)
    fun map member id => ?_
  rw [(coherent.ids map member change.map mention id).target, target]

/-- The table of a ROWS event that is watched, and the TABLE_MAP event that it has
its columns from. -/
theorem HasRead.bound_change {change : TableChanges}
    (coherent : Coherent watched log)
    (part : front ++ [.rows change] <+: log)
    (hasRead : self.HasRead watched front)
    (target : change.map.target watched = some tbl) :
    ∃ map, lastMap watched tbl front = some map ∧
      map.SameTable change.map ∧
      self.idToTable change.map.tableId = some tbl ∧
      (self.tables tbl).HoldsMap tbl change.map := by
  obtain ⟨back, whole⟩ := part
  obtain ⟨map, last, same⟩ := coherent.announced front change back
    (by rw [← whole, List.append_assoc, List.singleton_append]) tbl target
  obtain ⟨member, mapTarget⟩ := lastMap_mem last
  have mapped := hasRead.bound map tbl member mapTarget
  rw [same.tableId] at mapped
  exact ⟨map, last, same, mapped, (hasRead.mapped tbl map last).congr same⟩

theorem tableMap_hasRead {map : TableMapEvent}
    (coherent : Coherent watched log) (part : front ++ [.tableMap map] <+: log)
    (hasRead : self.HasRead watched front)
    (received : Received self.fmt map.encode memory len) :
    (self.dispatchEvent crc memory len handlerThrows).state.HasRead watched
        (front ++ [.tableMap map]) ∧
      (self.dispatchEvent crc memory len handlerThrows).calls.mapM
        (HandlerCall.copied memory) = .ok [] := by
  have sees : self.watched map.dbName map.tableName = map.target watched := by
    rw [hasRead.sees]
    rfl
  cases target : map.target watched with
  | none =>
      obtain ⟨exit, ignored⟩ := dispatchEvent_mapsUnwatched crc handlerThrows
        (mapsUnwatched_of_received hasRead.fmt received (sees.trans target))
      exact hasRead.ignored crc handlerThrows ignored
        (by simp [MasterEvent.mapOf, target]) rfl
  | some tbl =>
      obtain ⟨table, content, state, calls, placed, left⟩ :=
        dispatchEvent_tableMap crc handlerThrows hasRead.fmt received
          (sees.trans target)
      rw [state, calls]
      have holds := HasRead.holdsMap coherent part hasRead target placed left
      exact ⟨HasRead.bound_hasRead coherent part hasRead target holds, rfl⟩

theorem rows_hasRead {change : TableChanges} (coherent : Coherent watched log)
    (part : front ++ [.rows change] <+: log)
    (hasRead : self.HasRead watched front)
    (received : Received self.fmt change.event.encode memory len) :
    (self.dispatchEvent crc memory len handlerThrows).state.HasRead watched
        (front ++ [.rows change]) ∧
      (self.dispatchEvent crc memory len handlerThrows).calls.mapM
        (HandlerCall.copied memory) =
          .ok (MasterEvent.meaning watched (.rows change)) := by
  cases target : change.map.target watched with
  | none =>
      obtain ⟨rlev, ⟨⟨code, admitted, type⟩, rows, run⟩, parsed⟩ :=
        readsRows_of_received hasRead.fmt received
      have unbound := hasRead.unbound_change coherent part target
      obtain ⟨exit, ignored⟩ := dispatchEvent_unmapped crc handlerThrows
        admitted (type ▸ rows) fun other otherRun => by
          cases run.symm.trans otherRun
          rw [parsed.tableId, change.sameId, unbound]
      exact hasRead.ignored crc handlerThrows ignored (fun _ => rfl)
        (by simp [MasterEvent.meaning, target])
  | some tbl =>
      obtain ⟨map, last, same, mapped, known⟩ :=
        hasRead.bound_change coherent part target
      obtain ⟨table, state, calls, decodes, holds⟩ := dispatchEvent_change crc
        handlerThrows hasRead.fmt received mapped known
      rw [state, calls, List.mapM_cons, handlerCall_copied decodes]
      refine ⟨?_, by simp [MasterEvent.meaning, target]⟩
      refine hasRead.silent (fun _ => rfl) rfl rfl rfl rfl ?_ ?_
      · intro other otherMap otherLast
        dsimp only
        by_cases here : other = tbl
        · subst here
          cases last.symm.trans otherLast
          rw [Function.update_self]
          exact holds.congr same.symm
        · rw [Function.update_of_ne here]
          exact hasRead.mapped other otherMap otherLast
      · intro other none
        dsimp only
        by_cases here : other = tbl
        · subst here
          rw [last] at none
          cases none
        · rw [Function.update_of_ne here]
          exact hasRead.unmapped other none

/-- A packet that says what the log says next: the parser has read it then, and
the calls say what it means. -/
theorem dispatchEvent_hasRead (coherent : Coherent watched log)
    (part : front ++ [event] <+: log) (hasRead : self.HasRead watched front)
    (reads : self.ReadsEvent memory len event) :
    (self.dispatchEvent crc memory len handlerThrows).state.HasRead watched
        (front ++ [event]) ∧
      (self.dispatchEvent crc memory len handlerThrows).calls.mapM
        (HandlerCall.copied memory) = .ok (event.meaning watched) := by
  cases reads with
  | tableMap map received =>
      exact tableMap_hasRead crc handlerThrows coherent part hasRead received
  | rows change received =>
      exact rows_hasRead crc handlerThrows coherent part hasRead received
  | @foreignRows code tableId admitted rows idRead =>
      have unbound := hasRead.unbound ((List.prefix_append _ _).trans part)
        (coherent.foreign tableId
          (part.subset (List.mem_append_right _ List.mem_cons_self)))
      obtain ⟨exit, ignored⟩ := dispatchEvent_unmapped crc handlerThrows
        admitted rows fun rlev run => by
          have id := CRowLogEvent.tune_tableId run
          rw [hasRead.fmt.commonHeaderLen, idRead, Except.ok.injEq] at id
          rw [← id, unbound]
      exact hasRead.ignored crc handlerThrows ignored (fun _ => rfl) rfl
  | other quiet =>
      have moved := dispatchEvent_repositioned crc handlerThrows quiet
      generalize self.dispatchEvent crc memory len handlerThrows = outcome
        at moved
      cases moved with
      | intro name pos exit =>
          exact ⟨hasRead.silent (fun _ => rfl) rfl rfl rfl rfl hasRead.mapped
            hasRead.unmapped, rfl⟩

end Step

end CLogParser

/-- What is in memory while the handlers of a step run. -/
def Input.memory : Input → Bytes
  | .read packet _ => packet.event
  | _ => []

namespace Loop

variable {crc : Bytes → Nat} {start final : Loop}
  {taken : List (Taken Loop Input Effect)} {next : Taken Loop Input Effect}
  {log front : List MasterEvent} {event : MasterEvent}
  {watched : Bytes → Bytes → Option Address}

/-- What an application has of a step, if it copies every value. -/
def observed (next : Taken Loop Input Effect) : Exec (List Delivery) :=
  next.effect.calls.mapM (HandlerCall.copied next.input.memory)

/-- The step reads an event that says this.  A step that reads no packet says
nothing. -/
def Reads (next : Taken Loop Input Effect) (event : MasterEvent) : Prop :=
  match next.input with
  | .read packet _ =>
      next.before.parser.ReadsEvent packet.event packet.eventLen event
  | _ => event = .other

/-- The parser of the loop has read this log. -/
def HasRead (watched : Bytes → Bytes → Option Address)
    (log : List MasterEvent) (loop : Loop) : Prop :=
  loop.parser.HasRead watched log

/-- A packet that ends the dump says nothing. -/
theorem readsEvent_of_isEnd {parser : CLogParser} {packet : Packet}
    (tuned : parser.fmt.Tuned) (ended : packet.isEnd = true)
    (reads : parser.ReadsEvent packet.event packet.eventLen event) :
    event = .other := by
  cases reads with
  | tableMap map received =>
      obtain ⟨code, admitted, _⟩ := CLogParser.admitted_of_received received
      exact absurd admitted (not_admitted_of_isEnd ended)
  | rows change received =>
      obtain ⟨_, reads, _⟩ := CLogParser.readsRows_of_received tuned received
      obtain ⟨code, admitted, _⟩ := reads.admitted
      exact absurd admitted (not_admitted_of_isEnd ended)
  | foreignRows admitted _ _ =>
      exact absurd admitted (not_admitted_of_isEnd ended)
  | other quiet => rfl

theorem step_hasRead (coherent : Coherent watched log)
    (part : front ++ [event] <+: log)
    (hasRead : next.before.HasRead watched front)
    (stepped : step crc next.before next.input =
      some (next.after, next.effect))
    (reads : Reads next event) :
    next.after.HasRead watched (front ++ [event]) ∧
      observed next = .ok (event.meaning watched) := by
  obtain ⟨before, input, effect, after⟩ := next
  dsimp only [HasRead] at hasRead stepped ⊢
  -- a step that only changes the connection
  have unheard : ∀ (parser : CLogParser) (isConnected dispatch : Bool),
      event = .other →
      parser = { before.parser with isConnected, dispatch } →
      parser.HasRead watched (front ++ [event]) := by
    rintro parser isConnected dispatch rfl same
    rw [same]
    exact hasRead.silent (fun _ => rfl) rfl rfl rfl rfl hasRead.mapped
      hasRead.unmapped
  obtain ⟨_, _, stepped⟩ := step_stepped stepped
  cases stepped with
  | stopped =>
      cases reads
      exact ⟨unheard _ _ _ rfl rfl, rfl⟩
  | reconnected connects dumps disconnected =>
      cases reads
      refine ⟨unheard _ _ _ rfl (parser_reconnect ..), ?_⟩
      simp only [observed, calls_reconnect]
      rfl
  | readFailed _ what connected ended =>
      have quiet : event = .other := by
        rcases ended with rfl | ⟨packet, throws, rfl, ended⟩
        · exact reads
        · exact readsEvent_of_isEnd hasRead.fmt ended reads
      subst quiet
      exact ⟨unheard _ _ _ rfl rfl, rfl⟩
  | dispatched packet throws outcome connected dumped more same =>
      subst same
      exact CLogParser.dispatchEvent_hasRead crc throws coherent part hasRead
        reads

/-- The handlers are given the changes of the event: in one call, if its table is
watched, and else in none. -/
def Decodes (watched : Bytes → Bytes → Option Address)
    (next : Taken Loop Input Effect) : MasterEvent → Prop
  | .rows change =>
      match change.map.target watched with
      | some tbl => ∃ table : CTable,
          next.effect.calls =
            [CLogParser.handlerCall change.event.kind.type tbl table] ∧
          table.Decodes next.input.memory change
      | none => next.effect.calls = []
  | _ => next.effect.calls = []

theorem calls_eq_nil (nothing : observed next = .ok []) :
    next.effect.calls = [] := by
  cases calls : next.effect.calls with
  | nil => rfl
  | cons call rest =>
      rw [observed, calls, List.mapM_cons] at nothing
      obtain ⟨_, _, nothing⟩ := Exec.bind_eq_ok.mp nothing
      obtain ⟨_, _, nothing⟩ := Exec.bind_eq_ok.mp nothing
      cases nothing

theorem step_decodes (coherent : Coherent watched log)
    (part : front ++ [event] <+: log)
    (hasRead : next.before.HasRead watched front)
    (stepped : step crc next.before next.input =
      some (next.after, next.effect))
    (reads : Reads next event) :
    Decodes watched next event := by
  obtain ⟨_, shown⟩ := step_hasRead coherent part hasRead stepped reads
  cases event with
  | tableMap map => exact calls_eq_nil shown
  | foreignRows tableId => exact calls_eq_nil shown
  | other => exact calls_eq_nil shown
  | rows change =>
  cases target : change.map.target watched with
  | none =>
      simp only [Decodes, target]
      simp only [MasterEvent.meaning, target] at shown
      exact calls_eq_nil shown
  | some tbl =>
      simp only [Decodes, target]
      obtain ⟨_, _, _, mapped, known⟩ :=
        CLogParser.HasRead.bound_change coherent part hasRead target
      obtain ⟨before, input, effect, after⟩ := next
      dsimp only [HasRead] at hasRead stepped known ⊢
      obtain ⟨_, _, stepped⟩ := step_stepped stepped
      cases stepped with
      | stopped => cases reads
      | reconnected connects dumps disconnected => cases reads
      | readFailed _ what connected ended =>
          rcases ended with rfl | ⟨packet, throws, rfl, ended⟩
          · cases reads
          · cases readsEvent_of_isEnd hasRead.fmt ended reads
      | dispatched packet throws outcome connected dumped more same =>
          subst same
          cases reads with
          | rows _ received =>
              obtain ⟨table, _, calls, decodes, _⟩ :=
                CLogParser.dispatchEvent_change crc throws hasRead.fmt received
                  mapped known
              exact ⟨table, calls, decodes⟩

theorem run_decodes (fresh : start.parser.Fresh)
    (run : Run (step crc) start taken final)
    (reads : List.Forall₂ Reads taken log)
    (coherent : Coherent start.parser.watched log) :
    List.Forall₂ (Decodes start.parser.watched) taken log := by
  have initial : HasRead start.parser.watched [] start := .nil fresh
  exact (run.tells_all initial (fun _ _ _ part hasRead stepped reads =>
    ⟨(step_hasRead coherent part hasRead stepped reads).1,
      step_decodes coherent part hasRead stepped reads⟩) reads).2

/-- A run reads the log, and shows what the log means. -/
theorem run_hasRead (fresh : start.parser.Fresh)
    (run : Run (step crc) start taken final)
    (reads : List.Forall₂ Reads taken log)
    (coherent : Coherent start.parser.watched log) :
    final.HasRead start.parser.watched log ∧
      taken.mapM observed =
        .ok (log.map (MasterEvent.meaning start.parser.watched)) := by
  have initial : HasRead start.parser.watched [] start := .nil fresh
  exact run.simulates initial (fun _ _ _ part hasRead stepped reads =>
    step_hasRead coherent part hasRead stepped reads) reads

/-- In every run that reads a coherent log, the handlers are told of the changes
of the watched tables, at the event that carries them. -/
theorem delivers_changes (fresh : start.parser.Fresh)
    (run : Run (step crc) start taken final)
    (reads : List.Forall₂ Reads taken log)
    (coherent : Coherent start.parser.watched log) :
    taken.mapM observed =
      .ok (log.map (MasterEvent.meaning start.parser.watched)) :=
  (run_hasRead fresh run reads coherent).2

/-- The UPDATE of the row (1, "ab") of `d.t`. -/
def pairUpdate : TableChanges where
  map := pairMap
  event := pairRows
  table := pairTable
  changes := [pairChange]
  describes := ⟨rfl, rfl⟩
  supported := by simp [pairTable, ColumnSpec.Supported]
  carries := pairRows_carries
  sameId := rfl

def pairMapStep : Taken Loop Input Effect :=
  mapStep (sampleLoop false [([100], [116])]) pairMap

def pairRowsStep : Taken Loop Input Effect :=
  rowsStep pairMapStep.after pairRows

theorem pairLog_coherent (watched : Bytes → Bytes → Option Address) :
    Coherent watched [.tableMap pairMap, .rows pairUpdate] := by
  have only : ∀ map ∈ [MasterEvent.tableMap pairMap,
      .rows pairUpdate].filterMap MasterEvent.map?, map = pairMap := by
    simp [MasterEvent.map?, pairUpdate]
  refine ⟨⟨?_, ?_, ?_⟩, ?_⟩
  · intro left leftMem right rightMem _
    rw [only left leftMem, only right rightMem]
    exact ⟨rfl, rfl, rfl, rfl, rfl⟩
  · intro left leftMem right rightMem tbl _ _
    rw [only left leftMem, only right rightMem]
  · intro tableId member
    simp at member
  · intro front change back split tbl target
    rcases front with _ | ⟨first, _ | ⟨second, rest⟩⟩
    · simp at split
    · simp only [List.cons_append, List.nil_append, List.cons.injEq,
        MasterEvent.rows.injEq] at split
      obtain ⟨rfl, rfl, _⟩ := split
      have named : pairMap.target watched = some tbl := target
      exact ⟨pairMap, by simp [lastMap, MasterEvent.mapOf, named],
        rfl, rfl, rfl, rfl, rfl⟩
    · simp at split

theorem pairSteps_run :
    Run (step fun _ => 0) (sampleLoop false [([100], [116])])
      [pairMapStep, pairRowsStep] pairRowsStep.after :=
  run_readStep _ (run_readStep _ .refl rfl) (by decide +kernel)

theorem pairSteps_read :
    List.Forall₂ Reads [pairMapStep, pairRowsStep]
      [.tableMap pairMap, .rows pairUpdate] := by
  have mapRead : Reads pairMapStep (.tableMap pairMap) :=
    .tableMap pairMap ⟨[], [0], rfl, by decide, rfl, rfl, by decide⟩
  have rowsRead : Reads pairRowsStep (.rows pairUpdate) :=
    .rows pairUpdate
      ⟨[], [0], by decide +kernel, by decide, rfl, rfl, by decide⟩
  exact .cons mapRead (.cons rowsRead .nil)

theorem delivers_changes_pair :
    [pairMapStep, pairRowsStep].mapM observed =
      .ok [[], [{
        table := 0
        op := .update
        rows := [[some (.long, [1, 0, 0, 0]), some (.varchar, [97, 98])]]
        newRows := [[some (.long, [1, 0, 0, 0]), none]] }]] := by
  exact delivers_changes (sampleLoop_prepared _ _).fresh pairSteps_run
    pairSteps_read (pairLog_coherent _)

end Loop

end MysqlSlave
