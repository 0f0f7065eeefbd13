import MysqlSlave.EventDispatch
import MysqlSlave.RowBuffer
import MysqlSlave.RowLoop

/-!
# Delivery

A handler is called after `update` whatever `update` returns, so an event that
`update` refuses hands the rows of an earlier event over once more.
-/

namespace MysqlSlave

open Region

/-- A value as a handler can tell it from others: a NULL carries nothing. -/
def CValue.shown (value : CValue) : CValue :=
  if value.isNull then value.reset else value

def CRow.shown (row : CRow) : CRow :=
  { row with data := row.data.map CValue.shown }

def HandlerCall.shown : HandlerCall → HandlerCall
  | onInsert table newrows => .onInsert table (newrows.map CRow.shown)
  | onUpdate table newrows oldrows =>
      .onUpdate table (newrows.map CRow.shown) (oldrows.map CRow.shown)
  | onDelete table rows => .onDelete table (rows.map CRow.shown)

/-- The row with nothing in it. -/
def CRow.cleared (row : CRow) : CRow :=
  { row with data := row.data.map CValue.reset }

@[simp] theorem CValue.reset_shown (value : CValue) :
    value.reset.shown = value.reset := rfl

theorem CValue.shown_eq_reset_iff (value : CValue) :
    value.shown = value.reset ↔ value.isNull = true := by
  unfold shown
  split
  case isTrue null => simp [null]
  case isFalse some =>
    refine ⟨fun same => ?_, fun null => absurd null some⟩
    rw [same]
    rfl

namespace CTable

variable {self : CTable} {memory : Bytes} {rlev : CRowLogEvent}

/-- The table with the rows of the event, decoded into an empty buffer; nothing
if `update` refuses the event. -/
def decode (self : CTable) (memory : Bytes) (rlev : CRowLogEvent) :
    Exec (Option CTable) :=
  if !rlev.valid || self.tableId ≠ rlev.tableId then .ok none
  else do
    let cursor ← self.updateRounds memory rlev rlev.rowsLen
      { row := self.row.cleared, rows := [], newRows := []
        pfields := rlev.rowsData, len := rlev.rowsLen }
    return some { self with rows := cursor.rows, newRows := cursor.newRows }

/-- The table takes the event, and no column behind those of the event still
holds a value. -/
structure Takes (table : CTable) (rlev : CRowLogEvent) : Prop where
  tableId : table.tableId = rlev.tableId
  behind : rlev.rowsLen = 0 ∨
    ∀ value ∈ table.row.data.drop rlev.ncolumns, value.isNull = true

theorem updateRounds_rows {rounds : Nat} {cursor final : RowsCursor}
    (run : self.updateRounds memory rlev rounds cursor = .ok final) :
    cursor.rows.length ≤ final.rows.length ∧
      (cursor.len ≠ 0 → cursor.rows.length < final.rows.length) := by
  induction rounds generalizing cursor with
  | zero =>
      unfold updateRounds at run
      split at run
      case isTrue done =>
        cases run
        exact ⟨Nat.le_refl _, fun more => absurd done more⟩
      case isFalse => cases run
  | succ rounds induction =>
      unfold updateRounds at run
      split at run
      case isTrue done =>
        cases run
        exact ⟨Nat.le_refl _, fun more => absurd done more⟩
      case isFalse =>
        obtain ⟨next, first, rest⟩ := Exec.bind_eq_ok.mp run
        have pushed := (updateRound_pushed first).1
        have later := (induction rest).1
        exact ⟨by omega, fun _ => by omega⟩

theorem updateRounds_done {rounds : Nat} {cursor : RowsCursor}
    (done : cursor.len = 0) :
    self.updateRounds memory rlev rounds cursor = .ok cursor := by
  unfold updateRounds
  rw [if_pos done]

/-- Two rows that are alike look alike if the buffer behind them is empty. -/
theorem shown_eq_iff {count : Nat} {back : List CValue} {left right : CRow}
    (alike : CRow.Alike count back (back.map CValue.reset) count left right) :
    left.shown = right.shown ↔ ∀ value ∈ back, value.isNull = true := by
  obtain ⟨table, _, front, behindLeft, behindRight⟩ := alike
  have left_eq := List.take_append_drop count left.data
  have right_eq := List.take_append_drop count right.data
  rw [behindLeft] at left_eq
  rw [behindRight, ← front] at right_eq
  have same : left.shown = right.shown ↔
      back.map CValue.shown = back.map CValue.reset := by
    unfold CRow.shown
    rw [CRow.mk.injEq, and_iff_right table, ← left_eq, ← right_eq]
    simp only [List.map_append, List.append_cancel_left_eq, List.map_map]
    rfl
  rw [same, List.map_inj_left]
  exact forall₂_congr fun value _ => value.shown_eq_reset_iff

theorem map_shown_eq {count : Nat} {back : List CValue}
    {left right : List CRow}
    (alike : List.Forall₂
      (CRow.Alike count back (back.map CValue.reset) count) left right)
    (empty : ∀ value ∈ back, value.isNull = true) :
    left.map CRow.shown = right.map CRow.shown := by
  induction alike with
  | nil => rfl
  | cons alike _ induction =>
      simp only [List.map_cons, (shown_eq_iff alike).mpr empty, induction]

/-- The row loop runs alike from the buffer as it is and from the cleared one. -/
theorem updateRounds_cleared (self : CTable) (memory : Bytes)
    (rlev : CRowLogEvent) {final : RowsCursor}
    (run : self.updateRounds memory rlev rlev.rowsLen
      { row := self.row, rows := [], newRows := [], pfields := rlev.rowsData
        len := rlev.rowsLen } = .ok final) :
    ∃ clean,
      self.updateRounds memory rlev rlev.rowsLen
        { row := self.row.cleared, rows := [], newRows := []
          pfields := rlev.rowsData, len := rlev.rowsLen } = .ok clean ∧
      RowsCursor.Alike rlev.ncolumns (self.row.data.drop rlev.ncolumns)
        ((self.row.data.drop rlev.ncolumns).map CValue.reset) final clean := by
  have start : RowsCursor.Alike rlev.ncolumns
      (self.row.data.drop rlev.ncolumns)
      ((self.row.data.drop rlev.ncolumns).map CValue.reset)
      { row := self.row, rows := [], newRows := [], pfields := rlev.rowsData
        len := rlev.rowsLen }
      { row := self.row.cleared, rows := [], newRows := []
        pfields := rlev.rowsData, len := rlev.rowsLen } := by
    refine ⟨rfl, rfl, ⟨rfl, ?_, rfl, rfl, ?_⟩, .nil, .nil⟩
    · simp [CRow.cleared, CValue.reset]
    · simp [CRow.cleared]
  have related : Exec.Related _
      (self.updateRounds memory rlev rlev.rowsLen _)
      (self.updateRounds memory rlev rlev.rowsLen _) :=
    updateRounds_alike start
  rw [run] at related
  generalize self.updateRounds memory rlev rlev.rowsLen _ = other at related ⊢
  cases related with
  | ok alike => exact ⟨_, rfl, alike⟩

end CTable

namespace CLogParser

theorem handlerCall_shown_rows {type : LogEventType} {tbl : Address}
    {left right : CTable}
    (same : (handlerCall type tbl left).shown =
      (handlerCall type tbl right).shown) :
    left.rows.map CRow.shown = right.rows.map CRow.shown := by
  unfold handlerCall at same
  split at same
  · exact (HandlerCall.onInsert.inj same).2
  · split at same
    · exact (HandlerCall.onUpdate.inj same).2.2
    · exact (HandlerCall.onDelete.inj same).2

theorem handlerCall_shown {type : LogEventType} {tbl : Address}
    {left right : CTable}
    (rows : left.rows.map CRow.shown = right.rows.map CRow.shown)
    (newRows : left.newRows.map CRow.shown = right.newRows.map CRow.shown) :
    (handlerCall type tbl left).shown =
      (handlerCall type tbl right).shown := by
  unfold handlerCall
  split
  · simp [HandlerCall.shown, rows]
  · split <;> simp [HandlerCall.shown, rows, newRows]

/-- The calls show the rows of this event and no others: one call if the id has a
table that takes the event, and none otherwise. -/
inductive OwnCalls (parser : CLogParser) (type : LogEventType)
    (memory : Bytes) (rlev : CRowLogEvent) : List HandlerCall → Prop where
  | unmapped :
      parser.idToTable rlev.tableId = none →
      OwnCalls parser type memory rlev []
  | refused {tbl : Address} :
      parser.idToTable rlev.tableId = some tbl →
      (parser.tables tbl).decode memory rlev = .ok none →
      OwnCalls parser type memory rlev []
  | own {tbl : Address} {table : CTable} {call : HandlerCall}
      {calls : List HandlerCall} :
      parser.idToTable rlev.tableId = some tbl →
      (parser.tables tbl).decode memory rlev = .ok (some table) →
      HandlerGets type tbl table call →
      calls.map HandlerCall.shown = [call.shown] →
      OwnCalls parser type memory rlev calls

theorem not_ownCalls_of_refused {self : CLogParser} {type : LogEventType}
    {memory : Bytes} {rlev : CRowLogEvent} {calls : List HandlerCall}
    {tableId : Nat} {tbl : Address} (id : rlev.tableId = tableId)
    (mapped : self.idToTable tableId = some tbl)
    (refused : (self.tables tbl).tableId ≠ tableId)
    (called : calls ≠ []) : ¬self.OwnCalls type memory rlev calls := by
  have none : (self.tables tbl).decode memory rlev = .ok none := by
    simp [CTable.decode, id, refused]
  rw [← id] at mapped
  rintro (unmapped | refused | ⟨mapped', decoded, _, _⟩)
  · exact called rfl
  · exact called rfl
  · cases mapped.symm.trans mapped'
    cases none.symm.trans decoded

/-- The handler is told of the rows of the event exactly if the table takes the
event. -/
theorem ownCalls_iff {self : CLogParser} {type : LogEventType}
    {memory : Bytes} {rlev : CRowLogEvent} {outcome : Outcome}
    (isRows : type.isRows = true) (valid : rlev.valid = true)
    (rows : RowsOutcome self memory type rlev outcome) :
    self.OwnCalls type memory rlev outcome.calls ↔
      ∀ tbl, self.idToTable rlev.tableId = some tbl →
        (self.tables tbl).Takes rlev := by
  cases rows with
  | unmapped exit none =>
      simp only [none, reduceCtorEq, false_implies, implies_true, iff_true]
      exact .unmapped none
  | @delivered tbl rc table exit mapped updated =>
      simp only [mapped, Option.some.injEq, forall_eq']
      by_cases mine : (self.tables tbl).tableId = rlev.tableId
      case neg =>
        -- `update` refuses the event and the handler is called all the same
        exact iff_of_false
          (not_ownCalls_of_refused rfl mapped mine (List.cons_ne_nil _ _))
          fun takes => mine takes.tableId
      have accepted : (!rlev.valid ||
          decide ((self.tables tbl).tableId ≠ rlev.tableId)) = false := by
        simp [valid, mine]
      unfold CTable.update at updated
      rw [accepted, if_neg Bool.false_ne_true] at updated
      obtain ⟨cursor, run, result⟩ := Exec.bind_eq_ok.mp updated
      cases result
      obtain ⟨clean, cleanRun, alike⟩ :=
        (self.tables tbl).updateRounds_cleared memory rlev run
      have decoded : (self.tables tbl).decode memory rlev =
          .ok (some { self.tables tbl with
            rows := clean.rows, newRows := clean.newRows }) := by
        rw [CTable.decode, accepted, if_neg Bool.false_ne_true, cleanRun]
        rfl
      constructor
      · rintro (_ | _ | ⟨mapped', decoded', gets, shown⟩)
        cases mapped.symm.trans mapped'
        cases decoded.symm.trans decoded'
        rw [(handlerGets_iff isRows).mp gets] at shown
        refine ⟨mine, ?_⟩
        by_cases some : rlev.rowsLen = 0
        · exact Or.inl some
        · have rows := handlerCall_shown_rows (List.cons.inj shown).1
          have pairs := alike.rows
          have least := (CTable.updateRounds_rows run).2 some
          dsimp only at rows pairs least
          generalize cursor.rows = dirtyRows at rows pairs least
          generalize clean.rows = cleanRows at rows pairs
          cases pairs with
          | nil => simp at least
          | cons pair _ =>
              rw [List.map_cons, List.map_cons, List.cons.injEq] at rows
              exact Or.inr ((CTable.shown_eq_iff pair).mp rows.1)
      · rintro ⟨_, empty⟩
        refine .own mapped decoded ((handlerGets_iff isRows).mpr rfl) ?_
        rw [List.map_singleton, List.singleton_inj]
        rcases empty with empty | empty
        · have rows := alike.rows
          have newRows := alike.newRows
          rw [CTable.updateRounds_done empty] at run
          cases run
          rw [List.forall₂_nil_left_iff] at rows newRows
          exact handlerCall_shown (by simp [rows]) (by simp [newRows])
        · exact handlerCall_shown (CTable.map_shown_eq alike.rows empty)
            (CTable.map_shown_eq alike.newRows empty)

end CLogParser

namespace Loop

variable {crc : Bytes → Nat} {start final : Loop}
  {taken : List (Taken Loop Input Effect)} {next : Taken Loop Input Effect}
  {type : LogEventType} {memory : Bytes} {rlev : CRowLogEvent}

/-- In every run, an accepted ROWS event hands over its own rows and no others
exactly if the table of its id takes it. -/
theorem delivers_own_iff (run : Run (step crc) start taken final)
    (member : next ∈ taken) (rows : ReadsRows next type memory rlev)
    (defined : next.effect.exit.isUndefined = false) :
    next.before.parser.OwnCalls type memory rlev next.effect.calls ↔
      ∀ tbl, next.before.parser.idToTable rlev.tableId = some tbl →
        (next.before.parser.tables tbl).Takes rlev := by
  obtain ⟨front, back, split⟩ := List.append_of_mem member
  obtain ⟨_, stepped⟩ := run.at_step split
  have outcome := step_rows stepped rows defined
  obtain ⟨_, _, _, _, reads⟩ := rows
  exact CLogParser.ownCalls_iff reads.rows
    (CRowLogEvent.tune_valid reads.tuned) outcome

/-- The row (5) is inserted into `d.t`, which has the id 1. -/
def earlierInsert : Taken Loop Input Effect := insertStep mappedStep.after

/-- The id 2 is given to `d.T`, which keeps the schema it has. -/
def laterMap : Taken Loop Input Effect :=
  mapStep earlierInsert.after (sampleMap .d .T 3 2)

/-- The row (7) is inserted under the id 2. -/
def laterInsert : Taken Loop Input Effect :=
  rowsStep laterMap.after (sampleRows .write 2 [0, 7, 0, 0, 0])

theorem laterMap_run :
    Run (step fun _ => 0) (sampleLoop false [([100], [116])])
      [mappedStep, earlierInsert, laterMap] laterMap.after :=
  run_readStep _ (run_readStep _ mappedStep_run (by decide +kernel))
    (by decide +kernel)

theorem laterInsert_run :
    Run (step fun _ => 0) (sampleLoop false [([100], [116])])
      [mappedStep, earlierInsert, laterMap, laterInsert] laterInsert.after :=
  run_readStep _ laterMap_run (by decide +kernel)

/-- The handler gets the row (5) twice and the row (7) never. -/
theorem not_delivers_own_renamed :
    (sampleLoop false [([100], [116])]).Prepared ∧
      Run (step fun _ => 0) (sampleLoop false [([100], [116])])
        [mappedStep, earlierInsert, laterMap, laterInsert] laterInsert.after ∧
      ∃ memory rlev, ReadsRows laterInsert .writeRowsEvent memory rlev ∧
        laterInsert.effect.exit = .done ∧
        laterInsert.effect.calls = earlierInsert.effect.calls ∧
        ¬laterInsert.before.parser.OwnCalls .writeRowsEvent memory rlev
          laterInsert.effect.calls := by
  obtain ⟨rlev, reads, parsed⟩ := rowsStep_reads laterMap.after
    (sampleRows .write 2 [0, 7, 0, 0, 0])
    ⟨by decide +kernel, by decide +kernel, by decide +kernel⟩
    (by decide +kernel) (by decide)
  have mapped : laterInsert.before.parser.idToTable 2 = some 0 := by
    decide +kernel
  have held : (laterInsert.before.parser.tables 0).tableId ≠ 2 := by
    decide +kernel
  have called : laterInsert.effect.calls ≠ [] := by decide +kernel
  have id : rlev.tableId = 2 := parsed.tableId
  exact ⟨sampleLoop_prepared _ _, laterInsert_run, _, rlev, reads,
    by decide +kernel, by decide +kernel,
    CLogParser.not_ownCalls_of_refused id mapped held called⟩

theorem delivers_own_iff_first :
    ∃ memory rlev, ReadsRows earlierInsert .writeRowsEvent memory rlev ∧
      earlierInsert.before.parser.OwnCalls .writeRowsEvent memory rlev
        earlierInsert.effect.calls := by
  obtain ⟨rlev, reads, parsed⟩ := rowsStep_reads mappedStep.after
    (sampleRows .write 1 [0, 5, 0, 0, 0])
    ⟨by decide +kernel, by decide +kernel, by decide +kernel⟩
    (by decide +kernel) (by decide)
  have mapped : earlierInsert.before.parser.idToTable 1 = some 0 := by
    decide +kernel
  have held : (earlierInsert.before.parser.tables 0).tableId = 1 := by
    decide +kernel
  have columns : (earlierInsert.before.parser.tables 0).row.data.drop 1 =
      [] := by
    decide +kernel
  have id : rlev.tableId = 1 := parsed.tableId
  have count : rlev.ncolumns = 1 := parsed.ncolumns
  have takes : ∀ tbl,
      earlierInsert.before.parser.idToTable rlev.tableId = some tbl →
        (earlierInsert.before.parser.tables tbl).Takes rlev := by
    intro tbl found
    rw [id, mapped] at found
    cases found
    exact ⟨held.trans id.symm, Or.inr (by simp [count, columns])⟩
  have rows : ReadsRows earlierInsert .writeRowsEvent _ rlev := reads
  have member : earlierInsert ∈
      [mappedStep, earlierInsert, laterMap, laterInsert] :=
    List.mem_cons_of_mem _ List.mem_cons_self
  exact ⟨_, rlev, rows, (delivers_own_iff laterInsert_run member rows
    (by decide +kernel)).mpr takes⟩

end Loop

end MysqlSlave
