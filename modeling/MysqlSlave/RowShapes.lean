import MysqlSlave.NamedColumns

/-!
# The shape of the rows

Whatever the packets hold, the rows of one handler call have one width, every
value at its position, and an application that walks the new rows of an update
and the old rows side by side does not come to the end of the old ones first.
-/

namespace MysqlSlave

open Region

namespace CTable

section Framing

theorem tuneRow_readable {data : Bytes} {columnTypes todo i : Nat}
    {row final : CRow}
    (run : tuneRow data columnTypes (todo + 1) i row = .ok final) :
    columnTypes + (i + (todo + 1)) ≤ data.length := by
  induction todo generalizing i row with
  | zero =>
      obtain ⟨byte, read, _⟩ := Exec.bind_eq_ok.mp run
      by_contra outside
      rw [readByte_eq_error (by omega)] at read
      cases read
  | succ todo induction =>
      obtain ⟨_, _, run⟩ := Exec.bind_eq_ok.mp run
      obtain ⟨next, _, run⟩ := Exec.bind_eq_ok.mp run
      have later := induction run
      omega

theorem tune_framed {self after : CTable} {this : Address} {data : Bytes}
    {size : Nat} {fmt : CFormatDescriptionLogEvent} {rc : Return}
    (run : self.tune this data size fmt = .ok (rc, after))
    (framed : self.row.Framed self.row.data.length) :
    after.row.Framed after.row.data.length := by
  unfold tune at run
  split at run
  · cases run
    exact framed
  · obtain ⟨⟨code, event⟩, _, run⟩ := Exec.bind_eq_ok.mp run
    dsimp only at run
    split at run
    · rename_i taken
      split at run
      · cases run
        exact framed
      · obtain ⟨row, loop, run⟩ := Exec.bind_eq_ok.mp run
        cases run
        have length := (tuneRow_length loop).trans (resize_length _ _)
        have some : event.columnCount ≠ 0 := by
          intro none
          simp [CTableMapLogEvent.isValid, none] at taken
        obtain ⟨todo, count⟩ := Nat.exists_eq_add_one_of_ne_zero some
        have readable := tuneRow_readable (count ▸ loop)
        rw [← count] at readable
        obtain ⟨row', loop', framed', _⟩ := tuneRow_framed
          ((resize_length _ _).trans (Nat.zero_add _).symm) rfl readable
        cases loop.symm.trans loop'
        rw [Nat.zero_add] at framed'
        dsimp only
        rwa [length]
    · cases run
      exact framed

end Framing

section Pairs

variable {self : CTable} {memory : Bytes} {rlev : CRowLogEvent}

/-- No round of the loop makes more new rows than rows. -/
theorem updateRounds_paired {rounds : Nat} {cursor final : RowsCursor}
    (run : self.updateRounds memory rlev rounds cursor = .ok final)
    (paired : cursor.newRows.length ≤ cursor.rows.length) :
    final.newRows.length ≤ final.rows.length := by
  induction rounds generalizing cursor with
  | zero =>
      unfold updateRounds at run
      split at run
      · cases run
        exact paired
      · cases run
  | succ rounds induction =>
      unfold updateRounds at run
      split at run
      · cases run
        exact paired
      · obtain ⟨next, round, rest⟩ := Exec.bind_eq_ok.mp run
        refine induction rest ?_
        cases updateRound_iff.mp round with
        | single =>
            simp only [List.length_append, List.length_singleton]
            omega
        | pair => simpa using paired

theorem update_paired {after : CTable} {rc : Int}
    (run : self.update memory rlev = .ok (rc, after))
    (paired : self.newRows.length ≤ self.rows.length) :
    after.newRows.length ≤ after.rows.length := by
  unfold update at run
  split at run
  · cases run
    exact paired
  · obtain ⟨cursor, rounds, run⟩ := Exec.bind_eq_ok.mp run
    cases run
    exact updateRounds_paired rounds (Nat.le_refl _)

end Pairs

section Values

variable {self : CTable} {memory : Bytes} {rlev : CRowLogEvent}

/-- The column loop touches the value of the first column. -/
theorem updateImage_values {row : CRow} {pfields len usedCount : Nat}
    {mask : BitVec 64} {result : RowUpdate} (some : 0 < rlev.ncolumns)
    (run : self.updateImage memory rlev row pfields len usedCount mask =
      .ok result) :
    row.data ≠ [] := by
  obtain ⟨nulls, _, run⟩ := Exec.bind_eq_ok.mp run
  obtain ⟨cursor, columns, _⟩ := Exec.bind_eq_ok.mp run
  obtain ⟨todo, count⟩ := Nat.exists_eq_add_one_of_ne_zero some.ne'
  rw [count] at columns
  obtain ⟨next, first, _⟩ := Exec.bind_eq_ok.mp columns
  rintro empty
  cases updateColumn_iff.mp first with
  | spent there | skipped there | framed there => simp [empty] at there

theorem update_values {after : CTable} {rc : Int} (some : 0 < rlev.ncolumns)
    (run : self.update memory rlev = .ok (rc, after))
    (empty : self.row.data = []) :
    after = self ∨ after.newRows ++ after.rows = [] := by
  unfold update at run
  split at run
  · cases run
    exact Or.inl rfl
  · obtain ⟨cursor, rounds, run⟩ := Exec.bind_eq_ok.mp run
    cases run
    right
    cases length : rlev.rowsLen with
    | zero =>
        rw [length] at rounds
        cases rounds
        rfl
    | succ rest =>
        rw [length] at rounds
        obtain ⟨next, round, _⟩ := Exec.bind_eq_ok.mp rounds
        obtain ⟨before, image, _⟩ := Exec.bind_eq_ok.mp round
        exact absurd empty (updateImage_values some image)

end Values

/-- Rows of one width that are rows of the table, every value at its
position. -/
structure RowsAlike (this : Address) (width : Nat) (rows : List CRow) :
    Prop where
  framed : ∀ row ∈ rows, row.Framed width
  owned : ∀ row ∈ rows, row.table = some this

/-- The rows of the table are alike, and no more of them are new than old. -/
structure Even (this : Address) (table : CTable) : Prop where
  row : Holds this table.row
  framed : table.row.Framed table.row.data.length
  rows : ∃ width, RowsAlike this width (table.newRows ++ table.rows)
  paired : table.newRows.length ≤ table.rows.length

namespace Even

variable {this : Address} {table after : CTable}

theorem new (columns : OrderedMap Bytes CColumnDesc) (this : Address) :
    Even this { columns } :=
  ⟨⟨Or.inr rfl, Nat.zero_le _⟩, rfl, ⟨0, by simp, by simp⟩, Nat.le_refl _⟩

theorem tune (even : table.Even this) {data : Bytes} {size : Nat}
    {fmt : CFormatDescriptionLogEvent} {rc : Return}
    (run : table.tune this data size fmt = .ok (rc, after)) :
    after.Even this := by
  obtain ⟨_, rows, newRows, row⟩ := tune_kept run even.row
  refine ⟨row, tune_framed run even.framed, ?_, ?_⟩
  · rw [rows, newRows]
    exact even.rows
  · rw [rows, newRows]
    exact even.paired

theorem update (even : table.Even this) {memory : Bytes}
    {rlev : CRowLogEvent} {rc : Int} (some : 0 < rlev.ncolumns)
    (run : table.update memory rlev = .ok (rc, after)) :
    after.Even this := by
  have paired := update_paired run even.paired
  cases update_updated run with
  | refused same =>
      rw [same]
      exact even
  | @decoded cursor shaped same =>
      have framed : ∀ row, CRow.Shaped table.row.table
          (table.row.data.map CValue.pos) row →
            row.Framed table.row.data.length := by
        intro row shaped
        exact shaped.positions.trans even.framed
      have all : ∀ row ∈ cursor.newRows ++ cursor.rows,
          CRow.Shaped table.row.table (table.row.data.map CValue.pos) row := by
        intro row member
        rcases List.mem_append.mp member with new | old
        · exact shaped.newRows row new
        · exact shaped.rows row old
      have length : cursor.row.data.length = table.row.data.length := by
        have positions := shaped.row.length
        rwa [List.length_map] at positions
      have values := update_values some run
      rw [same] at paired values ⊢
      refine ⟨even.row.shaped shaped.row, ?_, ⟨table.row.data.length, ?_, ?_⟩,
        paired⟩
      · dsimp only
        rw [length]
        exact framed _ shaped.row
      · exact fun row member => framed row (all row member)
      · intro row member
        rcases even.row.table with mine | empty
        · exact (all row member).table.trans mine
        · rcases values empty with unmoved | none
          · obtain ⟨_, _, owned⟩ := even.rows
            have rows : cursor.newRows ++ cursor.rows =
                table.newRows ++ table.rows :=
              congrArg (fun table => table.newRows ++ table.rows) unmoved
            exact owned row (rows ▸ member)
          · dsimp only at none
            rw [none] at member
            cases member

theorem invariant : Invariant Even where
  setTuned _ even := ⟨even.row, even.framed, even.rows, even.paired⟩
  tune even run := even.tune run
  update even some run := even.update some run

end Even

end CTable

/-- The rows of the call are alike, and an update has an old row for every new
one. -/
structure HandlerCall.Even (call : HandlerCall) : Prop where
  rows : ∃ width, CTable.RowsAlike call.table width call.rows
  paired : ∀ tbl newrows oldrows, call = .onUpdate tbl newrows oldrows →
    newrows.length ≤ oldrows.length

theorem CLogParser.handlerCall_even {tbl : Address} {table : CTable}
    (even : table.Even tbl) (type : LogEventType) :
    (handlerCall type tbl table).Even := by
  obtain ⟨width, framed, owned⟩ := even.rows
  have rows : CTable.RowsAlike tbl width table.rows :=
    ⟨fun row member => framed row (List.mem_append_right _ member),
      fun row member => owned row (List.mem_append_right _ member)⟩
  unfold handlerCall
  split
  · exact ⟨⟨width, rows⟩, by simp⟩
  · split
    · refine ⟨⟨width, framed, owned⟩, ?_⟩
      intro _ _ _ same
      cases same
      exact even.paired
    · exact ⟨⟨width, rows⟩, by simp⟩

namespace Conversation

open CLogParser

variable {calls : List Setup} {answers : Answers} {crc : Bytes → Nat}
  {final : Loop} {taken : List (Taken Loop Input Effect)}

/-- In every session the rows of a handler call are alike, whatever packets have
come. -/
theorem calls_even
    (done : ((fresh calls).prepare answers).2.exit = .done)
    (run : Run (Loop.step crc) ((fresh calls).prepare answers).1.loop taken
      final) :
    ∀ next ∈ taken, ∀ call ∈ next.effect.calls, call.Even := by
  obtain ⟨_, unmapped, new, _⟩ := prepare_tables rfl done
  have owns : ((fresh calls).prepare answers).1.loop.parser.Owns
      CTable.Even := by
    refine ⟨fun address => ?_, fun id address mapped => ?_⟩
    · obtain ⟨columns, table⟩ := new address
      rw [table]
      exact .new columns address
    · rw [unmapped] at mapped
      cases mapped
  obtain ⟨_, called⟩ := Loop.run_owns CTable.Even.invariant owns run
  intro next member call made
  cases called next member call made with
  | made type table _ even => exact handlerCall_even even type

/-- The update of `d.t` in a session. -/
theorem calls_even_pair :
    listedRowsStep.effect.calls.map (fun call => call.rows.length) = [2] ∧
      ∀ call ∈ listedRowsStep.effect.calls, call.Even := by
  have even := calls_even (by decide +kernel) listedSteps_run listedRowsStep
    (.tail _ (.head _))
  exact ⟨by decide +kernel, even⟩

end Conversation

end MysqlSlave
