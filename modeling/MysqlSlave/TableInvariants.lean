import MysqlSlave.Routing

/-!
# Invariants of tables

What the functions of a table keep, the loop keeps for all tables, whatever
packets come; and every handler call is made with a watched table that has it.
-/

namespace MysqlSlave

def HandlerCall.rows : HandlerCall → List CRow
  | .onInsert _ newrows => newrows
  | .onUpdate _ newrows oldrows => newrows ++ oldrows
  | .onDelete _ rows => rows

/-- A property of the tables and their addresses that `set_tuned`, `tune` and
`update` keep, the last for an event that has columns. -/
structure CTable.Invariant (holds : Address → CTable → Prop) : Prop where
  setTuned : ∀ {this : Address} {table : CTable} (tuned : Bool),
    holds this table → holds this (table.setTuned tuned)
  tune : ∀ {this : Address} {table after : CTable} {data : Bytes} {size : Nat}
    {fmt : CFormatDescriptionLogEvent} {rc : Return},
    holds this table → table.tune this data size fmt = .ok (rc, after) →
      holds this after
  update : ∀ {this : Address} {table after : CTable} {memory : Bytes}
    {rlev : CRowLogEvent} {rc : Int},
    holds this table → 0 < rlev.ncolumns →
      table.update memory rlev = .ok (rc, after) → holds this after

namespace CLogParser

/-- Every table has the property, and an id stands for a watched table. -/
structure Owns (holds : Address → CTable → Prop) (parser : CLogParser) :
    Prop where
  tables : ∀ address, holds address (parser.tables address)
  bound : ∀ id address, parser.idToTable id = some address →
    ∃ dbName tableName, parser.watched dbName tableName = some address

/-- The call is for a watched table, and made with its rows. -/
inductive OwnCall (holds : Address → CTable → Prop) (parser : CLogParser) :
    HandlerCall → Prop where
  | made {tbl : Address} (type : LogEventType) (table : CTable) :
      (∃ dbName tableName, parser.watched dbName tableName = some tbl) →
      holds tbl table → OwnCall holds parser (handlerCall type tbl table)

variable {self : CLogParser} {holds : Address → CTable → Prop}

theorem Owns.put {tbl : Address} {table : CTable} (owns : self.Owns holds)
    (held : holds tbl table) :
    ∀ address, holds address
      (Function.update self.tables tbl table address) := by
  intro address
  by_cases here : address = tbl
  · subst here
    rwa [Function.update_self]
  · rw [Function.update_of_ne here]
    exact owns.tables address

theorem Owns.bind {dbName tblName : Bytes} {tbl : Address} {tableId : Nat}
    {table : CTable} (owns : self.Owns holds)
    (watched : self.watched dbName tblName = some tbl)
    (held : holds tbl table) :
    (self.bound tblName tbl tableId table).Owns holds := by
  refine ⟨owns.put held, fun id address mapped => ?_⟩
  have known : Function.update self.idToTable tableId (some tbl) id =
      some address := mapped
  rw [Function.update_apply] at known
  split at known
  · cases known
    exact ⟨dbName, tblName, watched⟩
  · exact owns.bound id address known

theorem Owns.remapped (kept : CTable.Invariant holds) (owns : self.Owns holds)
    (tblName : Bytes) (tbl : Address) (tableId : Nat) :
    holds tbl (self.remapped tblName tbl tableId) := by
  unfold CLogParser.remapped
  split
  · exact kept.setTuned false (owns.tables tbl)
  · exact owns.tables tbl

theorem dispatchEvent_owns (crc : Bytes → Nat) (buf : Bytes) (len : Nat)
    (handlerThrows : Bool) (kept : CTable.Invariant holds)
    (owns : self.Owns holds) :
    (self.dispatchEvent crc buf len handlerThrows).state.Owns holds ∧
      ∀ call ∈ (self.dispatchEvent crc buf len handlerThrows).calls,
        self.OwnCall holds call := by
  by_cases admitted : ∃ code, self.Admitted buf len code
  case neg =>
    obtain ⟨exit, same, _⟩ := dispatchEvent_of_not_admitted crc handlerThrows
      (not_exists.mp admitted)
    rw [same]
    exact ⟨owns, by simp⟩
  obtain ⟨code, admitted⟩ := admitted
  rw [dispatchEvent_of_admitted admitted, (checkOutcome_state _ _ _ _).1,
    (checkOutcome_state _ _ _ _).2]
  rcases self.dispatchSwitch_cases (.ofCode code) buf len handlerThrows with
    ⟨_, _, moved⟩ | ⟨_, same⟩ | ⟨_, same⟩
  · generalize self.dispatchSwitch (.ofCode code) buf len handlerThrows =
      outcome at moved
    cases moved
    exact ⟨⟨owns.tables, owns.bound⟩, by simp⟩
  · have mapped := self.dispatchTableMap_mapped buf len
    rw [← same] at mapped
    generalize self.dispatchSwitch (.ofCode code) buf len handlerThrows =
      outcome at mapped
    cases mapped with
    | faulted fault unread => exact ⟨owns, by simp⟩
    | unwatched dbRead missing => exact ⟨owns, by simp⟩
    | bound exit dbRead nameRead watched idRead run ended =>
        have held := kept.tune (owns.remapped kept ..) run
        exact ⟨owns.bind watched held, by simp⟩
    | broke fault dbRead nameRead watched idRead run =>
        exact ⟨owns.bind watched (owns.remapped kept ..), by simp⟩
  · have delivered := self.dispatchRows_delivered (.ofCode code) buf len
      handlerThrows
    rw [← same] at delivered
    generalize self.dispatchSwitch (.ofCode code) buf len handlerThrows =
      outcome at delivered
    cases delivered with
    | faulted fault => exact ⟨owns, by simp⟩
    | refused exn run nonzero => exact ⟨owns, by simp⟩
    | unmapped run none => exact ⟨owns, by simp⟩
    | delivered run mapped updated =>
        have some := CRowLogEvent.tune_ncolumns_pos run
        have held := kept.update (owns.tables _) some updated
        refine ⟨⟨owns.put held, owns.bound⟩, fun call member => ?_⟩
        cases List.mem_singleton.mp member
        exact .made _ _ (owns.bound _ _ mapped) held

end CLogParser

namespace Loop

variable {crc : Bytes → Nat} {start final : Loop}
  {taken : List (Taken Loop Input Effect)}
  {holds : Address → CTable → Prop}

/-- Every table of the loop has the property. -/
def OwnsAll (holds : Address → CTable → Prop) (loop : Loop) : Prop :=
  loop.parser.Owns holds

/-- Over every run each table keeps the property, and every handler call is made
with a watched table that has it. -/
theorem run_owns (kept : CTable.Invariant holds) (owns : start.parser.Owns holds)
    (run : Run (step crc) start taken final) :
    final.parser.Owns holds ∧
      ∀ next ∈ taken, ∀ call ∈ next.effect.calls,
        start.parser.OwnCall holds call := by
  have initial : OwnsAll holds start := owns
  refine run.safe initial fun earlier next run keeps stepped => ?_
  have databases := (run_keeps run).2
  obtain ⟨before, input, effect, after⟩ := next
  dsimp only [OwnsAll] at databases keeps stepped ⊢
  obtain ⟨_, _, stepped⟩ := step_stepped stepped
  cases stepped with
  | stopped => exact ⟨⟨keeps.tables, keeps.bound⟩, by simp⟩
  | reconnected connects dumps _ =>
      rw [parser_reconnect, calls_reconnect]
      exact ⟨⟨keeps.tables, keeps.bound⟩, by simp⟩
  | readFailed _ what _ _ =>
      have none : (before.readFailed what).2.calls = [] := rfl
      rw [none]
      exact ⟨⟨keeps.tables, keeps.bound⟩, by simp⟩
  | dispatched packet throws outcome _ _ _ same =>
      subst same
      obtain ⟨keeps', own⟩ := before.parser.dispatchEvent_owns crc
        packet.event packet.eventLen throws kept keeps
      refine ⟨keeps', fun call member => ?_⟩
      cases own call member with
      | made type table named held =>
          obtain ⟨dbName, tableName, watched⟩ := named
          rw [CLogParser.watched, databases] at watched
          exact .made type table ⟨dbName, tableName, watched⟩ held

end Loop

end MysqlSlave
