import Mathlib.Data.List.Nodup
import MysqlSlave.ColumnLookup
import MysqlSlave.LogParser

/-!
# The watched tables

`watch` keeps the names of databases and tables in maps that ignore case.  Read
plainly it keeps a list of names, each once, and a table stands at the place of
its name.
-/

namespace MysqlSlave

/-- The names of a database and a table, as the maps compare them. -/
abbrev FoldedName := List Nat × List Nat

def foldedName (dbName tableName : Bytes) : FoldedName :=
  (folded dbName, folded tableName)

/-- The list of names after a call of `watch`. -/
def register (names : List FoldedName) (call : Bytes × Bytes) :
    List FoldedName :=
  if call.1 = [] ∨ call.2 = [] ∨ foldedName call.1 call.2 ∈ names then names
  else names ++ [foldedName call.1 call.2]

def registerAll (calls : List (Bytes × Bytes)) : List FoldedName :=
  calls.foldl register []

/-- A call that sets the parser up.  Of the connection parameters only the slave
id goes into a command. -/
inductive Setup
  | setConnectionParams (slaveId : Nat)
  | setBinlogPosition (fname : Bytes) (pos : Nat)
  | watch (dbName tableName : Bytes)

/-- The names in a call of `watch`. -/
def Setup.names : Setup → Option (Bytes × Bytes)
  | watch dbName tableName => some (dbName, tableName)
  | _ => none

namespace CLogParser

def takeSetup (self : CLogParser) : Setup → CLogParser
  | .setConnectionParams slaveId =>
      { self with slaveId := slaveId % 4294967296 }
  | .setBinlogPosition fname pos => self.setBinlogPosition fname pos
  | .watch dbName tableName => self.watch dbName tableName

/-- A new parser behind these calls. -/
def setUp (calls : List Setup) : CLogParser := calls.foldl takeSetup {}

end CLogParser

theorem getElem?_concat_iff {α : Type} [DecidableEq α] {list : List α}
    {last other : α} {i : Nat} (fresh : last ∉ list) :
    (list ++ [last])[i]? = some other ↔
      if last = other then i = list.length else list[i]? = some other := by
  rcases Nat.lt_trichotomy i list.length with front | rfl | behind
  · rw [List.getElem?_append_left front]
    split
    · rename_i same
      subst same
      constructor
      · exact fun found => absurd (List.mem_of_getElem? found) fresh
      · intro here
        omega
    · rfl
  · rw [List.getElem?_concat_length, Option.some.injEq]
    simp
  · have beyond : list.length + 1 ≤ i := behind
    rw [List.getElem?_eq_none (by simpa using beyond),
      List.getElem?_eq_none behind.le]
    simp only [reduceCtorEq, false_iff]
    split
    · omega
    · simp

namespace CLogParser

/-- The databases of the parser hold these names. -/
structure Registers (parser : CLogParser) (names : List FoldedName) :
    Prop where
  next : parser.nextTable = names.length
  distinct : names.Nodup
  watched : ∀ dbName tableName address,
    parser.watched dbName tableName = some address ↔
      names[address]? = some (foldedName dbName tableName)

section Watch

variable {self : CLogParser} {dbName tableName : Bytes}
  {names : List FoldedName}

theorem find?_assign_caseIgnorer {α : Type} (map : OrderedMap Bytes α)
    (key : Bytes) (value : α) (other : Bytes) :
    (map.assign caseIgnorer key value).find? caseIgnorer other =
      if folded key = folded other then some value
      else map.find? caseIgnorer other := by
  rw [OrderedMap.find?_assign]
  simp only [sameKey_caseIgnorer]

theorem find?_caseIgnorer_congr {α : Type} {left right : Bytes}
    (map : OrderedMap Bytes α) (same : folded left = folded right) :
    map.find? caseIgnorer left = map.find? caseIgnorer right := by
  have alike : ∀ key, OrderedMap.sameKey caseIgnorer key left =
      OrderedMap.sameKey caseIgnorer key right := by
    intro key
    rw [Bool.eq_iff_iff, sameKey_caseIgnorer, sameKey_caseIgnorer, same]
  simp only [OrderedMap.find?, alike]

theorem watched_watch_known {address : Address}
    (known : self.watched dbName tableName = some address)
    (otherDb otherTable : Bytes) :
    (self.watch dbName tableName).watched otherDb otherTable =
        self.watched otherDb otherTable ∧
      (self.watch dbName tableName).nextTable = self.nextTable := by
  obtain ⟨db, found, table⟩ := Option.bind_eq_some_iff.mp known
  unfold watch
  by_cases empty : dbName = [] ∨ tableName = []
  · rw [if_pos empty]
    exact ⟨rfl, rfl⟩
  · rw [if_neg empty]
    simp only [found, Option.getD_some, table, and_true]
    rw [watched, watched, find?_assign_caseIgnorer]
    by_cases same : folded dbName = folded otherDb
    · rw [if_pos same, ← find?_caseIgnorer_congr self.databases same, found]
    · rw [if_neg same]

theorem getTable_setTable (db : CDatabase) (name : Bytes) (table : Address)
    (other : Bytes) :
    (db.setTable name table).getTable other =
      if folded name = folded other then some table
      else db.getTable other :=
  find?_assign_caseIgnorer db.data name table other

theorem watched_watch_new (missing : self.watched dbName tableName = none)
    (named : ¬(dbName = [] ∨ tableName = [])) (otherDb otherTable : Bytes) :
    (self.watch dbName tableName).watched otherDb otherTable =
        (if foldedName dbName tableName = foldedName otherDb otherTable then
          some self.nextTable
        else self.watched otherDb otherTable) ∧
      (self.watch dbName tableName).nextTable = self.nextTable + 1 := by
  have absent : ((self.databases.find? caseIgnorer dbName).getD {}).getTable
      tableName = none := by
    cases found : self.databases.find? caseIgnorer dbName with
    | none => rfl
    | some db => simpa [watched, found] using missing
  unfold watch
  rw [if_neg named]
  simp only [absent, and_true, foldedName, Prod.mk.injEq]
  rw [watched, find?_assign_caseIgnorer, find?_assign_caseIgnorer]
  by_cases same : folded dbName = folded otherDb
  · rw [if_pos same, Option.bind_some, getTable_setTable, watched,
      ← find?_caseIgnorer_congr self.databases same]
    simp only [same, true_and]
    cases self.databases.find? caseIgnorer dbName with
    | none => rfl
    | some db => rfl
  · rw [if_neg same, if_neg same, if_neg fun both => same both.1, watched]

theorem Registers.mem_iff (registers : self.Registers names) :
    foldedName dbName tableName ∈ names ↔
      ∃ address, self.watched dbName tableName = some address := by
  simp only [registers.watched]
  exact List.mem_iff_getElem?

theorem Registers.watch (registers : self.Registers names)
    (call : Bytes × Bytes) :
    (self.watch call.1 call.2).Registers (register names call) := by
  obtain ⟨dbName, tableName⟩ := call
  unfold register
  cases found : self.watched dbName tableName with
  | some address =>
      have member := registers.mem_iff.mpr ⟨address, found⟩
      rw [if_pos (Or.inr (Or.inr member))]
      refine ⟨?_, registers.distinct, fun otherDb otherTable other => ?_⟩
      · rw [(watched_watch_known found [] []).2, registers.next]
      · rw [(watched_watch_known found otherDb otherTable).1,
          registers.watched]
  | none =>
      have fresh : foldedName dbName tableName ∉ names := by
        intro member
        obtain ⟨address, known⟩ := registers.mem_iff.mp member
        rw [found] at known
        cases known
      by_cases empty : dbName = [] ∨ tableName = []
      · rw [if_pos (or_assoc.mp (Or.inl empty)), CLogParser.watch,
          if_pos empty]
        exact registers
      · have kept : ¬(dbName = [] ∨ tableName = [] ∨
            foldedName dbName tableName ∈ names) := by
          simpa only [← or_assoc, fresh, or_false] using empty
        rw [if_neg kept]
        refine ⟨?_, ?_, fun otherDb otherTable other => ?_⟩
        · rw [(watched_watch_new found empty [] []).2, registers.next,
            List.length_append, List.length_singleton]
        · rw [← List.concat_eq_append]
          exact List.Nodup.concat fresh registers.distinct
        · rw [(watched_watch_new found empty otherDb otherTable).1,
            getElem?_concat_iff fresh]
          split
          · rw [registers.next, Option.some.injEq, eq_comm]
          · exact registers.watched otherDb otherTable other

end Watch

/-- The databases of a parser are those of its calls of `watch`. -/
theorem setUp_registers (calls : List Setup) :
    (setUp calls).Registers (registerAll (calls.filterMap Setup.names)) := by
  induction calls using List.reverseRecOn with
  | nil =>
      exact ⟨rfl, List.nodup_nil, fun dbName tableName address => by
        simp [setUp, watched, OrderedMap.find?, registerAll]⟩
  | append_singleton calls call induction =>
      rw [setUp, List.foldl_concat, List.filterMap_append, ← setUp]
      cases call with
      | setConnectionParams slaveId =>
          simp only [List.filterMap_cons, Setup.names, List.filterMap_nil,
            List.append_nil]
          exact ⟨induction.next, induction.distinct, induction.watched⟩
      | setBinlogPosition fname pos =>
          simp only [List.filterMap_cons, Setup.names, List.filterMap_nil,
            List.append_nil]
          exact ⟨induction.next, induction.distinct, induction.watched⟩
      | watch dbName tableName =>
          simp only [List.filterMap_cons, Setup.names, List.filterMap_nil]
          rw [registerAll, List.foldl_concat, ← registerAll]
          exact induction.watch (dbName, tableName)

theorem mem_registerAll {name : FoldedName} (calls : List (Bytes × Bytes)) :
    name ∈ registerAll calls ↔
      ∃ call ∈ calls, call.1 ≠ [] ∧ call.2 ≠ [] ∧
        foldedName call.1 call.2 = name := by
  induction calls using List.reverseRecOn with
  | nil => simp [registerAll]
  | append_singleton calls call induction =>
      rw [registerAll, List.foldl_concat, ← registerAll]
      simp only [List.mem_append, List.mem_singleton, or_and_right, exists_or,
        exists_eq_left, ← induction]
      unfold register
      split
      case isTrue kept =>
        constructor
        · exact Or.inl
        · rintro (old | ⟨db, table, rfl⟩)
          · exact old
          · simpa [db, table] using kept
      case isFalse new =>
        simp only [not_or] at new
        simp [new, eq_comm]

theorem registerAll_prefix (calls more : List (Bytes × Bytes)) :
    registerAll calls <+: registerAll (calls ++ more) := by
  induction more using List.reverseRecOn with
  | nil => simp only [List.append_nil, List.prefix_rfl]
  | append_singleton more call induction =>
      refine induction.trans ?_
      rw [← List.append_assoc, registerAll, registerAll, List.foldl_concat]
      unfold register
      split
      · exact List.prefix_rfl
      · exact List.prefix_append _ _

/-- Whatever calls set a parser up: a table is watched if a call has named it in
any mix of letter case, two names lead to one table if they differ in case only,
and a table stays where it is when more calls follow. -/
theorem setUp_watched (calls : List Setup) :
    (∀ dbName tableName,
      (∃ address, (setUp calls).watched dbName tableName = some address) ↔
        ∃ call ∈ calls.filterMap Setup.names, call.1 ≠ [] ∧ call.2 ≠ [] ∧
          foldedName call.1 call.2 = foldedName dbName tableName) ∧
      (∀ dbName tableName address,
        (setUp calls).watched dbName tableName = some address →
          ∀ otherDb otherTable,
            (setUp calls).watched otherDb otherTable = some address ↔
              foldedName otherDb otherTable = foldedName dbName tableName) ∧
      ∀ dbName tableName address more,
        (setUp calls).watched dbName tableName = some address →
          (setUp (calls ++ more)).watched dbName tableName = some address := by
  have registers := setUp_registers calls
  refine ⟨fun dbName tableName => ?_, fun dbName tableName address here => ?_,
    fun dbName tableName address more here => ?_⟩
  · rw [← mem_registerAll, registers.mem_iff]
  · intro otherDb otherTable
    rw [registers.watched] at here
    rw [registers.watched, here, Option.some.injEq, eq_comm]
  · rw [registers.watched] at here
    rw [(setUp_registers (calls ++ more)).watched, List.filterMap_append]
    obtain ⟨behind, whole⟩ := registerAll_prefix
      (calls.filterMap Setup.names) (more.filterMap Setup.names)
    have inside := (List.getElem?_eq_some_iff.mp here).1
    rw [← whole, List.getElem?_append_left inside, here]

end CLogParser

end MysqlSlave
