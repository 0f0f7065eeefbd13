import Mathlib.Data.List.GetD
import Mathlib.Data.List.Induction
import Mathlib.Data.List.Lex
import Mathlib.Data.List.TakeWhile
import MysqlSlave.Lib.SearchTree
import MysqlSlave.RowHistory

/-!
# Columns by name

`operator[]` of `CRow` looks a column up by its name in any mix of letter case.
The map behind it is ordered by `CCaseIgnorer`, which compares names as
`strcasecmp` does, with the greater name in front.
-/

namespace MysqlSlave

open Region

/-- Two names are equal but for the case of their letters. -/
def SameName (left right : Bytes) : Prop :=
  left.map toLower = right.map toLower

instance (left right : Bytes) : Decidable (SameName left right) :=
  inferInstanceAs (Decidable (_ = _))

/-- `operator[]` of a row.  `at` throws behind the end, and any exception gives
the null value, as a missing table or column does. -/
def CRow.byName (self : CRow) (tables : Address → CTable) (name : Bytes) :
    CValue :=
  match self.table with
  | none => {}
  | some table =>
      match (tables table).findColumn name with
      | none => {}
      | some colDesc => self.data.getD colDesc.position {}

section Names

/-- A name as `strcasecmp` compares it: in lower case and as far as a NUL. -/
def folded (name : Bytes) : List Nat :=
  (name.takeWhile (· ≠ 0)).map fun byte => (toLower byte).toNat

theorem toLower_zero : toLower 0 = 0 := by
  decide

theorem toLower_pos {byte : UInt8} (nonzero : byte ≠ 0) :
    0 < (toLower byte).toNat := by
  have positive : byte.toNat ≠ 0 := fun zero =>
    nonzero (UInt8.toNat_inj.mp zero)
  unfold toLower
  split
  · have sum : (byte + 32).toNat = (byte.toNat + 32) % 256 := by simp
    omega
  · omega

theorem folded_cons {byte : UInt8} (rest : Bytes) (nonzero : byte ≠ 0) :
    folded (byte :: rest) = (toLower byte).toNat :: folded rest := by
  simp [folded, nonzero]

theorem folded_zero (rest : Bytes) : folded (0 :: rest) = [] := by
  simp [folded]

theorem folded_plain {name : Bytes} (plain : 0 ∉ name) :
    folded name = (name.map toLower).map UInt8.toNat := by
  have all : name.takeWhile (· ≠ 0) = name := by
    rw [List.takeWhile_eq_self_iff]
    intro byte member
    exact decide_eq_true fun zero => plain (zero ▸ member)
  rw [folded, all, List.map_map]
  rfl

/-- The sign of `strcasecmp` is the lexicographic order of the folded names. -/
theorem strcasecmp_pos_iff (left right : Bytes) :
    0 < strcasecmp left right ↔ folded right < folded left := by
  induction left generalizing right with
  | nil =>
      cases right with
      | nil => simp [strcasecmp]
      | cons first rest =>
          by_cases zero : first = 0
          · simp [strcasecmp, zero, folded]
          · simp [strcasecmp, zero, folded]
  | cons byte lefts induction =>
      by_cases zero : byte = 0
      · subst zero
        cases right with
        | nil => simp [strcasecmp, folded]
        | cons first rest => simp [strcasecmp, folded, toLower_zero]
      · have positive := toLower_pos zero
        cases right with
        | nil => simp [strcasecmp, folded, zero, positive]
        | cons first rights =>
            by_cases firstZero : first = 0
            · subst firstZero
              have differ : toLower byte ≠ toLower 0 := by
                intro same
                rw [same, toLower_zero] at positive
                exact absurd positive (by decide)
              rw [strcasecmp, if_pos (Or.inr differ), folded_zero,
                folded_cons _ zero, toLower_zero]
              simpa using positive
            · rw [folded_cons _ zero, folded_cons _ firstZero,
                List.cons_lt_cons_iff]
              by_cases same : toLower byte = toLower first
              · rw [strcasecmp, if_neg (by simp [zero, same]), induction, same]
                simp
              · have different :
                    (toLower first).toNat ≠ (toLower byte).toNat :=
                  fun equal => same (UInt8.toNat_inj.mp equal.symm)
                rw [strcasecmp, if_pos (Or.inr same)]
                simp only [different, false_and, or_false]
                omega

theorem caseIgnorer_iff (left right : Bytes) :
    caseIgnorer left right = true ↔ folded right < folded left := by
  rw [caseIgnorer, decide_eq_true_iff]
  exact strcasecmp_pos_iff left right

/-- `CCaseIgnorer` is a strict weak order. -/
instance caseIgnorer_strictWeakOrder : IsStrictWeakOrder Bytes
    fun left right => caseIgnorer left right = true where
  irrefl name := by
    rw [caseIgnorer_iff]
    exact lt_irrefl _
  trans first second third := by
    simp only [caseIgnorer_iff]
    exact fun greater less => less.trans greater
  incomp_trans first second third := by
    simp only [caseIgnorer_iff, not_lt]
    rintro ⟨_, _⟩ ⟨_, _⟩
    exact ⟨le_trans ‹_› ‹_›, le_trans ‹_› ‹_›⟩

theorem sameKey_caseIgnorer (left right : Bytes) :
    OrderedMap.sameKey caseIgnorer left right = true ↔
      folded left = folded right := by
  rw [OrderedMap.sameKey_iff, caseIgnorer_iff, caseIgnorer_iff, not_lt, not_lt]
  exact ⟨fun both => le_antisymm both.1 both.2, fun same => ⟨same.le, same.ge⟩⟩

theorem sameKey_iff_sameName {left right : Bytes} (leftPlain : 0 ∉ left)
    (rightPlain : 0 ∉ right) :
    OrderedMap.sameKey caseIgnorer left right = true ↔
      SameName left right := by
  rw [sameKey_caseIgnorer, folded_plain leftPlain, folded_plain rightPlain,
    SameName]
  refine List.map_inj_right ?_
  intro first second same
  exact UInt8.toNat_inj.mp same

end Names

/-- A call of `add_column`; the position is an `int`. -/
structure AddColumn where
  columnName : Bytes
  columnPos : BitVec 32
  columnType : Bytes
  plain : 0 ∉ columnName

namespace AddColumn

/-- The position as the `size_t` that a `CColumnDesc` keeps. -/
def position (self : AddColumn) : Nat := (self.columnPos.signExtend 64).toNat

/-- What the call assigns in the map of the columns. -/
def entry (self : AddColumn) : Bytes × CColumnDesc :=
  (self.columnName, ({} : CColumnDesc).update self.position self.columnType)

/-- A position that is not negative stays what it is, and a negative one becomes
greater than any vector is long. -/
theorem position_eq (self : AddColumn) :
    (0 ≤ self.columnPos.toInt ∧ self.position = self.columnPos.toInt.toNat) ∨
      self.columnPos.toInt < 0 ∧ CTable.maxRowSize ≤ self.position := by
  have bound := self.columnPos.isLt
  rw [position, BitVec.toNat_signExtend, BitVec.toNat_setWidth,
    BitVec.toInt_eq_msb_cond, CTable.maxRowSize]
  cases self.columnPos.msb with
  | false =>
      refine Or.inl ⟨?_, ?_⟩
      · simp
      · simp only [Bool.false_eq_true, if_false, Int.toNat_natCast]
        omega
  | true =>
      refine Or.inr ⟨?_, ?_⟩
      · simp only [if_true]
        omega
      · simp only [if_true]
        omega

end AddColumn

/-- The value of a row at the position that the last of the calls for a name gave,
and a null value if there is none or it is not inside the row. -/
def CRow.lastNamed (self : CRow) (calls : List AddColumn) (name : Bytes) :
    CValue :=
  match calls.reverse.find? fun call => SameName call.columnName name with
  | none => {}
  | some call =>
      if 0 ≤ call.columnPos.toInt then
        self.data.getD call.columnPos.toInt.toNat {}
      else {}

namespace CTable

/-- The states of the table at address `this` while its member functions are
called in any order, with the calls of `add_column` so far. -/
inductive Reached (this : Address) : List AddColumn → CTable → Prop where
  | new : Reached this [] {}
  | addColumn {calls : List AddColumn} {table : CTable} (call : AddColumn) :
      Reached this calls table →
      Reached this (calls ++ [call])
        (table.addColumn call.columnName call.position call.columnType)
  | setTuned {calls : List AddColumn} {table : CTable} (tuned : Bool) :
      Reached this calls table →
      Reached this calls (table.setTuned tuned)
  | tune {calls : List AddColumn} {table after : CTable} {data : Bytes}
      {size : Nat} {fmt : CFormatDescriptionLogEvent} {rc : Return} :
      Reached this calls table →
      table.tune this data size fmt = .ok (rc, after) →
      Reached this calls after
  | update {calls : List AddColumn} {table after : CTable} {memory : Bytes}
      {rlev : CRowLogEvent} {rc : Int} :
      Reached this calls table →
      table.update memory rlev = .ok (rc, after) →
      Reached this calls after

/-- A row that the table at address `this` has decoded, now or earlier. -/
def HasDecoded (this : Address) (row : CRow) : Prop :=
  ∃ (calls : List AddColumn) (table : CTable),
    Reached this calls table ∧ (row ∈ table.rows ∨ row ∈ table.newRows)

/-- A row of the table at address `this`, which is a vector. -/
structure Holds (this : Address) (row : CRow) : Prop where
  table : row.table = some this ∨ row.data = []
  length : row.data.length ≤ maxRowSize

/-- The columns are those of the calls, and all rows are rows of the table. -/
structure Reached.Kept (this : Address) (calls : List AddColumn)
    (table : CTable) : Prop where
  columns : ∀ name, table.findColumn name =
    OrderedMap.lastFor caseIgnorer name (calls.map AddColumn.entry)
  row : Holds this table.row
  rows : ∀ row ∈ table.rows, Holds this row
  newRows : ∀ row ∈ table.newRows, Holds this row

theorem Holds.shaped {this : Address} {row other : CRow}
    (holds : Holds this row)
    (shaped : CRow.Shaped row.table (row.data.map CValue.pos) other) :
    Holds this other := by
  have length := shaped.length
  rw [List.length_map] at length
  refine ⟨?_, length.trans_le holds.length⟩
  rcases holds.table with mine | empty
  · exact Or.inl (shaped.table.trans mine)
  · rw [empty, List.length_nil, List.length_eq_zero_iff] at length
    exact Or.inr length

theorem tuneRow_table {data : Bytes} {columnTypes todo i : Nat}
    {row final : CRow}
    (run : tuneRow data columnTypes todo i row = .ok final) :
    final.table = row.table := by
  induction todo generalizing i row with
  | zero =>
      cases run
      rfl
  | succ todo induction =>
      obtain ⟨type, _, run⟩ := Exec.bind_eq_ok.mp run
      obtain ⟨next, modified, run⟩ := Exec.bind_eq_ok.mp run
      rw [induction run, (modifyAt_length modified).2]

/-- `tune` keeps the columns and the rows, and leaves a buffer of the table. -/
theorem tune_kept {self after : CTable} {this : Address} {data : Bytes}
    {size : Nat} {fmt : CFormatDescriptionLogEvent} {rc : Return}
    (run : self.tune this data size fmt = .ok (rc, after))
    (holds : Holds this self.row) :
    after.columns = self.columns ∧ after.rows = self.rows ∧
      after.newRows = self.newRows ∧ Holds this after.row := by
  unfold tune at run
  split at run
  · cases run
    exact ⟨rfl, rfl, rfl, holds⟩
  · obtain ⟨⟨code, event⟩, _, run⟩ := Exec.bind_eq_ok.mp run
    dsimp only at run
    split at run
    · split at run
      · cases run
        exact ⟨rfl, rfl, rfl, Or.inl rfl, holds.length⟩
      · rename_i fits
        obtain ⟨row, loop, run⟩ := Exec.bind_eq_ok.mp run
        cases run
        refine ⟨rfl, rfl, rfl, Or.inl (tuneRow_table loop), ?_⟩
        have length := (tuneRow_length loop).trans (resize_length _ _)
        exact length.trans_le (not_lt.mp fits)
    · cases run
      exact ⟨rfl, rfl, rfl, holds⟩

theorem Reached.kept {this : Address} {calls : List AddColumn}
    {table : CTable} (reached : Reached this calls table) :
    Reached.Kept this calls table := by
  induction reached with
  | new =>
      refine ⟨fun _ => rfl, ⟨Or.inr rfl, Nat.zero_le _⟩, ?_, ?_⟩
      · simp
      · simp
  | addColumn call earlier induction =>
      obtain ⟨columns, row, rows, newRows⟩ := induction
      refine ⟨fun name => ?_, row, rows, newRows⟩
      rw [List.map_append, List.map_singleton, OrderedMap.lastFor_snoc,
        ← columns]
      exact OrderedMap.find?_assign _ _ _ name
  | setTuned tuned earlier induction =>
      exact ⟨induction.columns, induction.row, induction.rows,
        induction.newRows⟩
  | tune earlier run induction =>
      obtain ⟨columns, rows, newRows, row⟩ := tune_kept run induction.row
      refine ⟨fun name => ?_, row, ?_, ?_⟩
      · rw [findColumn, columns]
        exact induction.columns name
      · rw [rows]
        exact induction.rows
      · rw [newRows]
        exact induction.newRows
  | update earlier run induction =>
      obtain ⟨columns, row, rows, newRows⟩ := induction
      cases update_updated run with
      | refused same =>
          rw [same]
          exact ⟨columns, row, rows, newRows⟩
      | decoded shaped same =>
          rw [same]
          exact ⟨columns, row.shaped shaped.row,
            fun other member => row.shaped (shaped.rows other member),
            fun other member => row.shaped (shaped.newRows other member)⟩

theorem HasDecoded.holds {this : Address} {row : CRow}
    (decoded : HasDecoded this row) : Holds this row := by
  obtain ⟨calls, table, reached, old | new⟩ := decoded
  · exact reached.kept.rows row old
  · exact reached.kept.newRows row new

end CTable

/-- The last of the calls in terms of the map and in terms of the names. -/
theorem lastFor_calls {name : Bytes} (plain : 0 ∉ name)
    (calls : List AddColumn) :
    OrderedMap.lastFor caseIgnorer name (calls.map AddColumn.entry) =
      (calls.reverse.find? fun call =>
        SameName call.columnName name).map fun call => call.entry.2 := by
  induction calls using List.reverseRecOn with
  | nil => rfl
  | append_singleton calls call induction =>
      have same := sameKey_iff_sameName call.plain plain
      rw [List.map_append, List.map_singleton, OrderedMap.lastFor_snoc,
        induction, List.reverse_append, List.reverse_singleton,
        List.singleton_append, List.find?_cons]
      by_cases equal : SameName call.columnName name
      · simp [AddColumn.entry, same, equal]
      · simp [AddColumn.entry, same, equal]

theorem CTable.Reached.Kept.byName {this : Address} {calls : List AddColumn}
    {table : CTable} {tables : Address → CTable} {row : CRow} {name : Bytes}
    (kept : CTable.Reached.Kept this calls table) (here : tables this = table)
    (holds : CTable.Holds this row) (plain : 0 ∉ name) :
    row.byName tables name = row.lastNamed calls name := by
  have found := (kept.columns name).trans (lastFor_calls plain calls)
  unfold CRow.lastNamed
  rcases holds.table with mine | empty
  · rw [CRow.byName, mine]
    dsimp only
    rw [here, found]
    cases calls.reverse.find? fun call => SameName call.columnName name with
    | none => rfl
    | some call =>
        simp only [Option.map_some, AddColumn.entry,
          CColumnDesc.update_position]
        rcases call.position_eq with ⟨positive, same⟩ | ⟨negative, large⟩
        · rw [if_pos positive, same]
        · rw [if_neg (not_le.mpr negative)]
          exact List.getD_eq_default _ _ (holds.length.trans large)
  · -- a row without values gives a null value whatever the map says
    have nothing : row.byName tables name = {} := by
      unfold CRow.byName
      split
      · rfl
      · split
        · rfl
        · rw [empty]
          rfl
    rw [nothing, empty]
    split
    · rfl
    · split <;> rfl

/-- For every table, whatever member functions were called on it in whatever
order, a row that it has decoded gives for a name the value at the position of the
last column of that name.  `CCaseIgnorer` is a strict weak order, two names are
equivalent to it if they are equal ignoring case, and every search tree that has
taken the calls finds the same columns. -/
theorem byName_eq_lastNamed {this : Address} {calls : List AddColumn}
    {table : CTable} {tables : Address → CTable} {row : CRow}
    (reached : CTable.Reached this calls table) (here : tables this = table)
    (decoded : CTable.HasDecoded this row) :
    (IsStrictWeakOrder Bytes fun left right => caseIgnorer left right = true) ∧
      (∀ left right, 0 ∉ left → 0 ∉ right →
        (OrderedMap.sameKey caseIgnorer left right = true ↔
          SameName left right)) ∧
      (∀ tree, SearchTree.Built caseIgnorer (calls.map AddColumn.entry) tree →
        ∀ name, tree.find? caseIgnorer name = table.findColumn name) ∧
      ∀ name, 0 ∉ name → row.byName tables name = row.lastNamed calls name := by
  have kept := reached.kept
  refine ⟨caseIgnorer_strictWeakOrder,
    fun left right => sameKey_iff_sameName, ?_,
    fun name plain => kept.byName here decoded.holds plain⟩
  intro tree built name
  rw [built.find?_eq, kept.columns]

/-- The column `A` is added with the position 5 and then as `a` with 0. -/
def renamedColumns : List AddColumn :=
  [⟨[65], 5, [], by decide⟩, ⟨[97], 0, [], by decide⟩]

/-- The table with the row (7), which has taken these calls. -/
def renamedTiny : CTable :=
  { CTable.filledTiny with columns := ⟨[([65], ({} : CColumnDesc).update 0 [])]⟩ }

theorem renamedTiny_reached : CTable.Reached 0 renamedColumns renamedTiny := by
  have mapped : (({} : CTable).addColumn [65] 5 []
      |>.addColumn [97] 0 []).tune 0 CTable.oneTinyMap 37
        (.ofServer [53] false) =
      .ok (.code 0,
        { CTable.mappedTiny with columns := renamedTiny.columns }) := by
    decide +kernel
  have updated : CTable.update
      { CTable.mappedTiny with columns := renamedTiny.columns }
      (CTable.oneTinyRows 1) (CTable.oneTinyEvent 0x0100000000000001#64) =
        .ok (0, renamedTiny) := by
    decide +kernel
  exact .update (.tune (.addColumn _ (.addColumn _ .new)) mapped) updated

theorem byName_eq_lastNamed_renamed :
    CTable.sevenRow.byName (fun _ => renamedTiny) [65] =
      ⟨.tiny, some 30, 1, 0, false, 0⟩ := by
  have decoded : CTable.HasDecoded 0 CTable.sevenRow :=
    ⟨_, _, renamedTiny_reached, Or.inl (List.mem_singleton.mpr rfl)⟩
  have lookup := @byName_eq_lastNamed _ _ _ (fun _ => renamedTiny) _
    renamedTiny_reached rfl decoded
  exact (lookup.2.2.2 [65] (by decide)).trans (by decide)

end MysqlSlave
