import Mathlib.Data.List.Forall2
import MysqlSlave.RowImage

/-!
# The row buffer

`update` decodes every row into one buffer.  What the buffer held in the columns
of the event does not show in the rows, and the columns behind those of the event
keep what they held.
-/

namespace MysqlSlave

open Region

/-- The buffer in two runs: the same positions and the same values in front of
column `i`; from column `count` on they hold `leftBack` and `rightBack`. -/
structure CRow.Alike (count : Nat) (leftBack rightBack : List CValue) (i : Nat)
    (left right : CRow) : Prop where
  table : left.table = right.table
  positions : left.data.map CValue.pos = right.data.map CValue.pos
  front : left.data.take i = right.data.take i
  leftBack : left.data.drop count = leftBack
  rightBack : right.data.drop count = rightBack

/-- A change that makes a value from its position alone and keeps that. -/
structure PosOnly (update : CValue → Exec CValue) : Prop where
  same : ∀ left right, left.pos = right.pos → update left = update right
  keeps : ∀ value result, update value = .ok result → result.pos = value.pos

theorem CValue.reset_posOnly : PosOnly fun value => .ok value.reset := by
  constructor
  · intro left right same
    simp [CValue.reset_eq_blank, same]
  · rintro value _ ⟨⟩
    rfl

theorem CValue.tune_posOnly (type : EColumnType) (memory : Bytes)
    (address metadata length : Nat) :
    PosOnly fun value => value.tune type memory address metadata length := by
  constructor
  · intro left right same
    rw [CValue.tune_eq_blank_tune left, CValue.tune_eq_blank_tune right, same]
  · exact fun value result tuned => (CValue.tune_storage tuned).2

section Alike

variable {count i : Nat} {leftBack rightBack : List CValue} {left right : CRow}

theorem CRow.Alike.weaken {j : Nat}
    (alike : CRow.Alike count leftBack rightBack i left right) (less : j ≤ i) :
    CRow.Alike count leftBack rightBack j left right := by
  refine ⟨alike.table, alike.positions, ?_, alike.leftBack, alike.rightBack⟩
  have front := congrArg (List.take j) alike.front
  simpa [List.take_take, less] using front

theorem modifyAt_alike {update : CValue → Exec CValue}
    (posOnly : PosOnly update)
    (alike : CRow.Alike count leftBack rightBack i left right)
    (inside : i < count) :
    Exec.Related (CRow.Alike count leftBack rightBack (i + 1))
      (left.modifyAt i update) (right.modifyAt i update) := by
  obtain ⟨table, positions, front, behindLeft, behindRight⟩ := alike
  have length : left.data.length = right.data.length := by
    simpa using congrArg List.length positions
  by_cases there : i < left.data.length
  · have there' : i < right.data.length := by omega
    have same : left.data[i].pos = right.data[i].pos := by
      have at_ := congrArg (fun list => list[i]?) positions
      simpa [there, there'] using at_
    unfold CRow.modifyAt
    rw [List.getElem?_eq_getElem there, List.getElem?_eq_getElem there']
    dsimp only
    rw [← posOnly.same _ _ same]
    cases run : update left.data[i] with
    | error fault => exact .error fault
    | ok value =>
        have pos := posOnly.keeps _ _ run
        refine .ok ⟨table, ?_, ?_, ?_, ?_⟩
        · simp only [List.map_set, positions]
        · simp [List.take_add_one, List.take_set_of_le, there, there', front]
        · rw [← behindLeft]
          exact List.drop_set_of_lt inside
        · rw [← behindRight]
          exact List.drop_set_of_lt inside
  · have missing : left.data[i]? = none := by simpa using there
    have missing' : right.data[i]? = none := by
      simp only [List.getElem?_eq_none_iff]
      omega
    simp only [CRow.modifyAt, missing, missing']
    exact .error _

end Alike

namespace CTable

variable {self : CTable} {memory : Bytes} {used nulls : BitVec 64}
  {count : Nat} {leftBack rightBack : List CValue}

/-- Two cursors that differ in their row buffers only. -/
structure RowCursor.Alike (count : Nat) (leftBack rightBack : List CValue)
    (i : Nat) (left right : RowCursor) : Prop where
  cursor : right = { left with row := right.row }
  row : CRow.Alike count leftBack rightBack i left.row right.row

theorem updateColumn_alike {i : Nat} {left right : RowCursor}
    (alike : RowCursor.Alike count leftBack rightBack i left right)
    (inside : i < count) :
    Exec.Related (RowCursor.Alike count leftBack rightBack (i + 1))
      (self.updateColumn memory used nulls i left)
      (self.updateColumn memory used nulls i right) := by
  obtain ⟨row, data, size, pmetadata, bit⟩ := left
  obtain ⟨row', data', size', pmetadata', bit'⟩ := right
  obtain ⟨same, alike⟩ := alike
  cases same
  unfold updateColumn
  dsimp only at alike ⊢
  split
  · exact (modifyAt_alike CValue.reset_posOnly alike inside).bind
      fun _ _ alike => .ok ⟨rfl, alike⟩
  · refine (Exec.Related.same (fun _ => rfl) (self.columnType i)).bind ?_
    rintro type _ rfl
    refine (Exec.Related.same (fun _ => rfl) _).bind ?_
    rintro ⟨metadata, behind⟩ _ rfl
    refine (modifyAt_alike CValue.reset_posOnly alike inside).bind ?_
    intro reset reset' alike
    dsimp only
    split
    · refine (Exec.Related.same (fun _ => rfl) _).bind ?_
      rintro length _ rfl
      refine (modifyAt_alike (CValue.tune_posOnly ..)
        (alike.weaken (Nat.le_succ i)) inside).bind ?_
      exact fun _ _ alike => .ok ⟨rfl, alike⟩
    · exact .ok ⟨rfl, alike⟩

theorem updateColumns_alike {todo i : Nat} {left right : RowCursor}
    (alike : RowCursor.Alike count leftBack rightBack i left right)
    (inside : i + todo ≤ count) :
    Exec.Related (RowCursor.Alike count leftBack rightBack (i + todo))
      (self.updateColumns memory used nulls todo i left)
      (self.updateColumns memory used nulls todo i right) := by
  induction todo generalizing i left right with
  | zero => exact .ok alike
  | succ todo induction =>
      refine (updateColumn_alike alike (by omega)).bind ?_
      intro next next' alike
      have later := induction alike (by omega)
      rwa [Nat.add_right_comm] at later

/-- Two results of `update_row` that differ in their rows only. -/
structure RowUpdate.Alike (count : Nat) (leftBack rightBack : List CValue)
    (left right : RowUpdate) : Prop where
  result : right = { left with row := right.row }
  row : CRow.Alike count leftBack rightBack count left.row right.row

theorem updateImage_alike {rlev : CRowLogEvent} {left right : CRow}
    {pfields len usedCount i : Nat} {mask : BitVec 64}
    (alike : CRow.Alike rlev.ncolumns leftBack rightBack i left right) :
    Exec.Related (RowUpdate.Alike rlev.ncolumns leftBack rightBack)
      (self.updateImage memory rlev left pfields len usedCount mask)
      (self.updateImage memory rlev right pfields len usedCount mask) := by
  unfold updateImage updateRow
  refine (Exec.Related.same (fun _ => rfl) _).bind ?_
  rintro bits _ rfl
  have start : RowCursor.Alike rlev.ncolumns leftBack rightBack 0
      { row := left, data := bits.ptr, size := signedSize bits.len
        pmetadata := self.metadata, bit := 1 }
      { row := right, data := bits.ptr, size := signedSize bits.len
        pmetadata := self.metadata, bit := 1 } :=
    ⟨rfl, alike.weaken (Nat.zero_le i)⟩
  refine (updateColumns_alike start (Nat.zero_add _).le).bind ?_
  rintro ⟨row, data, size, pmetadata, bit⟩ ⟨row', _⟩ ⟨same, alike⟩
  cases same
  rw [Nat.zero_add] at alike
  exact .ok ⟨rfl, alike⟩

/-- The row loop in two runs, as far as it has come. -/
structure RowsCursor.Alike (count : Nat) (leftBack rightBack : List CValue)
    (left right : RowsCursor) : Prop where
  pfields : left.pfields = right.pfields
  len : left.len = right.len
  row : CRow.Alike count leftBack rightBack 0 left.row right.row
  rows : List.Forall₂ (CRow.Alike count leftBack rightBack count)
    left.rows right.rows
  newRows : List.Forall₂ (CRow.Alike count leftBack rightBack count)
    left.newRows right.newRows

theorem updateRound_alike {rlev : CRowLogEvent} {left right : RowsCursor}
    (alike : RowsCursor.Alike rlev.ncolumns leftBack rightBack left right) :
    Exec.Related (RowsCursor.Alike rlev.ncolumns leftBack rightBack)
      (self.updateRound memory rlev left)
      (self.updateRound memory rlev right) := by
  obtain ⟨row, rows, newRows, pfields, len⟩ := left
  obtain ⟨row', rows', newRows', _, _⟩ := right
  obtain ⟨rfl, rfl, row, rows, newRows⟩ := alike
  unfold updateRound
  dsimp only at row rows newRows ⊢
  refine (updateImage_alike row).bind ?_
  rintro ⟨rc, before, pdata, len⟩ ⟨_, before', _, _⟩ ⟨same, beforeAlike⟩
  cases same
  have rows := List.rel_append rows (.cons beforeAlike .nil)
  dsimp only
  split
  · refine (updateImage_alike beforeAlike).bind ?_
    rintro ⟨rc', after, pdata', len'⟩ ⟨_, after', _, _⟩ ⟨same, afterAlike⟩
    cases same
    exact .ok ⟨rfl, rfl, afterAlike.weaken (Nat.zero_le _), rows,
      List.rel_append newRows (.cons afterAlike .nil)⟩
  · exact .ok ⟨rfl, rfl, beforeAlike.weaken (Nat.zero_le _), rows, newRows⟩

theorem updateRounds_alike {rlev : CRowLogEvent} {rounds : Nat}
    {left right : RowsCursor}
    (alike : RowsCursor.Alike rlev.ncolumns leftBack rightBack left right) :
    Exec.Related (RowsCursor.Alike rlev.ncolumns leftBack rightBack)
      (self.updateRounds memory rlev rounds left)
      (self.updateRounds memory rlev rounds right) := by
  induction rounds generalizing left right with
  | zero =>
      unfold updateRounds
      rw [← alike.len]
      split
      · exact .ok alike
      · exact .error _
  | succ rounds induction =>
      unfold updateRounds
      rw [← alike.len]
      split
      · exact .ok alike
      · exact (updateRound_alike alike).bind fun _ _ alike => induction alike

end CTable

end MysqlSlave
