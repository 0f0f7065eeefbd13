import Mathlib.Logic.Relation
import MysqlSlave.RowBounds

/-!
# Row data decoded inside its bounds

`CTable::update` follows lengths it reads from the row data and metadata it reads
from the table, and compares none of them with what is left.  `RowsInside` says on
the bytes of the two events alone when everything it does stays inside; the main
theorem is that this is exactly when a run does.
-/

namespace MysqlSlave

open Region

namespace CTable

/-- What the row loop sees of the bytes that are left: a length that is negative
as an `ssize_t` leaves nothing to read. -/
def visible (rest : Bytes) : Bytes :=
  if rest.length < 9223372036854775808 then rest else []

/-- An image of `ncolumns` columns, `count` of them present, is decoded inside
`rest` and leaves `behind`. -/
structure ImageInside (table : CTable) (width ncolumns count : Nat)
    (used : BitVec 64) (rest behind : Bytes) : Prop where
  bitmap : Bitmap.byteCount count ≤ rest.length
  columns : table.ColumnsInside (used &&& ~~~nullBits count rest) width ncolumns
    0 table.metadata (visible (rest.drop (Bitmap.byteCount count))) behind

/-- A row is decoded inside `rest` and leaves `behind`. -/
def RoundInside (self : CTable) (rlev : CRowLogEvent) (rest behind : Bytes) :
    Prop :=
  ∃ middle,
    self.ImageInside self.row.data.length rlev.ncolumns
      rlev.usedColumns1bitCount rlev.usedColumnsMask rest middle ∧
    if middle ≠ [] ∧ rlev.getTypeCode.isUpdateRows = true then
      self.ImageInside self.row.data.length rlev.ncolumns
        rlev.usedColumnsAfterimage1bitCount rlev.usedColumnsAfterimageMask
        middle behind
    else behind = middle

theorem ColumnsInside.nothing {self : CTable} {fields : BitVec 64}
    {width todo i : Nat} {pmetadata : Option Nat} {rest behind : Bytes}
    (walk : self.ColumnsInside fields width todo i pmetadata rest behind)
    (none : rest = []) : behind = [] := by
  induction walk with
  | done i pmetadata rest => exact none
  | spent _ _ induction => exact induction rfl
  | skipped _ more => exact absurd none more
  | framed _ more => exact absurd none more

theorem ColumnsInside.width {self : CTable} {fields : BitVec 64}
    {width todo i : Nat} {pmetadata : Option Nat} {rest behind : Bytes}
    (walk : self.ColumnsInside fields width todo i pmetadata rest behind) :
    todo = 0 ∨ i + todo ≤ width := by
  induction walk with
  | done => exact Or.inl rfl
  | spent inside _ induction => omega
  | skipped inside _ _ _ _ _ induction => omega
  | framed inside _ _ _ _ _ _ induction => omega

theorem RoundInside.nothing {self : CTable} {rlev : CRowLogEvent}
    {behind : Bytes} (inside : self.RoundInside rlev [] behind) :
    behind = [] := by
  obtain ⟨middle, image, later⟩ := inside
  have none : middle = [] := image.columns.nothing (by simp [visible])
  rw [if_neg (by simp [none])] at later
  rw [later, none]

theorem RoundInside.width {self : CTable} {rlev : CRowLogEvent}
    {rest behind : Bytes} (inside : self.RoundInside rlev rest behind) :
    rlev.ncolumns ≤ self.row.data.length := by
  obtain ⟨middle, image, _⟩ := inside
  have fits := image.columns.width
  omega

/-- The loop stands in front of `rest`, at `low` or behind it.  An event that is
shorter than its header has a length that wrapped. -/
structure RestAt (memory : Bytes) (low : Nat) (rest : Bytes)
    (pfields len : Nat) : Prop where
  placed : len ≠ 0 → low ≤ pfields ∧ memory.drop pfields = rest
  length : len = rest.length ∨ rest = [] ∧ 9223372036854775808 ≤ len
  small : len < 18446744073709551616

section Images

variable {self : CTable} {memory rest behind : Bytes} {rlev : CRowLogEvent}
  {row : CRow} {low pfields len count : Nat} {used : BitVec 64}

theorem buildColumnMask_at (few : count ≤ 48)
    (stands : RestAt memory low rest pfields len)
    (nonzero : len ≠ 0)
    (bitmap : Bitmap.byteCount count ≤ rest.length) :
    CRowLogEvent.buildColumnMask memory pfields len count =
      .ok ⟨nullBits count rest, pfields + Bitmap.byteCount count,
        sizeSub len (Bitmap.byteCount count)⟩ := by
  obtain ⟨_, place⟩ := stands.placed nonzero
  have room := congrArg List.length place
  rw [List.length_drop] at room
  refine (buildColumnMask_iff few stands.small).mpr ⟨?_, by rw [place]⟩
  by_cases none : count = 0
  · exact Or.inl none
  · have some : 1 ≤ Bitmap.byteCount count := by
      unfold Bitmap.byteCount
      omega
    right
    omega

theorem bitmap_of_built {nulls : CRowLogEvent.ColumnMask} (few : count ≤ 48)
    (stands : RestAt memory low rest pfields len)
    (nonzero : len ≠ 0)
    (built : CRowLogEvent.buildColumnMask memory pfields len count =
      .ok nulls) : Bitmap.byteCount count ≤ rest.length := by
  have room := congrArg List.length (stands.placed nonzero).2
  rw [List.length_drop] at room
  rcases ((buildColumnMask_iff few stands.small).mp built).1 with
    rfl | inside
  · exact Nat.zero_le _
  · omega

theorem signedSize_cases (len : Nat) (small : len < 18446744073709551616) :
    len < 9223372036854775808 ∧ signedSize len = len ∨
      9223372036854775808 ≤ len ∧ signedSize len < 0 := by
  unfold signedSize
  split
  · rename_i positive
    exact Or.inl ⟨positive, rfl⟩
  · rename_i negative
    exact Or.inr ⟨by omega, by omega⟩

theorem cursorAt_image (row : CRow) (pmetadata : Option Nat)
    (stands : RestAt memory low rest pfields len)
    (nonzero : len ≠ 0)
    (bitmap : Bitmap.byteCount count ≤ rest.length) :
    CursorAt memory low (visible (rest.drop (Bitmap.byteCount count))) 0
      { row, data := pfields + Bitmap.byteCount count
        size := signedSize (sizeSub len (Bitmap.byteCount count)), pmetadata
        bit := 1 } := by
  obtain ⟨above, place⟩ := stands.placed nonzero
  have small := stands.small
  generalize Bitmap.byteCount count = bytes at bitmap
  have leftLength : (rest.drop bytes).length = rest.length - bytes :=
    List.length_drop
  rcases stands.length with same | ⟨empty, wrapped⟩
  · subst same
    rw [sizeSub_eq bitmap small, ← leftLength]
    rcases signedSize_cases (rest.drop bytes).length (by omega) with
      ⟨positive, size⟩ | ⟨negative, size⟩
    · have all : visible (rest.drop bytes) = rest.drop bytes := if_pos positive
      rw [all]
      refine ⟨?_, ?_⟩
      · intro none
        dsimp only
        rw [size, none]
        exact Int.le_refl 0
      · intro some
        have left := List.length_pos_iff.mpr some
        have room := congrArg List.length place
        rw [List.length_drop] at room
        refine ⟨size, rfl, memory.take (pfields + bytes), ?_, ?_, ?_⟩
        · rw [← place, List.drop_drop, List.take_append_drop]
        · rw [List.length_take]
          dsimp only
          omega
        · rw [List.length_take]
          omega
    · have none : visible (rest.drop bytes) = [] :=
        if_neg (Nat.not_lt.mpr negative)
      rw [none]
      exact ⟨fun _ => Int.le_of_lt size, fun some => absurd rfl some⟩
  · subst empty
    have zero : bytes = 0 := Nat.le_zero.mp bitmap
    subst zero
    rw [sizeSub_eq (Nat.zero_le len) small, Nat.sub_zero]
    rcases signedSize_cases len small with ⟨positive, size⟩ | ⟨negative, size⟩
    · omega
    · exact ⟨fun _ => Int.le_of_lt size, fun some => absurd rfl some⟩

theorem restAt_image {final : RowCursor} {i : Nat} {result : RowUpdate}
    (stands : CursorAt memory low behind i final)
    (pdata : result.pdata = final.data)
    (left : result.len = if final.size < 0 then 0 else final.size.toNat)
    (small : result.len < 18446744073709551616) :
    RestAt memory low behind result.pdata result.len ∧
      result.len = behind.length := by
  by_cases none : behind = []
  · have spent := stands.spent none
    have zero : result.len = 0 := by
      rw [left]
      split <;> omega
    subst none
    exact ⟨⟨fun some => absurd zero some, Or.inl zero, small⟩, zero⟩
  · obtain ⟨size, _, front, split, data, below⟩ := stands.unspent none
    have length : result.len = behind.length := by
      rw [left, size]
      simp
    refine ⟨⟨?_, Or.inl length, small⟩, length⟩
    intro _
    rw [pdata, data, split]
    exact ⟨below, List.drop_left⟩

theorem updateImage_of_inside (few : count ≤ 48)
    (stands : RestAt memory low rest pfields len)
    (nonzero : len ≠ 0)
    (inside : self.ImageInside row.data.length rlev.ncolumns count used rest
      behind) :
    ∃ result,
      self.updateImage memory rlev row pfields len count used = .ok result ∧
        RestAt memory low behind result.pdata result.len ∧
        result.len = behind.length ∧
        Decoded row result.row low memory.length 0 rlev.ncolumns := by
  obtain ⟨bitmap, columns⟩ := inside
  have built := buildColumnMask_at few stands nonzero bitmap
  obtain ⟨final, run, finalStands, decoded⟩ :=
    updateColumns_of_inside columns
      (cursorAt_image row self.metadata stands nonzero bitmap) rfl rfl
  rw [Nat.zero_add] at decoded
  have done : self.updateImage memory rlev row pfields len count used =
      .ok { rc := if final.size ≥ 0 then 0 else -1
            row := final.row
            pdata := final.data
            len := if final.size < 0 then 0 else final.size.toNat } := by
    simp only [updateImage, built, Exec.ok_bind, updateRow, run,
      Exec.pure_eq_ok]
  have small := (updateImage_le few stands.small done).1.trans_lt stands.small
  obtain ⟨behindStands, length⟩ := restAt_image finalStands rfl rfl small
  exact ⟨_, done, behindStands, length, decoded⟩

/-- An image that was decoded to values inside has been decoded inside the
rest. -/
theorem inside_of_updateImage {result : RowUpdate} (few : count ≤ 48)
    (stands : RestAt memory low rest pfields len)
    (nonzero : len ≠ 0)
    (done : self.updateImage memory rlev row pfields len count used =
      .ok result)
    (values : ∀ j value, j < rlev.ncolumns → result.row.data[j]? = some value →
      value.Inside low memory.length) :
    ∃ behind, self.ImageInside row.data.length rlev.ncolumns count used rest
      behind := by
  obtain ⟨nulls, built, later⟩ := Exec.bind_eq_ok.mp done
  have bitmap := bitmap_of_built few stands nonzero built
  rw [buildColumnMask_at few stands nonzero bitmap] at built
  cases built
  obtain ⟨final, run, returned⟩ := Exec.bind_eq_ok.mp later
  cases returned
  obtain ⟨behind, columns⟩ := inside_of_updateColumns
    (cursorAt_image row self.metadata stands nonzero bitmap) run
    (fun j value _ below there => values j value (by omega) there)
  exact ⟨behind, bitmap, columns⟩

end Images

/-- A row of the same width, with the same values from index `last` on. -/
structure Kept (start row : CRow) (last : Nat) : Prop where
  length : row.data.length = start.data.length
  others : ∀ j, last ≤ j → row.data[j]? = start.data[j]?

section Rounds

variable {self : CTable} {memory rest behind : Bytes} {rlev : CRowLogEvent}
  {low : Nat} {cursor : RowsCursor}

theorem Kept.decoded {start row final : CRow} {high last : Nat}
    (kept : Kept start row last)
    (decoded : Decoded row final low high 0 last) :
    Decoded start final low high 0 last ∧ Kept start final last := by
  have length := decoded.length.trans kept.length
  have others : ∀ j, last ≤ j → final.data[j]? = start.data[j]? := by
    intro j above
    rw [decoded.others j (Or.inr above), kept.others j above]
  refine ⟨⟨length, decoded.inside, ?_⟩, length, others⟩
  intro j outside
  exact others j (by omega)

theorem updateRound_of_inside (counted : Counted rlev)
    (stands : RestAt memory low rest cursor.pfields cursor.len)
    (nonzero : cursor.len ≠ 0)
    (kept : Kept self.row cursor.row rlev.ncolumns)
    (inside : self.RoundInside rlev rest behind) :
    ∃ next, self.updateRound memory rlev cursor = .ok next ∧
      RestAt memory low behind next.pfields next.len ∧
      next.len = behind.length ∧
      Kept self.row next.row rlev.ncolumns ∧
      ∀ row ∈ next.rows ++ next.newRows,
        row ∈ cursor.rows ++ cursor.newRows ∨
          Decoded self.row row low memory.length 0 rlev.ncolumns := by
  obtain ⟨middle, image, later⟩ := inside
  rw [← kept.length] at image
  obtain ⟨before, beforeRun, beforeStands, beforeLen, beforeDecoded⟩ :=
    updateImage_of_inside counted.used stands nonzero image
  obtain ⟨beforeDecoded, beforeKept⟩ := kept.decoded beforeDecoded
  by_cases again : middle ≠ [] ∧ rlev.getTypeCode.isUpdateRows = true
  · rw [if_pos again, ← beforeKept.length] at later
    have some : before.len ≠ 0 := by
      rw [beforeLen]
      exact List.length_pos_iff.mpr again.1 |>.ne'
    obtain ⟨after, afterRun, afterStands, afterLen, afterDecoded⟩ :=
      updateImage_of_inside (counted.usedAfter again.2) beforeStands some later
    obtain ⟨afterDecoded, afterKept⟩ := beforeKept.decoded afterDecoded
    refine ⟨⟨after.row, cursor.rows ++ [before.row],
      cursor.newRows ++ [after.row], after.pdata, after.len⟩, ?_, afterStands,
      afterLen, afterKept, ?_⟩
    · exact updateRound_iff.mpr (.pair beforeRun some again.2 afterRun)
    · intro row member
      simp only [List.mem_append, List.mem_singleton] at member ⊢
      rcases member with (old | rfl) | (old | rfl)
      · exact Or.inl (Or.inl old)
      · exact Or.inr beforeDecoded
      · exact Or.inl (Or.inr old)
      · exact Or.inr afterDecoded
  · rw [if_neg again] at later
    subst later
    refine ⟨⟨before.row, cursor.rows ++ [before.row], cursor.newRows,
      before.pdata, before.len⟩, ?_, beforeStands, beforeLen, beforeKept, ?_⟩
    · refine updateRound_iff.mpr (.single beforeRun fun both => again ?_)
      refine ⟨?_, both.2⟩
      intro none
      rw [none] at beforeLen
      exact both.1 beforeLen
    · intro row member
      simp only [List.mem_append, List.mem_singleton] at member ⊢
      rcases member with (old | rfl) | old
      · exact Or.inl (Or.inl old)
      · exact Or.inr beforeDecoded
      · exact Or.inl (Or.inr old)

/-- A round that pushed rows with all values inside has been decoded inside the
rest. -/
theorem inside_of_updateRound {next : RowsCursor} (counted : Counted rlev)
    (stands : RestAt memory low rest cursor.pfields cursor.len)
    (nonzero : cursor.len ≠ 0)
    (kept : Kept self.row cursor.row rlev.ncolumns)
    (stepped : self.updateRound memory rlev cursor = .ok next)
    (values : ∀ row ∈ next.rows ++ next.newRows, ∀ value ∈ row.data,
      value.Inside low memory.length) :
    ∃ behind, self.RoundInside rlev rest behind := by
  have first : ∀ before : RowUpdate,
      self.updateImage memory rlev cursor.row cursor.pfields cursor.len
        rlev.usedColumns1bitCount rlev.usedColumnsMask = .ok before →
      before.row ∈ next.rows →
      ∃ middle,
        self.ImageInside self.row.data.length rlev.ncolumns
          rlev.usedColumns1bitCount rlev.usedColumnsMask rest middle ∧
        RestAt memory low middle before.pdata before.len ∧
        before.len = middle.length ∧
        before.row.data.length = self.row.data.length := by
    intro before run pushed
    obtain ⟨middle, image⟩ := inside_of_updateImage counted.used stands nonzero
      run fun j value _ there => values before.row
        (List.mem_append_left _ pushed) value (List.mem_of_getElem? there)
    obtain ⟨again, rerun, beforeStands, length, decoded⟩ :=
      updateImage_of_inside counted.used stands nonzero image
    rw [run] at rerun
    cases rerun
    rw [kept.length] at image
    exact ⟨middle, image, beforeStands, length,
      decoded.length.trans kept.length⟩
  cases updateRound_iff.mp stepped with
  | single beforeRun last =>
      obtain ⟨middle, image, _, length, _⟩ := first _ beforeRun (by simp)
      refine ⟨middle, middle, image, ?_⟩
      rw [if_neg]
      rintro ⟨some, update⟩
      refine last ⟨?_, update⟩
      rw [length]
      exact (List.length_pos_iff.mpr some).ne'
  | pair beforeRun more update afterRun =>
      obtain ⟨middle, image, beforeStands, length, width⟩ :=
        first _ beforeRun (by simp)
      obtain ⟨behind, imageAfter⟩ :=
        inside_of_updateImage (counted.usedAfter update) beforeStands more
          afterRun fun j value _ there => values _ (by simp) value
            (List.mem_of_getElem? there)
      rw [width] at imageAfter
      have some : middle ≠ [] := by
        rintro rfl
        exact more length
      exact ⟨behind, middle, image, by rwa [if_pos ⟨some, update⟩]⟩

end Rounds

section Ahead

variable {self : CTable} {left right : Bytes} {low : Nat}

theorem readByte_of_drop (same : left.drop low = right.drop low)
    {address : Nat} (above : low ≤ address) :
    readByte left address = readByte right address := by
  have here := congrArg (fun bytes => bytes[address - low]?) same
  simp only [List.getElem?_drop, Nat.add_sub_cancel' above] at here
  unfold readByte
  rw [here]

theorem readLE_of_drop (same : left.drop low = right.drop low)
    {address width : Nat} (above : low ≤ address) :
    readLE left address width = readLE right address width := by
  induction width generalizing address with
  | zero => rfl
  | succ width induction =>
      unfold readLE
      rw [readByte_of_drop same above, induction (by omega)]

theorem updateColumn_of_drop (same : left.drop low = right.drop low)
    {used nulls : BitVec 64} {i : Nat} {cursor : RowCursor}
    (above : low ≤ cursor.data) :
    self.updateColumn left used nulls i cursor =
      self.updateColumn right used nulls i cursor := by
  have byte := readByte_of_drop same above
  have number : ∀ width, readLE left cursor.data width =
      readLE right cursor.data width :=
    fun _ => readLE_of_drop same above
  have size : ∀ type metadata,
      CValue.calcFieldSize type left cursor.data metadata =
        CValue.calcFieldSize type right cursor.data metadata := by
    intro type metadata
    cases type <;> simp only [CValue.calcFieldSize, byte, number]
  have tune : ∀ (value : CValue) type metadata length,
      value.tune type left cursor.data metadata length =
        value.tune type right cursor.data metadata length := by
    intro value type metadata length
    cases type <;> simp only [CValue.tune, byte, number]
  simp only [updateColumn, size, tune]

theorem updateColumn_data {memory : Bytes} {used nulls : BitVec 64} {i : Nat}
    {cursor final : RowCursor}
    (run : self.updateColumn memory used nulls i cursor = .ok final) :
    cursor.data ≤ final.data ∧
      final.row.data.length = cursor.row.data.length := by
  cases updateColumn_iff.mp run with
  | spent => exact ⟨Nat.le_refl _, CRow.put_length _ _ _⟩
  | skipped => exact ⟨Nat.le_refl _, CRow.put_length _ _ _⟩
  | framed => exact ⟨Nat.le_add_right _ _, CRow.put_length _ _ _⟩

theorem updateColumns_data {memory : Bytes} {used nulls : BitVec 64}
    {todo i : Nat} {cursor final : RowCursor}
    (run : self.updateColumns memory used nulls todo i cursor = .ok final) :
    cursor.data ≤ final.data ∧
      final.row.data.length = cursor.row.data.length := by
  induction todo generalizing i cursor with
  | zero =>
      cases run
      exact ⟨Nat.le_refl _, rfl⟩
  | succ todo induction =>
      obtain ⟨next, first, later⟩ := Exec.bind_eq_ok.mp run
      obtain ⟨above, width⟩ := updateColumn_data first
      obtain ⟨aboveNext, widthNext⟩ := induction later
      exact ⟨above.trans aboveNext, widthNext.trans width⟩

theorem updateColumns_of_drop (same : left.drop low = right.drop low)
    {used nulls : BitVec 64} {todo i : Nat} {cursor : RowCursor}
    (above : low ≤ cursor.data) :
    self.updateColumns left used nulls todo i cursor =
      self.updateColumns right used nulls todo i cursor := by
  induction todo generalizing i cursor with
  | zero => rfl
  | succ todo induction =>
      unfold updateColumns
      apply Exec.bind_congr (updateColumn_of_drop same above)
      intro next run
      exact induction (above.trans (updateColumn_data run).1)

variable {rlev : CRowLogEvent} {row : CRow} {pfields len count : Nat}
  {used : BitVec 64}

theorem buildColumnMask_ptr {memory : Bytes}
    {nulls : CRowLogEvent.ColumnMask}
    (built : CRowLogEvent.buildColumnMask memory pfields len count =
      .ok nulls) : pfields ≤ nulls.ptr := by
  unfold CRowLogEvent.buildColumnMask at built
  dsimp only at built
  split at built
  · obtain ⟨mask, _, result⟩ := Exec.bind_eq_ok.mp built
    cases result
    exact Nat.le_add_right _ _
  · cases built
    exact Nat.le_refl _

theorem updateImage_data {memory : Bytes} {result : RowUpdate}
    (run : self.updateImage memory rlev row pfields len count used =
      .ok result) :
    pfields ≤ result.pdata ∧ result.row.data.length = row.data.length := by
  obtain ⟨nulls, built, later⟩ := Exec.bind_eq_ok.mp run
  obtain ⟨final, columns, returned⟩ := Exec.bind_eq_ok.mp later
  cases returned
  obtain ⟨above, width⟩ := updateColumns_data columns
  exact ⟨(buildColumnMask_ptr built).trans above, width⟩

theorem updateImage_of_drop (same : left.drop low = right.drop low)
    (above : low ≤ pfields) :
    self.updateImage left rlev row pfields len count used =
      self.updateImage right rlev row pfields len count used := by
  have number : ∀ width, readLE left pfields width =
      readLE right pfields width := fun _ => readLE_of_drop same above
  have bitmap : CRowLogEvent.buildColumnMask left pfields len count =
      CRowLogEvent.buildColumnMask right pfields len count := by
    simp only [CRowLogEvent.buildColumnMask, number]
  unfold updateImage
  apply Exec.bind_congr bitmap
  intro nulls built
  have behind := buildColumnMask_ptr built
  have columns : ∀ cursor : RowCursor, low ≤ cursor.data →
      self.updateColumns left used (~~~nulls.mask) rlev.ncolumns 0 cursor =
        self.updateColumns right used (~~~nulls.mask) rlev.ncolumns 0
          cursor := fun _ above => updateColumns_of_drop same above
  simp only [updateRow]
  rw [columns _ (above.trans behind)]

theorem updateRound_data {memory : Bytes} {cursor next : RowsCursor}
    (stepped : self.updateRound memory rlev cursor = .ok next) :
    cursor.pfields ≤ next.pfields ∧
      next.row.data.length = cursor.row.data.length := by
  obtain ⟨before, beforeRun, later⟩ := Exec.bind_eq_ok.mp stepped
  obtain ⟨above, width⟩ := updateImage_data beforeRun
  dsimp only at later
  split at later
  · obtain ⟨after, afterRun, result⟩ := Exec.bind_eq_ok.mp later
    obtain ⟨aboveAfter, widthAfter⟩ := updateImage_data afterRun
    cases result
    exact ⟨above.trans aboveAfter, widthAfter.trans width⟩
  · cases later
    exact ⟨above, width⟩

theorem updateRound_of_drop (same : left.drop low = right.drop low)
    {cursor : RowsCursor} (above : low ≤ cursor.pfields) :
    self.updateRound left rlev cursor = self.updateRound right rlev cursor := by
  unfold updateRound
  apply Exec.bind_congr (updateImage_of_drop same above)
  intro before run
  have behind := (updateImage_data run).1
  dsimp only
  split
  · apply Exec.bind_congr (updateImage_of_drop same (above.trans behind))
    intro after _
    rfl
  · rfl

/-- `update` does not look at what stands in front of the row data. -/
theorem update_of_drop (same : left.drop rlev.rowsData =
      right.drop rlev.rowsData) :
    self.update left rlev = self.update right rlev := by
  have rounds : ∀ rounds,
      whileRounds (self.updateRound left rlev) RowsCursor.len rounds
          (self.firstRound rlev) =
        whileRounds (self.updateRound right rlev) RowsCursor.len rounds
          (self.firstRound rlev) := by
    apply whileRounds_congr
      (fun cursor (above : rlev.rowsData ≤ cursor.pfields) =>
        updateRound_of_drop same above)
    · intro cursor next above stepped
      exact Nat.le_trans above (updateRound_data stepped).1
    · exact Nat.le_refl rlev.rowsData
  have start : self.firstRound rlev =
      { row := self.row, rows := [], newRows := [], pfields := rlev.rowsData
        len := rlev.rowsLen } := rfl
  simp only [update, updateRounds_eq, ← start, rounds]

end Ahead

/-- A table that `tune` gave the columns of a TABLE_MAP event, after any number
of updates. -/
inductive Processed : CTable → Prop where
  | tuned {before table : CTable} {this : Address} {data : Bytes} {size : Nat}
      {fmt : CFormatDescriptionLogEvent} :
      before.tuned = false →
      before.tune this data size fmt = .ok (.code 0, table) →
      table.tuned = true →
      Processed table
  | updated {before after : CTable} {memory : Bytes} {rlev : CRowLogEvent}
      {rc : Int} :
      Processed before →
      before.update memory rlev = .ok (rc, after) →
      Processed after

/-- The bytes of an event without its checksum. -/
def eventContent (fmt : CFormatDescriptionLogEvent) (memory : Bytes) : Bytes :=
  memory.take (memory.length - fmt.trailerLen)

/-- The table, with a copy of its event that ends behind the metadata block. -/
def bounded (self : CTable) : CTable :=
  { self with
    data :=
      match self.metadata with
      | some metadata => self.data.take (metadata + self.metadataLength)
      | none => self.data }

/-- The row data, in the bytes of the event without its checksum, is decoded
inside its bounds. -/
structure RowsInside (table : CTable) (content : Bytes)
    (rlev : CRowLogEvent) : Prop where
  first : rlev.rowsLen ≠ 0 →
    ∃ behind,
      table.bounded.RoundInside rlev (content.drop rlev.rowsData) behind
  later : ∀ rest,
    Relation.ReflTransGen (table.bounded.RoundInside rlev)
      (content.drop rlev.rowsData) rest →
    rest ≠ [] →
    ∃ behind, table.bounded.RoundInside rlev rest behind
  stale : rlev.rowsLen ≠ 0 →
    ∀ i value, rlev.ncolumns ≤ i → table.row.data[i]? = some value →
      value.Inside rlev.rowsData content.length

/-- `update` stays inside the row data and inside the table. -/
structure DecodesInside (table : CTable) (content : Bytes)
    (rlev : CRowLogEvent) : Prop where
  columns : rlev.rowsLen ≠ 0 → rlev.ncolumns ≤ table.columnCount
  runs : ∀ cursor,
    RoundsReach (table.bounded.updateRound content rlev) RowsCursor.len
      (table.firstRound rlev) cursor →
    cursor.len ≠ 0 →
    ∃ next, table.bounded.updateRound content rlev cursor = .ok next
  values : ∀ cursor,
    RoundsReach (table.bounded.updateRound content rlev) RowsCursor.len
      (table.firstRound rlev) cursor →
    ∀ row ∈ cursor.rows ++ cursor.newRows, ∀ value ∈ row.data,
      value.Inside rlev.rowsData content.length
  returned : ∀ rc after,
    table.bounded.update content rlev = .ok (rc, after) →
    ∀ row ∈ after.rows ++ after.newRows, ∀ value ∈ row.data,
      value.Inside rlev.rowsData content.length
  ahead : ∀ other : Bytes,
    other.drop rlev.rowsData = content.drop rlev.rowsData →
    table.bounded.update other rlev = table.bounded.update content rlev

section Processed

theorem updateRounds_width {self : CTable} {memory : Bytes}
    {rlev : CRowLogEvent} {rounds : Nat} {cursor final : RowsCursor}
    (run : self.updateRounds memory rlev rounds cursor = .ok final) :
    final.row.data.length = cursor.row.data.length := by
  rw [updateRounds_eq] at run
  apply (whileRounds_reach run).1.invariant fun final : RowsCursor =>
    final.row.data.length = cursor.row.data.length
  · rfl
  · intro state next width _ stepped
    exact (updateRound_data stepped).2.trans width

theorem Processed.width {self : CTable} (processed : self.Processed) :
    self.row.data.length = self.columnCount := by
  induction processed with
  | tuned untuned run tuned => exact tune_width untuned run tuned
  | updated _ run induction =>
      unfold update at run
      split at run
      · cases run
        exact induction
      · obtain ⟨cursor, rounds, result⟩ := Exec.bind_eq_ok.mp run
        cases result
        exact (updateRounds_width rounds).trans induction

end Processed

section Accepted

variable {memory : Bytes} {fmt : CFormatDescriptionLogEvent}

theorem netFieldLength_le {pos value behind : Nat}
    (run : netFieldLength memory pos = .ok (value, behind)) :
    pos ≤ behind := by
  obtain ⟨first, _, run⟩ := Exec.bind_eq_ok.mp run
  split at run
  · cases run
    omega
  · split at run
    · cases run
      omega
    · split at run
      · obtain ⟨number, _, result⟩ := Exec.bind_eq_ok.mp run
        cases result
        omega
      · split at run
        · obtain ⟨number, _, result⟩ := Exec.bind_eq_ok.mp run
          cases result
          omega
        · obtain ⟨number, _, result⟩ := Exec.bind_eq_ok.mp run
          cases result
          omega

theorem readExtraData_le {code : LogEventType} {p behind length : Nat}
    {block : Option Nat}
    (run : CRowLogEvent.readExtraData code memory p =
      .ok (length, block, behind)) : p ≤ behind := by
  unfold CRowLogEvent.readExtraData at run
  split at run
  · obtain ⟨stored, _, result⟩ := Exec.bind_eq_ok.mp run
    simp only [Exec.pure_eq_ok, Except.ok.injEq, Prod.mk.injEq] at result
    omega
  · cases run
    exact Nat.le_refl _

theorem buildColumnMask_inside {ptr len n : Nat}
    {built : CRowLogEvent.ColumnMask}
    (run : CRowLogEvent.buildColumnMask memory ptr len n = .ok built)
    (good : built.mask ≠ -1) :
    ptr ≤ built.ptr ∧ built.ptr ≤ memory.length := by
  refine ⟨buildColumnMask_ptr run, ?_⟩
  unfold CRowLogEvent.buildColumnMask at run
  dsimp only at run
  split at run
  · rename_i range
    obtain ⟨mask, read, result⟩ := Exec.bind_eq_ok.mp run
    cases result
    exact readLE_inside range.1 read
  · cases run
    exact absurd rfl good

/-- Where the row data of an accepted event starts, and what it takes for its
length. -/
theorem rowsData_of_accepted {before rlev : CRowLogEvent} {size : Nat}
    (accepted : before.tune memory size fmt = .ok (0, rlev)) :
    fmt.commonHeaderLen ≤ rlev.data ∧ rlev.data ≤ memory.length ∧
      rlev.len =
        sizeSub (sizeSub (sizeSub size fmt.commonHeaderLen) fmt.trailerLen)
          (rlev.data - fmt.commonHeaderLen) := by
  obtain ⟨code, p, behind, used, last, read⟩ :=
    CRowLogEvent.tune_readFrom accepted
  have behindExtra := readExtraData_le read.extra
  have behindCount := netFieldLength_le read.count
  obtain ⟨usedBehind, usedInside⟩ :=
    buildColumnMask_inside read.usedRead read.usedGood
  have len := read.lenEq
  rw [read.dataEq]
  have after := read.lastRead
  split at after
  · obtain ⟨built, good, _⟩ := after
    obtain ⟨afterBehind, afterInside⟩ := buildColumnMask_inside built good
    exact ⟨by omega, afterInside, len⟩
  · subst after
    exact ⟨by omega, usedInside, len⟩

theorem restAt_accepted {before rlev : CRowLogEvent}
    (small : memory.length < 18446744073709551616)
    (accepted : before.tune memory memory.length fmt = .ok (0, rlev)) :
    RestAt (eventContent fmt memory) rlev.rowsData
      ((eventContent fmt memory).drop rlev.rowsData) rlev.rowsData
      rlev.rowsLen := by
  obtain ⟨header, inside, length⟩ := rowsData_of_accepted accepted
  have trailer : fmt.trailerLen ≤ 4 := by
    unfold CFormatDescriptionLogEvent.trailerLen
    split <;> omega
  have left : ((eventContent fmt memory).drop rlev.data).length =
      memory.length - fmt.trailerLen - rlev.data := by
    rw [eventContent, List.length_drop, List.length_take]
    omega
  rw [sizeSub_eq (header.trans inside) small] at length
  -- both subtractions wrap together
  have wrapped : rlev.len =
      (memory.length + 18446744073709551616 - (fmt.trailerLen + rlev.data)) %
        18446744073709551616 := by
    rw [length]
    unfold sizeSub
    omega
  refine ⟨fun _ => ⟨Nat.le_refl _, rfl⟩, ?_, ?_⟩
  · by_cases room : fmt.trailerLen + rlev.data ≤ memory.length
    · refine Or.inl ?_
      rw [CRowLogEvent.rowsData, CRowLogEvent.rowsLen, left]
      omega
    · refine Or.inr ⟨List.length_eq_zero_iff.mp ?_, ?_⟩
      · rw [CRowLogEvent.rowsData]
        omega
      · rw [CRowLogEvent.rowsLen]
        omega
  · rw [CRowLogEvent.rowsLen]
    omega

end Accepted

section Main

variable {self : CTable} {content : Bytes} {rlev : CRowLogEvent}

theorem bounded_row : self.bounded.row = self.row := rfl

/-- Where the loop has come to, and what it has pushed. -/
structure RowsAt (table : CTable) (content : Bytes) (rlev : CRowLogEvent)
    (cursor : RowsCursor) (rest : Bytes) : Prop where
  stands : RestAt content rlev.rowsData rest cursor.pfields cursor.len
  kept : Kept table.row cursor.row rlev.ncolumns
  rows : ∀ row ∈ cursor.rows ++ cursor.newRows,
    Decoded table.row row rlev.rowsData content.length 0 rlev.ncolumns

theorem rowsAt_first
    (stands : RestAt content rlev.rowsData (content.drop rlev.rowsData)
      rlev.rowsData rlev.rowsLen) :
    RowsAt self content rlev (self.firstRound rlev)
      (content.drop rlev.rowsData) :=
  ⟨stands, ⟨rfl, fun _ _ => rfl⟩, fun _ member => absurd member (by
    simp [firstRound])⟩

theorem RowsAt.round {cursor : RowsCursor} {rest behind : Bytes}
    (counted : Counted rlev)
    (at_ : RowsAt self content rlev cursor rest)
    (nonzero : cursor.len ≠ 0)
    (inside : self.RoundInside rlev rest behind) :
    ∃ next, self.updateRound content rlev cursor = .ok next ∧
      next.len = behind.length ∧ RowsAt self content rlev next behind := by
  obtain ⟨next, stepped, stands, length, kept, rows⟩ :=
    updateRound_of_inside counted at_.stands nonzero at_.kept inside
  refine ⟨next, stepped, length, stands, kept, ?_⟩
  intro row member
  rcases rows row member with old | decoded
  · exact at_.rows row old
  · exact decoded

variable {rest : Bytes} {cursor : RowsCursor}

/-- A loop that stands in front of nothing but has a length has not started. -/
theorem rowsAt_of_reached (counted : Counted rlev)
    (stands : RestAt content rlev.rowsData (content.drop rlev.rowsData)
      rlev.rowsData rlev.rowsLen)
    (inside : self.RowsInside content rlev)
    (reached : RoundsReach (self.bounded.updateRound content rlev)
      RowsCursor.len (self.firstRound rlev) cursor) :
    ∃ rest,
      Relation.ReflTransGen (self.bounded.RoundInside rlev)
        (content.drop rlev.rowsData) rest ∧
      RowsAt self.bounded content rlev cursor rest ∧
      (cursor.len ≠ 0 → ∃ behind,
        self.bounded.RoundInside rlev rest behind) := by
  induction reached with
  | start => exact ⟨_, .refl, rowsAt_first stands, inside.first⟩
  | @round state next _ nonzero stepped induction =>
      obtain ⟨rest, chain, at_, more⟩ := induction
      obtain ⟨behind, round⟩ := more nonzero
      obtain ⟨next', stepped', length, nextAt⟩ :=
        at_.round counted nonzero round
      rw [stepped] at stepped'
      cases stepped'
      refine ⟨behind, chain.tail round, nextAt, ?_⟩
      intro some
      apply inside.later behind (chain.tail round)
      intro none
      rw [length, none] at some
      exact some rfl

theorem Decoded.values {start row : CRow} {low high last : Nat}
    (decoded : Decoded start row low high 0 last)
    (stale : ∀ i value, last ≤ i → start.data[i]? = some value →
      value.Inside low high) :
    ∀ value ∈ row.data, value.Inside low high := by
  intro value member
  obtain ⟨i, there⟩ := List.mem_iff_getElem?.mp member
  by_cases inside : i < last
  · exact decoded.inside i value (Nat.zero_le i) inside there
  · rw [decoded.others i (by omega)] at there
    exact stale i value (by omega) there

theorem decodesInside_of_inside (processed : self.Processed)
    (counted : Counted rlev) (valid : rlev.valid = true)
    (same : self.tableId = rlev.tableId)
    (stands : RestAt content rlev.rowsData (content.drop rlev.rowsData)
      rlev.rowsData rlev.rowsLen)
    (inside : self.RowsInside content rlev) :
    self.DecodesInside content rlev := by
  have values : ∀ cursor,
      RoundsReach (self.bounded.updateRound content rlev) RowsCursor.len
        (self.firstRound rlev) cursor →
      ∀ row ∈ cursor.rows ++ cursor.newRows, ∀ value ∈ row.data,
        value.Inside rlev.rowsData content.length := by
    intro cursor reached row member
    obtain ⟨rest, _, at_, _⟩ := rowsAt_of_reached counted stands inside reached
    by_cases none : rlev.rowsLen = 0
    · rw [RoundsReach.eq_start (show (self.firstRound rlev).len = 0 from none)
        reached] at member
      simp [firstRound] at member
    · exact (at_.rows row member).values (inside.stale none)
  refine ⟨?_, ?_, values, ?_, fun _ same => update_of_drop same⟩
  · intro some
    obtain ⟨behind, round⟩ := inside.first some
    rw [← processed.width]
    exact round.width
  · intro cursor reached nonzero
    obtain ⟨rest, _, at_, more⟩ :=
      rowsAt_of_reached counted stands inside reached
    obtain ⟨behind, round⟩ := more nonzero
    obtain ⟨next, stepped, _⟩ := at_.round counted nonzero round
    exact ⟨next, stepped⟩
  · intro rc after run
    have same' : self.bounded.tableId = rlev.tableId := same
    rw [update_eq content valid same'] at run
    obtain ⟨cursor, rounds, result⟩ := Exec.bind_eq_ok.mp run
    cases result
    exact values cursor (whileRounds_reach rounds).1

theorem inside_of_decodesInside (counted : Counted rlev)
    (stands : RestAt content rlev.rowsData (content.drop rlev.rowsData)
      rlev.rowsData rlev.rowsLen)
    (decodes : self.DecodesInside content rlev) :
    self.RowsInside content rlev := by
  -- a round from a cursor that was reached
  have round : ∀ cursor rest,
      RoundsReach (self.bounded.updateRound content rlev) RowsCursor.len
        (self.firstRound rlev) cursor →
      RowsAt self.bounded content rlev cursor rest → cursor.len ≠ 0 →
      ∃ next,
        self.bounded.updateRound content rlev cursor = .ok next ∧
          RoundsReach (self.bounded.updateRound content rlev) RowsCursor.len
            (self.firstRound rlev) next ∧
          ∃ behind, self.bounded.RoundInside rlev rest behind := by
    intro cursor rest reached at_ nonzero
    obtain ⟨next, stepped⟩ := decodes.runs cursor reached nonzero
    have nextReached := reached.round nonzero stepped
    exact ⟨next, stepped, nextReached, inside_of_updateRound counted at_.stands
      nonzero at_.kept stepped (decodes.values next nextReached)⟩
  have first : RowsAt self.bounded content rlev (self.firstRound rlev)
      (content.drop rlev.rowsData) := rowsAt_first stands
  refine ⟨?_, ?_, ?_⟩
  · intro some
    obtain ⟨next, _, _, inside⟩ := round _ _ .start first some
    exact inside
  · intro rest chain more
    have reached : ∃ cursor,
        RoundsReach (self.bounded.updateRound content rlev) RowsCursor.len
          (self.firstRound rlev) cursor ∧
        RowsAt self.bounded content rlev cursor rest := by
      clear more
      induction chain with
      | refl => exact ⟨_, .start, first⟩
      | @tail rest behind _ inside induction =>
          obtain ⟨cursor, reached, at_⟩ := induction
          by_cases ended : cursor.len = 0
          · have none : rest = [] := by
              rcases at_.stands.length with same | ⟨none, _⟩
              · exact List.length_eq_zero_iff.mp (same.symm.trans ended)
              · exact none
            subst none
            rw [inside.nothing]
            exact ⟨cursor, reached, at_⟩
          · obtain ⟨next, stepped, _, nextAt⟩ := at_.round counted ended inside
            exact ⟨next, reached.round ended stepped, nextAt⟩
    obtain ⟨cursor, reached, at_⟩ := reached
    have nonzero : cursor.len ≠ 0 := by
      rcases at_.stands.length with same | ⟨none, _⟩
      · rw [same]
        exact (List.length_pos_iff.mpr more).ne'
      · exact absurd none more
    obtain ⟨_, _, _, inside⟩ := round cursor rest reached at_ nonzero
    exact inside
  · intro some i value above there
    obtain ⟨next, stepped, nextReached, behind, inside⟩ :=
      round _ _ .start first some
    obtain ⟨next', stepped', _, nextAt⟩ := first.round counted some inside
    rw [stepped] at stepped'
    cases stepped'
    have pushed := (updateRound_pushed stepped).1
    obtain ⟨row, member⟩ := List.exists_mem_of_length_pos
      (show 0 < next.rows.length by omega)
    have member' : row ∈ next.rows ++ next.newRows :=
      List.mem_append_left _ member
    have still := (nextAt.rows row member').others i (Or.inr above)
    rw [bounded_row, there] at still
    exact decodes.values next nextReached row member' value
      (List.mem_of_getElem? still)

/-- Row decoding stays in bounds exactly if the row data does. -/
theorem decodesInside_iff {memory : Bytes} {fmt : CFormatDescriptionLogEvent}
    {before : CRowLogEvent} (processed : self.Processed)
    (small : memory.length < 18446744073709551616)
    (accepted : before.tune memory memory.length fmt = .ok (0, rlev))
    (same : self.tableId = rlev.tableId) :
    self.DecodesInside (eventContent fmt memory) rlev ↔
      self.RowsInside (eventContent fmt memory) rlev := by
  have counted := counted_of_accepted accepted
  have stands := restAt_accepted small accepted
  constructor
  · exact inside_of_decodesInside counted stands
  · exact decodesInside_of_inside processed counted
      (CRowLogEvent.tune_valid accepted) same stands

end Main

/-- A TABLE_MAP event for a table with one INT column. -/
def oneLongMap : Bytes :=
  [0, 0, 0, 0, 19] ++ List.replicate 14 0 ++
    [1, 0, 0, 0, 0, 0, 0, 0, 1, 100, 0, 1, 116, 0, 1, 3, 0, 0]

/-- What `tune` makes of it. -/
def oneLong : CTable where
  tableId := 1
  data := oneLongMap
  size := 37
  dbName := [100]
  tableName := [116]
  columnCount := 1
  columnTypes := some 34
  row := ⟨some 0, [{ type := .long }]⟩
  tuned := true

theorem oneLong_processed : oneLong.Processed := by
  have run : ({} : CTable).tune 0 oneLongMap 37 (.ofServer [53] false) =
      .ok (.code 0, oneLong) := by
    decide +kernel
  exact .tuned rfl run rfl

/-- A WRITE event for one column with this row data. -/
def oneLongRows (rows : Bytes) : Bytes :=
  [0, 0, 0, 0, 23] ++ List.replicate 14 0 ++
    [1, 0, 0, 0, 0, 0, 0, 0, 1, 1] ++ rows

/-- What `tune` makes of it. -/
def oneLongEvent (len : Nat) : CRowLogEvent where
  type := 23
  tableId := 1
  ncolumns := 1
  packedUsedColumns := 0x0100000000000001#64
  data := 29
  len := len
  valid := true

theorem oneLong_columns {rest behind : Bytes} {width : Nat}
    (more : rest ≠ [])
    (walk : oneLong.bounded.ColumnsInside 0x0100000000000001#64 width 1 0 none
      rest behind) : behind = rest.drop 4 := by
  cases walk with
  | spent => exact absurd rfl more
  | skipped _ _ _ _ unselected => exact absurd unselected (by decide)
  | framed _ _ typeRead _ _ _ later =>
      have long : oneLong.bounded.columnType 0 = .ok .long := by decide
      rw [long] at typeRead
      cases typeRead
      cases later
      rfl

theorem decodesInside_iff_oneLong :
    oneLong.DecodesInside
      (eventContent (.ofServer [53] false) (oneLongRows [0, 7, 0, 0, 0]))
      (oneLongEvent 5) := by
  have accepted : ({} : CRowLogEvent).tune (oneLongRows [0, 7, 0, 0, 0]) 34
      (.ofServer [53] false) = .ok (0, oneLongEvent 5) := by
    decide +kernel
  apply (decodesInside_iff oneLong_processed (by decide) accepted rfl).mpr
  have inside : oneLong.bounded.RoundInside (oneLongEvent 5) [0, 7, 0, 0, 0]
      [] := by
    refine ⟨[], ⟨by decide, ?_⟩, rfl⟩
    have fits : FieldFits (.long, 0) [7, 0, 0, 0] :=
      ⟨nofun, by decide, by decide⟩
    have type : oneLong.bounded.columnType 0 = .ok .long := by decide
    exact .framed (by decide) (by decide) type rfl (by decide) fits
      (.done 1 none [])
  have only : ∀ behind,
      oneLong.bounded.RoundInside (oneLongEvent 5) [0, 7, 0, 0, 0] behind →
      behind = [] := by
    intro behind round
    obtain ⟨middle, image, later⟩ := round
    have none : middle = [] := oneLong_columns (by decide) image.columns
    rw [if_neg (by simp [none])] at later
    rw [later, none]
  refine ⟨fun _ => ⟨[], inside⟩, ?_, ?_⟩
  · intro rest chain more
    have either : rest = [0, 7, 0, 0, 0] ∨ rest = [] := by
      clear more
      induction chain with
      | refl => exact Or.inl rfl
      | tail _ round induction =>
          rcases induction with rfl | rfl
          · exact Or.inr (only _ round)
          · exact Or.inr round.nothing
    rcases either with rfl | rfl
    · exact ⟨[], inside⟩
    · exact absurd rfl more
  · intro _ i value above there
    have missing : oneLong.row.data[i]? = none :=
      List.getElem?_eq_none above
    rw [missing] at there
    cases there

/-- An INT of which one byte is left is taken to have four. -/
theorem not_decodesInside_short :
    ({} : CRowLogEvent).tune (oneLongRows [0, 7]) 31 (.ofServer [53] false) =
        .ok (0, oneLongEvent 2) ∧
      oneLong.Processed ∧ oneLong.tableId = (oneLongEvent 2).tableId ∧
      ¬oneLong.DecodesInside
        (eventContent (.ofServer [53] false) (oneLongRows [0, 7]))
        (oneLongEvent 2) := by
  refine ⟨by decide +kernel, oneLong_processed, rfl, ?_⟩
  intro decodes
  let value : CValue :=
    { type := .long, storage := some 30, size := 4, null := false }
  have run : oneLong.bounded.update
      (eventContent (.ofServer [53] false) (oneLongRows [0, 7]))
      (oneLongEvent 2) =
    .ok (0, { oneLong.bounded with
      row := ⟨some 0, [value]⟩, rows := [⟨some 0, [value]⟩] }) := by
    decide +kernel
  obtain ⟨p, place, _, fits⟩ := decodes.returned 0 _ run ⟨some 0, [value]⟩
    List.mem_cons_self value List.mem_cons_self rfl
  cases place
  exact absurd fits (by decide)

end CTable

end MysqlSlave
