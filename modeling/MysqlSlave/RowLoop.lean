import MysqlSlave.Lib.MeasuredLoop
import MysqlSlave.RowWalk
import MysqlSlave.RowsHeader

/-!
# The row loop

`CTable::update` decodes row images until no length is left.  A round that reads
a null bitmap shortens the length; the main theorem says that the loop ends in
exactly the cases where a round reads one, or leaves the loop in the first round,
and every round finds what it reads.
-/

namespace MysqlSlave

open Region Exec

section Settles

variable {memory : Bytes}

theorem readByte_settles (address : Nat) :
    (readByte memory address).Settles := by
  unfold readByte Settles
  split <;> simp

theorem readLE_settles (address width : Nat) :
    (readLE memory address width).Settles := by
  induction width generalizing address with
  | zero => exact settles_ok 0
  | succ width induction =>
      unfold readLE
      apply (readByte_settles address).bind
      intro low _
      apply (induction (address + 1)).bind
      intro high _
      exact settles_ok _

theorem dig2bytes_settles (index : Int) :
    (CValue.dig2bytes index).Settles := by
  unfold CValue.dig2bytes Settles
  split
  · simp
  · split <;> simp

theorem calcFieldSize_settles (type : EColumnType) (address metadata : Nat) :
    (CValue.calcFieldSize type memory address metadata).Settles := by
  have byte : ∀ next : UInt8 → Nat,
      (readByte memory address >>= fun first =>
        (.ok (next first) : Exec Nat)).Settles :=
    fun next => (readByte_settles address).bind fun _ _ => settles_ok _
  have number : ∀ width, ∀ next : Nat → Nat,
      (readLE memory address width >>= fun len =>
        (.ok (next len) : Exec Nat)).Settles :=
    fun width next => (readLE_settles address width).bind
      fun _ _ => settles_ok _
  unfold CValue.calcFieldSize
  split
  any_goals exact settles_ok _
  · unfold CValue.decimalSize
    apply (dig2bytes_settles _).bind
    intro intgBytes _
    apply (dig2bytes_settles _).bind
    intro fracBytes _
    exact settles_ok _
  any_goals
    -- SET, ENUM and STRING look at the real type
    dsimp only
    split
    · exact settles_ok _
    · split
      · exact byte _
      · exact readLE_settles _ _
  · split
    · exact settles_ok _
    · split
      · exact settles_ok _
      · split <;> exact settles_ok _
  · split
    · exact number 2 _
    · exact byte _
  all_goals
    split
    · exact byte _
    · exact number 2 _
    · exact number 4 _
    · exact number 4 _
    · exact settles_ok _

theorem tune_settles (self : CValue) (type : EColumnType)
    (address metadata length : Nat) :
    (self.tune type memory address metadata length).Settles := by
  unfold CValue.tune
  dsimp only
  split
  · split
    · split <;> exact settles_ok _
    all_goals exact settles_ok _
  · split
    · exact (readByte_settles _).bind fun _ _ => settles_ok _
    · exact (readLE_settles _ _).bind fun _ _ => settles_ok _
  · split
    · exact (readLE_settles _ _).bind fun _ _ => settles_ok _
    · exact settles_ok _
  · exact settles_ok _

theorem modifyAt_settles (row : CRow) (i : Nat)
    {update : CValue → Exec CValue} (updates : ∀ value, (update value).Settles) :
    (row.modifyAt i update).Settles := by
  unfold CRow.modifyAt
  split
  · exact (updates _).bind fun _ _ => settles_ok _
  · intro wrong
    cases wrong

theorem buildColumnMask_settles (ptr len n : Nat) :
    (CRowLogEvent.buildColumnMask memory ptr len n).Settles := by
  unfold CRowLogEvent.buildColumnMask
  dsimp only
  split
  · exact (readLE_settles _ _).bind fun _ _ => settles_ok _
  · exact settles_ok _

namespace CTable

variable (self : CTable)

theorem columnType_settles (i : Nat) : (self.columnType i).Settles := by
  unfold columnType
  split
  · intro wrong
    cases wrong
  · exact (readByte_settles _).bind fun _ _ => settles_ok _

theorem readMetadata_settles (data : Bytes) (pmetadata : Option Nat)
    (size : Nat) : (readMetadata data pmetadata size).Settles := by
  unfold readMetadata
  split
  · exact settles_ok _
  · split
    · intro wrong
      cases wrong
    · exact (readLE_settles _ _).bind fun _ _ => settles_ok _

theorem updateColumn_settles (used nulls : BitVec 64) (i : Nat)
    (cursor : RowCursor) :
    (self.updateColumn memory used nulls i cursor).Settles := by
  have reset := modifyAt_settles cursor.row i
    (fun value => settles_ok value.reset)
  unfold updateColumn
  split
  · exact reset.bind fun _ _ => settles_ok _
  · apply (self.columnType_settles i).bind
    intro type _
    apply (readMetadata_settles _ _ _).bind
    intro metadata _
    apply reset.bind
    intro row _
    split
    · apply (calcFieldSize_settles _ _ _).bind
      intro length _
      apply (modifyAt_settles row i fun value =>
        tune_settles value _ _ _ _).bind
      intro framed _
      exact settles_ok _
    · exact settles_ok _

theorem updateColumns_settles (used nulls : BitVec 64) (todo i : Nat)
    (cursor : RowCursor) :
    (self.updateColumns memory used nulls todo i cursor).Settles := by
  induction todo generalizing i cursor with
  | zero => exact settles_ok cursor
  | succ todo induction =>
      apply (self.updateColumn_settles used nulls i cursor).bind
      intro next _
      exact induction (i + 1) next

theorem updateImage_settles (rlev : CRowLogEvent) (row : CRow)
    (pfields len count : Nat) (used : BitVec 64) :
    (self.updateImage memory rlev row pfields len count used).Settles := by
  apply (buildColumnMask_settles _ _ _).bind
  intro nulls _
  apply (self.updateColumns_settles _ _ _ _ _).bind
  intro cursor _
  exact settles_ok _

theorem updateRound_settles (rlev : CRowLogEvent) (cursor : RowsCursor) :
    (self.updateRound memory rlev cursor).Settles := by
  apply (self.updateImage_settles _ _ _ _ _ _).bind
  intro before _
  dsimp only
  split
  · apply (self.updateImage_settles _ _ _ _ _ _).bind
    intro after _
    exact settles_ok _
  · exact settles_ok _

end CTable

end Settles

namespace CTable

/-- What makes a round of the row loop shorten the length or leave the loop: no
length, a length that is negative as an `ssize_t`, or a columns-present bitmap that
is not empty. -/
def ShortensRows (rlev : CRowLogEvent) (len : Nat) : Prop :=
  len = 0 ∨ 9223372036854775808 ≤ len ∨ 1 ≤ rlev.usedColumns1bitCount ∨
    (rlev.getTypeCode.isUpdateRows = true ∧
      1 ≤ rlev.usedColumnsAfterimage1bitCount)

section Columns

variable {self : CTable} {memory : Bytes} {used : BitVec 64}

theorem updateColumn_size {nulls : BitVec 64} {i : Nat}
    {cursor final : RowCursor}
    (done : self.updateColumn memory used nulls i cursor = .ok final) :
    final.size ≤ cursor.size := by
  unfold updateColumn at done
  split at done
  · obtain ⟨row, _, done⟩ := Exec.bind_eq_ok.mp done
    cases done
    exact Int.le_refl _
  · obtain ⟨type, _, done⟩ := Exec.bind_eq_ok.mp done
    obtain ⟨metadata, _, done⟩ := Exec.bind_eq_ok.mp done
    obtain ⟨row, _, done⟩ := Exec.bind_eq_ok.mp done
    split at done
    · obtain ⟨length, _, done⟩ := Exec.bind_eq_ok.mp done
      obtain ⟨framed, _, done⟩ := Exec.bind_eq_ok.mp done
      cases done
      dsimp only
      omega
    · cases done
      exact Int.le_refl _

theorem updateColumns_size {nulls : BitVec 64} {todo i : Nat}
    {cursor final : RowCursor}
    (done : self.updateColumns memory used nulls todo i cursor = .ok final) :
    final.size ≤ cursor.size := by
  induction todo generalizing i cursor with
  | zero =>
      cases done
      exact Int.le_refl _
  | succ todo induction =>
      obtain ⟨next, first, later⟩ := Exec.bind_eq_ok.mp done
      exact (induction later).trans (updateColumn_size first)

end Columns

section Images

variable {self : CTable} {memory : Bytes} {rlev : CRowLogEvent}
  {row : CRow} {pfields len count : Nat} {used : BitVec 64}
  {result : RowUpdate}

theorem updateImage_len (few : count ≤ 48)
    (small : len < 18446744073709551616)
    (done : self.updateImage memory rlev row pfields len count used =
      .ok result) :
    (result.len : Int) ≤
      max (signedSize (sizeSub len (Bitmap.byteCount count))) 0 := by
  obtain ⟨nulls, built, done⟩ := Exec.bind_eq_ok.mp done
  obtain ⟨final, columnsDone, returned⟩ := Exec.bind_eq_ok.mp done
  cases returned
  have left : nulls.len = sizeSub len (Bitmap.byteCount count) := by
    by_cases none : count = 0
    · subst none
      cases built
      exact (sizeSub_eq (Nat.zero_le len) small).symm
    · obtain ⟨_, _, rfl⟩ :=
        CRowLogEvent.buildColumnMask_eq_ok (by omega) few built
      rfl
  have size := updateColumns_size columnsDone
  dsimp only at size ⊢
  rw [left] at size
  split <;> omega

/-- An image behind a null bitmap is shorter than what it is read from. -/
theorem updateImage_shortens (least : 1 ≤ count) (few : count ≤ 48)
    (nonzero : len ≠ 0) (small : len < 18446744073709551616)
    (done : self.updateImage memory rlev row pfields len count used =
      .ok result) :
    result.len < len ∧ result.len < 9223372036854775808 := by
  have left := updateImage_len few small done
  have some : 1 ≤ Bitmap.byteCount count ∧ Bitmap.byteCount count ≤ 6 := by
    unfold Bitmap.byteCount
    omega
  generalize Bitmap.byteCount count = bytes at left some
  unfold signedSize sizeSub at left
  split at left <;> omega

theorem updateImage_le (few : count ≤ 48)
    (small : len < 18446744073709551616)
    (done : self.updateImage memory rlev row pfields len count used =
      .ok result) :
    result.len ≤ len ∧ result.len < 9223372036854775808 := by
  have left := updateImage_len few small done
  have some : Bitmap.byteCount count ≤ 6 := by
    unfold Bitmap.byteCount
    omega
  generalize Bitmap.byteCount count = bytes at left some
  unfold signedSize sizeSub at left
  split at left <;> omega

end Images

/-- A round of the row loop: one image, or an image and the after image of an
UPDATE. -/
inductive RoundStep (self : CTable) (memory : Bytes) (rlev : CRowLogEvent)
    (cursor : RowsCursor) : RowsCursor → Prop where
  | single {before : RowUpdate} :
      self.updateImage memory rlev cursor.row cursor.pfields cursor.len
        rlev.usedColumns1bitCount rlev.usedColumnsMask = .ok before →
      ¬(before.len ≠ 0 ∧ rlev.getTypeCode.isUpdateRows = true) →
      RoundStep self memory rlev cursor
        { row := before.row, rows := cursor.rows ++ [before.row]
          newRows := cursor.newRows, pfields := before.pdata
          len := before.len }
  | pair {before after : RowUpdate} :
      self.updateImage memory rlev cursor.row cursor.pfields cursor.len
        rlev.usedColumns1bitCount rlev.usedColumnsMask = .ok before →
      before.len ≠ 0 →
      rlev.getTypeCode.isUpdateRows = true →
      self.updateImage memory rlev before.row before.pdata before.len
        rlev.usedColumnsAfterimage1bitCount rlev.usedColumnsAfterimageMask =
          .ok after →
      RoundStep self memory rlev cursor
        { row := after.row, rows := cursor.rows ++ [before.row]
          newRows := cursor.newRows ++ [after.row], pfields := after.pdata
          len := after.len }

section Rounds

variable {self : CTable} {memory : Bytes} {rlev : CRowLogEvent}
  {cursor next : RowsCursor}

theorem updateRound_iff :
    self.updateRound memory rlev cursor = .ok next ↔
      self.RoundStep memory rlev cursor next := by
  constructor
  · intro run
    obtain ⟨before, beforeRun, later⟩ := Exec.bind_eq_ok.mp run
    dsimp only at later
    split at later
    · rename_i again
      obtain ⟨after, afterRun, result⟩ := Exec.bind_eq_ok.mp later
      cases result
      exact .pair beforeRun again.1 again.2 afterRun
    · rename_i last
      cases later
      exact .single beforeRun last
  · intro step
    cases step with
    | single beforeRun last =>
        simp only [updateRound, beforeRun, Exec.ok_bind]
        rw [if_neg last]
        rfl
    | pair beforeRun more update afterRun =>
        simp only [updateRound, beforeRun, Exec.ok_bind]
        rw [if_pos ⟨more, update⟩, afterRun]
        rfl

/-- What a rows event that `tune` accepts promises the loop. -/
structure Counted (rlev : CRowLogEvent) : Prop where
  used : rlev.usedColumns1bitCount ≤ 48
  usedAfter : rlev.getTypeCode.isUpdateRows = true →
    rlev.usedColumnsAfterimage1bitCount ≤ 48
  len : rlev.len < 18446744073709551616

theorem Counted.rowsLen {rlev : CRowLogEvent} (counted : Counted rlev) :
    rlev.rowsLen < 18446744073709551616 := counted.len

/-- A round that makes progress shortens the length, and the next one makes
progress again. -/
theorem updateRound_shortens (counted : Counted rlev)
    (nonzero : cursor.len ≠ 0)
    (small : cursor.len < 18446744073709551616)
    (progress : ShortensRows rlev cursor.len)
    (stepped : self.updateRound memory rlev cursor = .ok next) :
    next.len < cursor.len ∧ ShortensRows rlev next.len := by
  obtain ⟨before, beforeRun, rest⟩ : ∃ before,
      self.updateImage memory rlev cursor.row cursor.pfields cursor.len
        rlev.usedColumns1bitCount rlev.usedColumnsMask = .ok before ∧
      next.len ≤ before.len ∧
      (before.len ≠ 0 → rlev.getTypeCode.isUpdateRows = true →
        1 ≤ rlev.usedColumnsAfterimage1bitCount → next.len < before.len) := by
    cases updateRound_iff.mp stepped with
    | single beforeRun last =>
        refine ⟨_, beforeRun, Nat.le_refl _, ?_⟩
        intro some update _
        exact absurd ⟨some, update⟩ last
    | pair beforeRun more update afterRun =>
        have beforeLe := updateImage_le counted.used small beforeRun
        have few := counted.usedAfter update
        refine ⟨_, beforeRun, (updateImage_le few (by omega) afterRun).1, ?_⟩
        intro some _ least
        exact (updateImage_shortens least few some (by omega) afterRun).1
  have beforeLe := updateImage_le counted.used small beforeRun
  by_cases least : 1 ≤ rlev.usedColumns1bitCount
  · have shorter := updateImage_shortens least counted.used nonzero small
      beforeRun
    exact ⟨by omega, Or.inr (Or.inr (Or.inl least))⟩
  · have none : rlev.usedColumns1bitCount = 0 := by omega
    by_cases negative : 9223372036854775808 ≤ cursor.len
    · have left := updateImage_len counted.used small beforeRun
      rw [none] at left
      have cleared : before.len = 0 := by
        unfold signedSize sizeSub Bitmap.byteCount at left
        split at left <;> omega
      exact ⟨by omega, Or.inl (by omega)⟩
    · rcases progress with zero | negative' | least' | ⟨update, least'⟩
      · exact absurd zero nonzero
      · exact absurd negative' negative
      · exact absurd least' least
      · by_cases cleared : before.len = 0
        · exact ⟨by omega, Or.inl (by omega)⟩
        · have shorter := rest.2 cleared update least'
          exact ⟨by omega, Or.inr (Or.inr (Or.inr ⟨update, least'⟩))⟩

theorem RoundRead.unmoved {place final : RowsPlace}
    (stuck : ¬ShortensRows rlev place.len)
    (read : self.RoundRead memory rlev place final) :
    final.len = place.len := by
  simp only [ShortensRows, not_or, not_le, not_and] at stuck
  obtain ⟨_, positive, unused, unusedAfter⟩ := stuck
  obtain ⟨_, middle, image, later⟩ := read
  have none : rlev.usedColumns1bitCount = 0 := by omega
  rw [none] at image
  have same := image.unmoved positive
  by_cases again : middle.len ≠ 0 ∧ rlev.getTypeCode.isUpdateRows = true
  · rw [if_pos again] at later
    have noneAfter : rlev.usedColumnsAfterimage1bitCount = 0 := by
      have few := unusedAfter again.2
      omega
    rw [noneAfter] at later
    exact (later.unmoved (by omega)).trans same
  · rw [if_neg again] at later
    rw [later, same]

end Rounds

section Accepted

variable {memory : Bytes} {size : Nat} {fmt : CFormatDescriptionLogEvent}

theorem countBits_le_of_lt (rounds nbits : Nat) {width : Nat}
    {mask : BitVec 64} (small : mask.toNat < 2 ^ width) :
    CRowLogEvent.countBits rounds mask nbits ≤ nbits + width := by
  induction rounds generalizing width nbits mask with
  | zero => exact Nat.le_add_right nbits width
  | succ rounds induction =>
      cases width with
      | zero =>
          have zero : mask = 0 := by
            apply BitVec.eq_of_toNat_eq
            simpa using small
          simp [CRowLogEvent.countBits, zero]
      | succ width =>
          have half : (mask >>> 1).toNat < 2 ^ width := by
            rw [BitVec.toNat_ushiftRight, Nat.shiftRight_eq_div_pow]
            omega
          have counted :
              (if mask.getLsbD 0 then nbits + 1 else nbits) ≤ nbits + 1 := by
            split <;> omega
          have later := induction
            (if mask.getLsbD 0 then nbits + 1 else nbits) half
          simp only [CRowLogEvent.countBits]
          split <;> omega

theorem usedCount_le {ptr len n : Nat} {built : CRowLogEvent.ColumnMask}
    (run : CRowLogEvent.buildColumnMask memory ptr len n = .ok built)
    (good : built.mask ≠ -1) :
    (CRowLogEvent.updateN1bits built.mask >>> (64 - 8)).toNat ≤ 48 := by
  rw [CRowLogEvent.updateN1bits_count]
  have bounded : built.mask.toNat < 2 ^ 48 := by
    unfold CRowLogEvent.buildColumnMask at run
    dsimp only at run
    split at run
    · rename_i range
      obtain ⟨mask, read, result⟩ := Exec.bind_eq_ok.mp run
      cases result
      have small := readLE_lt read
      have power : 256 ^ ((n + 7) % 18446744073709551616 / 8 % 256) ≤
          256 ^ 6 := Nat.pow_le_pow_right (by decide) range.2
      rw [BitVec.toNat_ofNat]
      omega
    · cases run
      exact absurd rfl good
  have counted := countBits_le_of_lt 64 0 bounded
  omega

theorem counted_of_accepted {self event : CRowLogEvent}
    (run : self.tune memory size fmt = .ok (0, event)) : Counted event := by
  obtain ⟨code, p, behind, used, last, read⟩ := CRowLogEvent.tune_readFrom run
  have bounded : ∀ left right,
      sizeSub left right < 18446744073709551616 :=
    fun left right => Nat.mod_lt _ (by decide)
  constructor
  · rw [CRowLogEvent.usedColumns1bitCount, read.usedPacked]
    exact usedCount_le read.usedRead read.usedGood
  · intro update
    rw [CRowLogEvent.getTypeCode, read.type, UInt8.ofNat_toNat] at update
    have after := read.lastRead
    rw [if_pos update] at after
    obtain ⟨built, good, packed⟩ := after
    rw [CRowLogEvent.usedColumnsAfterimage1bitCount, packed]
    exact usedCount_le built good
  · rw [read.lenEq]
    exact bounded _ _

end Accepted

/-- The cursor in front of the row loop. -/
def firstRound (self : CTable) (rlev : CRowLogEvent) : RowsCursor where
  row := self.row
  rows := []
  newRows := []
  pfields := rlev.rowsData
  len := rlev.rowsLen

section Loop

variable {self : CTable} {memory : Bytes} {rlev : CRowLogEvent}

theorem updateRounds_eq (rounds : Nat) (cursor : RowsCursor) :
    self.updateRounds memory rlev rounds cursor =
      whileRounds (self.updateRound memory rlev) RowsCursor.len rounds
        cursor := by
  induction rounds generalizing cursor with
  | zero =>
      unfold updateRounds whileRounds
      rfl
  | succ rounds induction =>
      unfold updateRounds whileRounds
      simp only [induction]

variable (memory) in
theorem update_eq (valid : rlev.valid = true)
    (same : self.tableId = rlev.tableId) :
    self.update memory rlev = (do
      let cursor ← whileRounds (self.updateRound memory rlev) RowsCursor.len
        rlev.rowsLen (self.firstRound rlev)
      return (if cursor.len = 0 then 0 else -1,
        { self with
          row := cursor.row, rows := cursor.rows
          newRows := cursor.newRows })) := by
  simp [update, valid, same, updateRounds_eq, firstRound]

theorem updateRound_pushed {cursor next : RowsCursor}
    (stepped : self.updateRound memory rlev cursor = .ok next) :
    next.rows.length = cursor.rows.length + 1 ∧
      next.newRows.length ≤ cursor.newRows.length + 1 := by
  cases updateRound_iff.mp stepped with
  | single => simp
  | pair => simp

/-- What every round keeps of a cursor in a loop that makes progress. -/
structure Progresses (rlev : CRowLogEvent) (cursor : RowsCursor) : Prop where
  progress : ShortensRows rlev cursor.len
  rows : cursor.rows.length + cursor.len ≤ rlev.rowsLen
  newRows : cursor.newRows.length + cursor.len ≤ rlev.rowsLen

theorem progresses_of_reached {cursor : RowsCursor} (counted : Counted rlev)
    (progress : ShortensRows rlev rlev.rowsLen)
    (reached : RoundsReach (self.updateRound memory rlev) RowsCursor.len
      (self.firstRound rlev) cursor) : Progresses rlev cursor := by
  apply reached.invariant (Progresses rlev)
  · exact ⟨progress, by simp [firstRound], by simp [firstRound]⟩
  · intro cursor next good nonzero stepped
    have small := counted.rowsLen
    have rows := good.rows
    have newRows := good.newRows
    obtain ⟨shorter, again⟩ := updateRound_shortens counted nonzero
      (by omega) good.progress stepped
    obtain ⟨pushed, pushedAfter⟩ := updateRound_pushed stepped
    exact ⟨again, by omega, by omega⟩

theorem shortens_of_reached {cursor next : RowsCursor} (counted : Counted rlev)
    (progress : ShortensRows rlev rlev.rowsLen)
    (reached : RoundsReach (self.updateRound memory rlev) RowsCursor.len
      (self.firstRound rlev) cursor)
    (nonzero : cursor.len ≠ 0)
    (stepped : self.updateRound memory rlev cursor = .ok next) :
    next.len < cursor.len := by
  have good := progresses_of_reached counted progress reached
  have small := counted.rowsLen
  have rows := good.rows
  exact (updateRound_shortens counted nonzero (by omega) good.progress
    stepped).1

theorem rounds_settle (counted : Counted rlev)
    (progress : ShortensRows rlev rlev.rowsLen) :
    (whileRounds (self.updateRound memory rlev) RowsCursor.len rlev.rowsLen
      (self.firstRound rlev)).Settles :=
  whileRounds_settles (self.updateRound_settles rlev)
    (fun _ _ reached => shortens_of_reached counted progress reached)
    (Nat.le_refl _)

theorem update_settles (counted : Counted rlev) (valid : rlev.valid = true)
    (same : self.tableId = rlev.tableId)
    (progress : ShortensRows rlev rlev.rowsLen) :
    (self.update memory rlev).Settles := by
  rw [update_eq memory valid same]
  apply (rounds_settle counted progress).bind
  intro final _
  exact settles_ok _

end Loop

/-- A WRITE event for one column, with this columns-present bitmap and two bytes
of row data. -/
def oneTinyRows (bitmap : UInt8) : Bytes :=
  [0, 0, 0, 0, 23] ++ List.replicate 14 0 ++
    [1, 0, 0, 0, 0, 0, 0, 0, 1, bitmap, 0, 7]

/-- What `tune` makes of it. -/
def oneTinyEvent (packed : BitVec 64) : CRowLogEvent where
  type := 23
  tableId := 1
  ncolumns := 1
  packedUsedColumns := packed
  data := 29
  len := 2
  valid := true

end CTable

end MysqlSlave
