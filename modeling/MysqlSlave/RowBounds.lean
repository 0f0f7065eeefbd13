import MysqlSlave.RowLoop
import MysqlSlave.TableSchema

/-!
# The columns of a row image inside the row data

The column loop of `update_row` looks up a type, metadata and, for a column that is
present and not null, a field.  `ColumnsInside` says on the bytes alone when the
loop finds all of them; the two main lemmas are that it then decodes the columns to
values inside, and that a loop which does so was given such bytes.
-/

namespace MysqlSlave

open Region

namespace CTable

/-- The columns from index `i` on are decoded inside `rest`, and leave `behind`;
the row has `width` values.  Once nothing is left the columns are reset. -/
inductive ColumnsInside (self : CTable) (fields : BitVec 64) (width : Nat) :
    Nat → Nat → Option Nat → Bytes → Bytes → Prop where
  | done (i : Nat) (pmetadata : Option Nat) (rest : Bytes) :
      ColumnsInside self fields width 0 i pmetadata rest rest
  | spent {todo i : Nat} {pmetadata : Option Nat} {behind : Bytes} :
      i < width →
      ColumnsInside self fields width todo (i + 1) pmetadata [] behind →
      ColumnsInside self fields width (todo + 1) i pmetadata [] behind
  | skipped {todo i metadata : Nat} {pmetadata later : Option Nat}
      {type : EColumnType} {rest behind : Bytes} :
      i < width →
      rest ≠ [] →
      self.columnType i = .ok type →
      readMetadata self.data pmetadata (CValue.calcMetadataSize type) =
        .ok (metadata, later) →
      fields &&& columnBit i = 0 →
      ColumnsInside self fields width todo (i + 1) later rest behind →
      ColumnsInside self fields width (todo + 1) i pmetadata rest behind
  | framed {todo i metadata : Nat} {pmetadata later : Option Nat}
      {type : EColumnType} {rest behind : Bytes} :
      i < width →
      rest ≠ [] →
      self.columnType i = .ok type →
      readMetadata self.data pmetadata (CValue.calcMetadataSize type) =
        .ok (metadata, later) →
      fields &&& columnBit i ≠ 0 →
      FieldFits (type, metadata) rest →
      ColumnsInside self fields width todo (i + 1) later
        (rest.drop (fieldLength (type, metadata) rest)) behind →
      ColumnsInside self fields width (todo + 1) i pmetadata rest behind

/-- The cursor in front of column `i` stands at `rest`, at `low` or behind it. -/
structure CursorAt (memory : Bytes) (low : Nat) (rest : Bytes) (i : Nat)
    (cursor : RowCursor) : Prop where
  spent : rest = [] → cursor.size ≤ 0
  unspent : rest ≠ [] →
    cursor.size = rest.length ∧ cursor.bit = columnBit i ∧
      ∃ front, memory = front ++ rest ∧ cursor.data = front.length ∧
        low ≤ front.length

section Columns

variable {self : CTable} {memory rest : Bytes} {used nulls : BitVec 64}
  {low i : Nat} {cursor : RowCursor}

theorem CursorAt.positive (stands : CursorAt memory low rest i cursor)
    (more : rest ≠ []) : 0 < cursor.size := by
  have some := List.length_pos_iff.mpr more
  have size := (stands.unspent more).1
  omega

theorem CursorAt.empty (stands : CursorAt memory low rest i cursor)
    (spent : cursor.size ≤ 0) : rest = [] := by
  by_contra more
  have positive := stands.positive more
  omega

theorem CursorAt.reset (stands : CursorAt memory low [] i cursor)
    (row : CRow) : CursorAt memory low [] (i + 1) { cursor with row } :=
  ⟨stands.spent, fun more => absurd rfl more⟩

theorem CursorAt.skip (stands : CursorAt memory low rest i cursor)
    (row : CRow) (pmetadata : Option Nat) :
    CursorAt memory low rest (i + 1)
      { cursor with row, pmetadata, bit := cursor.bit <<< 1 } := by
  refine ⟨stands.spent, ?_⟩
  intro more
  obtain ⟨size, bit, place⟩ := stands.unspent more
  exact ⟨size, by rw [bit, columnBit_succ], place⟩

theorem CursorAt.advance (stands : CursorAt memory low rest i cursor)
    (row : CRow) (pmetadata : Option Nat) (length : Nat) (more : rest ≠ []) :
    CursorAt memory low (rest.drop length) (i + 1)
      { row, data := cursor.data + length, size := cursor.size - length
        pmetadata, bit := cursor.bit <<< 1 } := by
  obtain ⟨size, bit, front, split, data, below⟩ := stands.unspent more
  constructor
  · intro none
    have fits := List.drop_eq_nil_iff.mp none
    dsimp only
    omega
  · intro some
    have left := List.length_pos_iff.mpr some
    rw [List.length_drop] at left
    refine ⟨?_, by dsimp only; rw [bit, columnBit_succ],
      front ++ rest.take length, ?_, ?_, ?_⟩
    · dsimp only
      rw [List.length_drop]
      omega
    · rw [List.append_assoc, List.take_append_drop, split]
    · dsimp only
      rw [List.length_append, List.length_take, data]
      omega
    · rw [List.length_append]
      omega

/-- The values from index `i` on lie between the addresses, up to index `last`,
and the others are those of `row`. -/
structure Decoded (row final : CRow) (low high i last : Nat) : Prop where
  length : final.data.length = row.data.length
  inside : ∀ j value, i ≤ j → j < last → final.data[j]? = some value →
    value.Inside low high
  others : ∀ j, j < i ∨ last ≤ j → final.data[j]? = row.data[j]?

theorem Decoded.refl (row : CRow) (low high i : Nat) :
    Decoded row row low high i i :=
  ⟨rfl, fun _ _ above below => by omega, fun _ _ => rfl⟩

theorem Decoded.put {row final : CRow} {low high i last : Nat} {value : CValue}
    (inside : i < row.data.length) (good : value.Inside low high)
    (ahead : i < last)
    (later : Decoded (row.put i value) final low high (i + 1) last) :
    Decoded row final low high i last := by
  refine ⟨by simpa using later.length, ?_, ?_⟩
  · intro j found above below there
    by_cases here : j = i
    · subst here
      have same := later.others j (Or.inl (Nat.lt_succ_self j))
      rw [CRow.put_self _ _ inside, there] at same
      cases same
      exact good
    · exact later.inside j found (by omega) below there
  · intro j outside
    rw [later.others j (by omega), CRow.put_other _ _ (by omega)]

theorem blank_inside (pos low high : Nat) :
    (CValue.blank pos).Inside low high := by
  intro notNull
  cases notNull

theorem updateColumns_of_inside {width todo : Nat} {pmetadata : Option Nat}
    {behind : Bytes}
    (walk : ColumnsInside self (used &&& nulls) width todo i pmetadata rest
      behind)
    (stands : CursorAt memory low rest i cursor)
    (wide : cursor.row.data.length = width)
    (metadata : cursor.pmetadata = pmetadata) :
    ∃ final,
      self.updateColumns memory used nulls todo i cursor = .ok final ∧
        CursorAt memory low behind (i + todo) final ∧
        Decoded cursor.row final.row low memory.length i (i + todo) := by
  induction walk generalizing cursor with
  | done i pmetadata rest =>
      exact ⟨cursor, rfl, stands, .refl cursor.row low memory.length i⟩
  | @spent todo i pmetadata behind inside later induction =>
      rw [← wide] at inside
      have there := List.getElem?_eq_getElem inside
      have first : self.updateColumn memory used nulls i cursor = .ok _ :=
        updateColumn_iff.mpr (.spent there (stands.spent rfl))
      obtain ⟨final, run, final_, decoded⟩ := induction
        (stands.reset (cursor.row.put i (.blank cursor.row.data[i].pos)))
        (by simpa using wide) metadata
      rw [Nat.add_right_comm] at final_ decoded
      refine ⟨final, ?_, final_,
        decoded.put inside (blank_inside _ _ _) (by omega)⟩
      simp only [updateColumns, first, Exec.ok_bind]
      exact run
  | @skipped todo i _ _ _ _ rest behind inside more typeRead metadataRead
      unselected later induction =>
      rw [← wide] at inside
      have there := List.getElem?_eq_getElem inside
      rw [← metadata] at metadataRead
      have bit := (stands.unspent more).2.1
      have first : self.updateColumn memory used nulls i cursor = .ok _ :=
        updateColumn_iff.mpr (.skipped there (stands.positive more) typeRead
          metadataRead (by rw [bit]; exact unselected))
      obtain ⟨final, run, final_, decoded⟩ := induction
        (stands.skip (cursor.row.put i (.blank cursor.row.data[i].pos)) _)
        (by simpa using wide) rfl
      rw [Nat.add_right_comm] at final_ decoded
      refine ⟨final, ?_, final_,
        decoded.put inside (blank_inside _ _ _) (by omega)⟩
      simp only [updateColumns, first, Exec.ok_bind]
      exact run
  | @framed todo i _ _ _ _ rest behind inside more typeRead metadataRead
      selected fits later induction =>
      rw [← wide] at inside
      have there := List.getElem?_eq_getElem inside
      rw [← metadata] at metadataRead
      obtain ⟨size, bit, front, split, data, below⟩ := stands.unspent more
      obtain ⟨sized, tuned⟩ := fieldInside_iff.mpr ⟨fits, rfl⟩
      rw [← calcFieldSize_append front, ← split, ← data] at sized
      obtain ⟨framed, tuned, good⟩ :=
        (tune_inside_iff front rest cursor.row.data[i].pos below).mpr tuned
      rw [← split, ← data] at tuned
      rw [← split] at good
      have first := updateColumn_iff.mpr (.framed there
        (stands.positive more) typeRead metadataRead
        (by rw [bit]; exact selected) sized tuned)
      obtain ⟨final, run, final_, decoded⟩ := induction
        (stands.advance (cursor.row.put i framed) _ _ more)
        (by simpa using wide) rfl
      rw [Nat.add_right_comm] at final_ decoded
      refine ⟨final, ?_, final_, decoded.put inside good (by omega)⟩
      simp only [updateColumns, first, Exec.ok_bind]
      exact run

theorem CursorAt.more (stands : CursorAt memory low rest i cursor)
    (unspent : 0 < cursor.size) : rest ≠ [] := by
  intro none
  have spent := stands.spent none
  omega

/-- Columns that were decoded to values inside have been decoded inside the
rest. -/
theorem inside_of_updateColumns {todo : Nat} {final : RowCursor}
    (stands : CursorAt memory low rest i cursor)
    (run : self.updateColumns memory used nulls todo i cursor = .ok final)
    (values : ∀ j value, i ≤ j → j < i + todo →
      final.row.data[j]? = some value → value.Inside low memory.length) :
    ∃ behind, ColumnsInside self (used &&& nulls) cursor.row.data.length todo i
      cursor.pmetadata rest behind := by
  induction todo generalizing i cursor rest with
  | zero => exact ⟨rest, .done i cursor.pmetadata rest⟩
  | succ todo induction =>
      obtain ⟨next, first, later⟩ := Exec.bind_eq_ok.mp run
      have valuesLater : ∀ j value, i + 1 ≤ j → j < i + 1 + todo →
          final.row.data[j]? = some value → value.Inside low memory.length :=
        fun j value above below => values j value (by omega) (by omega)
      have front := updateColumns_front later (Nat.lt_succ_self i)
      cases updateColumn_iff.mp first with
      | spent there spent =>
          have inside := (List.getElem?_eq_some_iff.mp there).1
          obtain rfl := stands.empty spent
          obtain ⟨behind, walk⟩ :=
            induction (stands.reset _) later valuesLater
          rw [CRow.put_length] at walk
          exact ⟨behind, .spent inside walk⟩
      | skipped there unspent typeRead metadataRead unselected =>
          have inside := (List.getElem?_eq_some_iff.mp there).1
          have more := stands.more unspent
          obtain ⟨behind, walk⟩ :=
            induction (stands.skip _ _) later valuesLater
          rw [CRow.put_length] at walk
          rw [(stands.unspent more).2.1] at unselected
          exact ⟨behind,
            .skipped inside more typeRead metadataRead unselected walk⟩
      | @framed _ _ type metadata _ _ there unspent typeRead metadataRead
          selected size tuned =>
          have inside := (List.getElem?_eq_some_iff.mp there).1
          have more := stands.more unspent
          obtain ⟨behind, walk⟩ :=
            induction (stands.advance _ _ _ more) later valuesLater
          rw [CRow.put_length] at walk
          obtain ⟨_, bit, front', split, data, below⟩ := stands.unspent more
          rw [CRow.put_self _ _ inside] at front
          have good := values i _ (Nat.le_refl i) (by omega) front
          rw [bit] at selected
          rw [data, split] at size tuned
          rw [calcFieldSize_append] at size
          rw [split] at good
          have field : FieldInside (type, metadata) rest _ :=
            ⟨size, (tune_inside_iff front' rest _ below).mp ⟨_, tuned, good⟩⟩
          obtain ⟨fits, long⟩ := fieldInside_iff.mp field
          rw [long] at walk
          exact ⟨behind,
            .framed inside more typeRead metadataRead selected fits walk⟩

end Columns

end CTable

end MysqlSlave
