import MysqlSlave.ChangeStream
import MysqlSlave.NamedColumns

/-!
# Comparing values

`operator==` of `CValue` compares the pointers and not the bytes.  No two fields of
an event begin and end at the same place, so the values of one handler call are
all different, but for those that are NULL.
-/

namespace MysqlSlave

open Region

namespace CValue

/-- `operator==`; the position is not compared. -/
def operatorEq (self val : CValue) : Bool :=
  self.type == val.type && self.storage == val.storage &&
    self.size == val.size && self.metadata == val.metadata &&
    self.null == val.null

/-- `operator!=`. -/
def operatorNe (self val : CValue) : Bool := !self.operatorEq val

/-- The values compare equal only if both are NULL. -/
def Differ (left right : CValue) : Prop :=
  left.operatorEq right = true ↔ left.isNull = true ∧ right.isNull = true

variable {left right value : CValue}

theorem operatorEq_iff :
    left.operatorEq right = true ↔
      left.type = right.type ∧ left.storage = right.storage ∧
        left.size = right.size ∧ left.metadata = right.metadata ∧
        left.null = right.null := by
  simp [operatorEq, and_assoc]

theorem operatorEq_comm : left.operatorEq right = right.operatorEq left := by
  rw [Bool.eq_iff_iff, operatorEq_iff, operatorEq_iff]
  constructor
  · rintro ⟨type, storage, size, metadata, null⟩
    exact ⟨type.symm, storage.symm, size.symm, metadata.symm, null.symm⟩
  · rintro ⟨type, storage, size, metadata, null⟩
    exact ⟨type.symm, storage.symm, size.symm, metadata.symm, null.symm⟩

theorem Differ.symm (differ : left.Differ right) : right.Differ left := by
  rw [Differ, operatorEq_comm, and_comm]
  exact differ

/-- A value between two addresses: nothing, or a field that does not begin and end
at the lower one. -/
inductive Between (low high : Nat) : CValue → Prop where
  | blank (pos : Nat) : Between low high (.blank pos)
  | field {value : CValue} {start : Nat} :
      value.isNull = false → value.storage = some start → low ≤ start →
      start + value.size ≤ high → (start = low → 0 < value.size) →
      Between low high value

theorem Between.widen {low low' high high' : Nat}
    (between : value.Between low high) (lower : low' ≤ low)
    (higher : high ≤ high') : value.Between low' high' := by
  cases between with
  | blank pos => exact .blank pos
  | field notNull storage least most filled =>
      refine .field notNull storage (lower.trans least) (most.trans higher) ?_
      intro same
      exact filled (by omega)

theorem Between.differ {low mid high : Nat} (below : left.Between low mid)
    (above : right.Between mid high) : left.Differ right := by
  rw [Differ, operatorEq_iff]
  cases below with
  | blank pos =>
      cases above with
      | blank pos => simp [CValue.blank, CValue.isNull]
      | field notNull storage _ _ _ =>
          rw [notNull]
          simp [CValue.blank, storage]
  | field notNull storage _ most _ =>
      rw [notNull]
      cases above with
      | blank pos => simp [CValue.blank, storage]
      | field _ storage' least _ filled =>
          simp only [Bool.false_eq_true, false_and, iff_false, not_and]
          intro _ place size
          rw [storage, storage', Option.some.injEq] at place
          omega

/-- Values between two addresses, no two of them equal. -/
structure Apart (low high : Nat) (values : List CValue) : Prop where
  ordered : low ≤ high
  between : ∀ value ∈ values, value.Between low high
  differ : values.Pairwise Differ

namespace Apart

variable {low mid high : Nat} {front back values : List CValue}

theorem nil (ordered : low ≤ high) : Apart low high [] :=
  ⟨ordered, by simp, .nil⟩

theorem append (first : Apart low mid front) (second : Apart mid high back) :
    Apart low high (front ++ back) := by
  refine ⟨first.ordered.trans second.ordered, ?_, ?_⟩
  · intro value member
    rcases List.mem_append.mp member with earlier | later
    · exact (first.between value earlier).widen le_rfl second.ordered
    · exact (second.between value later).widen first.ordered le_rfl
  · refine List.pairwise_append.mpr ⟨first.differ, second.differ, ?_⟩
    intro left earlier right later
    exact (first.between left earlier).differ (second.between right later)

theorem singleton (ordered : low ≤ high) (between : value.Between low high) :
    Apart low high [value] :=
  ⟨ordered, by simpa using between, List.pairwise_singleton ..⟩

end Apart

end CValue

section Decoded

variable {table : TableSpec} {op : RowsOp} {owner : Option Address}

open CValue

theorem ColumnSpec.decoded_between {column : ColumnSpec} {cell : Cell}
    (valid : column.Valid)
    (holds : ∀ payload, cell = .field payload → column.layout.Holds payload)
    (address pos : Nat) :
    (column.decoded cell address pos).Between address
      (address + (column.store cell).bytes.length) := by
  cases cell with
  | absent => exact .blank pos
  | null => exact .blank pos
  | field payload =>
      have some := ColumnSpec.encode_pos valid (holds payload rfl)
      have notNull := column.realType_ne_null
      have length : (column.store (.field payload)).bytes.length =
          column.layout.prefixLength + payload.length :=
        column.layout.encode_length payload
      rw [FieldLayout.encode_length] at some
      refine .field (by simp [ColumnSpec.decoded, CValue.isNull, notNull]) rfl
        ?_ ?_ ?_
      · exact Nat.le_add_right _ _
      · simp only [ColumnSpec.decoded, length]
        omega
      · simp only [ColumnSpec.decoded]
        omega

theorem decodedRow_apart {columns : List ColumnSpec} {cells : List Cell}
    (valid : ∀ column ∈ columns, column.Valid) (fits : RowFits columns cells)
    (address pos : Nat) :
    Apart address (address + (fieldsOf (storeRow columns cells)).length)
      (decodedRow columns cells address pos) := by
  induction columns generalizing cells address pos with
  | nil => cases cells <;> exact .nil (Nat.le_add_right _ _)
  | cons column columns induction =>
      cases cells with
      | nil => cases fits
      | cons cell cells =>
      obtain ⟨here, later⟩ := List.forall_mem_cons.mp valid
      have first := ColumnSpec.decoded_between here fits.1 address pos
      have rest := induction later fits.2
        (address + (column.store cell).bytes.length) (pos + 1)
      have total : address +
          (fieldsOf (storeRow (column :: columns) (cell :: cells))).length =
            address + (column.store cell).bytes.length +
              (fieldsOf (storeRow columns cells)).length := by
        simp only [storeRow, List.zipWith_cons_cons, fieldsOf_cons,
          List.length_append]
        omega
      rw [total]
      exact (Apart.singleton (Nat.le_add_right _ _) first).append rest

theorem RowImage.decoded_apart (image : RowImage table) (address : Nat) :
    Apart address (address + image.encode.length) (image.decoded address) := by
  have bitmap : Apart address (address + image.nullBitmap.length) [] :=
    .nil (Nat.le_add_right _ _)
  have row := decodedRow_apart table.valid image.fits
    (address + image.nullBitmap.length) 0
  rw [image.encode_length, ← Nat.add_assoc]
  exact bitmap.append row

namespace RowChange

/-- The values of a change, in the order of the bytes. -/
def decodedValues (change : RowChange table op) (address : Nat) :
    List CValue :=
  change.before.decoded address ++
    match change.after with
    | some image => image.decoded (address + change.before.encode.length)
    | none => []

theorem decodedValues_apart (change : RowChange table op) (address : Nat) :
    Apart address (address + change.encode.length)
      (change.decodedValues address) := by
  have before := change.before.decoded_apart address
  rw [encode, List.length_append, ← Nat.add_assoc]
  refine before.append ?_
  cases after : change.after with
  | none => exact .nil (Nat.le_add_right _ _)
  | some image =>
      have bytes : change.afterBytes = image.encode := by
        simp [afterBytes, after]
      rw [bytes]
      exact image.decoded_apart _

end RowChange

/-- The values of all changes, in the order of the bytes. -/
def decodedChanges : List (RowChange table op) → Nat → List CValue
  | [], _ => []
  | change :: changes, address =>
      change.decodedValues address ++
        decodedChanges changes (address + change.encode.length)

theorem decodedChanges_apart (changes : List (RowChange table op))
    (address : Nat) :
    Apart address (address + (encodeChanges changes).length)
      (decodedChanges changes address) := by
  induction changes generalizing address with
  | nil => exact .nil (Nat.le_add_right _ _)
  | cons change changes induction =>
      have first := change.decodedValues_apart address
      have rest := induction (address + change.encode.length)
      rw [encodeChanges, List.flatMap_cons, List.length_append, ← Nat.add_assoc]
      exact first.append rest

/-- The rows of both lists are the changes in another order. -/
theorem decodedRows_perm (changes : List (RowChange table op))
    (address : Nat) :
    ((decodedRows owner changes address ++
        decodedNewRows owner changes address).flatMap CRow.data).Perm
      (decodedChanges changes address) := by
  induction changes generalizing address with
  | nil => exact .nil
  | cons change changes induction =>
      have rest := induction (address + change.encode.length)
      rw [List.flatMap_append] at rest
      rw [decodedRows, decodedNewRows, decodedChanges,
        RowChange.decodedValues]
      cases change.after with
      | none =>
          simpa using rest.append_left (change.before.decoded address)
      | some image =>
          simp only [Option.map_some, Option.toList_some, List.flatMap_append,
            List.flatMap_cons, List.cons_append, List.nil_append,
            List.append_assoc]
          refine List.Perm.append_left _ ?_
          refine (List.perm_append_comm_assoc _ _ _).trans ?_
          exact rest.append_left _

end Decoded

theorem CTable.Decodes.differ {table : CTable} {memory : Bytes}
    {change : TableChanges} (decodes : table.Decodes memory change) :
    ((table.rows ++ table.newRows).flatMap CRow.data).Pairwise
      CValue.Differ := by
  obtain ⟨owner, address, _, _, _, rows, newRows⟩ := decodes
  rw [rows, newRows, (decodedRows_perm change.changes address).pairwise_iff
    CValue.Differ.symm]
  exact (decodedChanges_apart change.changes address).differ

/-- No two values of a call are equal. -/
def HandlerCall.Differ (call : HandlerCall) : Prop :=
  (call.rows.flatMap CRow.data).Pairwise CValue.Differ

theorem handlerCall_differ {table : CTable} {memory : Bytes}
    {change : TableChanges} (decodes : table.Decodes memory change)
    (tbl : Address) :
    (CLogParser.handlerCall change.event.kind.type tbl table).Differ := by
  have differ := decodes.differ
  have rows : (table.rows.flatMap CRow.data).Pairwise CValue.Differ := by
    rw [List.flatMap_append] at differ
    exact (List.pairwise_append.mp differ).1
  rw [CLogParser.handlerCall_type]
  cases change.event.kind.op with
  | write => exact rows
  | delete => exact rows
  | update =>
      have swapped : ((table.newRows ++ table.rows).flatMap CRow.data).Perm
          ((table.rows ++ table.newRows).flatMap CRow.data) := by
        rw [List.flatMap_append, List.flatMap_append]
        exact List.perm_append_comm
      exact (swapped.pairwise_iff CValue.Differ.symm).mpr differ

namespace Loop

variable {crc : Bytes → Nat} {start final : Loop}
  {taken : List (Taken Loop Input Effect)} {log : List MasterEvent}

theorem differ_of_decodes {watched : Bytes → Bytes → Option Address}
    {next : Taken Loop Input Effect} {event : MasterEvent}
    (decodes : Decodes watched next event) :
    ∀ call ∈ next.effect.calls, call.Differ := by
  have silent : next.effect.calls = [] →
      ∀ call ∈ next.effect.calls, call.Differ := by
    intro none
    rw [none]
    simp
  cases event with
  | rows change =>
      dsimp only [Decodes] at decodes
      split at decodes
      · obtain ⟨table, calls, decodes⟩ := decodes
        rw [calls]
        intro call member
        rw [List.mem_singleton.mp member]
        exact handlerCall_differ decodes _
      · exact silent decodes
  | _ => exact silent decodes

/-- In every run that reads a coherent log, two values of one handler call are
equal only if both are NULL. -/
theorem equal_only_null (fresh : start.parser.Fresh)
    (run : Run (step crc) start taken final)
    (reads : List.Forall₂ Reads taken log)
    (coherent : Coherent start.parser.watched log) :
    ∀ next ∈ taken, ∀ call ∈ next.effect.calls, call.Differ := by
  have decodes := run_decodes fresh run reads coherent
  have both : List.Forall₂ (fun next event =>
      (∀ call ∈ next.effect.calls, call.Differ) ∧
        Decodes start.parser.watched next event) taken log :=
    decodes.imp fun _ _ decodes => ⟨differ_of_decodes decodes, decodes⟩
  exact ((List.forall₂_and_left taken log).mp both).1

/-- The value of the first column of `d.t` with its bytes here. -/
def pairInt (start : Nat) : CValue where
  type := .long
  storage := some start
  size := 4
  null := false

/-- The first column of `d.t` is 1 before and after the update, and the two values
are not equal. -/
theorem equal_only_null_pair :
    ∃ new old : CValue,
      pairRowsStep.effect.calls =
        [.onUpdate 0 [⟨some 0, [pairInt 41, new]⟩]
          [⟨some 0, [pairInt 33, old]⟩]] ∧
      (pairInt 41).copied pairRowsStep.input.memory =
        (pairInt 33).copied pairRowsStep.input.memory ∧
      (pairInt 41).operatorNe (pairInt 33) = true := by
  have differ := equal_only_null (sampleLoop_prepared _ _).fresh pairSteps_run
    pairSteps_read (pairLog_coherent _) pairRowsStep (.tail _ (.head _))
  have calls : pairRowsStep.effect.calls =
      [.onUpdate 0 [⟨some 0, [pairInt 41, .blank 1]⟩]
        [⟨some 0, [pairInt 33,
          { type := .varchar, storage := some 38, size := 2, metadata := 20
            null := false, pos := 1 }]⟩]] := by
    decide +kernel
  rw [calls] at differ
  have apart := List.rel_of_pairwise_cons (differ _ (.head _))
    (.tail _ (.head _))
  refine ⟨_, _, calls, by decide +kernel, ?_⟩
  rw [CValue.operatorNe, Bool.not_eq_true', Bool.eq_false_iff]
  intro same
  exact absurd (apart.mp same).1 (by decide)

end Loop

end MysqlSlave
