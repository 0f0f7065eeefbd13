import MysqlSlave.EventFormat

/-!
# The format of ROWS events

A ROWS event is a table id, flags, for V2 a block of extra data, the number of
columns, one bitmap of the columns present (two for an UPDATE) and the row images.
-/

namespace MysqlSlave

open Region

/-- What a ROWS event does. -/
inductive RowsOp
  | write
  | update
  | delete
  deriving DecidableEq, Repr

/-- The kind of a ROWS event; V2 events have an extra-data block. -/
structure RowsKind where
  op : RowsOp
  v2 : Bool
  deriving DecidableEq, Repr

namespace RowsKind

def code : RowsKind → UInt8
  | ⟨.write, false⟩ => 23
  | ⟨.update, false⟩ => 24
  | ⟨.delete, false⟩ => 25
  | ⟨.write, true⟩ => 30
  | ⟨.update, true⟩ => 31
  | ⟨.delete, true⟩ => 32

def type : RowsKind → LogEventType
  | ⟨.write, false⟩ => .writeRowsEvent
  | ⟨.update, false⟩ => .updateRowsEvent
  | ⟨.delete, false⟩ => .deleteRowsEvent
  | ⟨.write, true⟩ => .writeRowsV2Event
  | ⟨.update, true⟩ => .updateRowsV2Event
  | ⟨.delete, true⟩ => .deleteRowsV2Event

theorem ofCode_code (kind : RowsKind) :
    LogEventType.ofCode kind.code = kind.type := by
  obtain ⟨op, v2⟩ := kind
  cases op <;> cases v2 <;> rfl

theorem code_supported (kind : RowsKind) :
    kind.code.toNat ≤ logEventTypes := by
  obtain ⟨op, v2⟩ := kind
  cases op <;> cases v2 <;> decide

theorem type_isRows (kind : RowsKind) : kind.type.isRows = true := by
  obtain ⟨op, v2⟩ := kind
  cases op <;> cases v2 <;> rfl

theorem type_isRowsV2 (kind : RowsKind) : kind.type.isRowsV2 = kind.v2 := by
  obtain ⟨op, v2⟩ := kind
  cases op <;> cases v2 <;> rfl

theorem type_isUpdateRows (kind : RowsKind) :
    kind.type.isUpdateRows = decide (kind.op = .update) := by
  obtain ⟨op, v2⟩ := kind
  cases op <;> cases v2 <;> rfl

end RowsKind

/-- A ROWS event; `used` and `usedAfter` are the columns-present bitmaps. -/
structure RowsEvent where
  header : EventHeader
  kind : RowsKind
  tableId : Nat
  flags : Nat
  extra : Bytes
  ncolumns : Nat
  used : Bytes
  usedAfter : Bytes
  images : Bytes
  idSmall : tableId < 281474976710656
  extraFits : extra.length + 2 < 65536
  some : 1 ≤ ncolumns
  few : ncolumns ≤ 48
  usedLength : used.length = Bitmap.byteCount ncolumns
  usedAfterLength : usedAfter.length = Bitmap.byteCount ncolumns

namespace RowsEvent

/-- The extra-data block of a V2 event. -/
def extraBlock (event : RowsEvent) : Bytes :=
  if event.kind.v2 then bytesLE 2 (event.extra.length + 2) ++ event.extra
  else []

/-- The second columns-present bitmap of an UPDATE event. -/
def afterBitmap (event : RowsEvent) : Bytes :=
  if event.kind.op = .update then event.usedAfter else []

/-- The body in front of the row images. -/
def front (event : RowsEvent) : Bytes :=
  bytesLE 6 event.tableId ++ bytesLE 2 event.flags ++ event.extraBlock ++
    netLength event.ncolumns ++ event.used ++ event.afterBitmap

def body (event : RowsEvent) : Bytes := event.front ++ event.images

def encode (event : RowsEvent) (checksum : Bytes) : Bytes :=
  encodeEvent event.header event.kind.code event.body checksum

/-- Where the row images start. -/
def imagesOffset (event : RowsEvent) : Nat := 19 + event.front.length

/-- What a parser holds after it has read the event. -/
structure Parsed (event : RowsEvent) (result : CRowLogEvent) : Prop where
  valid : result.valid = true
  typeCode : result.getTypeCode = event.kind.type
  tableId : result.tableId = event.tableId
  ncolumns : result.ncolumns = event.ncolumns
  used : result.packedUsedColumns =
    CRowLogEvent.updateN1bits (BitVec.ofNat 64 (littleEndian event.used))
  usedAfter : event.kind.op = .update →
    result.packedUsedColumnsAfterimage =
      CRowLogEvent.updateN1bits
        (BitVec.ofNat 64 (littleEndian event.usedAfter))
  rowsData : result.rowsData = event.imagesOffset
  rowsLen : result.rowsLen = event.images.length

/-- The pieces of a stored body, at the offsets the parser computes. -/
structure Placed (event : RowsEvent) (memory : Bytes) : Prop where
  tableId : Stored memory 19 (bytesLE 6 event.tableId)
  flags : Stored memory 25 (bytesLE 2 event.flags)
  extra : Stored memory 27 event.extraBlock
  count : Stored memory (27 + event.extraBlock.length)
    (netLength event.ncolumns)
  used : Stored memory
    (27 + event.extraBlock.length + (netLength event.ncolumns).length)
    event.used
  usedAfter : Stored memory
    (27 + event.extraBlock.length + (netLength event.ncolumns).length +
      event.used.length) event.afterBitmap
  images : Stored memory event.imagesOffset event.images

theorem imagesOffset_eq (event : RowsEvent) :
    event.imagesOffset = 27 + event.extraBlock.length +
      (netLength event.ncolumns).length + event.used.length +
        event.afterBitmap.length := by
  simp only [imagesOffset, front, List.length_append, bytesLE_length]
  omega

theorem images_stored (event : RowsEvent) (checksum slack : Bytes) :
    Stored (event.encode checksum ++ slack) event.imagesOffset
      (event.images ++ (checksum ++ slack)) := by
  let header := event.header.encode event.kind.code
    (19 + event.body.length + checksum.length)
  have stored := Stored.intro (header ++ event.front)
    (event.images ++ (checksum ++ slack)) []
  have whole : event.encode checksum ++ slack =
      header ++ event.front ++ (event.images ++ (checksum ++ slack)) ++ [] := by
    simp [encode, encodeEvent, body, header]
  rw [whole]
  exact stored.relocate (by simp [imagesOffset, header])

section Tune

variable {event : RowsEvent} {memory checksum : Bytes}
  {fmt : CFormatDescriptionLogEvent}

theorem placed_of_stored (stored : Stored memory 0 (event.encode checksum)) :
    event.Placed memory := by
  have body := stored.left.right
  rw [EventHeader.encode_length, Nat.zero_add] at body
  have front : Stored memory 19 event.front := body.left
  simp only [RowsEvent.front] at front
  have usedAfter := front.right
  have used := front.left.right
  have count := front.left.left.right
  have extra := front.left.left.left.right
  have flags := front.left.left.left.left.right
  have tableId := front.left.left.left.left.left
  refine ⟨tableId, flags.relocate ?_, extra.relocate ?_, count.relocate ?_,
    used.relocate ?_, usedAfter.relocate ?_, body.right.relocate rfl⟩ <;>
    simp <;> omega

theorem readExtraData_placed (placed : event.Placed memory) :
    ∃ extraDataLen extraData,
      CRowLogEvent.readExtraData event.kind.type memory 27 =
        .ok (extraDataLen, extraData, 27 + event.extraBlock.length) := by
  have small := event.extraFits
  have extra := placed.extra
  unfold CRowLogEvent.readExtraData
  rw [RowsKind.type_isRowsV2]
  cases v2 : event.kind.v2 with
  | false => exact ⟨0, none, by simp [RowsEvent.extraBlock, v2]⟩
  | true =>
      simp only [RowsEvent.extraBlock, v2, if_true] at extra ⊢
      have read := readLE_bytesLE (by omega) extra.left
      have length : (event.extra.length + 2 + 65536 - 2) % 65536 =
          event.extra.length := by omega
      refine ⟨event.extra.length, Option.some 29, ?_⟩
      rw [read, Exec.ok_bind, length, List.length_append, bytesLE_length,
        Nat.add_assoc]
      rfl

theorem buildColumnMask_bitmap {bitmap : Bytes} {address : Nat}
    (length : bitmap.length = Bitmap.byteCount event.ncolumns)
    (stored : Stored memory address bitmap) :
    ∃ mask : CRowLogEvent.ColumnMask,
      CRowLogEvent.buildColumnMask memory address 0 event.ncolumns =
        .ok mask ∧ mask.mask = BitVec.ofNat 64 (littleEndian bitmap) ∧
      mask.mask ≠ -1 ∧ mask.ptr = address + bitmap.length := by
  refine ⟨_, CRowLogEvent.buildColumnMask_of_stored stored length event.some
    event.few, rfl, ?_, rfl⟩
  have six : bitmap.length ≤ 6 := by
    have few := event.few
    rw [length, Bitmap.byteCount]
    omega
  apply CRowLogEvent.mask_ne_error
  exact (littleEndian_lt bitmap).trans_le (Nat.pow_le_pow_right (by omega) six)

theorem tune_encode (self : CRowLogEvent) (tuned : fmt.Tuned)
    (stored : Stored memory 0 (event.encode checksum))
    (trailer : checksum.length = fmt.trailerLen)
    (small : (event.encode checksum).length < 4294967296) :
    ∃ result,
      self.tune memory (event.encode checksum).length fmt = .ok (0, result) ∧
        event.Parsed result := by
  obtain ⟨header, headerRead⟩ : ∃ header,
      CLogEvent.tune memory (event.encode checksum).length fmt =
        .ok header := by
    obtain ⟨header, read, _⟩ := CLogEvent.tune_stored fmt stored
    exact ⟨header, read⟩
  have codeRead : readByte memory eventTypeOffset = .ok event.kind.code :=
    readByte_code stored
  have placed := placed_of_stored stored
  have tableId := readLE_bytesLE event.idSmall placed.tableId
  have flags := readLE_of_stored placed.flags
  obtain ⟨extraDataLen, extraData, extra⟩ := readExtraData_placed placed
  have columnsSmall : event.ncolumns < 16777216 := by
    have few := event.few
    omega
  have count := netFieldLength_netLength columnsSmall placed.count
  obtain ⟨used, usedRead, usedMask, usedOk, usedBehind⟩ :=
    buildColumnMask_bitmap event.usedLength placed.used
  have lengthLeft : ∀ behind : Nat, behind = event.imagesOffset →
      sizeSub (sizeSub (sizeSub (event.encode checksum).length 19)
        fmt.trailerLen) (behind - 19) = event.images.length := by
    intro behind same
    have total : (event.encode checksum).length =
        19 + (event.front.length + event.images.length) +
          checksum.length := by
      simp [encode, body]
    have start : event.imagesOffset = 19 + event.front.length := rfl
    have first : sizeSub (event.encode checksum).length 19 =
        event.front.length + event.images.length + checksum.length :=
      sizeSub_of_add (by omega) (by omega)
    have second : sizeSub (event.front.length + event.images.length +
        checksum.length) checksum.length =
          event.front.length + event.images.length :=
      sizeSub_of_add (by omega) (by omega)
    rw [first, ← trailer, second]
    exact sizeSub_of_add (by omega) (by omega)
  have typeKept : UInt8.ofNat event.kind.code.toNat = event.kind.code :=
    UInt8.ofNat_toNat
  rw [bytesLE_length] at flags
  simp only [CRowLogEvent.tune, headerRead, codeRead, RowsKind.ofCode_code,
    tuned.commonHeaderLen, tableId, Exec.ok_bind, Nat.reduceAdd, flags, extra,
    count, usedRead, usedOk, if_false, RowsKind.type_isUpdateRows]
  by_cases update : event.kind.op = .update
  · have after := placed.usedAfter
    simp only [afterBitmap, update, if_true] at after
    obtain ⟨usedAfter, afterRead, afterMask, afterOk, afterBehind⟩ :=
      buildColumnMask_bitmap event.usedAfterLength after
    rw [← usedBehind] at afterRead
    have behind : usedAfter.ptr = event.imagesOffset := by
      rw [afterBehind, imagesOffset_eq, afterBitmap, if_pos update]
    simp only [update, decide_true, if_true, afterRead, Exec.ok_bind, afterOk,
      if_false, Exec.pure_eq_ok, lengthLeft _ behind]
    refine ⟨_, rfl, rfl, ?_, rfl, rfl, ?_, ?_, behind, rfl⟩
    · rw [CRowLogEvent.getTypeCode, typeKept, RowsKind.ofCode_code]
    · simp only [usedMask]
    · intro _
      simp only [afterMask]
  · have behind : used.ptr = event.imagesOffset := by
      rw [usedBehind, imagesOffset_eq, afterBitmap, if_neg update]
      rfl
    simp only [update, decide_false, Exec.pure_eq_ok, lengthLeft _ behind]
    refine ⟨_, rfl, rfl, ?_, rfl, rfl, ?_, ?_, behind, rfl⟩
    · rw [CRowLogEvent.getTypeCode, typeKept, RowsKind.ofCode_code]
    · simp only [usedMask]
    · intro isUpdate
      exact absurd isUpdate update

end Tune

end RowsEvent

theorem noExtra_fits : ([] : Bytes).length + 2 < 65536 := by decide

/-- A V1 event on a table with one column. -/
def sampleRows (op : RowsOp) (tableId : UInt16) (images : Bytes) :
    RowsEvent where
  header := ⟨0, 1, 0, 0⟩
  kind := ⟨op, false⟩
  tableId := tableId.toNat
  flags := 1
  extra := []
  ncolumns := 1
  used := [1]
  usedAfter := [1]
  images := images
  idSmall := sampleId_small tableId
  extraFits := noExtra_fits
  some := Nat.le_refl 1
  few := Nat.le_of_ble_eq_true rfl
  usedLength := rfl
  usedAfterLength := rfl

end MysqlSlave
