import MysqlSlave.ColumnMask
import MysqlSlave.RowsHeader

/-!
# Used columns of a rows event

What `used_columns_mask()` and `used_columns_1bit_count()` say about the
columns-present bitmaps of an event that `CRowLogEvent::tune` accepts.  The mask
is read with the number of its bits still in its top byte, so it is the bitmap
only if no bit is set.
-/

namespace MysqlSlave

open Region

/-- The two bitmaps behind the number of columns; only UPDATE has a second. -/
structure RowsBitmaps (kind : RowsKind) (memory : Bytes) (ncolumns : Nat)
    (used after : Bytes) : Prop where
  stored : ∃ extra count : Bytes,
    (if kind.v2 then ∃ block : Bytes, block.length + 2 < 65536 ∧
        extra = bytesLE 2 (block.length + 2) ++ block
      else extra = []) ∧
      LengthEncoded count ncolumns ∧
      Stored memory 27 (extra ++ (count ++ (used ++ after)))
  usedLength : used.length = Bitmap.byteCount ncolumns
  afterLength : after.length =
    if kind.op = .update then Bitmap.byteCount ncolumns else 0

/-- The accessors give back the bitmaps and their numbers of set bits. -/
structure CRowLogEvent.Unpacks (event : CRowLogEvent) (kind : RowsKind)
    (used after : Bytes) : Prop where
  mask : event.usedColumnsMask.toNat = littleEndian used
  count : event.usedColumns1bitCount =
    Bitmap.ones (8 * used.length) (littleEndian used)
  afterMask : kind.op = .update →
    event.usedColumnsAfterimageMask.toNat = littleEndian after
  afterCount : kind.op = .update →
    event.usedColumnsAfterimage1bitCount =
      Bitmap.ones (8 * after.length) (littleEndian after)

/-- No bit is set in the bitmaps. -/
def NoBitSet (kind : RowsKind) (used after : Bytes) : Prop :=
  (∀ byte ∈ used, byte = 0) ∧ (kind.op = .update → ∀ byte ∈ after, byte = 0)

namespace CRowLogEvent

theorem count_updateN1bits {number : Nat} (small : number < 2 ^ 56) :
    (updateN1bits (BitVec.ofNat 64 number) >>> (64 - 8)).toNat =
      Bitmap.ones 56 number := by
  have length := Bitmap.ofNumber_length 56 number
  have counted : countBits 64
      (BitVec.ofNat 64 (Bitmap.value (Bitmap.ofNumber 56 number))) 0 =
        0 + (Bitmap.ofNumber 56 number).count true := by
    apply countBits_value
    · omega
    · omega
  rw [Bitmap.value_ofNumber small, Nat.zero_add] at counted
  rw [updateN1bits_count, counted]
  rfl

theorem updateN1bits_toNat {number : Nat} (small : number < 2 ^ 56) :
    (updateN1bits (BitVec.ofNat 64 number)).toNat =
      number + 2 ^ 56 * Bitmap.ones 56 number := by
  have low := congrArg BitVec.toNat (updateN1bits_mask (BitVec.ofNat 64 number))
  have ones : columnBits.toNat = 2 ^ 56 - 1 := rfl
  rw [and_columnBits_of_lt small, BitVec.toNat_and, ones,
    Nat.and_two_pow_sub_one_eq_mod, BitVec.toNat_ofNat] at low
  have high := count_updateN1bits small
  rw [BitVec.toNat_ushiftRight, Nat.shiftRight_eq_div_pow] at high
  omega

/-- A packed mask is a bitmap with as many bits only if there is none. -/
theorem zero_of_unpacked {number whole width : Nat} (small : number < 2 ^ 56)
    (fits : whole < 2 ^ width)
    (mask : (updateN1bits (BitVec.ofNat 64 number)).toNat = whole)
    (count : (updateN1bits (BitVec.ofNat 64 number) >>> (64 - 8)).toNat =
      Bitmap.ones width whole) : whole = 0 := by
  rw [updateN1bits_toNat small] at mask
  have wider := Bitmap.ones_of_lt fits (Nat.le_add_left width 56)
  rw [count_updateN1bits small, ← wider, ← mask,
    Bitmap.ones_add width _ small] at count
  -- the number of bits has no bit itself
  have below : Bitmap.ones 56 number < 2 ^ width := by omega
  have none := Bitmap.ones_eq_zero below (by omega)
  have zero := Bitmap.ones_eq_zero small none
  rw [← mask, none, zero, Nat.mul_zero]

end CRowLogEvent

section Bitmaps

variable {kind : RowsKind} {memory : Bytes} {ncolumns : Nat}
  {used after : Bytes}

theorem RowsBitmaps.read (bitmaps : RowsBitmaps kind memory ncolumns used after) :
    ∃ extraDataLen extraData p behind,
      CRowLogEvent.readExtraData kind.type memory 27 =
          .ok (extraDataLen, extraData, p) ∧
        netFieldLength memory p = .ok (ncolumns % 4294967296, behind) ∧
        Stored memory behind (used ++ after) := by
  obtain ⟨extra, count, extraShape, encoded, stored⟩ := bitmaps.stored
  have countRead := netFieldLength_encoded encoded stored.right.left
  have behind := stored.right.right
  cases v2 : kind.v2 with
  | false =>
      rw [v2] at extraShape
      have none : extra = [] := extraShape
      subst none
      exact ⟨_, _, _, _, readExtraData_v1 v2, countRead, behind⟩
  | true =>
      rw [v2] at extraShape
      obtain ⟨block, small, rfl⟩ := extraShape
      have lengthRead := readLE_bytesLE small stored.left.left
      have extraRead := readExtraData_v2 v2 lengthRead
      have blockLength : (block.length + 2 + 65534) % 65536 =
          block.length := by omega
      have front : 27 + (bytesLE 2 (block.length + 2) ++ block).length =
          27 + 2 + block.length := by
        rw [List.length_append, bytesLE_length]
        omega
      rw [blockLength] at extraRead
      rw [front] at countRead behind
      exact ⟨_, _, _, _, extraRead, countRead, behind⟩

theorem buildColumnMask_read {ptr len : Nat}
    {built : CRowLogEvent.ColumnMask}
    (run : CRowLogEvent.buildColumnMask memory ptr len ncolumns = .ok built)
    (good : built.mask ≠ -1) :
    ∃ mask, readLE memory ptr (Bitmap.byteCount (ncolumns % 2048)) =
        .ok mask ∧
      built.mask = BitVec.ofNat 64 mask ∧
      built.ptr = ptr + Bitmap.byteCount (ncolumns % 2048) := by
  obtain ⟨least, most⟩ := buildColumnMask_accepted run good
  have range := bitmapBytes_iff.mpr ⟨least, most⟩
  have bytes := bitmapBytes_eq least most
  rw [bytes] at range
  simp only [CRowLogEvent.buildColumnMask, bytes, range, and_self, if_true]
    at run
  obtain ⟨mask, read, result⟩ := Exec.bind_eq_ok.mp run
  cases result
  exact ⟨mask, read, rfl, rfl⟩

theorem tune_masks {self event : CRowLogEvent} {size : Nat}
    {fmt : CFormatDescriptionLogEvent} {extraDataLen p behind : Nat}
    {extraData : Option Nat}
    (tuned : fmt.Tuned)
    (code : readByte memory eventTypeOffset = .ok kind.code)
    (extraRead : CRowLogEvent.readExtraData kind.type memory 27 =
      .ok (extraDataLen, extraData, p))
    (countRead : netFieldLength memory p = .ok (ncolumns, behind))
    (run : self.tune memory size fmt = .ok (0, event)) :
    let bytes := Bitmap.byteCount (ncolumns % 2048)
    1 ≤ ncolumns % 2048 ∧ ncolumns % 2048 ≤ 48 ∧
    ∃ used, readLE memory behind bytes = .ok used ∧
      event.packedUsedColumns =
        CRowLogEvent.updateN1bits (BitVec.ofNat 64 used) ∧
      (kind.op = .update → ∃ after,
        readLE memory (behind + bytes) bytes = .ok after ∧
          event.packedUsedColumnsAfterimage =
            CRowLogEvent.updateN1bits (BitVec.ofNat 64 after)) := by
  intro bytes
  obtain ⟨code', p', behind', first, last, read⟩ :=
    CRowLogEvent.tune_readFrom run
  have codeRead := read.codeRead
  rw [code] at codeRead
  cases codeRead
  have extraRead' := read.extra
  rw [RowsKind.ofCode_code, tuned.commonHeaderLen] at extraRead'
  obtain ⟨_, _, rfl⟩ : _ = _ ∧ _ = _ ∧ p = p' := by
    simpa using extraRead.symm.trans extraRead'
  obtain ⟨same, rfl⟩ : ncolumns = event.ncolumns ∧ behind = behind' := by
    simpa using countRead.symm.trans read.count
  have usedRead := read.usedRead
  have after := read.lastRead
  rw [← same] at usedRead after
  obtain ⟨least, most⟩ := buildColumnMask_accepted usedRead read.usedGood
  obtain ⟨mask, maskRead, maskEq, ptr⟩ :=
    buildColumnMask_read usedRead read.usedGood
  refine ⟨least, most, mask, maskRead, ?_, ?_⟩
  · rw [read.usedPacked, maskEq]
  · intro update
    have isUpdate : (LogEventType.ofCode kind.code).isUpdateRows = true := by
      rw [RowsKind.ofCode_code, RowsKind.type_isUpdateRows, update]
      rfl
    rw [if_pos isUpdate] at after
    obtain ⟨afterRead, afterGood, afterPacked⟩ := after
    obtain ⟨afterMask, afterMaskRead, afterEq, _⟩ :=
      buildColumnMask_read afterRead afterGood
    rw [ptr] at afterMaskRead
    exact ⟨afterMask, afterMaskRead, by rw [afterPacked, afterEq]⟩

theorem readLE_zero {address start width number : Nat} {bitmaps : Bytes}
    (stored : Stored memory address bitmaps)
    (inside : start + width ≤ bitmaps.length)
    (none : ∀ byte ∈ bitmaps, byte = 0)
    (read : readLE memory (address + start) width = .ok number) :
    number = 0 := by
  have here := readLE_of_stored
    (stored.slice width (by omega : start ≤ bitmaps.length))
  have length : ((bitmaps.drop start).take width).length = width := by
    rw [List.length_take, List.length_drop]
    omega
  have zero : littleEndian ((bitmaps.drop start).take width) = 0 := by
    apply littleEndian_eq_zero_iff.mpr
    intro byte member
    exact none byte (List.mem_of_mem_drop (List.mem_of_mem_take member))
  rw [length, read, zero] at here
  exact Except.ok.inj here

/-- A packed mask that is a bitmap with as many bits comes from an empty one. -/
theorem bitmap_zero {packed : BitVec 64} {number : Nat} {bitmap : Bytes}
    (small : number < 2 ^ 56)
    (read : packed = CRowLogEvent.updateN1bits (BitVec.ofNat 64 number))
    (mask : packed.toNat = littleEndian bitmap)
    (count : (packed >>> (64 - 8)).toNat =
      Bitmap.ones (8 * bitmap.length) (littleEndian bitmap)) :
    ∀ byte ∈ bitmap, byte = 0 := by
  have fits : littleEndian bitmap < 2 ^ (8 * bitmap.length) := by
    rw [Nat.pow_mul]
    exact littleEndian_lt bitmap
  rw [read] at mask count
  exact littleEndian_eq_zero_iff.mp
    (CRowLogEvent.zero_of_unpacked small fits mask count)

theorem unpacked_of_zero {packed : BitVec 64} {bitmap : Bytes}
    (read : packed = CRowLogEvent.updateN1bits (BitVec.ofNat 64 0))
    (none : ∀ byte ∈ bitmap, byte = 0) :
    packed.toNat = littleEndian bitmap ∧
      (packed >>> (64 - 8)).toNat =
        Bitmap.ones (8 * bitmap.length) (littleEndian bitmap) := by
  have zero := littleEndian_eq_zero_iff.mpr none
  have clear : CRowLogEvent.updateN1bits (BitVec.ofNat 64 0) = 0 := by decide
  have nothing := Bitmap.ones_of_lt (Nat.one_pos.trans_eq (Nat.pow_zero 2).symm)
    (Nat.zero_le (8 * bitmap.length))
  rw [read, clear, zero, nothing]
  exact ⟨rfl, rfl⟩

/-- The masks of an accepted event come from the first bytes of its bitmaps, at
most six. -/
theorem accepted_masks {self event : CRowLogEvent} {size : Nat}
    {fmt : CFormatDescriptionLogEvent}
    (tuned : fmt.Tuned)
    (code : readByte memory eventTypeOffset = .ok kind.code)
    (bitmaps : RowsBitmaps kind memory ncolumns used after)
    (accepted : self.tune memory size fmt = .ok (0, event)) :
    ∃ mask < 2 ^ 56,
      event.packedUsedColumns =
        CRowLogEvent.updateN1bits (BitVec.ofNat 64 mask) ∧
      ((∀ byte ∈ used, byte = 0) → mask = 0) ∧
      (kind.op = .update → ∃ afterMask < 2 ^ 56,
        event.packedUsedColumnsAfterimage =
          CRowLogEvent.updateN1bits (BitVec.ofNat 64 afterMask) ∧
        ((∀ byte ∈ used ++ after, byte = 0) → afterMask = 0)) := by
  obtain ⟨extraDataLen, extraData, p, behind, extraRead, countRead, stored⟩ :=
    bitmaps.read
  obtain ⟨least, most, mask, maskRead, maskEq, afterRead⟩ :=
    tune_masks tuned code extraRead countRead accepted
  have bytesMost : Bitmap.byteCount (ncolumns % 4294967296 % 2048) ≤ 6 := by
    unfold Bitmap.byteCount
    omega
  have bytesLe : Bitmap.byteCount (ncolumns % 4294967296 % 2048) ≤
      Bitmap.byteCount ncolumns :=
    Bitmap.byteCount_mono ((Nat.mod_le _ _).trans (Nat.mod_le _ _))
  generalize Bitmap.byteCount (ncolumns % 4294967296 % 2048) = bytes at *
  have narrow : 256 ^ bytes ≤ 256 ^ 6 :=
    Nat.pow_le_pow_right (by decide) bytesMost
  have small := readLE_lt maskRead
  refine ⟨mask, by omega, maskEq, ?_, ?_⟩
  · intro none
    have fits : 0 + bytes ≤ used.length := by
      rw [bitmaps.usedLength]
      omega
    exact readLE_zero stored.left fits none maskRead
  · intro update
    obtain ⟨afterMask, afterMaskRead, afterEq⟩ := afterRead update
    have afterSmall := readLE_lt afterMaskRead
    refine ⟨afterMask, by omega, afterEq, fun none => ?_⟩
    apply readLE_zero stored ?_ none afterMaskRead
    rw [List.length_append, bitmaps.usedLength, bitmaps.afterLength,
      if_pos update]
    omega

/-- The bitmaps are given back exactly if no bit is set; the number of bits always
is. -/
theorem usedColumns_iff {self event : CRowLogEvent} {size : Nat}
    {fmt : CFormatDescriptionLogEvent}
    (tuned : fmt.Tuned)
    (code : readByte memory eventTypeOffset = .ok kind.code)
    (bitmaps : RowsBitmaps kind memory ncolumns used after)
    (accepted : self.tune memory size fmt = .ok (0, event)) :
    (event.Unpacks kind used after ↔ NoBitSet kind used after) ∧
      ∀ number < 2 ^ 56, ∀ packed : CRowLogEvent,
        packed.packedUsedColumns =
            CRowLogEvent.updateN1bits (BitVec.ofNat 64 number) →
          packed.usedColumns1bitCount = Bitmap.ones 56 number ∧
            (packed.usedColumnsMask.toNat = number ↔ number = 0) := by
  refine ⟨?_, fun number small packed same => ⟨?_, ?_⟩⟩
  · obtain ⟨mask, small, packed, empty, afterMasks⟩ :=
      accepted_masks tuned code bitmaps accepted
    constructor
    · intro unpacks
      have usedMask := unpacks.mask
      rw [CRowLogEvent.usedColumnsMask_eq] at usedMask
      refine ⟨bitmap_zero small packed usedMask unpacks.count, ?_⟩
      intro update
      obtain ⟨afterMask, afterSmall, afterPacked, _⟩ := afterMasks update
      have usedAfterMask := unpacks.afterMask update
      rw [CRowLogEvent.usedColumnsAfterimageMask_eq] at usedAfterMask
      exact bitmap_zero afterSmall afterPacked usedAfterMask
        (unpacks.afterCount update)
    · rintro ⟨usedNone, afterNone⟩
      rw [empty usedNone] at packed
      obtain ⟨maskGiven, countGiven⟩ := unpacked_of_zero packed usedNone
      have afterGiven : kind.op = .update →
          event.packedUsedColumnsAfterimage.toNat = littleEndian after ∧
            event.usedColumnsAfterimage1bitCount =
              Bitmap.ones (8 * after.length) (littleEndian after) := by
        intro update
        obtain ⟨afterMask, _, afterPacked, afterEmpty⟩ := afterMasks update
        have none : ∀ byte ∈ used ++ after, byte = 0 := by
          intro byte member
          rcases List.mem_append.mp member with inUsed | inAfter
          · exact usedNone byte inUsed
          · exact afterNone update byte inAfter
        rw [afterEmpty none] at afterPacked
        exact unpacked_of_zero afterPacked (afterNone update)
      refine ⟨?_, countGiven, ?_, fun update => (afterGiven update).2⟩
      · rw [CRowLogEvent.usedColumnsMask_eq]
        exact maskGiven
      · intro update
        rw [CRowLogEvent.usedColumnsAfterimageMask_eq]
        exact (afterGiven update).1
  · rw [CRowLogEvent.usedColumns1bitCount, same]
    exact CRowLogEvent.count_updateN1bits small
  · rw [CRowLogEvent.usedColumnsMask_eq, same,
      CRowLogEvent.updateN1bits_toNat small]
    constructor
    · intro whole
      exact Bitmap.ones_eq_zero small (by omega)
    · rintro rfl
      rfl

end Bitmaps

/-- A WRITE event with the given number of columns and bitmap. -/
def bitmapEvent (count used : Bytes) : Bytes :=
  [0, 0, 0, 0, 23, 0, 0, 0, 0, 0, 0, 0, 0, 0, 0, 0, 0, 0, 0] ++
    ([1, 0, 0, 0, 0, 0, 0, 0] ++ (count ++ used ++ [0, 0, 0, 0]))

theorem bitmapEvent_bitmaps {count used : Bytes} {ncolumns : Nat}
    (encoded : LengthEncoded count ncolumns)
    (length : used.length = Bitmap.byteCount ncolumns) :
    RowsBitmaps ⟨.write, false⟩ (bitmapEvent count used) ncolumns used [] := by
  refine ⟨⟨[], count, rfl, encoded, ?_⟩, length, rfl⟩
  exact ⟨[0, 0, 0, 0, 23, 0, 0, 0, 0, 0, 0, 0, 0, 0, 0, 0, 0, 0, 0] ++
    [1, 0, 0, 0, 0, 0, 0, 0], [0, 0, 0, 0], by simp [bitmapEvent], rfl⟩

theorem usedColumns_iff_noColumn :
    ∃ event, ({} : CRowLogEvent).tune (bitmapEvent [3] [0])
        (bitmapEvent [3] [0]).length (.ofServer [53] true) = .ok (0, event) ∧
      event.Unpacks ⟨.write, false⟩ [0] [] := by
  have tuned := CFormatDescriptionLogEvent.ofServer_tuned [53] true
  have bitmaps : RowsBitmaps ⟨.write, false⟩ (bitmapEvent [3] [0]) 3 [0] [] :=
    bitmapEvent_bitmaps (.one (by decide)) rfl
  have code : readByte (bitmapEvent [3] [0]) eventTypeOffset =
      .ok (RowsKind.code ⟨.write, false⟩) := rfl
  obtain ⟨event, accepted⟩ : ∃ event, ({} : CRowLogEvent).tune
      (bitmapEvent [3] [0]) (bitmapEvent [3] [0]).length
      (.ofServer [53] true) = .ok (0, event) := ⟨_, rfl⟩
  refine ⟨event, accepted, ?_⟩
  apply (usedColumns_iff tuned code bitmaps accepted).1.mpr
  constructor
  · intro byte member
    exact List.mem_singleton.mp member
  · nofun

/-- Of three columns the first and the last are present: the mask has their
number, 2, in its top byte. -/
theorem not_unpacks_threeColumns :
    RowsBitmaps ⟨.write, false⟩ (bitmapEvent [3] [5]) 3 [5] [] ∧
      ∃ event, ({} : CRowLogEvent).tune (bitmapEvent [3] [5]) 33
          (.ofServer [53] true) = .ok (0, event) ∧
        event.usedColumnsMask = 0x0200000000000005#64 ∧
        ¬event.Unpacks ⟨.write, false⟩ [5] [] := by
  refine ⟨bitmapEvent_bitmaps (.one (by decide)) rfl, _, rfl, rfl, ?_⟩
  intro unpacks
  have mask := unpacks.mask
  revert mask
  decide +kernel

end MysqlSlave
