import MysqlSlave.RowsEventFormat

/-!
# Headers of rows events

Which bodies of a rows event `CRowLogEvent::tune` accepts.  It checks nothing but
the number of bytes of the columns-present bitmap, and that only modulo 256; where
the body ends it does not ask.
-/

namespace MysqlSlave

open Region

/-- The bytes of a length-encoded integer. -/
inductive LengthEncoded : Bytes → Nat → Prop
  | one {value : Nat} : value < 251 → LengthEncoded [.ofNat value] value
  | two {value : Nat} :
      value < 65536 → LengthEncoded (252 :: bytesLE 2 value) value
  | three {value : Nat} :
      value < 16777216 → LengthEncoded (253 :: bytesLE 3 value) value
  | eight {value : Nat} :
      value < 18446744073709551616 →
      LengthEncoded (254 :: bytesLE 8 value) value

/-- A well-formed body of a rows event: table id and flags, for V2 the extra data,
whose length counts its own two bytes, the number of columns, one bitmap or, for
UPDATE, two, and then the row images `rest`. -/
structure RowsBody (kind : RowsKind) (body rest : Bytes) : Prop where
  split : ∃ (fixed extra count bitmaps : Bytes) (ncolumns : Nat),
    body = fixed ++ (extra ++ (count ++ (bitmaps ++ rest))) ∧
      fixed.length = 8 ∧
      (if kind.v2 then ∃ block : Bytes, block.length + 2 < 65536 ∧
          extra = bytesLE 2 (block.length + 2) ++ block
        else extra = []) ∧
      LengthEncoded count ncolumns ∧ 1 ≤ ncolumns ∧ ncolumns ≤ 48 ∧
      bitmaps.length = (if kind.op = .update then 2 else 1) *
        Bitmap.byteCount ncolumns

/-- Where the number of columns is looked for, if the body is long enough to say
so; the length of the extra data loses two in sixteen bits. -/
def countOffset (kind : RowsKind) (body : Bytes) : Option Nat :=
  if kind.v2 then
    if 10 ≤ body.length then
      some (10 + (littleEndian ((body.drop 8).take 2) + 65534) % 65536)
    else none
  else some 8

/-- The bytes at `offset` are not the start of a number of columns that `tune`
accepts: a single byte outside 1..48, or a longer number whose lowest byte is
outside 1..48 or whose next byte is not a multiple of eight. -/
def CountRefused (bytes : Bytes) (offset : Nat) : Prop :=
  ∃ first, bytes[offset]? = some first ∧
    (first.toNat = 0 ∨ 48 < first.toNat ∧ first.toNat ≤ 251 ∨
      251 < first.toNat ∧
        ((∃ low, bytes[offset + 1]? = some low ∧
            ¬(1 ≤ low.toNat ∧ low.toNat ≤ 48)) ∨
          ∃ high, bytes[offset + 2]? = some high ∧ high.toNat % 8 ≠ 0))

/-- The body itself holds a number of columns that `tune` refuses. -/
def RowsRefused (kind : RowsKind) (body : Bytes) : Prop :=
  ∃ offset, countOffset kind body = some offset ∧ CountRefused body offset

section Reads

variable {memory : Bytes} {pos : Nat}

theorem byteAt_of_readByte {byte : UInt8}
    (read : readByte memory pos = .ok byte) : memory[pos]? = some byte := by
  rw [readByte] at read
  split at read
  · rename_i there
    cases read
    exact there
  · cases read

theorem readLE_two {width value : Nat}
    (read : readLE memory pos (width + 2) = .ok value) :
    ∃ low high rest, memory[pos]? = some low ∧
      memory[pos + 1]? = some high ∧
      value = low.toNat + 256 * high.toNat + 65536 * rest := by
  obtain ⟨low, lowRead, later⟩ := Exec.bind_eq_ok.mp read
  obtain ⟨tail, tailRead, result⟩ := Exec.bind_eq_ok.mp later
  obtain ⟨high, highRead, later'⟩ := Exec.bind_eq_ok.mp tailRead
  obtain ⟨rest, _, result'⟩ := Exec.bind_eq_ok.mp later'
  cases result
  cases result'
  refine ⟨low, high, rest, byteAt_of_readByte lowRead,
    byteAt_of_readByte highRead, ?_⟩
  ring

/-- The number of bytes of a bitmap is in 1..6 modulo 256 for these numbers of
columns. -/
theorem bitmapBytes_iff {ncolumns : Nat} :
    (1 ≤ (ncolumns + 7) % 18446744073709551616 / 8 % 256 ∧
        (ncolumns + 7) % 18446744073709551616 / 8 % 256 ≤ 6) ↔
      1 ≤ ncolumns % 2048 ∧ ncolumns % 2048 ≤ 48 := by
  omega

theorem not_countRefused {ncolumns behind : Nat}
    (read : netFieldLength memory pos = .ok (ncolumns, behind))
    (least : 1 ≤ ncolumns % 2048) (most : ncolumns % 2048 ≤ 48) :
    ¬CountRefused memory pos := by
  intro refused
  obtain ⟨first, firstAt, wrong⟩ := refused
  obtain ⟨first', firstRead, later⟩ := Exec.bind_eq_ok.mp read
  have same : first' = first := by
    have found := byteAt_of_readByte firstRead
    rw [firstAt] at found
    exact (Option.some.inj found).symm
  subst same
  have bounded := first'.toNat_lt
  -- a longer number, of which the two lowest bytes decide
  have long : ∀ width, readLE memory (pos + 1) (width + 2) = .ok ncolumns →
      251 < first'.toNat → False := by
    intro width number above
    obtain ⟨low, high, rest, lowAt, highAt, value⟩ := readLE_two number
    have highBounded := high.toNat_lt
    have lowBounded := low.toNat_lt
    rcases wrong with zero | ⟨_, few⟩ | ⟨_, ⟨low', lowAt', out⟩ |
      ⟨high', highAt', odd⟩⟩
    · omega
    · omega
    · rw [lowAt] at lowAt'
      cases lowAt'
      omega
    · rw [show pos + 2 = pos + 1 + 1 from rfl, highAt] at highAt'
      cases highAt'
      omega
  split at later
  · cases later
    rcases wrong with zero | ⟨above, _⟩ | ⟨above, _⟩
    · omega
    · omega
    · omega
  · split at later
    · cases later
      omega
    · split at later
      · obtain ⟨number, numberRead, result⟩ := Exec.bind_eq_ok.mp later
        cases result
        exact long 0 numberRead (by omega)
      · split at later
        · obtain ⟨number, numberRead, result⟩ := Exec.bind_eq_ok.mp later
          cases result
          exact long 1 numberRead (by omega)
        · obtain ⟨number, numberRead, result⟩ := Exec.bind_eq_ok.mp later
          cases result
          exact long 2 numberRead (by omega)

theorem netFieldLength_of_not_refused (room : pos + 9 ≤ memory.length)
    (notRefused : ¬CountRefused memory pos) :
    ∃ ncolumns behind, netFieldLength memory pos = .ok (ncolumns, behind) ∧
      ncolumns < 4294967296 ∧ 1 ≤ ncolumns % 2048 ∧ ncolumns % 2048 ≤ 48 ∧
      behind ≤ pos + 9 := by
  have firstRead := readByte_eq_ok (show pos < memory.length by omega)
  have firstAt := byteAt_of_readByte firstRead
  generalize memory[pos] = first at firstRead firstAt
  have bounded := first.toNat_lt
  -- a longer number, of which the two lowest bytes decide
  have long : ∀ width, width ≤ 2 → 251 < first.toNat →
      ∃ ncolumns, readLE memory (pos + 1) (width + 2) = .ok ncolumns ∧
        ncolumns < 4294967296 ∧ 1 ≤ ncolumns % 2048 ∧
        ncolumns % 2048 ≤ 48 := by
    intro width narrow above
    have read := @readLE_eq_ok memory (pos + 1) (width + 2) (by omega)
    have small := readLE_lt read
    obtain ⟨low, high, rest, lowAt, highAt, value⟩ := readLE_two read
    have power : 256 ^ (width + 2) ≤ 256 ^ 4 :=
      Nat.pow_le_pow_right (by decide) (by omega)
    have lowGood : 1 ≤ low.toNat ∧ low.toNat ≤ 48 := by
      by_contra out
      exact notRefused ⟨first, firstAt,
        Or.inr (Or.inr ⟨above, Or.inl ⟨low, lowAt, out⟩⟩)⟩
    have highGood : high.toNat % 8 = 0 := by
      by_contra out
      exact notRefused ⟨first, firstAt,
        Or.inr (Or.inr ⟨above, Or.inr ⟨high, highAt, out⟩⟩)⟩
    refine ⟨_, read, ?_, ?_, ?_⟩
    · omega
    · omega
    · omega
  have short : ¬(first.toNat = 0 ∨ 48 < first.toNat ∧ first.toNat ≤ 251) := by
    intro out
    apply notRefused
    refine ⟨first, firstAt, ?_⟩
    rcases out with zero | between
    · exact Or.inl zero
    · exact Or.inr (Or.inl between)
  rw [netFieldLength, firstRead, Exec.ok_bind]
  by_cases one : first.toNat < 251
  · rw [if_pos one]
    exact ⟨_, _, rfl, by omega, by omega, by omega, by omega⟩
  · have notNull : ¬first.toNat = 251 := by omega
    rw [if_neg one, if_neg notNull]
    by_cases two : first.toNat = 252
    · obtain ⟨ncolumns, read, small, least, most⟩ :=
        long 0 (by omega) (by omega)
      rw [if_pos two, read]
      exact ⟨_, _, rfl, small, least, most, by omega⟩
    · rw [if_neg two]
      by_cases three : first.toNat = 253
      · obtain ⟨ncolumns, read, small, least, most⟩ :=
          long 1 (by omega) (by omega)
        rw [if_pos three, read]
        exact ⟨_, _, rfl, small, least, most, by omega⟩
      · obtain ⟨ncolumns, read, small, least, most⟩ :=
          long 2 (by omega) (by omega)
        rw [if_neg three, read]
        exact ⟨_, _, rfl, small, least, most, Nat.le_refl _⟩

/-- Of a length-encoded integer of eight bytes only four are looked at. -/
theorem netFieldLength_encoded {count : Bytes} {ncolumns : Nat}
    (encoded : LengthEncoded count ncolumns)
    (stored : Stored memory pos count) :
    netFieldLength memory pos =
      .ok (ncolumns % 4294967296, pos + count.length) := by
  have first : ∀ {byte : UInt8} {rest : Bytes}, count = byte :: rest →
      readByte memory pos = .ok byte := by
    intro byte rest same
    subst same
    exact readByte_of_stored stored
  cases encoded with
  | one small =>
      have value : (UInt8.ofNat ncolumns).toNat = ncolumns := by
        simp
        omega
      have whole : ncolumns % 4294967296 = ncolumns := by omega
      simp [netFieldLength, first rfl, value, small, whole]
  | two small =>
      have read := readLE_bytesLE (by omega) stored.tail
      have whole : ncolumns % 4294967296 = ncolumns := by omega
      simp [netFieldLength, first rfl, read, whole]
  | three small =>
      have read := readLE_bytesLE (by omega) stored.tail
      have whole : ncolumns % 4294967296 = ncolumns := by omega
      simp [netFieldLength, first rfl, read, whole]
  | eight small =>
      have halves : bytesLE 8 ncolumns =
          bytesLE 4 ncolumns ++ bytesLE 4 (ncolumns / 4294967296) := by
        simp [bytesLE, Nat.div_div_eq_div_mul]
      have tail := stored.tail
      rw [halves] at tail
      have read := readLE_of_stored tail.left
      rw [bytesLE_length, littleEndian_bytesLE] at read
      simp [netFieldLength, first rfl, read]

theorem netFieldLength_of_encoded {count : Bytes} {ncolumns : Nat}
    (encoded : LengthEncoded count ncolumns) (few : ncolumns ≤ 48)
    (stored : Stored memory pos count) :
    netFieldLength memory pos = .ok (ncolumns, pos + count.length) := by
  have whole : ncolumns % 4294967296 = ncolumns := by omega
  rw [netFieldLength_encoded encoded stored, whole]

end Reads

section Masks

variable {memory : Bytes} {ptr len ncolumns : Nat}

theorem bitmapBytes_eq (least : 1 ≤ ncolumns % 2048)
    (most : ncolumns % 2048 ≤ 48) :
    (ncolumns + 7) % 18446744073709551616 / 8 % 256 =
      Bitmap.byteCount (ncolumns % 2048) := by
  unfold Bitmap.byteCount
  omega

/-- `build_column_mask` reads a bitmap for the number of columns modulo 2048. -/
theorem buildColumnMask_readable (least : 1 ≤ ncolumns % 2048)
    (most : ncolumns % 2048 ≤ 48)
    (room : ptr + Bitmap.byteCount (ncolumns % 2048) ≤ memory.length) :
    ∃ built, CRowLogEvent.buildColumnMask memory ptr len ncolumns =
        .ok built ∧ built.mask ≠ -1 ∧
      built.ptr = ptr + Bitmap.byteCount (ncolumns % 2048) := by
  have bytes := bitmapBytes_eq least most
  have range := bitmapBytes_iff.mpr ⟨least, most⟩
  rw [bytes] at range
  have read := readLE_eq_ok room
  have bounded := readLE_lt read
  have power : 256 ^ Bitmap.byteCount (ncolumns % 2048) ≤ 256 ^ 6 :=
    Nat.pow_le_pow_right (by decide) range.2
  have built : CRowLogEvent.buildColumnMask memory ptr len ncolumns =
      .ok ⟨BitVec.ofNat 64 (littleEndian ((memory.drop ptr).take
        (Bitmap.byteCount (ncolumns % 2048)))),
        ptr + Bitmap.byteCount (ncolumns % 2048),
        sizeSub len (Bitmap.byteCount (ncolumns % 2048))⟩ := by
    rw [CRowLogEvent.buildColumnMask, bytes]
    simp only [range, and_self, if_true, read, Exec.ok_bind, Exec.pure_eq_ok]
  refine ⟨_, built, ?_, rfl⟩
  exact CRowLogEvent.mask_ne_error (bounded.trans_le power)

theorem buildColumnMask_accepted {built : CRowLogEvent.ColumnMask}
    (run : CRowLogEvent.buildColumnMask memory ptr len ncolumns = .ok built)
    (good : built.mask ≠ -1) :
    1 ≤ ncolumns % 2048 ∧ ncolumns % 2048 ≤ 48 := by
  apply bitmapBytes_iff.mp
  by_contra out
  rw [CRowLogEvent.buildColumnMask] at run
  simp only [out, if_false, Exec.pure_eq_ok, Except.ok.injEq] at run
  rw [← run] at good
  exact good rfl

end Masks

/-- The bitmaps of an event of this kind. -/
def RowsKind.bitmapCount (kind : RowsKind) : Nat :=
  if kind.op = .update then 2 else 1

/-- Where the row images start if the number of columns is `ncolumns` and
`p` is behind it. -/
def imagesAt (kind : RowsKind) (p ncolumns : Nat) : Nat :=
  p + kind.bitmapCount * Bitmap.byteCount (ncolumns % 2048)

section Tune

variable {memory : Bytes} {size : Nat} {kind : RowsKind}
  {fmt : CFormatDescriptionLogEvent} {extraDataLen p behind ncolumns : Nat}
  {extraData : Option Nat}

/-- `tune` accepts what it can read, if the number of columns is good modulo
2048. -/
theorem tune_accepts (self : CRowLogEvent) (tuned : fmt.Tuned)
    (least : 19 ≤ size)
    (inside : size ≤ memory.length)
    (fixed : 27 ≤ memory.length)
    (code : readByte memory eventTypeOffset = .ok kind.code)
    (extra : CRowLogEvent.readExtraData kind.type memory 27 =
      .ok (extraDataLen, extraData, p))
    (count : netFieldLength memory p = .ok (ncolumns, behind))
    (some : 1 ≤ ncolumns % 2048)
    (few : ncolumns % 2048 ≤ 48)
    (room : imagesAt kind behind ncolumns ≤ memory.length) :
    ∃ event, self.tune memory size fmt = .ok (0, event) ∧
      event.valid = true ∧ event.rowsData = imagesAt kind behind ncolumns ∧
      event.len =
        sizeSub (sizeSub (sizeSub size 19) fmt.trailerLen)
          (imagesAt kind behind ncolumns - 19) := by
  obtain ⟨header, headerRead⟩ :=
    CLogEvent.tune_readable fmt least inside
  have tableId := @readLE_eq_ok memory 19 6 (by omega)
  have flags := @readLE_eq_ok memory 25 2 (by omega)
  simp only [imagesAt, RowsKind.bitmapCount] at room ⊢
  obtain ⟨used, usedRead, usedOk, usedBehind⟩ :=
    @buildColumnMask_readable memory behind 0 ncolumns some few
      (by split at room <;> omega)
  simp only [CRowLogEvent.tune, headerRead, code, RowsKind.ofCode_code,
    tuned.commonHeaderLen, tableId, Exec.ok_bind, Nat.reduceAdd, flags, extra,
    count, usedRead, usedOk, if_false, RowsKind.type_isUpdateRows]
  by_cases update : kind.op = .update
  · rw [if_pos update] at room ⊢
    obtain ⟨after, afterRead, afterOk, afterBehind⟩ :=
      @buildColumnMask_readable memory used.ptr 0 ncolumns some few
        (by omega)
    have last : after.ptr =
        behind + 2 * Bitmap.byteCount (ncolumns % 2048) := by omega
    simp only [update, decide_true, if_true, afterRead, Exec.ok_bind, afterOk,
      if_false, Exec.pure_eq_ok]
    exact ⟨_, rfl, rfl, last, by rw [last]⟩
  · rw [if_neg update] at room ⊢
    have last : used.ptr =
        behind + 1 * Bitmap.byteCount (ncolumns % 2048) := by omega
    simp only [update, decide_false, Exec.pure_eq_ok]
    exact ⟨_, rfl, rfl, last, by rw [last]⟩

theorem tune_accepted {self event : CRowLogEvent} (tuned : fmt.Tuned)
    (code : readByte memory eventTypeOffset = .ok kind.code)
    (run : self.tune memory size fmt = .ok (0, event)) :
    ∃ extraDataLen extraData p ncolumns behind,
      CRowLogEvent.readExtraData kind.type memory 27 =
        .ok (extraDataLen, extraData, p) ∧
      netFieldLength memory p = .ok (ncolumns, behind) ∧
      1 ≤ ncolumns % 2048 ∧ ncolumns % 2048 ≤ 48 := by
  obtain ⟨code', p, behind, used, last, read⟩ :=
    CRowLogEvent.tune_readFrom run
  have codeRead := read.codeRead
  rw [code] at codeRead
  cases codeRead
  have extraRead := read.extra
  rw [RowsKind.ofCode_code, tuned.commonHeaderLen] at extraRead
  exact ⟨_, _, p, _, behind, extraRead, read.count,
    buildColumnMask_accepted read.usedRead read.usedGood⟩

end Tune

section ExtraData

variable {memory : Bytes} {kind : RowsKind} {p stored : Nat}

theorem readExtraData_v1 (v1 : kind.v2 = false) :
    CRowLogEvent.readExtraData kind.type memory p = .ok (0, none, p) := by
  unfold CRowLogEvent.readExtraData
  rw [RowsKind.type_isRowsV2, v1]
  rfl

theorem readExtraData_v2 (v2 : kind.v2 = true)
    (read : readLE memory p 2 = .ok stored) :
    CRowLogEvent.readExtraData kind.type memory p =
      .ok ((stored + 65534) % 65536, some (p + 2),
        p + 2 + (stored + 65534) % 65536) := by
  have length : (stored + 65536 - 2) % 65536 = (stored + 65534) % 65536 := by
    omega
  unfold CRowLogEvent.readExtraData
  rw [RowsKind.type_isRowsV2, v2, if_pos rfl, read, Exec.ok_bind, length]
  rfl

end ExtraData

/-- `tune` returns 0 for the event with this common header and this body and
leaves a valid `event`.  `behind` is what memory holds behind the body, the
checksum first. -/
def AcceptsBody (fmt : CFormatDescriptionLogEvent) (self : CRowLogEvent)
    (header body behind : Bytes) (event : CRowLogEvent) : Prop :=
  self.tune (header ++ (body ++ behind))
      (19 + body.length + fmt.trailerLen) fmt = .ok (0, event) ∧
    event.valid = true

/-- `tune` accepts exactly the well-formed bodies, and then the row data is what
stands behind the bitmaps. -/
def ParsesHeader (fmt : CFormatDescriptionLogEvent) (kind : RowsKind)
    (body : Bytes) : Prop :=
  ∀ (self : CRowLogEvent) (header behind : Bytes),
    header.length = 19 →
    header[4]? = some kind.code →
    fmt.trailerLen ≤ behind.length →
    ((∃ event, AcceptsBody fmt self header body behind event) ↔
      ∃ rest, RowsBody kind body rest) ∧
    ∀ event rest,
      AcceptsBody fmt self header body behind event →
      RowsBody kind body rest →
      event.rowsData + rest.length = 19 + body.length ∧
        event.rowsLen = rest.length

section Bodies

variable {fmt : CFormatDescriptionLogEvent} {kind : RowsKind}
  {self : CRowLogEvent} {header body behind rest : Bytes}

theorem readByte_kind (code : header[4]? = some kind.code) (bytes : Bytes) :
    readByte (header ++ bytes) eventTypeOffset = .ok kind.code := by
  have there : (header ++ bytes)[4]? = some kind.code :=
    List.getElem?_append_left
      (List.getElem?_eq_some_iff.mp code).1 ▸ code
  rw [readByte, eventTypeOffset, there]

theorem sizeSub_body {length trailer used : Nat} (inside : used ≤ length)
    (fits : 19 + length + trailer < 18446744073709551616) :
    sizeSub (sizeSub (sizeSub (19 + length + trailer) 19) trailer) used =
      length - used := by
  have first : sizeSub (19 + length + trailer) 19 = length + trailer :=
    sizeSub_of_add (by omega) fits
  have second : sizeSub (length + trailer) trailer = length :=
    sizeSub_of_add (by omega) (by omega)
  rw [first, second]
  exact sizeSub_eq inside (by omega)

theorem accepts_rowsBody (tuned : fmt.Tuned) (headerLength : header.length = 19)
    (code : header[4]? = some kind.code)
    (trailer : fmt.trailerLen ≤ behind.length)
    (fits : 19 + body.length + fmt.trailerLen < 18446744073709551616)
    (wellFormed : RowsBody kind body rest) :
    ∃ event, AcceptsBody fmt self header body behind event ∧
      event.rowsData + rest.length = 19 + body.length ∧
      event.rowsLen = rest.length := by
  obtain ⟨fixed, extra, count, bitmaps, ncolumns, bodyEq, fixedLength,
    extraShape, encoded, some, few, bitmapsLength⟩ := wellFormed.split
  have stored : Stored (header ++ (body ++ behind)) 19 body := by
    have inside := Stored.intro header body behind
    rw [List.append_assoc] at inside
    exact inside.relocate headerLength
  have total : body.length = 8 + (extra.length + (count.length +
      (bitmaps.length + rest.length))) := by
    rw [bodyEq]
    simp only [List.length_append, fixedLength]
  have room := stored.fits
  rw [bodyEq] at stored
  have behindFixed := stored.right.relocate
    (show 19 + fixed.length = 27 by omega)
  have countAt := behindFixed.right.left
  have extraRead : ∃ extraDataLen extraData,
      CRowLogEvent.readExtraData kind.type (header ++ (body ++ behind)) 27 =
        .ok (extraDataLen, extraData, 27 + extra.length) := by
    rw [← bodyEq] at behindFixed
    cases v2 : kind.v2 with
    | false =>
        simp only [v2] at extraShape
        rw [extraShape]
        exact ⟨0, none, readExtraData_v1 v2⟩
    | true =>
        simp only [v2, if_true] at extraShape
        obtain ⟨block, small, rfl⟩ := extraShape
        have read := readLE_bytesLE (by omega) behindFixed.left.left
        have length : (block.length + 2 + 65534) % 65536 = block.length := by
          omega
        refine ⟨block.length, Option.some 29, ?_⟩
        rw [readExtraData_v2 v2 read, length, List.length_append,
          bytesLE_length, Nat.add_assoc]
  obtain ⟨extraDataLen, extraData, extraRead⟩ := extraRead
  rw [← bodyEq] at countAt
  have countRead := netFieldLength_of_encoded encoded few countAt
  have small : ncolumns % 2048 = ncolumns := by omega
  have images : imagesAt kind (27 + extra.length + count.length) ncolumns =
      19 + body.length - rest.length := by
    rw [imagesAt, small, RowsKind.bitmapCount, ← bitmapsLength]
    omega
  have whole : (header ++ (body ++ behind)).length =
      19 + body.length + behind.length := by
    simp [headerLength, Nat.add_assoc]
  obtain ⟨event, run, valid, data, len⟩ :=
    tune_accepts self tuned (by omega)
      (show 19 + body.length + fmt.trailerLen ≤ _ by omega) (by omega)
      (readByte_kind code _) extraRead countRead (by omega) (by omega)
      (by omega)
  refine ⟨event, ⟨run, valid⟩, by omega, ?_⟩
  rw [CRowLogEvent.rowsLen, len, images, sizeSub_body (by omega) fits]
  omega

theorem getElem?_inside {byte : UInt8} {k : Nat}
    (there : body[k]? = some byte) :
    (header ++ (body ++ behind))[header.length + k]? = some byte := by
  rw [List.getElem?_append_right (by omega), Nat.add_sub_cancel_left,
    List.getElem?_append_left (List.getElem?_eq_some_iff.mp there).1]
  exact there

theorem getElem?_outside {byte : UInt8} {k count : Nat}
    (there : (header ++ (body ++ List.replicate count 8))[header.length + k]? =
      some byte) :
    body[k]? = some byte ∨ byte = 8 := by
  rw [List.getElem?_append_right (by omega), Nat.add_sub_cancel_left] at there
  by_cases inside : k < body.length
  · rw [List.getElem?_append_left inside] at there
    exact Or.inl there
  · rw [List.getElem?_append_right (by omega)] at there
    have filled := List.mem_of_getElem? there
    exact Or.inr (List.eq_of_mem_replicate filled)

theorem CountRefused.stored {offset : Nat} (refused : CountRefused body offset) :
    CountRefused (header ++ (body ++ behind)) (header.length + offset) := by
  obtain ⟨first, firstAt, wrong⟩ := refused
  refine ⟨first, getElem?_inside firstAt, ?_⟩
  rcases wrong with zero | few | ⟨above, ⟨low, lowAt, out⟩ |
    ⟨high, highAt, odd⟩⟩
  · exact Or.inl zero
  · exact Or.inr (Or.inl few)
  · exact Or.inr (Or.inr ⟨above, Or.inl ⟨low, getElem?_inside lowAt, out⟩⟩)
  · exact Or.inr (Or.inr ⟨above, Or.inr ⟨high, getElem?_inside highAt, odd⟩⟩)

/-- A number of columns that runs on into eights is refused for bytes of the
body only. -/
theorem CountRefused.of_filled {offset count : Nat}
    (refused : CountRefused (header ++ (body ++ List.replicate count 8))
      (header.length + offset)) :
    CountRefused body offset := by
  obtain ⟨first, firstAt, wrong⟩ := refused
  have eight : (8 : UInt8).toNat = 8 := rfl
  rcases getElem?_outside firstAt with inBody | rfl
  · refine ⟨first, inBody, ?_⟩
    rcases wrong with zero | few | ⟨above, ⟨low, lowAt, out⟩ |
      ⟨high, highAt, odd⟩⟩
    · exact Or.inl zero
    · exact Or.inr (Or.inl few)
    · rw [Nat.add_assoc] at lowAt
      rcases getElem?_outside lowAt with lowIn | rfl
      · exact Or.inr (Or.inr ⟨above, Or.inl ⟨low, lowIn, out⟩⟩)
      · omega
    · rw [Nat.add_assoc] at highAt
      rcases getElem?_outside highAt with highIn | rfl
      · exact Or.inr (Or.inr ⟨above, Or.inr ⟨high, highIn, odd⟩⟩)
      · omega
  · omega

theorem readExtraData_countOffset {offset : Nat} (behind : Bytes)
    (headerLength : header.length = 19)
    (offsetEq : countOffset kind body = some offset) :
    ∃ extraDataLen extraData,
      CRowLogEvent.readExtraData kind.type (header ++ (body ++ behind)) 27 =
        .ok (extraDataLen, extraData, header.length + offset) := by
  unfold countOffset at offsetEq
  cases v2 : kind.v2 with
  | false =>
      simp only [v2] at offsetEq
      cases offsetEq
      rw [headerLength]
      exact ⟨0, none, readExtraData_v1 v2⟩
  | true =>
      simp only [v2, if_true] at offsetEq
      split at offsetEq
      · rename_i long
        have inBody :=
          Stored.of_take_drop body (show 8 + 2 ≤ body.length from long)
        have length : ((body.drop 8).take 2).length = 2 := by
          simp only [List.length_take, List.length_drop]
          omega
        have read := readLE_of_stored ((inBody.extend behind).shift header)
        rw [length, headerLength] at read
        have found := readExtraData_v2 v2 read
        have same := Option.some.inj offsetEq
        have place : 19 + 8 + 2 + (littleEndian ((body.drop 8).take 2) +
            65534) % 65536 = 19 + offset := by omega
        rw [place] at found
        rw [headerLength]
        exact ⟨_, _, found⟩
      · cases offsetEq

theorem rejects_rowsRefused {event : CRowLogEvent} (tuned : fmt.Tuned)
    (headerLength : header.length = 19)
    (code : header[4]? = some kind.code)
    (refused : RowsRefused kind body) :
    ¬AcceptsBody fmt self header body behind event := by
  intro accepted
  obtain ⟨offset, offsetEq, countRefused⟩ := refused
  obtain ⟨_, _, extraRead⟩ :=
    readExtraData_countOffset behind headerLength offsetEq
  obtain ⟨_, _, p, ncolumns, after, extraRead', countRead, some, few⟩ :=
    tune_accepted tuned (readByte_kind code _) accepted.1
  rw [extraRead] at extraRead'
  cases extraRead'
  exact not_countRefused countRead some few countRefused.stored

/-- A body that holds no refused number of columns is accepted in front of
eights. -/
theorem accepts_of_not_refused {count : Nat} (self : CRowLogEvent)
    (tuned : fmt.Tuned)
    (headerLength : header.length = 19)
    (code : header[4]? = some kind.code)
    (long : 65700 ≤ count)
    (notRefused : ¬RowsRefused kind body) :
    ∃ event,
      AcceptsBody fmt self header body (List.replicate count 8) event := by
  have trailer : fmt.trailerLen ≤ 4 := by
    unfold CFormatDescriptionLogEvent.trailerLen
    split <;> omega
  have whole : (header ++ (body ++ List.replicate count 8)).length =
      19 + body.length + count := by
    simp [headerLength, Nat.add_assoc]
  have found : ∃ extraDataLen extraData offset,
      CRowLogEvent.readExtraData kind.type
          (header ++ (body ++ List.replicate count 8)) 27 =
        .ok (extraDataLen, extraData, header.length + offset) ∧
      ¬CountRefused body offset ∧ offset < 65546 := by
    cases offsetEq : countOffset kind body with
    | some offset =>
        obtain ⟨_, _, extraRead⟩ := readExtraData_countOffset
          (List.replicate count 8) headerLength offsetEq
        refine ⟨_, _, offset, extraRead, ?_, ?_⟩
        · intro refused
          exact notRefused ⟨offset, offsetEq, refused⟩
        · unfold countOffset at offsetEq
          split at offsetEq
          · split at offsetEq
            · have same := Option.some.inj offsetEq
              omega
            · cases offsetEq
          · have same := Option.some.inj offsetEq
            omega
    | none =>
        -- the length of the extra data is not in the body
        unfold countOffset at offsetEq
        split at offsetEq
        · rename_i v2
          split at offsetEq
          · cases offsetEq
          · have read := @readLE_eq_ok
              (header ++ (body ++ List.replicate count 8)) 27 2 (by omega)
            have found := readExtraData_v2 v2 read
            generalize skipEq : (_ + 65534) % 65536 = skip at found
            have place : 27 + 2 + skip = header.length + (10 + skip) := by
              omega
            rw [place] at found
            refine ⟨_, _, _, found, ?_, ?_⟩
            · intro refused
              obtain ⟨first, firstAt, _⟩ := refused
              have inside := (List.getElem?_eq_some_iff.mp firstAt).1
              omega
            · omega
        · cases offsetEq
  obtain ⟨_, _, offset, extraRead, fine, near⟩ := found
  obtain ⟨ncolumns, after, countRead, _, some, few, close⟩ :=
    netFieldLength_of_not_refused
      (show header.length + offset + 9 ≤
        (header ++ (body ++ List.replicate count 8)).length by omega)
      (fun refused => fine refused.of_filled)
  have images : imagesAt kind after ncolumns ≤ after + 12 := by
    unfold imagesAt RowsKind.bitmapCount Bitmap.byteCount
    split <;> omega
  obtain ⟨event, run, valid, _⟩ :=
    tune_accepts self tuned (by omega)
      (show 19 + body.length + fmt.trailerLen ≤ _ by omega) (by omega)
      (readByte_kind code _) extraRead countRead some few (by omega)
  exact ⟨event, run, valid⟩

end Bodies

/-- The parser is right about the well-formed bodies and about those that name a
number of columns it refuses; every other body it accepts in some memory. -/
theorem parsesHeader_iff {fmt : CFormatDescriptionLogEvent} {kind : RowsKind}
    {body : Bytes} (tuned : fmt.Tuned)
    (fits : 19 + body.length + fmt.trailerLen < 18446744073709551616) :
    ParsesHeader fmt kind body ↔
      (∃ rest, RowsBody kind body rest) ∨ RowsRefused kind body := by
  constructor
  · intro parses
    by_contra neither
    rw [not_or] at neither
    have headerLength : ([0, 0, 0, 0, kind.code] ++
        List.replicate 14 (0 : UInt8)).length = 19 := rfl
    have trailer : fmt.trailerLen ≤ 65700 := by
      unfold CFormatDescriptionLogEvent.trailerLen
      split <;> omega
    have accepted := accepts_of_not_refused {} tuned headerLength rfl
      (Nat.le_refl 65700) neither.2
    have both := parses {} _ (List.replicate 65700 8) headerLength rfl
      (by rwa [List.length_replicate])
    exact neither.1 (both.1.mp accepted)
  · intro good self header behind headerLength code trailer
    have accepts : ∀ rest, RowsBody kind body rest →
        ∃ event, AcceptsBody fmt self header body behind event ∧
          event.rowsData + rest.length = 19 + body.length ∧
          event.rowsLen = rest.length := by
      intro rest wellFormed
      exact accepts_rowsBody tuned headerLength code trailer fits wellFormed
    constructor
    · constructor
      · intro accepted
        obtain ⟨event, accepted⟩ := accepted
        rcases good with wellFormed | refused
        · exact wellFormed
        · exact absurd accepted
            (rejects_rowsRefused tuned headerLength code refused)
      · intro wellFormed
        obtain ⟨rest, wellFormed⟩ := wellFormed
        obtain ⟨event, accepted, _⟩ := accepts rest wellFormed
        exact ⟨event, accepted⟩
    · intro event rest accepted wellFormed
      obtain ⟨event', accepted', rows⟩ := accepts rest wellFormed
      have same := accepted.1.symm.trans accepted'.1
      cases same
      exact rows

/-- The body of a WRITE event for `count` of columns and one byte of row data. -/
def countedBody (count : Bytes) : Bytes :=
  [1, 0, 0, 0, 0, 0, 0, 0] ++ (count ++ [255])

/-- One column, and a row image. -/
def oneColumnBody : Bytes := countedBody [1] ++ [0, 7]

theorem oneColumnBody_rowsBody :
    RowsBody ⟨.write, false⟩ oneColumnBody [0, 7] := by
  refine ⟨[1, 0, 0, 0, 0, 0, 0, 0], [], [1], [255], 1, rfl, rfl, rfl, ?_,
    Nat.le_refl 1, Nat.le_of_ble_eq_true rfl, rfl⟩
  exact LengthEncoded.one (by decide)

theorem parsesHeader_iff_oneColumn :
    ParsesHeader (.ofServer [53] true) ⟨.write, false⟩ oneColumnBody := by
  have tuned := CFormatDescriptionLogEvent.ofServer_tuned [53] true
  exact (parsesHeader_iff tuned (by decide)).mpr
    (Or.inl ⟨_, oneColumnBody_rowsBody⟩)

theorem LengthEncoded.high_zero {count tail rest : Bytes} {ncolumns : Nat}
    (encoded : LengthEncoded count ncolumns)
    (same : 252 :: tail = count ++ rest) (few : ncolumns ≤ 48) :
    tail[1]? = some 0 := by
  cases encoded with
  | one small =>
      have first := (List.cons.inj same).1
      have value := congrArg UInt8.toNat first
      simp at value
      omega
  | two small =>
      have high : ncolumns / 256 = 0 := by omega
      rw [(List.cons.inj same).2]
      simp [bytesLE, high]
  | three small =>
      exact absurd (List.cons.inj same).1 (by decide)
  | eight small =>
      exact absurd (List.cons.inj same).1 (by decide)

/-- 2049 columns, whose bitmap the parser takes to be one byte. -/
theorem not_parsesHeader_2049 :
    ¬ParsesHeader (.ofServer [53] true) ⟨.write, false⟩
      (countedBody [252, 1, 8]) := by
  intro parses
  have both := parses {} ([0, 0, 0, 0, 23] ++ List.replicate 14 0) [0, 0, 0, 0]
    rfl rfl (Nat.le_refl 4)
  obtain ⟨rest, wellFormed⟩ := both.1.mp ⟨_, rfl, rfl⟩
  obtain ⟨fixed, extra, count, bitmaps, ncolumns, bodyEq, fixedLength,
    extraShape, encoded, least, few, _⟩ := wellFormed.split
  have noExtra : extra = [] := extraShape
  subst noExtra
  have behind := (List.append_inj bodyEq fixedLength.symm).2
  have zero := encoded.high_zero behind few
  cases zero

end MysqlSlave
