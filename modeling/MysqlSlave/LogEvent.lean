import MysqlSlave.Lib.Region

/-!
# Binlog events and their `tune` parsers

The event classes of `logevent.hpp` and `logevent.cpp`.  A pointer into the
packet is its offset from the first byte of the event; `data` is the memory from
that byte on, which in general holds more than the `size` bytes of the event.
-/

namespace MysqlSlave

open Region

/-- `Log_event_type`; `other` is a code past the end of the enumeration. -/
inductive LogEventType
  | unknownEvent
  | startEventV3
  | queryEvent
  | stopEvent
  | rotateEvent
  | intvarEvent
  | loadEvent
  | slaveEvent
  | createFileEvent
  | appendBlockEvent
  | execLoadEvent
  | deleteFileEvent
  | newLoadEvent
  | randEvent
  | userVarEvent
  | formatDescriptionEvent
  | xidEvent
  | beginLoadQueryEvent
  | executeLoadQueryEvent
  | tableMapEvent
  | preGaWriteRowsEvent
  | preGaUpdateRowsEvent
  | preGaDeleteRowsEvent
  | writeRowsEvent
  | updateRowsEvent
  | deleteRowsEvent
  | incidentEvent
  | heartbeatEvent
  | ignorableEvent
  | rowsQueryEvent
  | writeRowsV2Event
  | updateRowsV2Event
  | deleteRowsV2Event
  | gtidEvent
  | anonymousGtidEvent
  | previousGtidsEvent
  | transactionContextEvent
  | viewChangeEvent
  | xaPrepareEvent
  | other (code : UInt8)
  deriving DecidableEq, Repr

namespace LogEventType

/-- The enumerators in the order of their codes, from `UNKNOWN_EVENT = 0`. -/
def named : List LogEventType :=
  [unknownEvent, startEventV3, queryEvent, stopEvent, rotateEvent, intvarEvent,
    loadEvent, slaveEvent, createFileEvent, appendBlockEvent, execLoadEvent,
    deleteFileEvent, newLoadEvent, randEvent, userVarEvent,
    formatDescriptionEvent, xidEvent, beginLoadQueryEvent,
    executeLoadQueryEvent, tableMapEvent, preGaWriteRowsEvent,
    preGaUpdateRowsEvent, preGaDeleteRowsEvent, writeRowsEvent,
    updateRowsEvent, deleteRowsEvent, incidentEvent, heartbeatEvent,
    ignorableEvent, rowsQueryEvent, writeRowsV2Event, updateRowsV2Event,
    deleteRowsV2Event, gtidEvent, anonymousGtidEvent, previousGtidsEvent,
    transactionContextEvent, viewChangeEvent, xaPrepareEvent]

/-- The cast `(Log_event_type) code`. -/
def ofCode (code : UInt8) : LogEventType :=
  named.getD code.toNat (other code)

/-- `_type == UPDATE_ROWS_EVENT || _type == UPDATE_ROWS_V2_EVENT`. -/
def isUpdateRows (type : LogEventType) : Bool :=
  type == updateRowsEvent || type == updateRowsV2Event

/-- The V2 rows events, which carry an extra-data block. -/
def isRowsV2 (type : LogEventType) : Bool :=
  type == writeRowsV2Event || type == updateRowsV2Event ||
    type == deleteRowsV2Event

/-- The events the three rows branches of `dispatch_events` take. -/
def isRows (type : LogEventType) : Bool :=
  type == writeRowsEvent || type == updateRowsEvent ||
    type == deleteRowsEvent || isRowsV2 type

end LogEventType

def eventTypeOffset : Nat := 4
def serverIdOffset : Nat := 5
def eventLenOffset : Nat := 9
def logPosOffset : Nat := 13
def flagsOffset : Nat := 17
def logEventHeaderLen : Nat := 19
def stServerVerLen : Nat := 50
def logEventTypes : Nat := 38
def logEventArtificialF : Nat := 0x20
def queryHeaderMinimalLen : Nat := 4 + 4 + 1 + 2
def maxSizeLogEventStatus : Nat :=
  (1 + 4) + (1 + 8) + (1 + 1 + 255) + (1 + 4) + (1 + 6) + (1 + 1 + 255) +
    (1 + 2) + (1 + 2) + (1 + 8) + (1 + 4) + (1 + 16 + 1 + 60)

/-- `CFormatDescriptionLogEvent`: the layout of the events of this server. -/
structure CFormatDescriptionLogEvent where
  binlogVersion : Nat := 0
  serverVersion : Bytes := []
  commonHeaderLen : Nat := 0
  postHeaderLen : LogEventType → Nat := fun _ => 0
  useChecksum : Bool := false

namespace CFormatDescriptionLogEvent

def isSupported (_fmt : CFormatDescriptionLogEvent) (eventType : Nat) : Bool :=
  eventType ≤ logEventTypes

/-- The post-header lengths that `tune` assigns; it leaves the entries of the
other types as they are. -/
def tunedPostHeaderLen (previous : LogEventType → Nat) : LogEventType → Nat
  | .startEventV3 => 2 + stServerVerLen + 4
  | .queryEvent => queryHeaderMinimalLen + 2
  | .stopEvent => 0
  | .rotateEvent => 8
  | .intvarEvent => 0
  | .loadEvent => 4 + 4 + 4 + 1 + 1 + 4
  | .slaveEvent => 0
  | .createFileEvent => 4
  | .appendBlockEvent => 4
  | .execLoadEvent => 4
  | .deleteFileEvent => 4
  | .newLoadEvent => 4 + 4 + 4 + 1 + 1 + 4
  | .randEvent => 0
  | .userVarEvent => 0
  | .formatDescriptionEvent => (2 + stServerVerLen + 4) + 1 + logEventTypes
  | .xidEvent => 0
  | .beginLoadQueryEvent => 4
  | .executeLoadQueryEvent => (queryHeaderMinimalLen + 2) + (4 + 4 + 4 + 1)
  | .preGaWriteRowsEvent => 0
  | .preGaUpdateRowsEvent => 0
  | .preGaDeleteRowsEvent => 0
  | .tableMapEvent => 8
  | .writeRowsEvent => 8
  | .updateRowsEvent => 8
  | .deleteRowsEvent => 8
  | .incidentEvent => 2
  | .writeRowsV2Event => 8
  | .updateRowsV2Event => 8
  | .deleteRowsV2Event => 8
  | type => previous type

/-- `tune`: the result code and the object afterwards. -/
def tune (self : CFormatDescriptionLogEvent) (binlogVer : Nat)
    (serverVer : Option Bytes) (useChecksum : Bool) :
    Int × CFormatDescriptionLogEvent :=
  match serverVer with
  | some version =>
      if binlogVer = 4 then
        (0, { binlogVersion := binlogVer
              serverVersion := version.take stServerVerLen
              commonHeaderLen := logEventHeaderLen
              postHeaderLen := tunedPostHeaderLen self.postHeaderLen
              useChecksum := useChecksum })
      else (-1, { self with binlogVersion := binlogVer, serverVersion := [] })
  | none => (-1, { self with binlogVersion := binlogVer, serverVersion := [] })

/-- The format a parser holds once `get_binlog_format` has succeeded. -/
def ofServer (version : Bytes) (useChecksum : Bool) :
    CFormatDescriptionLogEvent :=
  (tune {} 4 (some version) useChecksum).2

/-- The lengths the event parsers below look up. -/
structure Tuned (fmt : CFormatDescriptionLogEvent) : Prop where
  commonHeaderLen : fmt.commonHeaderLen = 19
  queryHeaderLen : fmt.postHeaderLen .queryEvent = 13
  tableMapHeaderLen : fmt.postHeaderLen .tableMapEvent = 8

theorem ofServer_tuned (version : Bytes) (useChecksum : Bool) :
    (ofServer version useChecksum).Tuned :=
  ⟨rfl, rfl, rfl⟩

/-- Bytes at the end of an event that belong to its checksum. -/
def trailerLen (fmt : CFormatDescriptionLogEvent) : Nat :=
  if fmt.useChecksum then 4 else 0

end CFormatDescriptionLogEvent

/-- `CLogEvent`: the common header. -/
structure CLogEvent where
  when : Nat := 0
  serverId : Nat := 0
  dataWritten : Nat := 0
  logPos : Nat := 0
  flags : Nat := 0
  checksum : Nat := 0
  deriving DecidableEq, Repr

def CLogEvent.tune (data : Bytes) (size : Nat)
    (fmt : CFormatDescriptionLogEvent) : Exec CLogEvent := do
  let when ← readLE data 0 4
  let serverId ← readLE data serverIdOffset 4
  let dataWritten ← readLE data eventLenOffset 4
  let logPos ← readLE data logPosOffset 4
  let flags ← readLE data flagsOffset 2
  if fmt.useChecksum && flags &&& logEventArtificialF == 0 then
    if size < 4 then throw .outOfBounds
    let checksum ← readLE data (size - 4) 4
    return { when, serverId, dataWritten, logPos, flags, checksum }
  else
    return { when, serverId, dataWritten, logPos, flags, checksum := 0 }

theorem CLogEvent.tune_readable {data : Bytes} {size : Nat}
    (fmt : CFormatDescriptionLogEvent) (least : 19 ≤ size)
    (inside : size ≤ data.length) :
    ∃ header, CLogEvent.tune data size fmt = .ok header := by
  have readable : ∀ address width, address + width ≤ 19 →
      ∃ value, readLE data address width = .ok value :=
    fun address width within => ⟨_, readLE_eq_ok (by omega)⟩
  obtain ⟨when, whenRead⟩ := readable 0 4 (by decide)
  obtain ⟨serverId, serverIdRead⟩ := readable serverIdOffset 4 (by decide)
  obtain ⟨written, writtenRead⟩ := readable eventLenOffset 4 (by decide)
  obtain ⟨logPos, logPosRead⟩ := readable logPosOffset 4 (by decide)
  obtain ⟨flags, flagsRead⟩ := readable flagsOffset 2 (by decide)
  simp only [CLogEvent.tune, whenRead, serverIdRead, writtenRead, logPosRead,
    flagsRead, Exec.ok_bind]
  split
  · have enough : ¬size < 4 := by omega
    have last : size - 4 + 4 ≤ data.length := by omega
    simp only [enough, if_false, readLE_eq_ok last, Exec.ok_bind,
      Exec.pure_eq_ok]
    exact ⟨_, rfl⟩
  · exact ⟨_, rfl⟩

theorem CLogEvent.tune_logPos {data : Bytes} {size : Nat}
    {fmt : CFormatDescriptionLogEvent} {event : CLogEvent}
    (run : CLogEvent.tune data size fmt = .ok event) :
    readLE data logPosOffset 4 = .ok event.logPos := by
  obtain ⟨when, _, run⟩ := Exec.bind_eq_ok.mp run
  obtain ⟨serverId, _, run⟩ := Exec.bind_eq_ok.mp run
  obtain ⟨dataWritten, _, run⟩ := Exec.bind_eq_ok.mp run
  obtain ⟨logPos, logPosRead, run⟩ := Exec.bind_eq_ok.mp run
  obtain ⟨flags, _, run⟩ := Exec.bind_eq_ok.mp run
  split at run
  · split at run
    · cases run
    · obtain ⟨checksum, _, result⟩ := Exec.bind_eq_ok.mp run
      cases result
      exact logPosRead
  · cases run
    exact logPosRead

/-- `CRotateLogEvent`; `newLog` points into the packet. -/
structure CRotateLogEvent extends CLogEvent where
  position : Nat := 0
  newLog : Nat := 0
  len : Nat := 0
  deriving DecidableEq, Repr

/-- Always returns 0. -/
def CRotateLogEvent.tune (data : Bytes) (size : Nat)
    (fmt : CFormatDescriptionLogEvent) : Exec (Int × CRotateLogEvent) := do
  let header ← CLogEvent.tune data size fmt
  let start := fmt.commonHeaderLen
  let size := sizeSub (sizeSub size fmt.commonHeaderLen) fmt.trailerLen
  let position ← readLE data start 8
  return (0, { header with
    position, newLog := start + 8, len := sizeSub size 8 })

theorem CRotateLogEvent.tune_returns {data : Bytes} {size : Nat}
    {fmt : CFormatDescriptionLogEvent} {rc : Int} {event : CRotateLogEvent}
    (run : CRotateLogEvent.tune data size fmt = .ok (rc, event)) : rc = 0 := by
  obtain ⟨header, _, run⟩ := Exec.bind_eq_ok.mp run
  obtain ⟨position, _, run⟩ := Exec.bind_eq_ok.mp run
  cases run
  rfl

structure CUnhandledLogEvent extends CLogEvent where
  eventNumber : Nat := 0
  deriving DecidableEq, Repr

/-- Always returns 0. -/
def CUnhandledLogEvent.tune (data : Bytes) (size : Nat)
    (fmt : CFormatDescriptionLogEvent) : Exec (Int × CUnhandledLogEvent) := do
  let header ← CLogEvent.tune data size fmt
  let eventNumber ← readByte data eventTypeOffset
  return (0, { header with eventNumber := eventNumber.toNat })

theorem CUnhandledLogEvent.tune_returns {data : Bytes} {size : Nat}
    {fmt : CFormatDescriptionLogEvent} {rc : Int} {event : CUnhandledLogEvent}
    (run : CUnhandledLogEvent.tune data size fmt = .ok (rc, event)) :
    rc = 0 := by
  obtain ⟨header, _, run⟩ := Exec.bind_eq_ok.mp run
  obtain ⟨number, _, run⟩ := Exec.bind_eq_ok.mp run
  cases run
  rfl

structure CQueryLogEvent extends CLogEvent where
  qExecTime : Nat := 0
  qLen : Nat := 0
  dbLen : Nat := 0
  errorCode : Nat := 0
  statusVarsLen : Nat := 0
  query : Bytes := []
  deriving DecidableEq, Repr

def CQueryLogEvent.tune (self : CQueryLogEvent) (data : Bytes) (size : Nat)
    (fmt : CFormatDescriptionLogEvent) : Exec (Int × CQueryLogEvent) := do
  let header ← CLogEvent.tune data size fmt
  let commonHeaderLen := fmt.commonHeaderLen
  let postHeaderLen := fmt.postHeaderLen .queryEvent
  let dataLen :=
    sizeSub (sizeSub size (commonHeaderLen + postHeaderLen)) fmt.trailerLen
  let start := commonHeaderLen
  let qExecTime ← readLE data (start + 4) 4
  let dbLen ← readByte data (start + 8)
  let errorCode ← readLE data (start + 9) 2
  let event : CQueryLogEvent :=
    { self with
      toCLogEvent := header, query := [], qExecTime, dbLen := dbLen.toNat,
      errorCode }
  if postHeaderLen ≠ queryHeaderMinimalLen then
    let statusVarsLen ← readLE data (start + 11) 2
    let event := { event with statusVarsLen }
    if statusVarsLen > dataLen ∨ statusVarsLen > maxSizeLogEventStatus then
      return (-1, event)
    else
      let dataLen := sizeSub dataLen statusVarsLen
      let start := start + postHeaderLen + statusVarsLen + event.dbLen + 1
      let dataLen := sizeSub dataLen (event.dbLen + 1)
      let qLen := dataLen % 4294967296
      let query ← readBytes data start qLen
      return (0, { event with qLen, query })
  else return (-1, event)

/-- `__net_field_length`: the length-encoded integer at `pos` and the address
behind it.  A first byte of 251 stands for NULL and gives the largest value. -/
def netFieldLength (data : Bytes) (pos : Nat) : Exec (Nat × Nat) := do
  let first ← readByte data pos
  if first.toNat < 251 then return (first.toNat, pos + 1)
  else if first.toNat = 251 then return (18446744073709551615, pos + 1)
  else if first.toNat = 252 then
    let value ← readLE data (pos + 1) 2
    return (value, pos + 3)
  else if first.toNat = 253 then
    let value ← readLE data (pos + 1) 3
    return (value, pos + 4)
  else
    let value ← readLE data (pos + 1) 4
    return (value, pos + 9)

/-- `CTableMapLogEvent`.  `data` is the copy the event keeps on the heap, and
`columnTypes` and `metadata` point into that copy. -/
structure CTableMapLogEvent extends CLogEvent where
  tableId : Nat := 0
  data : Bytes := []
  size : Nat := 0
  dbName : Bytes := []
  tableName : Bytes := []
  columnCount : Nat := 0
  columnTypes : Option Nat := none
  metadataLength : Nat := 0
  metadata : Option Nat := none
  deriving DecidableEq, Repr

namespace CTableMapLogEvent

def getTableId (data : Bytes) (fmt : CFormatDescriptionLogEvent) : Exec Nat :=
  if fmt.postHeaderLen .tableMapEvent = 6 then
    readLE data fmt.commonHeaderLen 4
  else readLE data fmt.commonHeaderLen 6

def getDatabaseName (data : Bytes) (fmt : CFormatDescriptionLogEvent) :
    Exec Bytes :=
  readCString data
    (fmt.commonHeaderLen + fmt.postHeaderLen .tableMapEvent + 1)

def getTableName (data : Bytes) (fmt : CFormatDescriptionLogEvent) :
    Exec Bytes := do
  let p := fmt.commonHeaderLen + fmt.postHeaderLen .tableMapEvent
  let dbLen ← readByte data p
  readCString data (p + dbLen.toNat + 3)

/-- `strcpy` into one of the 255-byte name buffers. -/
def copyName (data : Bytes) (p : Nat) : Exec Bytes := do
  let name ← readCString data p
  if name.length < 255 then return name else throw .overflow

/-- Always returns 0. -/
def tune (data : Bytes) (size : Nat) (fmt : CFormatDescriptionLogEvent) :
    Exec (Int × CTableMapLogEvent) := do
  let header ← CLogEvent.tune data size fmt
  let size := sizeSub size fmt.trailerLen
  let copy ← readBytes data 0 size
  let tableId ← getTableId copy fmt
  let p := fmt.commonHeaderLen + fmt.postHeaderLen .tableMapEvent
  let dbLen ← readByte copy p
  let dbName ← copyName copy (p + 1)
  let p := p + 1 + dbLen.toNat + 1
  let tableLen ← readByte copy p
  let tableName ← copyName copy (p + 1)
  let p := p + 1 + tableLen.toNat + 1
  let (columnCount, columnTypes) ← netFieldLength copy p
  let (metadataLength, behind) ←
    netFieldLength copy (columnTypes + columnCount)
  return (0, { header with
    tableId, data := copy, size, dbName, tableName, columnCount
    columnTypes := some columnTypes, metadataLength
    metadata := if metadataLength ≠ 0 then some behind else none })

theorem tune_returns {data : Bytes} {size : Nat}
    {fmt : CFormatDescriptionLogEvent} {rc : Int} {event : CTableMapLogEvent}
    (run : CTableMapLogEvent.tune data size fmt = .ok (rc, event)) : rc = 0 := by
  unfold CTableMapLogEvent.tune at run
  obtain ⟨header, _, run⟩ := Exec.bind_eq_ok.mp run
  obtain ⟨copy, _, run⟩ := Exec.bind_eq_ok.mp run
  obtain ⟨tableId, _, run⟩ := Exec.bind_eq_ok.mp run
  obtain ⟨dbLen, _, run⟩ := Exec.bind_eq_ok.mp run
  obtain ⟨dbName, _, run⟩ := Exec.bind_eq_ok.mp run
  obtain ⟨tableLen, _, run⟩ := Exec.bind_eq_ok.mp run
  obtain ⟨tableName, _, run⟩ := Exec.bind_eq_ok.mp run
  obtain ⟨count, _, run⟩ := Exec.bind_eq_ok.mp run
  obtain ⟨metadata, _, run⟩ := Exec.bind_eq_ok.mp run
  cases run
  rfl

def isValid (self : CTableMapLogEvent) : Bool :=
  self.dbName ≠ [] && self.tableName ≠ [] && self.columnCount ≠ 0 &&
    self.columnTypes.isSome &&
      (if self.metadataLength ≠ 0 then self.metadata.isSome else true)

end CTableMapLogEvent

/-- `CRowLogEvent`.  The top byte of a used-columns mask holds the number of
bits set in it; `data` points at the row images. -/
structure CRowLogEvent extends CLogEvent where
  type : Nat := 0
  rowFlags : Nat := 0
  tableId : Nat := 0
  ncolumns : Nat := 0
  extraDataLen : Nat := 0
  extraData : Option Nat := none
  packedUsedColumns : BitVec 64 := 0
  packedUsedColumnsAfterimage : BitVec 64 := 0
  data : Nat := 0
  len : Nat := 0
  valid : Bool := false
  deriving DecidableEq, Repr

namespace CRowLogEvent

def getTypeCode (self : CRowLogEvent) : LogEventType :=
  .ofCode (UInt8.ofNat self.type)

def rowsData (self : CRowLogEvent) : Nat := self.data

def rowsLen (self : CRowLogEvent) : Nat := self.len

def usedColumnsMask (self : CRowLogEvent) : BitVec 64 :=
  self.packedUsedColumns &&& 0x00FFFFFFFFFFFFFFFF#64

def usedColumns1bitCount (self : CRowLogEvent) : Nat :=
  (self.packedUsedColumns >>> (64 - 8)).toNat

def usedColumnsAfterimageMask (self : CRowLogEvent) : BitVec 64 :=
  self.packedUsedColumnsAfterimage &&& 0x00FFFFFFFFFFFFFFFF#64

def usedColumnsAfterimage1bitCount (self : CRowLogEvent) : Nat :=
  (self.packedUsedColumnsAfterimage >>> (64 - 8)).toNat

/-- What `build_column_mask` leaves behind: the mask and the two cursors. -/
structure ColumnMask where
  mask : BitVec 64
  ptr : Nat
  len : Nat
  deriving DecidableEq, Repr

/-- `build_column_mask`.  The byte count is cut to eight bits, and a count
outside 1..6 gives the error value without moving a cursor.  A caller that
passes no length ignores `len`. -/
def buildColumnMask (memory : Bytes) (ptr len n : Nat) : Exec ColumnMask := do
  let l := (n + 7) % 18446744073709551616 / 8 % 256
  if 1 ≤ l ∧ l ≤ 6 then
    let mask ← readLE memory ptr l
    return ⟨BitVec.ofNat 64 mask, ptr + l, sizeSub len l⟩
  else return ⟨-1, ptr, len⟩

/-- The counting loop of `update_n1bits`; `m` has at most 64 digits, so 64
rounds reach zero. -/
def countBits : Nat → BitVec 64 → Nat → Nat
  | 0, _, nbits => nbits
  | rounds + 1, m, nbits =>
      let nbits := if m.getLsbD 0 then nbits + 1 else nbits
      let m := m >>> 1
      if m = 0 then nbits else countBits rounds m nbits

def updateN1bits (mask : BitVec 64) : BitVec 64 :=
  (mask &&& 0x00FFFFFFFFFFFFFF#64) |||
    (BitVec.ofNat 64 (countBits 64 mask 0) <<< (64 - 8))

/-- The extra-data block of a V2 event: its length, where it starts, and the
address behind it.  The length counts its own two bytes. -/
def readExtraData (code : LogEventType) (data : Bytes) (p : Nat) :
    Exec (Nat × Option Nat × Nat) :=
  if code.isRowsV2 then do
    let stored ← readLE data p 2
    let extraDataLen := (stored + 65536 - 2) % 65536
    return (extraDataLen, some (p + 2), p + 2 + extraDataLen)
  else .ok (0, none, p)

/-- `tune`.  Members that the event type leaves alone keep what `self` holds. -/
def tune (self : CRowLogEvent) (data : Bytes) (size : Nat)
    (fmt : CFormatDescriptionLogEvent) : Exec (Int × CRowLogEvent) := do
  let header ← CLogEvent.tune data size fmt
  let type ← readByte data eventTypeOffset
  let code := LogEventType.ofCode type
  let start := fmt.commonHeaderLen
  let size := sizeSub (sizeSub size fmt.commonHeaderLen) fmt.trailerLen
  let tableId ← readLE data start 6
  let p := start + 6
  let rowFlags ← readLE data p 2
  let p := p + 2
  let (extraDataLen, extraData, p) ← readExtraData code data p
  let (ncolumns, p) ← netFieldLength data p
  let event : CRowLogEvent :=
    { self with
      toCLogEvent := header, valid := false, type := type.toNat, tableId,
      rowFlags, extraDataLen, extraData, ncolumns }
  let used ← buildColumnMask data p 0 ncolumns
  if used.mask = -1 then return (-1, { event with packedUsedColumns := used.mask })
  let event := { event with packedUsedColumns := updateN1bits used.mask }
  if code.isUpdateRows then
    let after ← buildColumnMask data used.ptr 0 ncolumns
    if after.mask = -1 then
      return (-1, { event with packedUsedColumnsAfterimage := after.mask })
    return (0, { event with
      packedUsedColumnsAfterimage := updateN1bits after.mask
      data := after.ptr, len := sizeSub size (after.ptr - start)
      valid := true })
  else
    return (0, { event with
      data := used.ptr, len := sizeSub size (used.ptr - start)
      valid := true })

/-- How an event was read that `tune` accepts: its type, the end of its extra
data, the end of the number of its columns, its first and its last bitmap. -/
structure ReadFrom (event : CRowLogEvent) (data : Bytes) (size : Nat)
    (fmt : CFormatDescriptionLogEvent) (code : UInt8) (p behind : Nat)
    (used last : ColumnMask) : Prop where
  codeRead : readByte data eventTypeOffset = .ok code
  type : event.type = code.toNat
  extra : readExtraData (.ofCode code) data (fmt.commonHeaderLen + 6 + 2) =
    .ok (event.extraDataLen, event.extraData, p)
  count : netFieldLength data p = .ok (event.ncolumns, behind)
  usedRead : buildColumnMask data behind 0 event.ncolumns = .ok used
  usedGood : used.mask ≠ -1
  usedPacked : event.packedUsedColumns = updateN1bits used.mask
  lastRead : if (LogEventType.ofCode code).isUpdateRows then
      buildColumnMask data used.ptr 0 event.ncolumns = .ok last ∧
        last.mask ≠ -1 ∧
        event.packedUsedColumnsAfterimage = updateN1bits last.mask
    else last = used
  dataEq : event.data = last.ptr
  lenEq : event.len =
    sizeSub (sizeSub (sizeSub size fmt.commonHeaderLen) fmt.trailerLen)
      (last.ptr - fmt.commonHeaderLen)
  valid : event.valid = true

theorem tune_readFrom {self event : CRowLogEvent} {data : Bytes} {size : Nat}
    {fmt : CFormatDescriptionLogEvent}
    (run : self.tune data size fmt = .ok (0, event)) :
    ∃ code p behind used last,
      event.ReadFrom data size fmt code p behind used last := by
  unfold tune at run
  obtain ⟨header, _, run⟩ := Exec.bind_eq_ok.mp run
  obtain ⟨code, codeRead, run⟩ := Exec.bind_eq_ok.mp run
  obtain ⟨tableId, _, run⟩ := Exec.bind_eq_ok.mp run
  obtain ⟨rowFlags, _, run⟩ := Exec.bind_eq_ok.mp run
  obtain ⟨⟨extraDataLen, extraData, p⟩, extraRead, run⟩ :=
    Exec.bind_eq_ok.mp run
  obtain ⟨⟨ncolumns, behind⟩, countRead, run⟩ := Exec.bind_eq_ok.mp run
  obtain ⟨used, usedRead, run⟩ := Exec.bind_eq_ok.mp run
  dsimp only at run
  split at run
  · cases run
  · rename_i usedGood
    split at run
    · rename_i update
      obtain ⟨after, afterRead, run⟩ := Exec.bind_eq_ok.mp run
      split at run
      · cases run
      · rename_i afterGood
        cases run
        refine ⟨code, p, behind, used, after, codeRead, rfl, extraRead,
          countRead, usedRead, usedGood, rfl, ?_, rfl, rfl, rfl⟩
        rw [if_pos update]
        exact ⟨afterRead, afterGood, rfl⟩
    · rename_i other
      cases run
      refine ⟨code, p, behind, used, used, codeRead, rfl, extraRead,
        countRead, usedRead, usedGood, rfl, ?_, rfl, rfl, rfl⟩
      rw [if_neg other]

theorem tune_valid {self event : CRowLogEvent} {data : Bytes} {size : Nat}
    {fmt : CFormatDescriptionLogEvent}
    (run : self.tune data size fmt = .ok (0, event)) : event.valid = true := by
  obtain ⟨_, _, _, _, _, read⟩ := tune_readFrom run
  exact read.valid

/-- An accepted event has at least one column, since no mask is built for none. -/
theorem tune_ncolumns_pos {self event : CRowLogEvent} {data : Bytes}
    {size : Nat} {fmt : CFormatDescriptionLogEvent}
    (run : self.tune data size fmt = .ok (0, event)) : 0 < event.ncolumns := by
  obtain ⟨_, _, _, used, _, read⟩ := tune_readFrom run
  by_contra none
  have zero : event.ncolumns = 0 := by omega
  have built := read.usedRead
  rw [zero] at built
  cases built
  exact read.usedGood rfl

end CRowLogEvent

end MysqlSlave
