import MysqlSlave.Lib.Bitmap
import MysqlSlave.ColumnMask
import MysqlSlave.LogEvent

/-!
# The event format of the binlog

How a server writes a TABLE_MAP and a ROWS event: the common header, a body, and
four checksum bytes where checksums are on.  The lemmas say what the `tune`
parsers read back from such an event.
-/

namespace MysqlSlave

open Region

theorem readLE_bytesLE {memory : Bytes} {address width value : Nat}
    (small : value < 256 ^ width)
    (stored : Stored memory address (bytesLE width value)) :
    readLE memory address width = .ok value := by
  have read := readLE_of_stored stored
  rwa [bytesLE_length, littleEndian_bytesLE_of_lt small] at read

/-- The fields of a common header that do not follow from the event. -/
structure EventHeader where
  when : Nat
  serverId : Nat
  logPos : Nat
  flags : Nat
  deriving DecidableEq, Repr

namespace EventHeader

/-- The header of an event of the given type and size. -/
def encode (header : EventHeader) (code : UInt8) (size : Nat) : Bytes :=
  bytesLE 4 header.when ++ [code] ++ bytesLE 4 header.serverId ++
    bytesLE 4 size ++ bytesLE 4 header.logPos ++ bytesLE 2 header.flags

@[simp] theorem encode_length (header : EventHeader) (code : UInt8)
    (size : Nat) : (header.encode code size).length = 19 := by
  simp [encode]

end EventHeader

/-- An event: header, body and checksum. -/
def encodeEvent (header : EventHeader) (code : UInt8)
    (body checksum : Bytes) : Bytes :=
  header.encode code (19 + body.length + checksum.length) ++ body ++ checksum

@[simp] theorem encodeEvent_length (header : EventHeader) (code : UInt8)
    (body checksum : Bytes) :
    (encodeEvent header code body checksum).length =
      19 + body.length + checksum.length := by
  simp [encodeEvent, Nat.add_assoc]

/-- A received event: it has the checksum the format asks for, and behind it is
at least the byte that the client library keeps behind every packet. -/
def Received (fmt : CFormatDescriptionLogEvent) (encode : Bytes → Bytes)
    (memory : Bytes) (len : Nat) : Prop :=
  ∃ checksum slack, checksum.length = fmt.trailerLen ∧ slack ≠ [] ∧
    memory = encode checksum ++ slack ∧ len = (encode checksum).length ∧
      len < 4294967296

section Header

variable {memory body checksum : Bytes} {header : EventHeader} {code : UInt8}

theorem readByte_code
    (stored : Stored memory 0 (encodeEvent header code body checksum)) :
    readByte memory eventTypeOffset = .ok code := by
  have pieces := stored.left.left
  simp only [EventHeader.encode] at pieces
  have code := pieces.left.left.left.left.right
  simpa [eventTypeOffset] using readByte_of_stored code

theorem CLogEvent.tune_stored (fmt : CFormatDescriptionLogEvent)
    (stored : Stored memory 0 (encodeEvent header code body checksum)) :
    ∃ event,
      CLogEvent.tune memory (encodeEvent header code body checksum).length
          fmt = .ok event ∧
        event.logPos = header.logPos % 4294967296 := by
  have least : 19 ≤ (encodeEvent header code body checksum).length := by
    rw [encodeEvent_length]
    omega
  have inside := stored.fits
  rw [Nat.zero_add] at inside
  obtain ⟨event, run⟩ := CLogEvent.tune_readable fmt least inside
  have logPos := CLogEvent.tune_logPos run
  have pieces := stored.left.left
  simp only [EventHeader.encode] at pieces
  have written := readLE_of_stored pieces.left.right
  rw [bytesLE_length, littleEndian_bytesLE] at written
  have address : 0 + (bytesLE 4 header.when ++ [code] ++
      bytesLE 4 header.serverId ++
      bytesLE 4 (19 + body.length + checksum.length)).length =
        logPosOffset := by
    simp [logPosOffset]
  rw [address, logPos] at written
  exact ⟨event, run, Except.ok.inj written⟩

end Header

/-- A length-encoded integer below 2^24. -/
def netLength (value : Nat) : Bytes :=
  if value < 251 then [.ofNat value]
  else if value < 65536 then 252 :: bytesLE 2 value
  else 253 :: bytesLE 3 value

/-- `__net_field_length` reads a length back and stops behind it. -/
theorem netFieldLength_netLength {memory : Bytes} {pos value : Nat}
    (small : value < 16777216) (stored : Stored memory pos (netLength value)) :
    netFieldLength memory pos =
      .ok (value, pos + (netLength value).length) := by
  unfold netLength at stored ⊢
  split
  case isTrue one =>
    rw [if_pos one] at stored
    have first : (UInt8.ofNat value).toNat = value := by
      simp
      omega
    simp [netFieldLength, readByte_of_stored stored, first, one]
  case isFalse many =>
    rw [if_neg many] at stored
    split
    case isTrue two =>
      rw [if_pos two] at stored
      have value := readLE_bytesLE (by omega) stored.tail
      simp [netFieldLength, readByte_of_stored stored, value]
    case isFalse more =>
      rw [if_neg more] at stored
      have value := readLE_bytesLE (by omega) stored.tail
      simp [netFieldLength, readByte_of_stored stored, value]

/-- A TABLE_MAP event. -/
structure TableMapEvent where
  header : EventHeader
  tableId : Nat
  flags : Nat
  dbName : Bytes
  tableName : Bytes
  types : Bytes
  metadata : Bytes
  nullBits : Bytes
  idSmall : tableId < 281474976710656
  dbNonempty : dbName ≠ []
  dbPlain : 0 ∉ dbName
  dbFits : dbName.length ≤ 254
  tableNonempty : tableName ≠ []
  tablePlain : 0 ∉ tableName
  tableFits : tableName.length ≤ 254
  typesNonempty : types ≠ []
  typesFit : types.length < 16777216
  metadataFits : metadata.length < 16777216

namespace TableMapEvent

/-- The body up to the column count. -/
def names (event : TableMapEvent) : Bytes :=
  bytesLE 6 event.tableId ++ bytesLE 2 event.flags ++
    [.ofNat event.dbName.length] ++ (event.dbName ++ [0]) ++
    [.ofNat event.tableName.length] ++ (event.tableName ++ [0])

def body (event : TableMapEvent) : Bytes :=
  event.names ++ netLength event.types.length ++ event.types ++
    netLength event.metadata.length ++ event.metadata ++ event.nullBits

def encode (event : TableMapEvent) (checksum : Bytes) : Bytes :=
  encodeEvent event.header 19 event.body checksum

/-- Where the type bytes start. -/
def typesOffset (event : TableMapEvent) : Nat :=
  19 + event.names.length + (netLength event.types.length).length

/-- Where the metadata starts. -/
def metadataOffset (event : TableMapEvent) : Nat :=
  event.typesOffset + event.types.length +
    (netLength event.metadata.length).length

theorem names_length (event : TableMapEvent) :
    event.names.length = event.dbName.length + event.tableName.length + 12 := by
  simp [names]
  omega

/-- What a parser holds after it has read the event. -/
structure Parsed (event : TableMapEvent) (content : Bytes)
    (result : CTableMapLogEvent) : Prop where
  tableId : result.tableId = event.tableId
  data : result.data = content
  dbName : result.dbName = event.dbName
  tableName : result.tableName = event.tableName
  columnCount : result.columnCount = event.types.length
  columnTypes : result.columnTypes = some event.typesOffset
  metadataLength : result.metadataLength = event.metadata.length
  metadata : result.metadata =
    if event.metadata.length ≠ 0 then some event.metadataOffset else none

theorem Parsed.isValid {event : TableMapEvent} {content : Bytes}
    {result : CTableMapLogEvent} (parsed : event.Parsed content result) :
    result.isValid = true := by
  have typesSome : event.types.length ≠ 0 := by
    simp [event.typesNonempty]
  simp only [CTableMapLogEvent.isValid, parsed.dbName, parsed.tableName,
    parsed.columnCount, parsed.columnTypes, parsed.metadataLength,
    parsed.metadata]
  by_cases none : event.metadata.length = 0 <;>
    simp [none, typesSome, event.dbNonempty, event.tableNonempty]

section Pieces

variable {event : TableMapEvent} {memory : Bytes}

/-- The pieces of a stored body, at the offsets the parser computes. -/
structure Placed (event : TableMapEvent) (memory : Bytes) : Prop where
  tableId : Stored memory 19 (bytesLE 6 event.tableId)
  dbLength : Stored memory 27 [.ofNat event.dbName.length]
  dbName : Stored memory 28 (event.dbName ++ [0])
  tableLength : Stored memory (29 + event.dbName.length)
    [.ofNat event.tableName.length]
  tableName : Stored memory (30 + event.dbName.length)
    (event.tableName ++ [0])
  typesLength : Stored memory
    (31 + event.dbName.length + event.tableName.length)
    (netLength event.types.length)
  types : Stored memory event.typesOffset event.types
  metadataLength : Stored memory (event.typesOffset + event.types.length)
    (netLength event.metadata.length)
  metadata : Stored memory event.metadataOffset event.metadata

theorem placed_of_stored (stored : Stored memory 19 event.body) :
    event.Placed memory := by
  have metadata := stored.left.right
  have metadataLength := stored.left.left.right
  have types := stored.left.left.left.right
  have typesLength := stored.left.left.left.left.right
  have names := stored.left.left.left.left.left
  simp only [TableMapEvent.names] at names
  have tableName := names.right
  have tableLength := names.left.right
  have dbName := names.left.left.right
  have dbLength := names.left.left.left.right
  have tableId := names.left.left.left.left.left
  refine ⟨tableId, dbLength.relocate ?_, dbName.relocate ?_,
    tableLength.relocate ?_, tableName.relocate ?_, typesLength.relocate ?_,
    types.relocate ?_, metadataLength.relocate ?_, metadata.relocate ?_⟩ <;>
    simp [names_length, typesOffset, metadataOffset] <;> omega

end Pieces

section Tune

variable {event : TableMapEvent} {memory checksum : Bytes}
  {fmt : CFormatDescriptionLogEvent}

/-- The part of the event the parser keeps a copy of. -/
def content (event : TableMapEvent) (checksum : Bytes) : Bytes :=
  event.header.encode 19 (19 + event.body.length + checksum.length) ++
    event.body

theorem encode_eq (event : TableMapEvent) (checksum : Bytes) :
    event.encode checksum = event.content checksum ++ checksum := rfl

@[simp] theorem content_length (event : TableMapEvent) (checksum : Bytes) :
    (event.content checksum).length = 19 + event.body.length := by
  simp [content]

theorem content_placed (event : TableMapEvent) (checksum : Bytes) :
    event.Placed (event.content checksum) := by
  have header := event.header.encode_length 19
    (19 + event.body.length + checksum.length)
  have stored := Stored.intro
    (event.header.encode 19 (19 + event.body.length + checksum.length))
    event.body []
  rw [header, List.append_nil] at stored
  exact placed_of_stored stored

theorem getTableId_placed (tuned : fmt.Tuned) (placed : event.Placed memory) :
    CTableMapLogEvent.getTableId memory fmt = .ok event.tableId := by
  have notSix : ¬(8 = 6) := by decide
  simp only [CTableMapLogEvent.getTableId, tuned.tableMapHeaderLen, notSix,
    if_false, tuned.commonHeaderLen]
  exact readLE_bytesLE event.idSmall placed.tableId

theorem nameLength_placed {address : Nat} {name : Bytes}
    (fits : name.length ≤ 254)
    (stored : Stored memory address [.ofNat name.length]) :
    ∃ byte, readByte memory address = .ok byte ∧ byte.toNat = name.length := by
  refine ⟨_, readByte_of_stored stored, ?_⟩
  simp
  omega

theorem copyName_placed {address : Nat} {name : Bytes} (plain : 0 ∉ name)
    (fits : name.length ≤ 254)
    (stored : Stored memory address (name ++ [0])) :
    CTableMapLogEvent.copyName memory address = .ok name := by
  have short : name.length < 255 := by omega
  simp [CTableMapLogEvent.copyName, readCString_of_stored plain stored, short]

theorem getDatabaseName_placed (tuned : fmt.Tuned)
    (placed : event.Placed memory) :
    CTableMapLogEvent.getDatabaseName memory fmt = .ok event.dbName := by
  simp only [CTableMapLogEvent.getDatabaseName, tuned.commonHeaderLen,
    tuned.tableMapHeaderLen]
  exact readCString_of_stored event.dbPlain placed.dbName

theorem getTableName_placed (tuned : fmt.Tuned)
    (placed : event.Placed memory) :
    CTableMapLogEvent.getTableName memory fmt = .ok event.tableName := by
  obtain ⟨byte, read, value⟩ :=
    nameLength_placed event.dbFits placed.dbLength
  have behind : 27 + event.dbName.length + 3 =
      30 + event.dbName.length := by omega
  simp only [CTableMapLogEvent.getTableName, tuned.commonHeaderLen,
    tuned.tableMapHeaderLen, Nat.reduceAdd, read, Exec.ok_bind, value, behind]
  exact readCString_of_stored event.tablePlain placed.tableName

theorem tune_encode (tuned : fmt.Tuned)
    (stored : Stored memory 0 (event.encode checksum))
    (trailer : checksum.length = fmt.trailerLen)
    (small : (event.encode checksum).length < 18446744073709551616) :
    ∃ result,
      CTableMapLogEvent.tune memory (event.encode checksum).length fmt =
        .ok (0, result) ∧ event.Parsed (event.content checksum) result := by
  obtain ⟨header, headerRead⟩ : ∃ header,
      CLogEvent.tune memory (event.encode checksum).length fmt =
        .ok header := by
    obtain ⟨header, read, _⟩ := CLogEvent.tune_stored fmt stored
    exact ⟨header, read⟩
  have sized : sizeSub (event.encode checksum).length fmt.trailerLen =
      (event.content checksum).length := by
    simp only [encode_eq, List.length_append] at small ⊢
    rw [← trailer, sizeSub_eq (by omega) (by omega)]
    omega
  have whole : Stored memory 0 (event.content checksum ++ checksum) := stored
  have copied := readBytes_of_stored whole.left
  have placed := event.content_placed checksum
  obtain ⟨dbLength, dbLengthRead, dbLengthValue⟩ :=
    nameLength_placed event.dbFits placed.dbLength
  obtain ⟨tableLength, tableLengthRead, tableLengthValue⟩ :=
    nameLength_placed event.tableFits placed.tableLength
  have dbName := copyName_placed event.dbPlain event.dbFits placed.dbName
  have tableName :=
    copyName_placed event.tablePlain event.tableFits placed.tableName
  have count := netFieldLength_netLength event.typesFit placed.typesLength
  have metadataCount :=
    netFieldLength_netLength event.metadataFits placed.metadataLength
  have afterDb : 28 + event.dbName.length + 1 =
      29 + event.dbName.length := by omega
  have afterDbName : 29 + event.dbName.length + 1 =
      30 + event.dbName.length := by omega
  have afterTable : 30 + event.dbName.length + event.tableName.length + 1 =
      31 + event.dbName.length + event.tableName.length := by omega
  have typesAt : 31 + event.dbName.length + event.tableName.length +
      (netLength event.types.length).length = event.typesOffset := by
    simp only [typesOffset, names_length]
    omega
  have metadataAt : event.typesOffset + event.types.length +
      (netLength event.metadata.length).length = event.metadataOffset := rfl
  simp only [CTableMapLogEvent.tune, headerRead, sized, copied,
    getTableId_placed tuned placed, tuned.commonHeaderLen,
    tuned.tableMapHeaderLen, Exec.ok_bind, Exec.pure_eq_ok]
  simp only [Nat.reduceAdd, dbLengthRead, Exec.ok_bind, dbName, dbLengthValue,
    afterDb, tableLengthRead, afterDbName, tableName, tableLengthValue,
    afterTable, count, typesAt, metadataCount, metadataAt]
  exact ⟨_, rfl, ⟨rfl, rfl, rfl, rfl, rfl, rfl, rfl, rfl⟩⟩

/-- The parser has recovered the event, and the static accessors find the same
table in the packet. -/
structure Recovered (event : TableMapEvent) (memory : Bytes)
    (fmt : CFormatDescriptionLogEvent) (result : CTableMapLogEvent) :
    Prop where
  tableId : result.tableId = event.tableId
  dbName : result.dbName = event.dbName
  tableName : result.tableName = event.tableName
  columnCount : result.columnCount = event.types.length
  types : ∃ start, result.columnTypes = some start ∧
    (result.data.drop start).take result.columnCount = event.types
  metadataLength : result.metadataLength = event.metadata.length
  metadata : event.metadata = [] ∧ result.metadata = none ∨
    ∃ start, result.metadata = some start ∧
      (result.data.drop start).take result.metadataLength = event.metadata
  valid : result.isValid = true
  packetId : CTableMapLogEvent.getTableId memory fmt = .ok event.tableId
  packetDatabase :
    CTableMapLogEvent.getDatabaseName memory fmt = .ok event.dbName
  packetTable : CTableMapLogEvent.getTableName memory fmt = .ok event.tableName

/-- Parsing a TABLE_MAP event undoes encoding it. -/
theorem tune_recovers (tuned : fmt.Tuned)
    (stored : Stored memory 0 (event.encode checksum))
    (trailer : checksum.length = fmt.trailerLen)
    (small : (event.encode checksum).length < 18446744073709551616) :
    ∃ result,
      CTableMapLogEvent.tune memory (event.encode checksum).length fmt =
        .ok (0, result) ∧ event.Recovered memory fmt result := by
  obtain ⟨result, run, parsed⟩ := tune_encode tuned stored trailer small
  have content := event.content_placed checksum
  have packet : event.Placed memory := by
    have body := stored.left.right
    rw [EventHeader.encode_length] at body
    exact placed_of_stored (body.relocate (Nat.zero_add 19))
  refine ⟨result, run, ?_⟩
  constructor
  · exact parsed.tableId
  · exact parsed.dbName
  · exact parsed.tableName
  · exact parsed.columnCount
  · refine ⟨_, parsed.columnTypes, ?_⟩
    rw [parsed.data, parsed.columnCount]
    exact content.types.drop_take
  · exact parsed.metadataLength
  · have place := parsed.metadata
    by_cases none : event.metadata = []
    · left
      rw [none] at place
      exact ⟨none, place⟩
    · right
      have some : event.metadata.length ≠ 0 := by simpa using none
      rw [if_pos some] at place
      refine ⟨_, place, ?_⟩
      rw [parsed.data, parsed.metadataLength]
      exact content.metadata.drop_take
  · exact parsed.isValid
  · exact getTableId_placed tuned packet
  · exact getDatabaseName_placed tuned packet
  · exact getTableName_placed tuned packet

end Tune

end TableMapEvent

/-- The names in the sample events. -/
inductive SampleName
  | d
  | t
  | T
  | x
  deriving DecidableEq, Repr

namespace SampleName

def bytes : SampleName → Bytes
  | d => [100]
  | t => [116]
  | T => [84]
  | x => [120]

theorem bytes_nonempty (name : SampleName) : name.bytes ≠ [] := by
  cases name <;> decide

theorem bytes_plain (name : SampleName) : 0 ∉ name.bytes := by
  cases name <;> decide

theorem bytes_fits (name : SampleName) : name.bytes.length ≤ 254 := by
  cases name <;> decide

end SampleName

theorem sampleId_small (tableId : UInt16) :
    tableId.toNat < 281474976710656 :=
  tableId.toNat_lt.trans (by decide)

theorem singleton_small (byte : UInt8) : [byte].length < 16777216 := by simp

theorem empty_small : ([] : Bytes).length < 16777216 := by simp

/-- The TABLE_MAP event of a table with one column that has no metadata. -/
def sampleMap (db name : SampleName) (type : UInt8) (tableId : UInt16) :
    TableMapEvent where
  header := ⟨0, 1, 0, 0⟩
  tableId := tableId.toNat
  flags := 1
  dbName := db.bytes
  tableName := name.bytes
  types := [type]
  metadata := []
  nullBits := [1]
  idSmall := sampleId_small tableId
  dbNonempty := db.bytes_nonempty
  dbPlain := db.bytes_plain
  dbFits := db.bytes_fits
  tableNonempty := name.bytes_nonempty
  tablePlain := name.bytes_plain
  tableFits := name.bytes_fits
  typesNonempty := List.cons_ne_nil type []
  typesFit := singleton_small type
  metadataFits := empty_small

/-- The TABLE_MAP event of the table `orders` of `shop` with an INT, a
VARCHAR(300) and a DECIMAL(10,2). -/
def ordersMap : TableMapEvent where
  header := ⟨0, 1, 0, 0⟩
  tableId := 300
  flags := 1
  dbName := "shop".toUTF8.toList
  tableName := "orders".toUTF8.toList
  types := [3, 15, 246]
  metadata := [44, 1, 10, 2]
  nullBits := [7]
  idSmall := by decide
  dbNonempty := by decide +kernel
  dbPlain := by decide +kernel
  dbFits := by decide +kernel
  tableNonempty := by decide +kernel
  tablePlain := by decide +kernel
  tableFits := by decide +kernel
  typesNonempty := by decide
  typesFit := by decide
  metadataFits := by decide

theorem TableMapEvent.tune_recovers_sample :
    ∃ result types metadata,
      CTableMapLogEvent.tune (ordersMap.encode [1, 2, 3, 4])
          (ordersMap.encode [1, 2, 3, 4]).length (.ofServer [53] true) =
        .ok (0, result) ∧
        result.dbName = "shop".toUTF8.toList ∧
        result.tableName = "orders".toUTF8.toList ∧
        result.columnTypes = some types ∧
        (result.data.drop types).take result.columnCount = [3, 15, 246] ∧
        result.metadata = some metadata ∧
        (result.data.drop metadata).take result.metadataLength =
          [44, 1, 10, 2] := by
  have tuned := CFormatDescriptionLogEvent.ofServer_tuned [53] true
  have stored : Stored (ordersMap.encode [1, 2, 3, 4]) 0
      (ordersMap.encode [1, 2, 3, 4]) := ⟨[], [], by simp, rfl⟩
  obtain ⟨result, run, recovered⟩ :=
    tune_recovers tuned stored rfl (by decide +kernel)
  obtain ⟨types, typesAt, typesThere⟩ := recovered.types
  rcases recovered.metadata with ⟨none, _⟩ | ⟨metadata, metadataAt, there⟩
  · cases none
  · exact ⟨result, types, metadata, run, recovered.dbName,
      recovered.tableName, typesAt, typesThere, metadataAt, there⟩

end MysqlSlave
