import MysqlSlave.EventFormat

/-!
# QUERY events

How a server writes a QUERY event, and that `CQueryLogEvent::tune` reads it back.
The place of the query text follows from the lengths in front of it, and its
length from what they leave of the packet.
-/

namespace MysqlSlave

open Region

/-- A QUERY event. -/
structure QueryEvent where
  header : EventHeader
  threadId : Nat
  execTime : Nat
  errorCode : Nat
  dbName : Bytes
  statusVars : Bytes
  query : Bytes
  execTimeSmall : execTime < 4294967296
  errorCodeSmall : errorCode < 65536
  dbFits : dbName.length ≤ 255
  statusFits : statusVars.length ≤ maxSizeLogEventStatus
  queryFits : query.length < 4294967296

namespace QueryEvent

/-- The post-header. -/
def fixed (event : QueryEvent) : Bytes :=
  bytesLE 4 event.threadId ++ bytesLE 4 event.execTime ++
    [.ofNat event.dbName.length] ++ bytesLE 2 event.errorCode ++
    bytesLE 2 event.statusVars.length

def body (event : QueryEvent) : Bytes :=
  event.fixed ++ event.statusVars ++ (event.dbName ++ [0]) ++ event.query

def encode (event : QueryEvent) (checksum : Bytes) : Bytes :=
  encodeEvent event.header 2 event.body checksum

/-- Where the query text starts. -/
def queryOffset (event : QueryEvent) : Nat :=
  32 + event.statusVars.length + event.dbName.length + 1

@[simp] theorem fixed_length (event : QueryEvent) :
    event.fixed.length = 13 := by
  simp [fixed]

theorem encode_length (event : QueryEvent) (checksum : Bytes) :
    (event.encode checksum).length =
      event.queryOffset + event.query.length + checksum.length := by
  simp [encode, body, queryOffset]
  omega

/-- What a parser holds after it has read the event. -/
structure Recovered (event : QueryEvent) (result : CQueryLogEvent) : Prop where
  qExecTime : result.qExecTime = event.execTime
  errorCode : result.errorCode = event.errorCode
  statusVarsLen : result.statusVarsLen = event.statusVars.length
  dbLen : result.dbLen = event.dbName.length
  qLen : result.qLen = event.query.length
  query : result.query = event.query

/-- The pieces of a stored body, at the offsets the parser computes. -/
structure Placed (event : QueryEvent) (memory : Bytes) : Prop where
  execTime : Stored memory 23 (bytesLE 4 event.execTime)
  dbLength : Stored memory 27 [.ofNat event.dbName.length]
  errorCode : Stored memory 28 (bytesLE 2 event.errorCode)
  statusLength : Stored memory 30 (bytesLE 2 event.statusVars.length)
  query : Stored memory event.queryOffset event.query

variable {event : QueryEvent} {memory checksum : Bytes}
  {fmt : CFormatDescriptionLogEvent}

theorem placed_of_stored (stored : Stored memory 19 event.body) :
    event.Placed memory := by
  have query := stored.right
  have pieces := stored.left.left.left
  simp only [fixed] at pieces
  have statusLength := pieces.right
  have errorCode := pieces.left.right
  have dbLength := pieces.left.left.right
  have execTime := pieces.left.left.left.right
  refine ⟨execTime.relocate ?_, dbLength.relocate ?_, errorCode.relocate ?_,
    statusLength.relocate ?_, query.relocate ?_⟩
  all_goals
    simp [queryOffset]
  omega

/-- Parsing a QUERY event undoes encoding it. -/
theorem tune_undoes_encode (self : CQueryLogEvent) (tuned : fmt.Tuned)
    (stored : Stored memory 0 (event.encode checksum))
    (trailer : checksum.length = fmt.trailerLen) :
    ∃ result,
      self.tune memory (event.encode checksum).length fmt =
        .ok (0, result) ∧ event.Recovered result := by
  obtain ⟨header, headerRead, _⟩ := CLogEvent.tune_stored fmt stored
  have placed : event.Placed memory := by
    have body := stored.left.right
    rw [EventHeader.encode_length] at body
    exact placed_of_stored (body.relocate (Nat.zero_add 19))
  have execTime := readLE_bytesLE event.execTimeSmall placed.execTime
  have errorCode := readLE_bytesLE event.errorCodeSmall placed.errorCode
  obtain ⟨dbLen, dbLength, dbValue⟩ : ∃ byte,
      readByte memory 27 = .ok byte ∧ byte.toNat = event.dbName.length := by
    have dbFits := event.dbFits
    refine ⟨_, readByte_of_stored placed.dbLength, ?_⟩
    rw [UInt8.toNat_ofNat']
    omega
  have small : maxSizeLogEventStatus < 65536 := by decide
  have statusFits := event.statusFits
  have dbFits := event.dbFits
  have queryFits := event.queryFits
  have statusLength :=
    readLE_bytesLE (show event.statusVars.length < 256 ^ 2 by omega)
      placed.statusLength
  have query := readBytes_of_stored placed.query
  -- what is left of the packet behind each of its parts
  have trailerSmall : checksum.length ≤ 4 := by
    rw [trailer, CFormatDescriptionLogEvent.trailerLen]
    split <;> omega
  have size := event.encode_length checksum
  simp only [queryOffset] at size query
  have behindHeader : sizeSub (event.encode checksum).length (19 + 13) =
      event.statusVars.length + (event.dbName.length + 1) +
        event.query.length + checksum.length :=
    sizeSub_of_add (by omega) (by omega)
  have behindTrailer :
      sizeSub (event.statusVars.length + (event.dbName.length + 1) +
          event.query.length + checksum.length) checksum.length =
        event.statusVars.length + (event.dbName.length + 1) +
          event.query.length :=
    sizeSub_of_add (by omega) (by omega)
  have behindStatus :
      sizeSub (event.statusVars.length + (event.dbName.length + 1) +
          event.query.length) event.statusVars.length =
        event.dbName.length + 1 + event.query.length :=
    sizeSub_of_add (by omega) (by omega)
  have behindDb :
      sizeSub (event.dbName.length + 1 + event.query.length)
        (event.dbName.length + 1) = event.query.length :=
    sizeSub_of_add rfl (by omega)
  have accepted : ¬(event.statusVars.length >
      event.statusVars.length + (event.dbName.length + 1) +
        event.query.length ∨
      event.statusVars.length > maxSizeLogEventStatus) := by omega
  have long : 13 ≠ queryHeaderMinimalLen := by decide
  let result : CQueryLogEvent := {
    toCLogEvent := header, qExecTime := event.execTime
    qLen := event.query.length, dbLen := event.dbName.length
    errorCode := event.errorCode, statusVarsLen := event.statusVars.length
    query := event.query }
  refine ⟨result, ?_, rfl, rfl, rfl, rfl, rfl, rfl⟩
  unfold CQueryLogEvent.tune
  simp only [tuned.commonHeaderLen, tuned.queryHeaderLen, behindHeader,
    ← trailer, behindTrailer]
  refine Exec.bind_eq_ok.mpr ⟨header, headerRead, ?_⟩
  refine Exec.bind_eq_ok.mpr ⟨event.execTime, execTime, ?_⟩
  refine Exec.bind_eq_ok.mpr ⟨dbLen, dbLength, ?_⟩
  refine Exec.bind_eq_ok.mpr ⟨event.errorCode, errorCode, ?_⟩
  rw [if_pos long, dbValue]
  refine Exec.bind_eq_ok.mpr ⟨event.statusVars.length, statusLength, ?_⟩
  rw [if_neg accepted, behindStatus, behindDb, Nat.mod_eq_of_lt queryFits]
  exact Exec.bind_eq_ok.mpr ⟨event.query, query, rfl⟩

theorem sampleQuery_statusFits :
    [(0 : UInt8), 0, 0, 0, 0].length ≤ maxSizeLogEventStatus := by decide

/-- `BEGIN` in the database `d`. -/
def sampleQuery : QueryEvent where
  header := ⟨0, 1, 0, 0⟩
  threadId := 8
  execTime := 2
  errorCode := 0
  dbName := [100]
  statusVars := [0, 0, 0, 0, 0]
  query := [66, 69, 71, 73, 78]
  execTimeSmall := Nat.le_of_ble_eq_true rfl
  errorCodeSmall := Nat.le_of_ble_eq_true rfl
  dbFits := Nat.le_of_ble_eq_true rfl
  statusFits := sampleQuery_statusFits
  queryFits := Nat.le_of_ble_eq_true rfl

theorem tune_undoes_encode_sample :
    ∃ result,
      ({} : CQueryLogEvent).tune (sampleQuery.encode [1, 2, 3, 4])
          (sampleQuery.encode [1, 2, 3, 4]).length (.ofServer [53] true) =
        .ok (0, result) ∧ result.query = [66, 69, 71, 73, 78] := by
  have tuned := CFormatDescriptionLogEvent.ofServer_tuned [53] true
  have stored : Stored (sampleQuery.encode [1, 2, 3, 4]) 0
      (sampleQuery.encode [1, 2, 3, 4]) := ⟨[], [], by simp, rfl⟩
  obtain ⟨result, run, recovered⟩ :=
    tune_undoes_encode {} tuned stored rfl
  exact ⟨result, run, recovered.query⟩

end QueryEvent

end MysqlSlave
