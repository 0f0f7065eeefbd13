import MysqlSlave.ErrorRecovery
import MysqlSlave.EventDispatch

/-!
# Resuming at a ROTATE event

A ROTATE event announces the file and the position that the next dump request
has to name.  The parser keeps 32 of the 64 bits of the position, and
`request_binlog_dump` writes the file name into a buffer of 1024 bytes without
looking at its length.
-/

namespace MysqlSlave

open Region

/-- A ROTATE event. -/
structure RotateEvent where
  header : EventHeader
  position : Nat
  name : Bytes
  positive : 0 < position
  positionFits : position < 18446744073709551616
  nameNonempty : name ≠ []

namespace RotateEvent

def body (event : RotateEvent) : Bytes := bytesLE 8 event.position ++ event.name

def encode (event : RotateEvent) (checksum : Bytes) : Bytes :=
  encodeEvent event.header 4 event.body checksum

/-- The request can name the position: its 32 bits are zero, which is reported,
or they are all of it and the name fits in the buffer. -/
def Requestable (event : RotateEvent) : Prop :=
  event.position % 4294967296 = 0 ∨
    event.position < 4294967296 ∧ event.name.length ≤ 1014

end RotateEvent

/-- The file name and the position in the payload of a COM_BINLOG_DUMP
command. -/
def decodeDump (payload : Bytes) : Option (Bytes × Nat) :=
  if 10 ≤ payload.length then
    some (payload.drop 10, littleEndian (payload.take 4))
  else none

theorem decodeDump_command {pos : Nat} (slaveId : Nat) (name : Bytes)
    (small : pos < 4294967296) :
    decodeDump (bytesLE 4 pos ++ bytesLE 2 0 ++ bytesLE 4 slaveId ++ name) =
      some (name, pos) := by
  have low : littleEndian (bytesLE 4 pos) = pos :=
    littleEndian_bytesLE_of_lt small
  have front : (bytesLE 4 pos ++ bytesLE 2 0 ++
      bytesLE 4 slaveId).length = 10 := by simp
  have enough : 10 ≤ (bytesLE 4 pos ++ bytesLE 2 0 ++ bytesLE 4 slaveId ++
      name).length := by
    rw [List.length_append, front]
    exact Nat.le_add_right _ _
  rw [decodeDump, if_pos enough, List.drop_left' front, List.append_assoc,
    List.append_assoc, List.take_left' (bytesLE_length 4 pos), low]

namespace CLogParser

/-- The next request stays inside its buffer and names the file and the position,
or reports an error. -/
def Requests (self : CLogParser) (name : Bytes) (pos : Nat) : Prop :=
  match self.dumpCommand with
  | .error _ => False
  | .ok (.error _) => True
  | .ok (.ok payload) => decodeDump payload = some (name, pos)

variable {self : CLogParser} {event : RotateEvent}

theorem dumpCommand_position (named : self.binlogName ≠ [])
    (short : self.binlogName.length ≤ 1014) (positive : 0 < self.binlogPos)
    (below : self.binlogPos < 4294967296) :
    ∃ command, self.dumpCommand = .ok (.ok command) ∧
      decodeDump command = some self.position := by
  refine ⟨_, ?_, decodeDump_command self.slaveId self.binlogName below⟩
  unfold dumpCommand
  rw [if_neg (by simp [named, positive.ne']), if_neg (by omega)]

theorem requests_iff
    (name : self.binlogName = event.name)
    (pos : self.binlogPos = event.position % 4294967296) :
    self.Requests event.name event.position ↔ event.Requestable := by
  have nonempty := event.nameNonempty
  unfold Requests dumpCommand RotateEvent.Requestable
  rw [name, pos]
  by_cases zero : event.position % 4294967296 = 0
  · simp [zero]
  · by_cases long : event.name.length + 10 > 1024
    · have tooLong : ¬event.name.length ≤ 1014 := by omega
      simp [nonempty, zero, long, tooLong]
    · have fits : event.name.length ≤ 1014 := by omega
      have decoded := decodeDump_command self.slaveId event.name
        (Nat.mod_lt event.position (show 4294967296 > 0 by decide))
      simp only [nonempty, zero, long, or_self, if_false, decoded, fits,
        and_true, false_or, Option.some.injEq, Prod.mk.injEq, true_and]
      constructor
      · intro same
        omega
      · intro small
        exact Nat.mod_eq_of_lt small

section Dispatch

variable {memory checksum : Bytes} {crc : Bytes → Nat} {handlerThrows : Bool}

theorem tune_rotate {fmt : CFormatDescriptionLogEvent} (tuned : fmt.Tuned)
    (stored : Stored memory 0 (event.encode checksum))
    (trailer : checksum.length = fmt.trailerLen)
    (small : (event.encode checksum).length < 18446744073709551616) :
    ∃ rotate, CRotateLogEvent.tune memory (event.encode checksum).length fmt =
        .ok (0, rotate) ∧
      rotate.position = event.position ∧ rotate.len = event.name.length ∧
      readBytes memory rotate.newLog rotate.len = .ok event.name := by
  obtain ⟨header, headerRead, _⟩ := CLogEvent.tune_stored fmt stored
  have body := stored.left.right
  rw [EventHeader.encode_length] at body
  have position := readLE_bytesLE event.positionFits body.left
  have name := readBytes_of_stored body.right
  rw [bytesLE_length] at name
  have size : (event.encode checksum).length =
      19 + (8 + event.name.length) + checksum.length := by
    simp [RotateEvent.encode, RotateEvent.body]
  have behindHeader : sizeSub (event.encode checksum).length 19 =
      8 + event.name.length + checksum.length :=
    sizeSub_of_add (by omega) small
  have behindTrailer : sizeSub (8 + event.name.length + checksum.length)
      checksum.length = 8 + event.name.length :=
    sizeSub_of_add (by omega) (by omega)
  have behindPosition : sizeSub (8 + event.name.length) 8 =
      event.name.length :=
    sizeSub_of_add rfl (by omega)
  let rotate : CRotateLogEvent := { header with
    position := event.position, newLog := 19 + 8, len := event.name.length }
  refine ⟨rotate, ?_, rfl, rfl, name⟩
  unfold CRotateLogEvent.tune
  simp only [tuned.commonHeaderLen, behindHeader, ← trailer, behindTrailer,
    behindPosition]
  refine Exec.bind_eq_ok.mpr ⟨header, headerRead, ?_⟩
  exact Exec.bind_eq_ok.mpr ⟨event.position, position, rfl⟩

/-- A ROTATE event that is dispatched to its end sets the file and, cut to 32
bits, the position. -/
theorem dispatchEvent_rotate (tuned : self.fmt.Tuned)
    (stored : Stored memory 0 (event.encode checksum))
    (trailer : checksum.length = self.fmt.trailerLen)
    (small : (event.encode checksum).length < 18446744073709551616)
    (accepted : (self.dispatchEvent crc memory
      (event.encode checksum).length handlerThrows).exit = .done) :
    let after := (self.dispatchEvent crc memory
      (event.encode checksum).length handlerThrows).state
    after.binlogName = event.name ∧
      after.binlogPos = event.position % 4294967296 := by
  intro after
  have admitted : self.Admitted memory (event.encode checksum).length 4 :=
    admitted_encodeEvent stored (by decide)
  obtain ⟨rotate, run, position, length, name⟩ :=
    tune_rotate tuned stored trailer small
  have branch : self.dispatchSwitch (.ofCode 4) memory
      (event.encode checksum).length handlerThrows =
        self.dispatchRotate memory (event.encode checksum).length := rfl
  simp only [after]
  rw [dispatchEvent_of_admitted admitted, branch] at accepted ⊢
  rw [(checkOutcome_state _ _ _ _).1]
  by_cases long : rotate.len > 9223372036854775807
  · have thrown : self.dispatchRotate memory (event.encode checksum).length =
        { state := self, exit := .threw .lengthError } := by
      simp only [dispatchRotate, run, Outcome.ofExec, if_true, long]
    rw [thrown] at accepted
    cases accepted
  · have rotated : self.dispatchRotate memory (event.encode checksum).length =
        { state := { self with
            binlogName := event.name
            binlogPos := rotate.position % 4294967296 } } := by
      simp only [dispatchRotate, run, Outcome.ofExec, if_true, long, if_false,
        name]
    rw [rotated, position]
    exact ⟨rfl, rfl⟩

/-- The request after a ROTATE event carries what the event announced exactly if
it can name the position. -/
theorem resumes_iff (tuned : self.fmt.Tuned)
    (stored : Stored memory 0 (event.encode checksum))
    (trailer : checksum.length = self.fmt.trailerLen)
    (small : (event.encode checksum).length < 18446744073709551616)
    (accepted : (self.dispatchEvent crc memory
      (event.encode checksum).length handlerThrows).exit = .done) :
    (self.dispatchEvent crc memory (event.encode checksum).length
        handlerThrows).state.Requests event.name event.position ↔
      event.Requestable := by
  obtain ⟨name, pos⟩ :=
    dispatchEvent_rotate tuned stored trailer small accepted
  exact requests_iff name pos

end Dispatch

/-- A parser of a server without checksums. -/
def sampleParser : CLogParser := { fmt := .ofServer [53] false }

/-- The start of the file `b`. -/
def fileStart : RotateEvent where
  header := ⟨0, 1, 0, 0⟩
  position := 4
  name := [98]
  positive := Nat.succ_pos 3
  positionFits := Nat.le_of_ble_eq_true rfl
  nameNonempty := List.cons_ne_nil 98 []

/-- A position behind 4 GiB of the file `b`. -/
def farPosition : RotateEvent where
  header := ⟨0, 1, 0, 0⟩
  position := 4294967300
  name := [98]
  positive := Nat.succ_pos 4294967299
  positionFits := Nat.le_of_ble_eq_true rfl
  nameNonempty := List.cons_ne_nil 98 []

/-- The start of a file with a name of 1015 bytes. -/
def longName : RotateEvent where
  header := ⟨0, 1, 0, 0⟩
  position := 4
  name := 98 :: List.replicate 1014 98
  positive := Nat.succ_pos 3
  positionFits := Nat.le_of_ble_eq_true rfl
  nameNonempty := List.cons_ne_nil 98 _

theorem resumes_iff_fileStart :
    (sampleParser.dispatchEvent (fun _ => 0) (fileStart.encode [])
      (fileStart.encode []).length false).state.Requests [98] 4 := by
  have tuned := CFormatDescriptionLogEvent.ofServer_tuned [53] false
  have stored : Stored (fileStart.encode []) 0 (fileStart.encode []) :=
    ⟨[], [], by simp, rfl⟩
  have accepted : (sampleParser.dispatchEvent (fun _ => 0)
      (fileStart.encode []) (fileStart.encode []).length false).exit =
        .done := rfl
  exact (resumes_iff tuned stored rfl (by decide) accepted).mpr
    (.inr ⟨by decide, by decide⟩)

/-- Behind 4 GiB the request names another position of the file, and for the long
name it writes behind its buffer. -/
theorem not_resumes_far :
    ((sampleParser.dispatchEvent (fun _ => 0) (farPosition.encode [])
          (farPosition.encode []).length false).exit = .done ∧
        ¬(sampleParser.dispatchEvent (fun _ => 0) (farPosition.encode [])
          (farPosition.encode []).length false).state.Requests
            farPosition.name farPosition.position) ∧
      (sampleParser.dispatchEvent (fun _ => 0) (longName.encode [])
          (longName.encode []).length false).exit = .done ∧
        (sampleParser.dispatchEvent (fun _ => 0) (longName.encode [])
          (longName.encode []).length false).state.dumpCommand =
            .error .overflow := by
  have tuned := CFormatDescriptionLogEvent.ofServer_tuned [53] false
  have stored : ∀ event : RotateEvent,
      Stored (event.encode []) 0 (event.encode []) := by
    intro event
    exact ⟨[], [], by simp, rfl⟩
  constructor
  · have accepted : (sampleParser.dispatchEvent (fun _ => 0)
        (farPosition.encode []) (farPosition.encode []).length false).exit =
          .done := rfl
    obtain ⟨name, pos⟩ :=
      dispatchEvent_rotate tuned (stored farPosition) rfl (by decide) accepted
    refine ⟨accepted, ?_⟩
    rw [requests_iff name pos]
    unfold RotateEvent.Requestable
    decide
  · have accepted : (sampleParser.dispatchEvent (fun _ => 0)
        (longName.encode []) (longName.encode []).length false).exit =
          .done := by decide +kernel
    have small : (longName.encode []).length < 18446744073709551616 := by
      decide +kernel
    obtain ⟨name, pos⟩ :=
      dispatchEvent_rotate tuned (stored longName) rfl small accepted
    refine ⟨accepted, ?_⟩
    have long : longName.name.length + 10 > 1024 := by decide +kernel
    have present : ¬(longName.name = [] ∨
        longName.position % 4294967296 = 0) := by
      intro empty
      rcases empty with empty | zero
      · exact longName.nameNonempty empty
      · cases zero
    rw [dumpCommand, name, pos, if_neg present, if_pos long]

end CLogParser

end MysqlSlave
