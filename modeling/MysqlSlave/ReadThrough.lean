import MysqlSlave.ChangeStream
import MysqlSlave.QueryFormat
import MysqlSlave.ResumeRequest

/-!
# Logs that are read through

On a log of well-formed events no packet makes `dispatch_events` throw, none
leads to undefined behaviour, and the loop can go on behind each of them.
-/

namespace MysqlSlave

open Region

namespace CLogParser

/-- The checksum of the event is right, if one is looked for. -/
def Sealed (crc : Bytes → Nat) (fmt : CFormatDescriptionLogEvent)
    (memory : Bytes) (len : Nat) : Prop :=
  fmt.useChecksum = true → ∃ flags,
    readLE memory flagsOffset 2 = .ok flags ∧
      (flags &&& logEventArtificialF ≠ 0 ∨
        4 ≤ len ∧ ∃ covered, readBytes memory 0 (len - 4) = .ok covered ∧
          readLE memory (len - 4) 4 = .ok (crc covered))

/-- The packet brings a well-formed event that says this. -/
inductive Sends (fmt : CFormatDescriptionLogEvent) (memory : Bytes)
    (len : Nat) : MasterEvent → Prop where
  | tableMap (map : TableMapEvent) :
      Received fmt map.encode memory len → Sends fmt memory len (.tableMap map)
  | rows (change : TableChanges) :
      Received fmt change.event.encode memory len →
      Sends fmt memory len (.rows change)
  | foreignRows (event : RowsEvent) :
      Received fmt event.encode memory len →
      Sends fmt memory len (.foreignRows event.tableId)
  | rotate (event : RotateEvent) :
      Received fmt event.encode memory len → Sends fmt memory len .other
  | query (event : QueryEvent) :
      Received fmt event.encode memory len → Sends fmt memory len .other
  | plain (header : EventHeader) (code : UInt8) (body : Bytes) :
      code.toNat ≤ logEventTypes →
      LogEventType.ofCode code ∉
        [.rotateEvent, .queryEvent, .tableMapEvent] →
      (LogEventType.ofCode code).isRows = false →
      Received fmt (encodeEvent header code body) memory len →
      Sends fmt memory len .other

variable {crc : Bytes → Nat} {self : CLogParser} {memory : Bytes} {len : Nat}
  {watched : Bytes → Bytes → Option Address} {log front : List MasterEvent}
  {event : MasterEvent}

theorem checksumTest_of_sealed (right : Sealed crc self.fmt memory len) :
    self.checksumTest crc memory len = .ok .done := by
  unfold checksumTest
  cases checks : self.fmt.useChecksum with
  | false => rfl
  | true =>
      obtain ⟨flags, read, ok⟩ := right checks
      simp only [if_true, read, Exec.ok_bind]
      rcases ok with artificial | ⟨room, covered, part, same⟩
      · rw [if_neg artificial]
        rfl
      · split
        · rw [if_neg (not_lt.mpr room)]
          simp [part, same]
        · rfl

theorem dispatchEvent_passes {code : UInt8}
    (admitted : self.Admitted memory len code)
    (right : Sealed crc self.fmt memory len)
    (done : (self.dispatchSwitch (.ofCode code) memory len false).exit =
      .done) :
    (self.dispatchEvent crc memory len false).exit = .done := by
  have setup := self.dispatchSwitch_sameSetup (.ofCode code) memory len false
  rw [dispatchEvent_of_admitted admitted]
  unfold checkOutcome
  rw [← setup.fmt] at right
  simp only [done, checksumTest_of_sealed right]

theorem admitted_event {header : EventHeader} {code : UInt8} {body : Bytes}
    (supported : code.toNat ≤ logEventTypes)
    (received : Received self.fmt (encodeEvent header code body) memory len) :
    self.Admitted memory len code := by
  obtain ⟨checksum, slack, _, _, rfl, rfl, _⟩ := received
  have stored := Stored.intro [] (encodeEvent header code body checksum) slack
  exact admitted_encodeEvent stored supported

theorem Sends.reads (tuned : self.fmt.Tuned)
    (sends : Sends self.fmt memory len event) :
    self.ReadsEvent memory len event := by
  -- an event of another type is admitted under its own code only
  have other : ∀ {header : EventHeader} {code : UInt8} {body : Bytes},
      code.toNat ≤ logEventTypes →
      LogEventType.ofCode code ≠ .tableMapEvent →
      (LogEventType.ofCode code).isRows = false →
      Received self.fmt (encodeEvent header code body) memory len →
      self.ReadsEvent memory len .other := by
    intro header code body supported notMap notRows received
    refine .other fun code' admitted => ?_
    rw [admitted.unique (admitted_event supported received)]
    exact ⟨notMap, notRows⟩
  cases sends with
  | tableMap map received => exact .tableMap map received
  | rows change received => exact .rows change received
  | foreignRows event received =>
      obtain ⟨rlev, ⟨⟨code, admitted, type⟩, rows, run⟩, parsed⟩ :=
        readsRows_of_received tuned received
      have read := CRowLogEvent.tune_tableId run
      rw [tuned.commonHeaderLen, parsed.tableId] at read
      exact .foreignRows admitted (type ▸ rows) read
  | rotate event received => exact other (by decide) (by decide) rfl received
  | query event received => exact other (by decide) (by decide) rfl received
  | plain header code body supported special notRows received =>
      refine other supported (fun map => special ?_) notRows received
      simp [map]

section Branches

theorem dispatchTableMap_done {map : TableMapEvent} (tuned : self.fmt.Tuned)
    (received : Received self.fmt map.encode memory len) :
    (self.dispatchTableMap memory len).exit = .done := by
  have placed := placed_of_received received
  have names := TableMapEvent.getDatabaseName_placed tuned placed
  have tables := TableMapEvent.getTableName_placed tuned placed
  have ids := TableMapEvent.getTableId_placed tuned placed
  have tunes : ∀ (table : CTable) (tbl : Address), ∃ after,
      table.tune tbl memory len self.fmt = .ok (.code 0, after) := by
    intro table tbl
    cases keeps : table.tuned with
    | true => exact ⟨table, by simp [CTable.tune, keeps]⟩
    | false =>
        obtain ⟨checksum, slack, trailer, _, rfl, rfl, small⟩ := received
        have stored := Stored.intro [] (map.encode checksum) slack
        obtain ⟨after, run, _⟩ :=
          CTable.tune_encode tbl keeps tuned stored trailer small
        exact ⟨after, run⟩
  have mapped := self.dispatchTableMap_mapped memory len
  generalize self.dispatchTableMap memory len = outcome at mapped
  cases mapped with
  | faulted fault unread => exact absurd ids (unread _ _ _ names tables)
  | unwatched _ _ => rfl
  | bound exit _ _ _ _ run ended =>
      obtain ⟨after, runs⟩ := tunes _ _
      cases runs.symm.trans run
      rcases ended with ⟨done, _⟩ | ⟨_, _, wrong⟩
      · exact done
      · exact absurd rfl wrong
  | broke fault _ _ _ _ run =>
      obtain ⟨after, runs⟩ := tunes _ _
      cases runs.symm.trans run

theorem dispatchRows_done {event : RowsEvent} (tuned : self.fmt.Tuned)
    (received : Received self.fmt event.encode memory len)
    (unbound : self.idToTable event.tableId = none) :
    ∃ code, self.Admitted memory len code ∧
      (self.dispatchSwitch (.ofCode code) memory len false).exit = .done := by
  obtain ⟨rlev, ⟨⟨code, admitted, type⟩, rows, run⟩, parsed⟩ :=
    readsRows_of_received tuned received
  refine ⟨code, admitted, ?_⟩
  rw [type, self.dispatchSwitch_rows rows]
  simp only [dispatchRows, run, Outcome.ofExec, if_true, parsed.tableId,
    unbound]

theorem dispatchRotate_done {event : RotateEvent} (tuned : self.fmt.Tuned)
    (received : Received self.fmt event.encode memory len) :
    (self.dispatchRotate memory len).exit = .done := by
  obtain ⟨checksum, slack, trailer, _, rfl, rfl, small⟩ := received
  have stored := Stored.intro [] (event.encode checksum) slack
  obtain ⟨rotate, run, _, length, name⟩ := tune_rotate tuned stored trailer
    (small.trans (by decide))
  have short : ¬rotate.len > 9223372036854775807 := by
    have whole : event.name.length ≤ (event.encode checksum).length := by
      simp only [RotateEvent.encode, RotateEvent.body, encodeEvent_length,
        List.length_append]
      omega
    omega
  have run' : CRotateLogEvent.tune (event.encode checksum ++ slack)
      (event.encode checksum).length self.fmt = .ok (0, rotate) := run
  have name' : readBytes (event.encode checksum ++ slack) rotate.newLog
      rotate.len = .ok event.name := name
  simp only [dispatchRotate, run', Outcome.ofExec, if_true, short, if_false,
    name']

/-- What is left of a QUERY event behind the parts in front of its text. -/
theorem sizeSub_query {total trailer status db query : Nat}
    (whole : total = 32 + status + db + 1 + query + trailer)
    (small : total < 18446744073709551616) :
    sizeSub (sizeSub (sizeSub (sizeSub total 32) trailer) status)
      (db + 1) = query := by
  have first : sizeSub total 32 = total - 32 :=
    sizeSub_eq (by omega) small
  have second : sizeSub (total - 32) trailer = total - 32 - trailer :=
    sizeSub_eq (by omega) (by omega)
  have third : sizeSub (total - 32 - trailer) status =
      total - 32 - trailer - status := sizeSub_eq (by omega) (by omega)
  rw [first, second, third, sizeSub_eq (by omega) (by omega)]
  omega

theorem dispatchQuery_done {event : QueryEvent} (tuned : self.fmt.Tuned)
    (received : Received self.fmt event.encode memory len) :
    (self.dispatchQuery memory len).exit = .done := by
  obtain ⟨checksum, slack, trailer, _, rfl, rfl, small⟩ := received
  have stored : Stored (event.encode checksum ++ slack) 0
      (event.encode checksum) := Stored.intro [] (event.encode checksum) slack
  have size := event.encode_length checksum
  rw [QueryEvent.queryOffset, trailer] at size
  have behind := sizeSub_query size (small.trans (by decide))
  generalize event.encode checksum ++ slack = memory at stored ⊢
  obtain ⟨header, headerRead, _⟩ := CLogEvent.tune_stored self.fmt stored
  change CLogEvent.tune memory (event.encode checksum).length _ = _
    at headerRead
  have placed : event.Placed memory := by
    have body := stored.left.right
    rw [EventHeader.encode_length] at body
    exact QueryEvent.placed_of_stored (body.relocate (Nat.zero_add 19))
  have execTime := readLE_bytesLE event.execTimeSmall placed.execTime
  have dbLength := readByte_of_stored placed.dbLength
  have dbFits := event.dbFits
  have dbValue : (UInt8.ofNat event.dbName.length).toNat =
      event.dbName.length := by
    rw [UInt8.toNat_ofNat']
    omega
  have errorCode := readLE_bytesLE event.errorCodeSmall placed.errorCode
  have statusSmall : event.statusVars.length < 256 ^ 2 :=
    event.statusFits.trans_lt (by decide)
  have statusLength := readLE_bytesLE statusSmall placed.statusLength
  have query := readBytes_of_stored placed.query
  rw [QueryEvent.queryOffset] at query
  have long : (13 : Nat) ≠ queryHeaderMinimalLen := by decide
  have parses : ∃ result, CQueryLogEvent.tune {} memory
      (event.encode checksum).length self.fmt = .ok result := by
    unfold CQueryLogEvent.tune
    rw [tuned.commonHeaderLen, tuned.queryHeaderLen]
    refine Exec.bind_returns headerRead ?_
    refine Exec.bind_returns execTime ?_
    refine Exec.bind_returns dbLength ?_
    refine Exec.bind_returns errorCode ?_
    rw [if_pos long]
    refine Exec.bind_returns statusLength ?_
    split
    · exact ⟨_, rfl⟩
    · dsimp only
      rw [dbValue, behind, Nat.mod_eq_of_lt event.queryFits]
      exact Exec.bind_returns query ⟨_, rfl⟩
  obtain ⟨⟨rc, result⟩, run⟩ := parses
  simp only [dispatchQuery, run, Outcome.ofExec]
  split
  · rfl
  · rfl

theorem dispatchUnhandled_done {header : EventHeader} {code : UInt8}
    {body : Bytes}
    (received : Received self.fmt (encodeEvent header code body) memory len) :
    (self.dispatchUnhandled memory len).exit = .done := by
  obtain ⟨checksum, slack, _, _, rfl, rfl, _⟩ := received
  have stored := Stored.intro [] (encodeEvent header code body checksum) slack
  obtain ⟨event, read, _⟩ := CLogEvent.tune_stored self.fmt stored
  have type := readByte_code stored
  simp only [List.nil_append] at read type
  simp only [dispatchUnhandled, CUnhandledLogEvent.tune, read, type,
    Exec.ok_bind, Outcome.ofExec]
  rfl

/-- The branch of an event of another type: it has none, or it is the default
one. -/
theorem dispatchPlain_done {header : EventHeader} {code : UInt8} {body : Bytes}
    (special : LogEventType.ofCode code ∉
      [.rotateEvent, .queryEvent, .tableMapEvent])
    (notRows : (LogEventType.ofCode code).isRows = false)
    (received : Received self.fmt (encodeEvent header code body) memory len) :
    (self.dispatchSwitch (.ofCode code) memory len false).exit = .done := by
  have unhandled := dispatchUnhandled_done received
  generalize LogEventType.ofCode code = type at special notRows
  cases type with
  | rotateEvent => simp at special
  | queryEvent => simp at special
  | tableMapEvent => simp at special
  | formatDescriptionEvent => rfl
  | writeRowsEvent => cases notRows
  | writeRowsV2Event => cases notRows
  | updateRowsEvent => cases notRows
  | updateRowsV2Event => cases notRows
  | deleteRowsEvent => cases notRows
  | deleteRowsV2Event => cases notRows
  | _ => exact unhandled

end Branches

/-- No event of a coherent log is turned away, and its branch comes to its
end. -/
theorem Sends.done (coherent : Coherent watched log)
    (part : front ++ [event] <+: log) (hasRead : self.HasRead watched front)
    (sends : Sends self.fmt memory len event) :
    ∃ code, self.Admitted memory len code ∧
      (self.dispatchSwitch (.ofCode code) memory len false).exit = .done := by
  have tuned := hasRead.fmt
  cases sends with
  | tableMap map received =>
      exact ⟨_, admitted_event (by decide) received,
        dispatchTableMap_done tuned received⟩
  | rows change received =>
      cases target : change.map.target watched with
      | none =>
          have unbound := hasRead.unbound_change coherent part target
          rw [← change.sameId] at unbound
          exact dispatchRows_done tuned received unbound
      | some tbl =>
          obtain ⟨_, _, _, mapped, known⟩ :=
            hasRead.bound_change coherent part target
          obtain ⟨code, table, admitted, reaches, _⟩ :=
            dispatchSwitch_change false tuned received mapped known
          refine ⟨code, admitted, ?_⟩
          rw [reaches]
          rfl
  | foreignRows rows received =>
      have unbound := hasRead.unbound ((List.prefix_append _ _).trans part)
        (coherent.foreign rows.tableId
          (part.subset (List.mem_append_right _ List.mem_cons_self)))
      exact dispatchRows_done tuned received unbound
  | rotate rotate received =>
      exact ⟨_, admitted_event (by decide) received,
        dispatchRotate_done tuned received⟩
  | query query received =>
      exact ⟨_, admitted_event (by decide) received,
        dispatchQuery_done tuned received⟩
  | plain header code body supported special notRows received =>
      exact ⟨_, admitted_event supported received,
        dispatchPlain_done special notRows received⟩

end CLogParser

namespace Loop

variable {crc : Bytes → Nat} {start : Loop} {log : List MasterEvent}
  {packets : List Packet}

/-- The packet brings a well-formed event that says this, with a checksum that is
right if it is looked for. -/
def Brings (crc : Bytes → Nat) (fmt : CFormatDescriptionLogEvent)
    (packet : Packet) (event : MasterEvent) : Prop :=
  CLogParser.Sends fmt packet.event packet.eventLen event ∧
    CLogParser.Sealed crc fmt packet.event packet.eventLen

/-- The step came to its end, and its calls say what the event means. -/
def Passed (watched : Bytes → Bytes → Option Address)
    (next : Taken Loop Input Effect) (event : MasterEvent) : Prop :=
  next.effect.exit = .done ∧ observed next = .ok (event.meaning watched)

/-- The loop has read this log, and can read on. -/
structure ReadsOn (watched : Bytes → Bytes → Option Address)
    (fmt : CFormatDescriptionLogEvent) (log : List MasterEvent)
    (loop : Loop) : Prop where
  hasRead : loop.HasRead watched log
  able : loop.ready = true
  fmt : loop.parser.fmt = fmt

theorem step_passes {front : List MasterEvent} {event : MasterEvent}
    {watched : Bytes → Bytes → Option Address}
    {fmt : CFormatDescriptionLogEvent} {before : Loop} {packet : Packet}
    (coherent : Coherent watched log) (part : front ++ [event] <+: log)
    (kept : ReadsOn watched fmt front before)
    (brings : Brings crc fmt packet event) :
    ∃ after effect, step crc before (.read packet false) =
        some (after, effect) ∧
      ReadsOn watched fmt (front ++ [event]) after ∧
      Passed watched ⟨before, .read packet false, effect, after⟩ event := by
  obtain ⟨hasRead, able, rfl⟩ := kept
  obtain ⟨sends, right⟩ := brings
  have reads := sends.reads (CLogParser.HasRead.fmt hasRead)
  obtain ⟨code, admitted, done⟩ := sends.done coherent part hasRead
  have passes := CLogParser.dispatchEvent_passes admitted right done
  have more : packet.isEnd = false := by
    apply Bool.eq_false_of_not_eq_true
    intro ended
    exact not_admitted_of_isEnd ended admitted
  obtain ⟨later, shows⟩ := CLogParser.dispatchEvent_hasRead crc false coherent
    part hasRead reads
  have setup := before.parser.dispatchEvent_sameSetup crc packet.event
    packet.eventLen false
  have stepped : step crc before (.read packet false) =
      some (before.read crc packet false) := step_read_of_ready able
  simp only [read, more, Bool.false_eq_true, if_false] at stepped
  refine ⟨_, _, stepped, ⟨later, ?_, setup.fmt⟩, passes, shows⟩
  simp only [ready, Bool.and_eq_true] at able ⊢
  obtain ⟨⟨⟨_, dispatch⟩, connected⟩, dumped⟩ := able
  refine ⟨⟨⟨?_, setup.dispatch.trans dispatch⟩, ?_⟩, dumped⟩
  · rw [passes]
    rfl
  · exact setup.isConnected.trans connected

/-- A coherent log that comes in packet by packet is read to its end: nothing is
thrown, nothing is undefined, and the handlers are told all it means. -/
theorem passes_log (fresh : start.parser.Fresh) (able : start.ready = true)
    (coherent : Coherent start.parser.watched log)
    (brought : List.Forall₂ (Brings crc start.parser.fmt) packets log) :
    ∃ taken final, Run (step crc) start taken final ∧
      taken.map Taken.input = packets.map (.read · false) ∧
      (∀ next ∈ taken, next.effect.exit = .done) ∧
      taken.mapM observed =
        .ok (log.map (MasterEvent.meaning start.parser.watched)) ∧
      final.ready = true := by
  have initial : ReadsOn start.parser.watched start.parser.fmt [] start :=
    ⟨.nil fresh, able, rfl⟩
  have sent : List.Forall₂ (fun input event => ∃ packet,
      input = Input.read packet false ∧
        Brings crc start.parser.fmt packet event)
      (packets.map (.read · false)) log := by
    rw [List.forall₂_map_left_iff]
    exact brought.imp fun packet _ brings => ⟨packet, rfl, brings⟩
  obtain ⟨taken, final, run, inputs, kept, passed⟩ :=
    Run.reads_through initial (fun front event before input part kept sent => by
      obtain ⟨packet, rfl, brings⟩ := sent
      exact step_passes coherent part kept brings) sent
  obtain ⟨done, shows⟩ := (List.forall₂_and_left _ _).mp passed
  refine ⟨taken, final, run, inputs, done, ?_, kept.able⟩
  apply Exec.mapM_eq_ok
  rw [List.forall₂_map_right_iff]
  exact shows

/-- The UPDATE of the row (1, "ab") of `d.t`, in two packets. -/
theorem passes_log_pair :
    ∃ taken final,
      Run (step fun _ => 0) (sampleLoop false [([100], [116])]) taken final ∧
      taken.map Taken.input = [.ofEvent (pairMap.encode []),
        .ofEvent (pairRows.encode [])].map (.read · false) ∧
      (∀ next ∈ taken, next.effect.exit = .done) ∧
      taken.mapM observed = .ok [[], [{
        table := 0
        op := .update
        rows := [[some (.long, [1, 0, 0, 0]), some (.varchar, [97, 98])]]
        newRows := [[some (.long, [1, 0, 0, 0]), none]] }]] ∧
      final.ready = true := by
  have unchecked : ∀ packet : Packet, CLogParser.Sealed (fun _ => 0)
      (sampleLoop false [([100], [116])]).parser.fmt packet.event
      packet.eventLen := fun _ checks => by cases checks
  have mapBrought : Brings (fun _ => 0)
      (sampleLoop false [([100], [116])]).parser.fmt
      (.ofEvent (pairMap.encode [])) (.tableMap pairMap) :=
    ⟨.tableMap pairMap ⟨[], [0], rfl, by decide, rfl, rfl, by decide⟩,
      unchecked _⟩
  have rowsBrought : Brings (fun _ => 0)
      (sampleLoop false [([100], [116])]).parser.fmt
      (.ofEvent (pairRows.encode [])) (.rows pairUpdate) :=
    ⟨.rows pairUpdate
      ⟨[], [0], rfl, by decide, rfl, rfl, by decide⟩, unchecked _⟩
  exact passes_log (sampleLoop_prepared _ _).fresh rfl (pairLog_coherent _)
    (.cons mapBrought (.cons rowsBrought .nil))

end Loop

end MysqlSlave
