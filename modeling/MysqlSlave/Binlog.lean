import Mathlib.Data.List.Nodup
import MysqlSlave.EventFormat

/-!
# The binlog of a master

A binlog is a list of files of events.  The events of a file end at ascending
positions, and every file but the last ends with a ROTATE event that names the
next one.
-/

namespace MysqlSlave

open Region

/-- An event of a binlog without checksums. -/
structure BinlogEvent where
  header : EventHeader
  code : UInt8
  body : Bytes
  deriving DecidableEq, Repr

namespace BinlogEvent

def encode (event : BinlogEvent) : Bytes :=
  encodeEvent event.header event.code event.body []

def type (event : BinlogEvent) : LogEventType := .ofCode event.code

/-- The position behind the event. -/
def endPos (event : BinlogEvent) : Nat := event.header.logPos

/-- The event is a ROTATE to this position. -/
def RotatesTo (event : BinlogEvent) (position : Bytes × Nat) : Prop :=
  event.code = 4 ∧ event.body = bytesLE 8 position.2 ++ position.1

end BinlogEvent

/-- A file of the binlog; its first event begins at `start`. -/
structure BinlogFile where
  name : Bytes
  start : Nat
  events : List BinlogEvent
  named : name ≠ []
  positive : 0 < start
  ascending : (start :: events.map BinlogEvent.endPos).Pairwise (· < ·)
  below : ∀ pos ∈ start :: events.map BinlogEvent.endPos, pos < 4294967296
  supported : ∀ event ∈ events, event.code.toNat ≤ logEventTypes

/-- An event and the file it stands in. -/
structure LogEntry where
  file : Bytes
  event : BinlogEvent
  deriving DecidableEq, Repr

namespace BinlogFile

def log (file : BinlogFile) : List LogEntry :=
  file.events.map (LogEntry.mk file.name)

/-- The file ends with a ROTATE to the next file and has no other. -/
def EndsWith (file next : BinlogFile) : Prop :=
  ∃ plain rotate, file.events = plain ++ [rotate] ∧
    (∀ event ∈ plain, event.code ≠ 4) ∧
    rotate.RotatesTo (next.name, next.start)

/-- Every file leads to the next one, and the last one to none. -/
def Linked : List BinlogFile → Prop
  | [] => True
  | [last] => ∀ event ∈ last.events, event.code ≠ 4
  | file :: next :: files => file.EndsWith next ∧ Linked (next :: files)

/-- The events of the files from a position on. -/
def logFrom : List BinlogFile → Bytes × Nat → List LogEntry
  | [], _ => []
  | file :: files, position =>
      if file.name = position.1 then
        file.log.filter (fun entry => position.2 < entry.event.endPos) ++
          files.flatMap log
      else logFrom files position

variable {file next : BinlogFile} {files before behind : List BinlogFile}
  {read left : List BinlogEvent} {pos : Nat}

theorem Linked.suffix (linked : Linked (before ++ files)) : Linked files := by
  induction before with
  | nil => exact linked
  | cons first before induction =>
      cases rest : before ++ files with
      | nil =>
          rw [List.append_eq_nil_iff] at rest
          rw [rest.2]
          trivial
      | cons second more =>
          rw [List.cons_append, rest] at linked
          exact induction (rest ▸ linked.2)

/-- An event that is not a ROTATE is the last of its file only at the end of
the log. -/
theorem Linked.open_of_plain {event : BinlogEvent}
    (linked : Linked (file :: behind))
    (events : file.events = read ++ event :: left) (plain : event.code ≠ 4)
    (last : left = []) : behind = [] := by
  subst last
  cases behind with
  | nil => rfl
  | cons next behind =>
      obtain ⟨front, rotate, ends, _, rotates⟩ := linked.1
      rw [events] at ends
      obtain ⟨_, same⟩ := List.append_inj' ends rfl
      cases same
      exact absurd rotates.1 plain

theorem Linked.next_of_rotate {event : BinlogEvent}
    (linked : Linked (file :: behind))
    (events : file.events = read ++ event :: left) (rotates : event.code = 4) :
    left = [] ∧ ∃ next files, behind = next :: files ∧
      event.RotatesTo (next.name, next.start) := by
  have member : event ∈ file.events := by simp [events]
  cases behind with
  | nil => exact absurd rotates (linked event member)
  | cons next behind =>
      obtain ⟨front, rotate, ends, plain, leads⟩ := linked.1
      rw [events] at ends
      rcases List.eq_nil_or_concat left with rfl | ⟨more, last, rfl⟩
      · obtain ⟨_, same⟩ := List.append_inj' ends rfl
        cases same
        exact ⟨rfl, next, behind, rfl, leads⟩
      · rw [List.concat_eq_append, ← List.cons_append, ← List.append_assoc]
          at ends
        obtain ⟨rfl, _⟩ := List.append_inj' ends rfl
        exact absurd rotates (plain event (by simp))

theorem Linked.last_of_empty (linked : Linked (file :: behind))
    (empty : file.events = []) : behind = [] := by
  cases behind with
  | nil => rfl
  | cons next behind =>
      obtain ⟨front, rotate, ends, _⟩ := linked.1
      simp [empty] at ends

theorem start_lt (file : BinlogFile) {event : BinlogEvent}
    (member : event ∈ file.events) : file.start < event.endPos :=
  List.rel_of_pairwise_cons file.ascending (List.mem_map_of_mem member)

theorem endPos_lt (file : BinlogFile) {event : BinlogEvent}
    (member : event ∈ file.events) : event.endPos < 4294967296 :=
  file.below _ (List.mem_cons_of_mem _ (List.mem_map_of_mem member))

theorem logFrom_split (distinct : (files.map name).Nodup)
    (whole : files = before ++ file :: behind)
    (events : file.events = read ++ left)
    (passed : ∀ event ∈ read, event.endPos ≤ pos)
    (coming : ∀ event ∈ left, pos < event.endPos) :
    logFrom files (file.name, pos) =
      left.map (LogEntry.mk file.name) ++ behind.flatMap log := by
  subst whole
  induction before with
  | nil =>
      have kept : file.log.filter (fun entry => pos < entry.event.endPos) =
          left.map (LogEntry.mk file.name) := by
        rw [log, events, List.map_append, List.filter_append]
        have none : (read.map (LogEntry.mk file.name)).filter
            (fun entry => pos < entry.event.endPos) = [] := by
          simpa [List.filter_eq_nil_iff] using passed
        have all : (left.map (LogEntry.mk file.name)).filter
            (fun entry => pos < entry.event.endPos) =
              left.map (LogEntry.mk file.name) := by
          simpa [List.filter_eq_self] using coming
        rw [none, all, List.nil_append]
      simp only [List.nil_append, logFrom, if_true, kept]
  | cons first before induction =>
      rw [List.cons_append, List.map_cons, List.nodup_cons] at distinct
      have other : first.name ≠ file.name := by
        intro same
        exact distinct.1 (by simp [same])
      rw [List.cons_append, logFrom, if_neg other]
      exact induction distinct.2

theorem logFrom_endPos {event : BinlogEvent}
    (distinct : (files.map name).Nodup)
    (whole : files = before ++ file :: behind)
    (events : file.events = read ++ event :: left) :
    logFrom files (file.name, event.endPos) =
      left.map (LogEntry.mk file.name) ++ behind.flatMap log := by
  have parts : file.events = (read ++ [event]) ++ left := by simp [events]
  have ascending := file.ascending.of_cons
  rw [events, List.map_append, List.map_cons, List.pairwise_append,
    List.pairwise_cons] at ascending
  obtain ⟨_, ⟨later, _⟩, earlier⟩ := ascending
  refine logFrom_split distinct whole parts ?_ ?_
  · intro other member
    rcases List.mem_append.mp member with old | new
    · exact (earlier _ (List.mem_map_of_mem old) _ List.mem_cons_self).le
    · rw [List.mem_singleton.mp new]
  · intro other member
    exact later _ (List.mem_map_of_mem member)

theorem logFrom_start (distinct : (files.map name).Nodup)
    (whole : files = before ++ file :: behind) :
    logFrom files (file.name, file.start) =
      file.log ++ behind.flatMap log :=
  logFrom_split distinct whole (List.nil_append _).symm (by simp)
    fun _ member => file.start_lt member

end BinlogFile

/-- The binlog of a master. -/
structure Binlog where
  files : List BinlogFile
  distinct : (files.map BinlogFile.name).Nodup
  linked : BinlogFile.Linked files

namespace Binlog

/-- The events from a position on. -/
def logFrom (binlog : Binlog) (position : Bytes × Nat) : List LogEntry :=
  BinlogFile.logFrom binlog.files position

/-- The start of a file, or the end of an event that `allowed` says. -/
def Boundary (binlog : Binlog) (allowed : BinlogEvent → Prop)
    (position : Bytes × Nat) : Prop :=
  ∃ file ∈ binlog.files, file.name = position.1 ∧
    (position.2 = file.start ∨
      ∃ event ∈ file.events, allowed event ∧ position.2 = event.endPos)

theorem boundary_bounds {binlog : Binlog} {allowed : BinlogEvent → Prop}
    {position : Bytes × Nat} (boundary : binlog.Boundary allowed position) :
    0 < position.2 ∧ position.2 < 4294967296 := by
  obtain ⟨file, _, _, place⟩ := boundary
  rcases place with same | ⟨event, member, _, same⟩
  · rw [same]
    exact ⟨file.positive, file.below _ List.mem_cons_self⟩
  · rw [same]
    exact ⟨file.positive.trans (file.start_lt member),
      file.endPos_lt member⟩

/-- A reader in the file `name` has `rest` of the log in front of it, and the next
event is in that file. -/
def Stands (binlog : Binlog) (name : Bytes) (rest : List LogEntry) : Prop :=
  ∃ before file behind read left,
    binlog.files = before ++ file :: behind ∧ file.name = name ∧
    file.events = read ++ left ∧ (left = [] → behind = []) ∧
    rest = left.map (LogEntry.mk name) ++ behind.flatMap BinlogFile.log

variable {binlog : Binlog} {name : Bytes} {entry : LogEntry}
  {rest : List LogEntry} {position : Bytes × Nat}

/-- A reader at the start of a file or behind an event that is not a ROTATE. -/
theorem stands_of_boundary
    (boundary : binlog.Boundary (·.code ≠ 4) position) :
    binlog.Stands position.1 (binlog.logFrom position) := by
  obtain ⟨name, pos⟩ := position
  obtain ⟨file, member, rfl, place⟩ := boundary
  obtain ⟨before, behind, whole⟩ := List.append_of_mem member
  have linked := (whole ▸ binlog.linked).suffix
  dsimp only at place
  rcases place with rfl | ⟨event, inside, plain, rfl⟩
  · exact ⟨before, file, behind, [], file.events, whole, rfl, rfl,
      linked.last_of_empty, BinlogFile.logFrom_start binlog.distinct whole⟩
  · obtain ⟨read, left, events⟩ := List.append_of_mem inside
    exact ⟨before, file, behind, read ++ [event], left, whole, rfl,
      by simp [events], linked.open_of_plain events plain,
      BinlogFile.logFrom_endPos binlog.distinct whole events⟩

theorem Stands.next (stands : binlog.Stands name (entry :: rest)) :
    ∃ before file behind read left,
      binlog.files = before ++ file :: behind ∧ file.name = name ∧
      file.events = read ++ entry.event :: left ∧ entry.file = name ∧
      rest = left.map (LogEntry.mk name) ++
        behind.flatMap BinlogFile.log := by
  obtain ⟨before, file, behind, read, left, whole, named, events, open_,
    same⟩ := stands
  cases left with
  | nil => simp [open_ rfl] at same
  | cons event left =>
      simp only [List.map_cons, List.cons_append, List.cons.injEq] at same
      obtain ⟨rfl, rest_eq⟩ := same
      exact ⟨before, file, behind, read, left, whole, named, events, rfl,
        rest_eq⟩

theorem Stands.plain (stands : binlog.Stands name (entry :: rest))
    (plain : entry.event.code ≠ 4) :
    binlog.Stands name rest ∧
      binlog.logFrom (name, entry.event.endPos) = rest := by
  obtain ⟨before, file, behind, read, left, whole, rfl, events, _, rfl⟩ :=
    stands.next
  have linked := (whole ▸ binlog.linked).suffix
  exact ⟨⟨before, file, behind, read ++ [entry.event], left, whole, rfl,
    by simp [events], linked.open_of_plain events plain, rfl⟩,
    BinlogFile.logFrom_endPos binlog.distinct whole events⟩

theorem Stands.rotate (stands : binlog.Stands name (entry :: rest))
    (rotates : entry.event.code = 4) :
    ∃ file ∈ binlog.files, entry.event.RotatesTo (file.name, file.start) ∧
      binlog.Stands file.name rest ∧
      binlog.logFrom (file.name, file.start) = rest := by
  obtain ⟨before, file, behind, read, left, whole, rfl, events, _, rfl⟩ :=
    stands.next
  have linked := (whole ▸ binlog.linked).suffix
  obtain ⟨rfl, next, files, rfl, leads⟩ :=
    linked.next_of_rotate events rotates
  have split : binlog.files = (before ++ [file]) ++ next :: files := by
    simp [whole]
  refine ⟨next, by simp [whole], leads, ?_,
    BinlogFile.logFrom_start binlog.distinct split⟩
  exact ⟨before ++ [file], next, files, [], next.events, split, rfl, rfl,
    linked.2.last_of_empty, rfl⟩

theorem Stands.file (stands : binlog.Stands name rest) :
    ∃ file ∈ binlog.files, file.name = name := by
  obtain ⟨before, file, behind, _, _, whole, named, _⟩ := stands
  exact ⟨file, by simp [whole], named⟩

end Binlog

end MysqlSlave
