import Mathlib.Data.List.Basic

/-!
# Reading a log over connections that break

A reader gets the entries of a log one after the other and remembers a place to
resume from.  An entry that is a checkpoint moves that place behind itself;
another entry leaves it.  When the connection breaks, the entries come again
from there.
-/

/-- What a reader has been given, what it would get after a restart, and what the
present connection still brings. -/
structure ResumingReader (α : Type) where
  resume : List α
  current : List α
  delivered : List α := []

namespace ResumingReader

variable {α : Type} {checkpoint : α → Bool} {log rest : List α} {entry : α}
  {reader : ResumingReader α}

/-- A reader in front of a log. -/
def start (log : List α) : ResumingReader α := { resume := log, current := log }

/-- The entry comes, and `rest` is what the connection brings behind it. -/
def deliver (checkpoint : α → Bool) (reader : ResumingReader α) (entry : α)
    (rest : List α) : ResumingReader α where
  resume := if checkpoint entry then rest else reader.resume
  current := rest
  delivered := reader.delivered ++ [entry]

/-- The connection is replaced. -/
def restart (reader : ResumingReader α) : ResumingReader α :=
  { reader with current := reader.resume }

/-- The entries of the log that lie behind: `acknowledged`, which a restart does
not repeat, and `repeated`, which it does. -/
structure Behind (checkpoint : α → Bool) (log acknowledged repeated : List α)
    (reader : ResumingReader α) : Prop where
  log : log = acknowledged ++ repeated ++ reader.current
  resume : reader.resume = repeated ++ reader.current
  plain : ∀ entry ∈ repeated, checkpoint entry = false
  delivered : (acknowledged ++ repeated).Sublist reader.delivered

/-- Nothing of the log is lost. -/
def Sound (checkpoint : α → Bool) (log : List α) (reader : ResumingReader α) :
    Prop :=
  ∃ acknowledged repeated, Behind checkpoint log acknowledged repeated reader

theorem sound_start (checkpoint : α → Bool) (log : List α) :
    Sound checkpoint log (start log) :=
  ⟨[], [], ⟨rfl, rfl, by simp, .refl _⟩⟩

section Behind

variable {acknowledged repeated : List α}

theorem Behind.acknowledge
    (behind : Behind checkpoint log acknowledged repeated reader)
    (next : reader.current = entry :: rest) (moves : checkpoint entry = true) :
    Behind checkpoint log (acknowledged ++ repeated ++ [entry]) []
      (reader.deliver checkpoint entry rest) := by
  refine ⟨?_, ?_, ?_, ?_⟩
  · simp [ResumingReader.deliver, behind.log, next]
  · simp [ResumingReader.deliver, moves]
  · simp
  · simpa [ResumingReader.deliver] using
      behind.delivered.append_right [entry]

theorem Behind.keep
    (behind : Behind checkpoint log acknowledged repeated reader)
    (next : reader.current = entry :: rest)
    (moves : checkpoint entry = false) :
    Behind checkpoint log acknowledged (repeated ++ [entry])
      (reader.deliver checkpoint entry rest) := by
  refine ⟨?_, ?_, ?_, ?_⟩
  · simp [ResumingReader.deliver, behind.log, next]
  · simp [ResumingReader.deliver, moves, behind.resume, next]
  · intro other member
    rcases List.mem_append.mp member with old | new
    · exact behind.plain other old
    · obtain rfl := List.mem_singleton.mp new
      exact moves
  · rw [← List.append_assoc]
    exact behind.delivered.append_right [entry]

theorem Behind.restart
    (behind : Behind checkpoint log acknowledged repeated reader) :
    Behind checkpoint log acknowledged [] reader.restart := by
  refine ⟨?_, ?_, ?_, ?_⟩
  · rw [behind.log, List.append_nil, List.append_assoc]
    exact congrArg _ behind.resume.symm
  · rfl
  · simp
  · rw [List.append_nil]
    exact (List.sublist_append_left _ _).trans behind.delivered

end Behind

theorem Sound.deliver (sound : Sound checkpoint log reader)
    (next : reader.current = entry :: rest) :
    Sound checkpoint log (reader.deliver checkpoint entry rest) := by
  obtain ⟨acknowledged, repeated, behind⟩ := sound
  cases moves : checkpoint entry with
  | true => exact ⟨_, _, behind.acknowledge next moves⟩
  | false => exact ⟨_, _, behind.keep next moves⟩

theorem Sound.restart (sound : Sound checkpoint log reader) :
    Sound checkpoint log reader.restart := by
  obtain ⟨acknowledged, repeated, behind⟩ := sound
  exact ⟨_, _, behind.restart⟩

theorem Sound.eq_start (sound : Sound checkpoint log reader)
    (nothing : reader.delivered = []) : reader = start log := by
  obtain ⟨acknowledged, repeated, behind⟩ := sound
  have none := nothing ▸ behind.delivered
  rw [List.sublist_nil, List.append_eq_nil_iff] at none
  obtain ⟨rfl, rfl⟩ := none
  have current : log = reader.current := behind.log
  have resume : reader.resume = reader.current := behind.resume
  obtain ⟨_, _, _⟩ := reader
  simp_all [start]

/-- Of every kind of entry, the ones that lie behind have been delivered in
order. -/
theorem Sound.delivered (sound : Sound checkpoint log reader)
    (kind : α → Bool) :
    ∃ behind, log = behind ++ reader.current ∧
      (behind.filter kind).Sublist (reader.delivered.filter kind) := by
  obtain ⟨acknowledged, repeated, behind⟩ := sound
  exact ⟨_, behind.log, behind.delivered.filter kind⟩

end ResumingReader
