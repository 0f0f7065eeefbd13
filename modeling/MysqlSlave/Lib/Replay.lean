import MysqlSlave.Lib.KeyedStore
import MysqlSlave.Lib.ResumingReader

/-!
# Replaying a log into a store

A reader that resumes at a checkpoint gets the entries behind it again.  If every
entry is written into a store whenever it comes, the store ends up where the log
leads to, once the entries that have come before are behind the reader again.
-/

namespace ResumingReader

variable {α : Type} {checkpoint : α → Bool}
  {log rest acknowledged repeated pending ahead : List α} {entry : α}
  {reader : ResumingReader α}

/-- The readers of a log. -/
inductive Reached (checkpoint : α → Bool) (log : List α) :
    ResumingReader α → Prop where
  | start : Reached checkpoint log (start log)
  | deliver {reader : ResumingReader α} {entry : α} {rest : List α} :
      Reached checkpoint log reader → reader.current = entry :: rest →
      Reached checkpoint log (reader.deliver checkpoint entry rest)
  | restart {reader : ResumingReader α} :
      Reached checkpoint log reader → Reached checkpoint log reader.restart

/-- The entries behind the last checkpoint are the last that have come. -/
structure Unbroken (checkpoint : α → Bool)
    (log acknowledged repeated : List α) (reader : ResumingReader α) :
    Prop where
  behind : Behind checkpoint log acknowledged repeated reader
  closed : ∀ last, acknowledged.getLast? = some last → checkpoint last = true
  recent : repeated <:+ reader.delivered

theorem unbroken_start (checkpoint : α → Bool) (log : List α) :
    Unbroken checkpoint log [] [] (start log) :=
  ⟨⟨rfl, rfl, by simp, .refl _⟩, by simp, List.nil_suffix⟩

theorem Unbroken.deliver
    (unbroken : Unbroken checkpoint log acknowledged repeated reader)
    (next : reader.current = entry :: rest) :
    ∃ acknowledged' repeated',
      Unbroken checkpoint log acknowledged' repeated'
        (reader.deliver checkpoint entry rest) ∧
      acknowledged' ++ repeated' = acknowledged ++ repeated ++ [entry] := by
  cases moves : checkpoint entry with
  | true =>
      refine ⟨acknowledged ++ repeated ++ [entry], [],
        ⟨unbroken.behind.acknowledge next moves, ?_, List.nil_suffix⟩,
        List.append_nil _⟩
      intro last isLast
      rw [List.getLast?_concat, Option.some.injEq] at isLast
      exact isLast ▸ moves
  | false =>
      refine ⟨acknowledged, repeated ++ [entry],
        ⟨unbroken.behind.keep next moves, unbroken.closed, ?_⟩,
        (List.append_assoc ..).symm⟩
      obtain ⟨old, whole⟩ := unbroken.recent
      exact ⟨old, by rw [← List.append_assoc, whole]; rfl⟩

theorem Unbroken.restart
    (unbroken : Unbroken checkpoint log acknowledged repeated reader) :
    Unbroken checkpoint log acknowledged [] reader.restart :=
  ⟨unbroken.behind.restart, unbroken.closed, List.nil_suffix⟩

theorem Reached.unbroken (reached : Reached checkpoint log reader) :
    ∃ acknowledged repeated,
      Unbroken checkpoint log acknowledged repeated reader := by
  induction reached with
  | start => exact ⟨_, _, unbroken_start checkpoint log⟩
  | deliver _ next induction =>
      obtain ⟨_, _, unbroken⟩ := induction
      obtain ⟨_, _, later, _⟩ := unbroken.deliver next
      exact ⟨_, _, later⟩
  | restart _ induction =>
      obtain ⟨_, _, unbroken⟩ := induction
      exact ⟨_, _, unbroken.restart⟩

/-- Entries right behind the reader without a checkpoint among them are the last
that have come. -/
theorem Unbroken.near {far near : List α}
    (unbroken : Unbroken checkpoint log acknowledged repeated reader)
    (split : acknowledged ++ repeated = far ++ near)
    (plain : ∀ entry ∈ near, checkpoint entry = false) :
    near <:+ reader.delivered := by
  rcases List.append_eq_append_iff.mp split with
    ⟨between, _, same⟩ | ⟨between, same, rfl⟩
  · exact (same ▸ List.suffix_append between near).trans unbroken.recent
  · rcases List.eq_nil_or_concat between with rfl | ⟨front, last, rfl⟩
    · exact unbroken.recent
    · have closed := unbroken.closed last (by
        rw [same, List.concat_eq_append, ← List.append_assoc,
          List.getLast?_concat])
      rw [plain last (by simp)] at closed
      cases closed

section Store

variable {κ ν : Type} [DecidableEq κ] {writes : α → List (KeyedWrite κ ν)}
  {store : κ → Option ν}

/-- The log in front of `ahead` has come at some time, and its end `pending` comes
again: written once more, it leads to where that part of the log does. -/
structure Retraces (writes : α → List (KeyedWrite κ ν)) (store : κ → Option ν)
    (reader : ResumingReader α) (behind pending ahead : List α) : Prop where
  current : reader.current = pending ++ ahead
  leads :
    KeyedStore.writeAll store ((reader.delivered ++ pending).flatMap writes) =
      KeyedStore.writeAll store ((behind ++ pending).flatMap writes)

theorem Retraces.deliver {behind : List α}
    (retraces : Retraces writes store reader behind pending ahead)
    (next : reader.current = entry :: rest) :
    ∃ pending' ahead', Retraces writes store
      (reader.deliver checkpoint entry rest) (behind ++ [entry]) pending'
        ahead' := by
  have current := retraces.current
  have leads := retraces.leads
  rw [next] at current
  cases pending with
  | nil =>
      refine ⟨[], rest, rfl, ?_⟩
      simp only [List.append_nil, ResumingReader.deliver] at leads ⊢
      rw [List.flatMap_append, List.flatMap_append, KeyedStore.writeAll_append,
        KeyedStore.writeAll_append, leads]
  | cons first pending =>
      obtain ⟨rfl, rfl⟩ := List.cons.inj current
      refine ⟨pending, ahead, rfl, ?_⟩
      simpa only [ResumingReader.deliver, List.append_assoc,
        List.singleton_append] using leads

theorem Retraces.restart
    (retraces : Retraces writes store reader (acknowledged ++ repeated) pending
      ahead)
    (behind : Behind checkpoint log acknowledged repeated reader) :
    Retraces writes store reader.restart acknowledged (repeated ++ pending)
      ahead := by
  constructor
  · rw [List.append_assoc, ← retraces.current]
    exact behind.resume
  · have leads := retraces.leads
    simp only [List.flatMap_append] at leads
    rw [KeyedStore.writeAll_append] at leads
    simp only [List.flatMap_append]
    rw [← List.append_assoc (acknowledged.flatMap writes)]
    exact (KeyedStore.writeAll_append ..).trans
      (KeyedStore.writeAll_again leads)

/-- Where the store of a reader stands: it still has to be written the entries
that come again, and leads then to where the log in front of the others does. -/
theorem Reached.converges (reached : Reached checkpoint log reader)
    (writes : α → List (KeyedWrite κ ν)) (store : κ → Option ν) :
    ∃ seen pending ahead, log = seen ++ ahead ∧ pending <:+ seen ∧
      reader.current = pending ++ ahead ∧
      KeyedStore.writeAll store
          ((reader.delivered ++ pending).flatMap writes) =
        KeyedStore.writeAll store (seen.flatMap writes) := by
  have retraced : ∃ acknowledged repeated pending ahead,
      Unbroken checkpoint log acknowledged repeated reader ∧
        Retraces writes store reader (acknowledged ++ repeated) pending
          ahead := by
    induction reached with
    | start => exact ⟨[], [], [], log, unbroken_start checkpoint log, rfl, rfl⟩
    | deliver _ next induction =>
        obtain ⟨_, _, _, _, unbroken, retraces⟩ := induction
        obtain ⟨_, _, later, same⟩ := unbroken.deliver next
        obtain ⟨pending, ahead, onward⟩ := retraces.deliver next
        exact ⟨_, _, pending, ahead, later, same ▸ onward⟩
    | restart _ induction =>
        obtain ⟨acknowledged, repeated, pending, ahead, unbroken, retraces⟩ :=
          induction
        refine ⟨acknowledged, [], repeated ++ pending, ahead,
          unbroken.restart, ?_⟩
        rw [List.append_nil]
        exact retraces.restart unbroken.behind
  obtain ⟨acknowledged, repeated, pending, ahead, unbroken, retraces⟩ :=
    retraced
  refine ⟨acknowledged ++ repeated ++ pending, pending, ahead, ?_,
    List.suffix_append _ _, retraces.current, retraces.leads⟩
  rw [List.append_assoc, ← retraces.current]
  exact unbroken.behind.log

end Store

end ResumingReader
