import Mathlib.Data.List.Forall2
import MysqlSlave.Lib.Region
import MysqlSlave.Lib.Run

/-!
# Runs that read a log

Every step of the run reads one entry of a log.  If a relation between the
entries that have been read and the state is kept by every step, and every step
shows what its entry means, the run shows what the log means.
-/

theorem List.Forall₂.snoc_inv {α β : Type} {reads : α → β → Prop}
    {front : List α} {last : α} {log : List β}
    (all : List.Forall₂ reads (front ++ [last]) log) :
    ∃ before entry, log = before ++ [entry] ∧
      List.Forall₂ reads front before ∧ reads last entry := by
  induction front generalizing log with
  | nil =>
      obtain ⟨entry, before, here, none, rfl⟩ :=
        List.forall₂_cons_left_iff.mp all
      rw [List.forall₂_nil_left_iff] at none
      subst none
      exact ⟨[], entry, rfl, .nil, here⟩
  | cons first front induction =>
      obtain ⟨entry, rest, here, later, rfl⟩ :=
        List.forall₂_cons_left_iff.mp all
      obtain ⟨before, lastEntry, rfl, earlier, atLast⟩ := induction later
      exact ⟨entry :: before, lastEntry, rfl, .cons here earlier, atLast⟩

namespace Exec

variable {α β : Type} {read : α → Exec β}

theorem mapM_eq_ok {sources : List α} {results : List β}
    (all : List.Forall₂ (fun source result => read source = .ok result)
      sources results) :
    sources.mapM read = .ok results := by
  induction all with
  | nil => rfl
  | cons here _ induction =>
      rw [List.mapM_cons, here, ok_bind, induction]
      rfl

end Exec

namespace Run

variable {σ ι ε α β : Type} {step : σ → ι → Option (σ × ε)} {start final : σ}
  {taken : List (Taken σ ι ε)} {log : List α}
  {reads tells : Taken σ ι ε → α → Prop} {kept : List α → σ → Prop}
  {observe : Taken σ ι ε → Exec β} {meaning : α → β}

theorem tells_all (initial : kept [] start)
    (simulated : ∀ (front : List α) (entry : α) (next : Taken σ ι ε),
      front ++ [entry] <+: log → kept front next.before →
      step next.before next.input = some (next.after, next.effect) →
      reads next entry →
      kept (front ++ [entry]) next.after ∧ tells next entry)
    (run : Run step start taken final)
    (read : List.Forall₂ reads taken log) :
    kept log final ∧ List.Forall₂ tells taken log := by
  -- the induction is over a part of the run, which reads a part of the log
  have parts : ∀ part, part <+: log → List.Forall₂ reads taken part →
      kept part final ∧ List.Forall₂ tells taken part := by
    clear read
    induction run with
    | refl =>
        intro part _ nothing
        rw [List.forall₂_nil_left_iff] at nothing
        subst nothing
        exact ⟨initial, .nil⟩
    | @snoc earlier before after input effect _ stepped induction =>
        intro part inside all
        obtain ⟨front, entry, rfl, earlierRead, here⟩ := all.snoc_inv
        obtain ⟨related, told⟩ := induction front
          ((List.prefix_append _ _).trans inside) earlierRead
        obtain ⟨later, tellsHere⟩ := simulated front entry
          ⟨before, input, effect, after⟩ inside related stepped here
        exact ⟨later, List.rel_append told (.cons tellsHere .nil)⟩
  exact parts log List.prefix_rfl read

/-- A run that reads a log shows what the log means. -/
theorem simulates (initial : kept [] start)
    (simulated : ∀ (front : List α) (entry : α) (next : Taken σ ι ε),
      front ++ [entry] <+: log → kept front next.before →
      step next.before next.input = some (next.after, next.effect) →
      reads next entry →
      kept (front ++ [entry]) next.after ∧ observe next = .ok (meaning entry))
    (run : Run step start taken final)
    (read : List.Forall₂ reads taken log) :
    kept log final ∧ taken.mapM observe = .ok (log.map meaning) := by
  obtain ⟨related, told⟩ := tells_all initial simulated run read
  refine ⟨related, Exec.mapM_eq_ok ?_⟩
  rw [List.forall₂_map_right_iff]
  exact told

/-- A log whose entries can all be taken is read through. -/
theorem reads_through {sends : ι → α → Prop} {inputs : List ι}
    (initial : kept [] start)
    (taken : ∀ (front : List α) (entry : α) (state : σ) (input : ι),
      front ++ [entry] <+: log → kept front state → sends input entry →
      ∃ after effect, step state input = some (after, effect) ∧
        kept (front ++ [entry]) after ∧
        reads ⟨state, input, effect, after⟩ entry)
    (sent : List.Forall₂ sends inputs log) :
    ∃ taken final, Run step start taken final ∧
      taken.map Taken.input = inputs ∧ kept log final ∧
      List.Forall₂ reads taken log := by
  have parts : ∀ part, part <+: log → List.Forall₂ sends inputs part →
      ∃ taken final, Run step start taken final ∧
        taken.map Taken.input = inputs ∧ kept part final ∧
        List.Forall₂ reads taken part := by
    clear sent
    induction inputs using List.reverseRecOn with
    | nil =>
        intro part _ nothing
        rw [List.forall₂_nil_left_iff] at nothing
        subst nothing
        exact ⟨[], start, .refl, rfl, initial, .nil⟩
    | append_singleton earlier input induction =>
        intro part inside all
        obtain ⟨front, entry, rfl, earlierSent, here⟩ := all.snoc_inv
        obtain ⟨steps, state, run, inputs, related, read⟩ := induction front
          ((List.prefix_append _ _).trans inside) earlierSent
        obtain ⟨after, effect, stepped, later, reads⟩ :=
          taken front entry state input inside related here
        refine ⟨_, after, .snoc run stepped, ?_, later, ?_⟩
        · rw [List.map_append, inputs]
          rfl
        · exact List.rel_append read (.cons reads .nil)
  exact parts log List.prefix_rfl sent

end Run
