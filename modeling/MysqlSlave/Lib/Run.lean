import Mathlib.Data.List.Induction
import Mathlib.Logic.Function.Basic

/-!
# Runs of a step function

A step function answers an input with a new state and an effect, or with
nothing where the input is not possible.  A run keeps what it has taken, so an
invariant can speak about the whole history and not only about the last state.
-/

/-- One step of a run. -/
structure Taken (σ ι ε : Type) where
  before : σ
  input : ι
  effect : ε
  after : σ

/-- Some of what the steps of a list show has been shown by steps in that order. -/
theorem List.Sublist.exists_shown {α β : Type} {shows : α → Option β}
    {good : β → α → Prop} {shown : List β} {steps : List α}
    (sublist : shown.Sublist (steps.filterMap shows))
    (each : ∀ step ∈ steps, ∀ value, shows step = some value →
      good value step) :
    ∃ chosen : List α, chosen.Sublist steps ∧
      List.Forall₂ good shown chosen := by
  induction steps generalizing shown with
  | nil =>
      obtain rfl := List.sublist_nil.mp sublist
      exact ⟨[], .slnil, .nil⟩
  | cons step steps induction =>
      have first := each step List.mem_cons_self
      have later := fun other member =>
        each other (List.mem_cons_of_mem step member)
      cases here : shows step with
      | none =>
          rw [List.filterMap_cons_none here] at sublist
          obtain ⟨chosen, part, pairs⟩ := induction sublist later
          exact ⟨chosen, part.cons step, pairs⟩
      | some value =>
          rw [List.filterMap_cons_some here] at sublist
          cases sublist with
          | cons _ rest =>
              obtain ⟨chosen, part, pairs⟩ := induction rest later
              exact ⟨chosen, part.cons step, pairs⟩
          | cons_cons _ rest =>
              obtain ⟨chosen, part, pairs⟩ := induction rest later
              exact ⟨step :: chosen, part.cons_cons step,
                .cons (first value here) pairs⟩

/-- The runs of `step` from `start`: what was taken, and the state it led to. -/
inductive Run {σ ι ε : Type} (step : σ → ι → Option (σ × ε)) (start : σ) :
    List (Taken σ ι ε) → σ → Prop where
  | refl : Run step start [] start
  | snoc {taken : List (Taken σ ι ε)} {before after : σ} {input : ι}
      {effect : ε} :
      Run step start taken before →
      step before input = some (after, effect) →
      Run step start (taken ++ [⟨before, input, effect, after⟩]) after

namespace Run

variable {σ ι ε : Type} {step : σ → ι → Option (σ × ε)} {start : σ}

theorem cons {taken : List (Taken σ ι ε)} {after final : σ} {input : ι}
    {effect : ε} (stepped : step start input = some (after, effect))
    (run : Run step after taken final) :
    Run step start (⟨start, input, effect, after⟩ :: taken) final := by
  induction run with
  | refl => exact .snoc .refl stepped
  | snoc _ next induction => exact .snoc induction next

theorem invariant {good : List (Taken σ ι ε) → σ → Prop}
    (initial : good [] start)
    (kept : ∀ taken before input effect after,
      Run step start taken before → good taken before →
      step before input = some (after, effect) →
      good (taken ++ [⟨before, input, effect, after⟩]) after)
    {taken : List (Taken σ ι ε)} {final : σ}
    (run : Run step start taken final) : good taken final := by
  induction run with
  | refl => exact initial
  | snoc earlier stepped induction =>
      exact kept _ _ _ _ _ earlier induction stepped

/-- Where every step keeps what is good of the state and is allowed in a good one,
every step of a run is allowed. -/
theorem safe {good : σ → Prop} {allowed : Taken σ ι ε → Prop}
    (initial : good start)
    (kept : ∀ (earlier : List (Taken σ ι ε)) (next : Taken σ ι ε),
      Run step start earlier next.before → good next.before →
      step next.before next.input = some (next.after, next.effect) →
      good next.after ∧ allowed next)
    {taken : List (Taken σ ι ε)} {final : σ}
    (run : Run step start taken final) :
    good final ∧ ∀ next ∈ taken, allowed next := by
  induction run with
  | refl => exact ⟨initial, by simp⟩
  | @snoc taken before after input effect earlier stepped induction =>
      obtain ⟨held, passed⟩ := induction
      obtain ⟨holds, allowedHere⟩ :=
        kept taken ⟨before, input, effect, after⟩ earlier held stepped
      refine ⟨holds, fun next member => ?_⟩
      rcases List.mem_append.mp member with old | new
      · exact passed next old
      · rw [List.mem_singleton.mp new]
        exact allowedHere

theorem nil_inv {final : σ} (run : Run step start [] final) :
    final = start := by
  generalize none : [] = taken at run
  cases run with
  | refl => rfl
  | snoc earlier stepped => simp at none

theorem snoc_inv {taken : List (Taken σ ι ε)} {next : Taken σ ι ε} {final : σ}
    (run : Run step start (taken ++ [next]) final) :
    Run step start taken next.before ∧
      step next.before next.input = some (next.after, next.effect) ∧
      final = next.after := by
  generalize whole : taken ++ [next] = all at run
  cases run with
  | refl => simp at whole
  | snoc earlier stepped =>
      obtain ⟨rfl, same⟩ := List.append_inj' whole rfl
      cases same
      exact ⟨earlier, stepped, rfl⟩

theorem split {front back : List (Taken σ ι ε)} {final : σ}
    (run : Run step start (front ++ back) final) :
    ∃ middle, Run step start front middle ∧ Run step middle back final := by
  induction back using List.reverseRecOn generalizing final with
  | nil => exact ⟨final, by simpa using run, .refl⟩
  | append_singleton back next induction =>
      rw [← List.append_assoc] at run
      obtain ⟨earlier, stepped, rfl⟩ := run.snoc_inv
      obtain ⟨middle, first, second⟩ := induction earlier
      exact ⟨middle, first, .snoc second stepped⟩

theorem cons_inv {rest : List (Taken σ ι ε)} {next : Taken σ ι ε} {final : σ}
    (run : Run step start (next :: rest) final) :
    next.before = start ∧
      step next.before next.input = some (next.after, next.effect) ∧
      Run step next.after rest final := by
  have parts : Run step start ([next] ++ rest) final := run
  obtain ⟨middle, first, second⟩ := parts.split
  have only : Run step start ([] ++ [next]) middle := first
  obtain ⟨begins, stepped, rfl⟩ := only.snoc_inv
  exact ⟨begins.nil_inv, stepped, second⟩

theorem at_step {taken : List (Taken σ ι ε)} {final : σ}
    (run : Run step start taken final) {front back : List (Taken σ ι ε)}
    {next : Taken σ ι ε} (whole : taken = front ++ next :: back) :
    Run step start front next.before ∧
      step next.before next.input = some (next.after, next.effect) := by
  subst whole
  obtain ⟨middle, first, second⟩ := run.split
  obtain ⟨begins, stepped, _⟩ := second.cons_inv
  exact ⟨begins ▸ first, stepped⟩

end Run

/-- The last step that `about` says something of gives this value. -/
def Latest {σ ι ε α : Type} (about : Taken σ ι ε → α → Prop)
    (taken : List (Taken σ ι ε)) (value : α) : Prop :=
  ∃ front next back, taken = front ++ next :: back ∧ about next value ∧
    ∀ later ∈ back, ∀ other, ¬about later other

namespace Latest

variable {σ ι ε α : Type} {about : Taken σ ι ε → α → Prop}
  {taken : List (Taken σ ι ε)} {next : Taken σ ι ε} {value : α}

theorem not_nil : ¬Latest about [] value := by
  rintro ⟨front, next, back, split, _⟩
  simp at split

theorem exists_mem (latest : Latest about taken value) :
    ∃ next ∈ taken, about next value := by
  obtain ⟨front, next, back, rfl, holds, _⟩ := latest
  exact ⟨next, by simp, holds⟩

theorem snoc_iff :
    Latest about (taken ++ [next]) value ↔
      about next value ∨
        (∀ other, ¬about next other) ∧ Latest about taken value := by
  constructor
  · rintro ⟨front, last, back, split, holds, silent⟩
    rcases List.eq_nil_or_concat back with rfl | ⟨rest, end_, rfl⟩
    · obtain ⟨_, same⟩ := List.append_inj' split rfl
      cases same
      exact Or.inl holds
    · rw [List.concat_eq_append, ← List.cons_append, ← List.append_assoc]
        at split
      obtain ⟨rfl, same⟩ := List.append_inj' split rfl
      cases same
      refine Or.inr ⟨silent next (by simp), front, last, rest, rfl, holds, ?_⟩
      exact fun later member => silent later (by simp [member])
  · rintro (holds | ⟨silent, front, last, back, rfl, holds, later⟩)
    · exact ⟨taken, next, [], rfl, holds, by simp⟩
    · refine ⟨front, last, back ++ [next], by simp, holds, ?_⟩
      intro other member
      rcases List.mem_append.mp member with inside | new
      · exact later other inside
      · obtain rfl := List.mem_singleton.mp new
        exact silent

theorem exists_or_silent (about : Taken σ ι ε → α → Prop)
    (taken : List (Taken σ ι ε)) :
    (∃ value, Latest about taken value) ∨
      ∀ next ∈ taken, ∀ value, ¬about next value := by
  induction taken using List.reverseRecOn with
  | nil => exact Or.inr (by simp)
  | append_singleton taken next induction =>
      by_cases speaks : ∃ value, about next value
      · obtain ⟨value, holds⟩ := speaks
        exact Or.inl ⟨value, snoc_iff.mpr (Or.inl holds)⟩
      · rw [not_exists] at speaks
        rcases induction with ⟨value, latest⟩ | silent
        · exact Or.inl ⟨value, snoc_iff.mpr (Or.inr ⟨speaks, latest⟩)⟩
        · refine Or.inr fun step member => ?_
          rcases List.mem_append.mp member with inside | new
          · exact silent step inside
          · obtain rfl := List.mem_singleton.mp new
            exact speaks

end Latest

/-- A map that starts empty and that every step leaves alone or updates at the
key it is about holds the latest value for every key. -/
theorem Run.latest_iff {σ ι ε κ α : Type} [DecidableEq κ]
    {step : σ → ι → Option (σ × ε)} {start : σ} (field : σ → κ → Option α)
    (about : Taken σ ι ε → κ → α → Prop) (empty : ∀ key, field start key = none)
    (kept : ∀ next : Taken σ ι ε,
      step next.before next.input = some (next.after, next.effect) →
      (∃ key value, about next key value ∧
        field next.after =
          Function.update (field next.before) key (some value) ∧
        ∀ key' value', about next key' value' → key' = key ∧ value' = value) ∨
      (∀ key value, ¬about next key value) ∧
        field next.after = field next.before)
    {taken : List (Taken σ ι ε)} {final : σ}
    (run : Run step start taken final) (key : κ) (value : α) :
    field final key = some value ↔
      Latest (fun next value => about next key value) taken value := by
  induction run with
  | refl => simp [empty, Latest.not_nil]
  | @snoc earlier before after input effect _ stepped induction =>
      rw [Latest.snoc_iff]
      have skipped : (∀ other,
            ¬about ⟨before, input, effect, after⟩ key other) →
          field after key = field before key →
          (field after key = some value ↔
            about ⟨before, input, effect, after⟩ key value ∨
              (∀ other, ¬about ⟨before, input, effect, after⟩ key other) ∧
                Latest (fun next value => about next key value) earlier
                  value) := by
        intro silent same
        rw [same, induction]
        exact ⟨fun latest => Or.inr ⟨silent, latest⟩,
          fun found => found.elim (fun holds => absurd holds (silent value))
            And.right⟩
      rcases kept ⟨before, input, effect, after⟩ stepped with
        ⟨key', value', holds, updated, only⟩ | ⟨none, same⟩
      · dsimp only at updated
        by_cases same : key = key'
        · subst same
          rw [updated, Function.update_self, Option.some.injEq]
          constructor
          · rintro rfl
            exact Or.inl holds
          · rintro (holds' | ⟨silent, _⟩)
            · exact (only key value holds').2.symm
            · exact absurd holds (silent value')
        · refine skipped (fun other holds' => same (only key other holds').1) ?_
          rw [updated, Function.update_of_ne same]
      · exact skipped (none key) (congrFun same key)
