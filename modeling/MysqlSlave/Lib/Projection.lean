import MysqlSlave.Lib.Run

/-!
# Runs seen through a projection

A step function that keeps more than another one, and takes the same steps when
that is forgotten.  Its runs are the runs of the other one.
-/

variable {σ τ ι κ ε : Type} {see : σ → τ} {seeInput : ι → κ}
  {step : σ → ι → Option (σ × ε)} {outline : τ → κ → Option (τ × ε)}
  {start : σ} {taken : List (Taken σ ι ε)} {inputs : List ι}

/-- The step without what is forgotten. -/
def Taken.seen (see : σ → τ) (seeInput : ι → κ) (next : Taken σ ι ε) :
    Taken τ κ ε :=
  ⟨see next.before, seeInput next.input, next.effect, see next.after⟩

/-- Forgetting first and stepping first come to the same. -/
def Projects (see : σ → τ) (seeInput : ι → κ)
    (step : σ → ι → Option (σ × ε)) (outline : τ → κ → Option (τ × ε)) :
    Prop :=
  ∀ state input, (step state input).map (Prod.map see id) =
    outline (see state) (seeInput input)

namespace Run

theorem seen (projects : Projects see seeInput step outline) {final : σ}
    (run : Run step start taken final) :
    Run outline (see start) (taken.map (Taken.seen see seeInput))
      (see final) := by
  induction run with
  | refl => exact .refl
  | @snoc earlier before after input effect _ stepped induction =>
      have outlined := projects before input
      rw [stepped] at outlined
      rw [List.map_append]
      exact .snoc induction outlined.symm

/-- What is forgotten can be filled in along a run. -/
theorem filled (projects : Projects see seeInput step outline)
    {taken : List (Taken τ κ ε)} {final : τ}
    (run : Run outline (see start) taken final)
    (given : inputs.map seeInput = taken.map Taken.input) :
    ∃ steps last, Run step start steps last ∧
      steps.map Taken.input = inputs ∧
      steps.map (Taken.seen see seeInput) = taken ∧ see last = final := by
  induction run generalizing inputs with
  | refl =>
      have nothing : inputs = [] := by simpa using given
      subst nothing
      exact ⟨[], start, .refl, rfl, rfl, rfl⟩
  | @snoc earlier before after input effect _ stepped induction =>
      rw [List.map_append] at given
      obtain ⟨front, back, rfl, fronts, backs⟩ := List.map_eq_append_iff.mp given
      obtain ⟨last, rfl, (here : seeInput last = input)⟩ :=
        List.map_eq_singleton_iff.mp backs
      subst here
      obtain ⟨steps, state, filled, same, alike, rfl⟩ := induction fronts
      have outlined := projects state last
      rw [stepped] at outlined
      obtain ⟨⟨next, shown⟩, taken, pair⟩ := Option.map_eq_some_iff.mp outlined
      cases pair
      refine ⟨_, next, .snoc filled taken, ?_, ?_, rfl⟩
      · rw [List.map_append, same]
        rfl
      · rw [List.map_append, alike]
        rfl

/-- From one state, the same inputs lead to the same effects and the same states,
whatever is filled in. -/
theorem seen_iff (projects : Projects see seeInput step outline)
    {effects : List ε} {final : τ} :
    (∃ taken last, Run step start taken last ∧
        taken.map Taken.input = inputs ∧ taken.map Taken.effect = effects ∧
        see last = final) ↔
      ∃ taken, Run outline (see start) taken final ∧
        taken.map Taken.input = inputs.map seeInput ∧
        taken.map Taken.effect = effects := by
  constructor
  · rintro ⟨taken, last, run, rfl, rfl, rfl⟩
    exact ⟨_, run.seen projects, by simp [Taken.seen], by simp [Taken.seen]⟩
  · rintro ⟨taken, run, given, rfl⟩
    obtain ⟨steps, last, filled, same, rfl, final⟩ :=
      run.filled projects given.symm
    exact ⟨steps, last, filled, same, by simp [Taken.seen], final⟩

end Run
