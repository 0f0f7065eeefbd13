import MysqlSlave.Lib.Run

/-!
# Steps that do nothing

A run without the steps that leave the state as it is, is a run.  A run is
determined by where it starts and by its inputs.
-/

namespace Run

variable {σ ι ε : Type} {step : σ → ι → Option (σ × ε)} {start final : σ}
  {taken : List (Taken σ ι ε)}

/-- The steps that leave the state as it is can be left out. -/
theorem without {idle : Taken σ ι ε → Prop} [DecidablePred idle]
    (run : Run step start taken final)
    (stays : ∀ next ∈ taken, idle next → next.after = next.before) :
    Run step start (taken.filter fun next => ¬idle next) final := by
  induction run with
  | refl => exact .refl
  | @snoc earlier before after input effect _ stepped induction =>
      have kept := induction fun next member =>
        stays next (List.mem_append_left _ member)
      rw [List.filter_append]
      by_cases still : idle ⟨before, input, effect, after⟩
      · have same : after = before :=
          stays _ (List.mem_append_right _ List.mem_cons_self) still
        rw [List.filter_cons_of_neg (by simpa using still), List.filter_nil,
          List.append_nil, same]
        exact kept
      · rw [List.filter_cons_of_pos (by simpa using still), List.filter_nil]
        exact .snoc kept stepped

theorem determined {other : List (Taken σ ι ε)} {final' : σ}
    (run : Run step start taken final) (run' : Run step start other final')
    (inputs : taken.map Taken.input = other.map Taken.input) :
    taken = other ∧ final = final' := by
  induction run generalizing other final' with
  | refl =>
      have nothing : other = [] := by simpa using inputs.symm
      subst nothing
      exact ⟨rfl, run'.nil_inv.symm⟩
  | @snoc earlier before after input effect _ stepped induction =>
      rcases List.eq_nil_or_concat other with rfl | ⟨front, last, rfl⟩
      · simp at inputs
      · rw [List.concat_eq_append] at run' inputs
        rw [List.map_append, List.map_append] at inputs
        obtain ⟨fronts, lasts⟩ := List.append_inj' inputs rfl
        obtain ⟨earlier', stepped', rfl⟩ := run'.snoc_inv
        obtain ⟨rfl, same⟩ := induction earlier' fronts
        obtain ⟨before', input', effect', after'⟩ := last
        cases same
        cases lasts
        rw [stepped'] at stepped
        cases stepped
        exact ⟨List.concat_eq_append.symm, rfl⟩

end Run
