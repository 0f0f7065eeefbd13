import MysqlSlave.EventDispatch
import MysqlSlave.Lib.IdleSteps

/-!
# Tables that are not watched

A session does not depend on what happens to tables that it does not watch.
-/

namespace MysqlSlave

open Region

/-- A ROWS event that is refused, or whose id stands for no table. -/
structure CLogParser.RowsUnbound (parser : CLogParser) (buf : Bytes)
    (len : Nat) : Prop where
  admitted : ∃ code, parser.Admitted buf len code ∧
    (LogEventType.ofCode code).isRows = true
  unbound : ∀ rlev,
    CRowLogEvent.tune {} buf len parser.fmt = .ok (0, rlev) →
      parser.idToTable rlev.tableId = none

namespace Loop

variable {crc : Bytes → Nat} {start final final' : Loop}
  {taken other : List (Taken Loop Input Effect)}
  {next : Taken Loop Input Effect}

/-- The step reads a TABLE_MAP event that names no watched table, or a ROWS event
of none. -/
structure Foreign (next : Taken Loop Input Effect) : Prop where
  defined : next.after.halted = false
  reads : ∃ packet throws, next.input = .read packet throws ∧
    ((∃ tableId, next.before.parser.MapsUnwatched packet.event
        packet.eventLen tableId) ∨
      next.before.parser.RowsUnbound packet.event packet.eventLen)

theorem foreign_idle (foreign : Foreign next)
    (stepped : step crc next.before next.input =
      some (next.after, next.effect)) :
    next.after = next.before ∧ next.effect.calls = [] := by
  obtain ⟨before, input, effect, after⟩ := next
  obtain ⟨defined, packet, throws, rfl, reads⟩ := foreign
  dsimp only at defined stepped reads ⊢
  have admitted : ∃ code, before.parser.Admitted packet.event packet.eventLen
      code := by
    rcases reads with ⟨_, maps⟩ | rows
    · exact maps.admitted.imp fun _ both => both.1
    · exact rows.admitted.imp fun _ both => both.1
  have ignored : ∃ exit, before.parser.dispatchEvent crc packet.event
      packet.eventLen throws = { state := before.parser, exit } := by
    rcases reads with ⟨_, maps⟩ | ⟨⟨code, admitted, rows⟩, unbound⟩
    · exact CLogParser.dispatchEvent_mapsUnwatched crc throws maps
    · exact CLogParser.dispatchEvent_unmapped crc throws admitted rows unbound
  obtain ⟨running, _, stepped⟩ := step_stepped stepped
  cases stepped with
  | readFailed _ what _ ended =>
      rcases ended with impossible | ⟨_, _, same, ended⟩
      · cases impossible
      · cases same
        exact absurd admitted.choose_spec (not_admitted_of_isEnd ended)
  | dispatched _ _ outcome _ _ _ same =>
      obtain ⟨exit, ignored⟩ := ignored
      rw [ignored] at same
      subst same
      refine ⟨?_, rfl⟩
      dsimp only at defined ⊢
      rw [defined, ← running]

open Classical in
/-- What is left of a run without its foreign steps. -/
noncomputable def ownSteps (taken : List (Taken Loop Input Effect)) :
    List (Taken Loop Input Effect) :=
  taken.filter fun next => ¬Foreign next

/-- The other steps are a run to the same state with the same handler calls. -/
theorem run_ownSteps (run : Run (step crc) start taken final) :
    Run (step crc) start (ownSteps taken) final ∧
      (ownSteps taken).flatMap (·.effect.calls) =
        taken.flatMap (·.effect.calls) := by
  classical
  have idle : ∀ next ∈ taken, Foreign next →
      next.after = next.before ∧ next.effect.calls = [] := by
    intro next member foreign
    obtain ⟨front, back, split⟩ := List.append_of_mem member
    exact foreign_idle foreign (run.at_step split).2
  refine ⟨?_, ?_⟩
  · have kept := run.without fun next member foreign =>
      (idle next member foreign).1
    unfold ownSteps
    convert kept
  · clear run
    induction taken with
    | nil => rfl
    | cons next rest induction =>
        have later := induction fun other member =>
          idle other (List.mem_cons_of_mem _ member)
        unfold ownSteps at later ⊢
        by_cases foreign : Foreign next
        · rw [List.filter_cons_of_neg (by simpa using foreign), later,
            List.flatMap_cons, (idle next List.mem_cons_self foreign).2,
            List.nil_append]
        · rw [List.filter_cons_of_pos (by simpa using foreign),
            List.flatMap_cons, List.flatMap_cons, later]

/-- Two sessions that start alike and differ in what they read of tables that
are not watched, end in the same state, have called the same handlers with the
same rows, and have shown the same in all other steps. -/
theorem foreign_invisible (run : Run (step crc) start taken final)
    (run' : Run (step crc) start other final')
    (alike : (ownSteps taken).map Taken.input =
      (ownSteps other).map Taken.input) :
    final = final' ∧
      taken.flatMap (·.effect.calls) = other.flatMap (·.effect.calls) ∧
      (ownSteps taken).map Taken.effect =
        (ownSteps other).map Taken.effect := by
  obtain ⟨own, calls⟩ := run_ownSteps run
  obtain ⟨own', calls'⟩ := run_ownSteps run'
  obtain ⟨steps, finals⟩ := own.determined own' alike
  exact ⟨finals, by rw [← calls, ← calls', steps], by rw [steps]⟩

/-- `d.t` is watched, and `t.t` is not. -/
def foreignStep : Taken Loop Input Effect :=
  mapStep mappedStep.after (sampleMap .t .t 3 2)

theorem foreignStep_foreign : Foreign foreignStep where
  defined := by decide +kernel
  reads := ⟨_, _, rfl, Or.inl ⟨2, CLogParser.mapsUnwatched_of_received
    (CFormatDescriptionLogEvent.ofServer_tuned [53] false)
    ⟨[], [0], rfl, by decide, rfl, rfl, by decide⟩ (by decide +kernel)⟩⟩

/-- The row (5) of `d.t`, with and without an event of `t.t` in front of it. -/
theorem foreign_invisible_insert :
    (insertStep foreignStep.after).after =
        (insertStep mappedStep.after).after ∧
      (insertStep foreignStep.after).effect.calls =
        (insertStep mappedStep.after).effect.calls := by
  have mapped : Run (step fun _ => 0) (sampleLoop false [([100], [116])])
      [mappedStep] mappedStep.after := mappedStep_run
  have passed : Run (step fun _ => 0) (sampleLoop false [([100], [116])])
      [mappedStep, foreignStep] foreignStep.after :=
    run_readStep _ mapped (by decide +kernel)
  have stays : foreignStep.after = mappedStep.after :=
    (foreign_idle foreignStep_foreign
      (step_read_of_ready (by decide +kernel))).1
  have run : Run (step fun _ => 0) (sampleLoop false [([100], [116])])
      [mappedStep, foreignStep, insertStep foreignStep.after]
      (insertStep foreignStep.after).after :=
    run_readStep _ passed (by decide +kernel)
  have run' : Run (step fun _ => 0) (sampleLoop false [([100], [116])])
      [mappedStep, insertStep mappedStep.after]
      (insertStep mappedStep.after).after :=
    run_readStep _ mapped (by decide +kernel)
  obtain ⟨same, calls, _⟩ := foreign_invisible run run' (by
    simp [ownSteps, List.filter_cons, foreignStep_foreign, stays])
  refine ⟨same, ?_⟩
  simpa [show foreignStep.effect.calls = [] by decide +kernel] using calls

end Loop

end MysqlSlave
