import MysqlSlave.EventDispatch
import MysqlSlave.RowsEventFormat

/-!
# Routing

The table of a handler call is the one `_id_2_table` has for the id of the ROWS
event.  A TABLE_MAP event of a table that is not watched leaves that map alone, so
the id may still lead to the table it had before.
-/

namespace MysqlSlave

open Region

@[simp] theorem CLogParser.handlerCall_table (type : LogEventType)
    (tbl : Address) (table : CTable) :
    (handlerCall type tbl table).table = tbl := by
  unfold handlerCall
  split
  · rfl
  · split <;> rfl

namespace Loop

variable {crc : Bytes → Nat} {start final : Loop}
  {taken front back : List (Taken Loop Input Effect)}
  {next : Taken Loop Input Effect} {tableId : Nat} {target : Option Address}
  {type : LogEventType} {memory : Bytes} {rlev : CRowLogEvent}

/-- The step reads a TABLE_MAP event with this id; `target` is the watched table
it names. -/
def Carries (next : Taken Loop Input Effect) (tableId : Nat)
    (target : Option Address) : Prop :=
  (∃ tblName tbl, MapsTable next tblName tableId tbl ∧ target = some tbl) ∨
    MapsUnwatched next tableId ∧ target = none

/-- `target` is the watched table that the most recent TABLE_MAP event with this
id names; there is none if that event names none or there is no such event. -/
def LeadsTo (front : List (Taken Loop Input Effect)) (tableId : Nat)
    (target : Option Address) : Prop :=
  Latest (fun next target => Carries next tableId target) front target ∨
    (∀ earlier ∈ front, ∀ other, ¬Carries earlier tableId other) ∧
      target = none

/-- A TABLE_MAP event of a watched table has carried this id. -/
def WasMapped (front : List (Taken Loop Input Effect)) (tableId : Nat) :
    Prop :=
  ∃ earlier ∈ front, ∃ tblName tbl, MapsTable earlier tblName tableId tbl

theorem idToTable_eq_none_iff (prepared : start.Prepared)
    (run : Run (step crc) start taken final) :
    final.parser.idToTable tableId = none ↔ ¬WasMapped taken tableId := by
  constructor
  · rintro none ⟨earlier, member, name, tbl, maps⟩
    rcases Latest.exists_or_silent
      (fun next tbl => ∃ name, MapsTable next name tableId tbl) taken with
      ⟨other, latest⟩ | silent
    · rw [← idToTable_iff_latest prepared run, none] at latest
      cases latest
    · exact silent earlier member tbl ⟨name, maps⟩
  · intro unmapped
    cases found : final.parser.idToTable tableId with
    | none => rfl
    | some tbl =>
        rw [idToTable_iff_latest prepared run] at found
        obtain ⟨earlier, member, name, maps⟩ := found.exists_mem
        exact absurd ⟨earlier, member, name, tbl, maps⟩ unmapped

theorem idToTable_of_leadsTo {tbl : Address} (prepared : start.Prepared)
    (run : Run (step crc) start taken final)
    (leads : LeadsTo taken tableId (some tbl)) :
    final.parser.idToTable tableId = some tbl := by
  rw [idToTable_iff_latest prepared run]
  rcases leads with ⟨front, next, back, rfl, carries, silent⟩ | ⟨_, none⟩
  · refine ⟨front, next, back, rfl, ?_, ?_⟩
    · rcases carries with ⟨name, other, maps, same⟩ | ⟨_, none⟩
      · cases same
        exact ⟨name, maps⟩
      · cases none
    · rintro later member other ⟨name, maps⟩
      exact silent later member (some other)
        (Or.inl ⟨name, other, maps, rfl⟩)
  · cases none

/-- In every run, a ROWS event goes to the table its id leads to, and to none if
it leads to none, exactly if in the second case no watched table had the id
before. -/
theorem routed_iff (prepared : start.Prepared)
    (run : Run (step crc) start taken final)
    (split : taken = front ++ next :: back)
    (rows : ReadsRows next type memory rlev)
    (defined : next.effect.exit.isUndefined = false)
    (leads : LeadsTo front rlev.tableId target) :
    next.effect.calls.map HandlerCall.table = target.toList ↔
      (target = none → ¬WasMapped front rlev.tableId) := by
  obtain ⟨earlier, stepped⟩ := run.at_step split
  have called : next.effect.calls.map HandlerCall.table =
      (next.before.parser.idToTable rlev.tableId).toList := by
    have outcome := step_rows stepped rows defined
    generalize next.effect.calls = calls at outcome ⊢
    generalize next.after.parser = after at outcome
    cases outcome with
    | unmapped _ none => simp [none]
    | delivered _ mapped updated => simp [mapped]
  rw [called]
  cases target with
  | none =>
      simp only [Option.toList_none, Option.toList_eq_nil_iff, forall_const]
      exact idToTable_eq_none_iff prepared earlier
  | some tbl => simp [idToTable_of_leadsTo prepared earlier leads]

/-- The id goes to `d.x`, which is not watched. -/
def reusedStep : Taken Loop Input Effect :=
  mapStep mappedStep.after (sampleMap .d .x 3 1)

theorem reusedStep_run :
    Run (step fun _ => 0) (sampleLoop false [([100], [116])])
      [mappedStep, reusedStep, insertStep reusedStep.after]
      (insertStep reusedStep.after).after :=
  run_readStep _ (run_readStep _ mappedStep_run (by decide +kernel))
    (by decide +kernel)

/-- The row of `d.x` is handed over as one of `d.t`. -/
theorem not_routed_reused :
    (sampleLoop false [([100], [116])]).Prepared ∧
      Run (step fun _ => 0) (sampleLoop false [([100], [116])])
        [mappedStep, reusedStep, insertStep reusedStep.after]
        (insertStep reusedStep.after).after ∧
      (∃ memory rlev, ReadsRows (insertStep reusedStep.after) .writeRowsEvent
        memory rlev ∧ rlev.tableId = 1) ∧
      LeadsTo [mappedStep, reusedStep] 1 none ∧
      (insertStep reusedStep.after).effect.calls.map HandlerCall.table =
        [0] := by
  have unwatched : MapsUnwatched reusedStep 1 :=
    ⟨_, _, rfl, CLogParser.mapsUnwatched_of_received
      ⟨by decide +kernel, by decide +kernel, by decide +kernel⟩
      ⟨[], [0], by decide +kernel, by decide, rfl, rfl, by decide⟩
      (by decide +kernel)⟩
  refine ⟨sampleLoop_prepared _ _, reusedStep_run, ?_, ?_, by decide +kernel⟩
  · obtain ⟨rlev, reads, parsed⟩ := rowsStep_reads reusedStep.after
      (sampleRows .write 1 [0, 5, 0, 0, 0])
      ⟨by decide +kernel, by decide +kernel, by decide +kernel⟩
      (by decide +kernel) (by decide)
    exact ⟨_, rlev, reads, parsed.tableId⟩
  · exact Or.inl ⟨[mappedStep], reusedStep, [], rfl, Or.inr ⟨unwatched, rfl⟩,
      by simp⟩

theorem routed_iff_mapped :
    (insertStep mappedStep.after).effect.calls.map HandlerCall.table =
      [0] := by
  have run : Run (step fun _ => 0) (sampleLoop false [([100], [116])])
      [mappedStep, insertStep mappedStep.after]
      (insertStep mappedStep.after).after :=
    run_readStep _ mappedStep_run (by decide +kernel)
  have maps : MapsTable mappedStep [116] 1 0 :=
    mapStep_maps _ _ (CFormatDescriptionLogEvent.ofServer_tuned _ _) rfl
      (by decide) (by decide +kernel)
  have leads : LeadsTo [mappedStep] 1 (some 0) :=
    Or.inl ⟨[], mappedStep, [], rfl, Or.inl ⟨_, _, maps, rfl⟩, by simp⟩
  obtain ⟨rlev, rows, parsed⟩ := rowsStep_reads mappedStep.after
    (sampleRows .write 1 [0, 5, 0, 0, 0])
    ⟨by decide +kernel, by decide +kernel, by decide +kernel⟩
    (by decide +kernel) (by decide)
  have split : [mappedStep, insertStep mappedStep.after] =
      [mappedStep] ++ insertStep mappedStep.after :: [] := rfl
  have id : rlev.tableId = 1 := parsed.tableId
  rw [← id] at leads
  exact (routed_iff (sampleLoop_prepared _ _) run split rows
    (by decide +kernel) leads).mpr nofun

end Loop

end MysqlSlave
