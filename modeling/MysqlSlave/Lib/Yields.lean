import MysqlSlave.Lib.Region

/-!
# Runs with a known outcome

`run.Yields condition result`: the run gives the result if the condition holds and
faults otherwise.  The bytes a reader is given are what memory holds from its
pointer on.
-/

namespace Exec

variable {α β : Type}

structure Yields (run : Exec α) (condition : Prop) (result : α) : Prop where
  ok : condition → run = .ok result
  error : ¬condition → ∃ fault, run = .error fault

namespace Yields

variable {run : Exec α} {condition later : Prop} {result : α}

theorem pure (value : α) : Yields (.ok value) True value :=
  ⟨fun _ => rfl, fun impossible => absurd trivial impossible⟩

theorem fault (fault : Fault) (result : α) :
    Yields (.error fault) False result :=
  ⟨False.elim, fun _ => ⟨fault, rfl⟩⟩

theorem congr (yields : Yields run condition result)
    (same : condition ↔ later) : Yields run later result :=
  ⟨fun holds => yields.ok (same.mpr holds),
    fun fails => yields.error fun holds => fails (same.mp holds)⟩

theorem bind {next : α → Exec β} {final : β}
    (first : Yields run condition result)
    (second : condition → Yields (next result) later final) :
    Yields (run >>= next) (condition ∧ later) final := by
  constructor
  · rintro ⟨holds, laterHolds⟩
    rw [first.ok holds]
    exact (second holds).ok laterHolds
  · intro fails
    by_cases holds : condition
    · rw [first.ok holds]
      exact (second holds).error fun laterHolds => fails ⟨holds, laterHolds⟩
    · obtain ⟨fault, faulted⟩ := first.error holds
      rw [faulted]
      exact ⟨fault, rfl⟩

theorem map {next : α → Exec β} {final : β}
    (first : Yields run condition result) (last : next result = .ok final) :
    Yields (run >>= next) condition final := by
  refine (first.bind fun _ => ?_).congr (and_iff_left trivial)
  rw [last]
  exact pure final

/-- The run succeeds exactly if the condition holds. -/
theorem eq_ok_iff (yields : Yields run condition result) {value : α} :
    run = .ok value ↔ condition ∧ value = result := by
  by_cases holds : condition
  · rw [yields.ok holds, Except.ok.injEq, and_iff_right holds, eq_comm]
  · obtain ⟨fault, faulted⟩ := yields.error holds
    rw [faulted]
    simp [holds]

end Yields

end Exec

namespace Region

open Exec

section Drop

variable {memory rest : Bytes} {pointer : Nat}

theorem getElem?_of_drop {byte : UInt8}
    (here : memory.drop pointer = byte :: rest) :
    memory[pointer]? = some byte ∧ memory.drop (pointer + 1) = rest := by
  constructor
  · have first : (memory.drop pointer)[0]? = some byte := by rw [here]; rfl
    rwa [List.getElem?_drop, Nat.add_zero] at first
  · rw [← List.drop_drop, here, List.drop_one, List.tail_cons]

theorem drop_of_append {front : Bytes}
    (here : memory.drop pointer = front ++ rest) :
    memory.drop (pointer + front.length) = rest := by
  rw [← List.drop_drop, here, List.drop_left]

end Drop

theorem readLE_yields (memory : Bytes) (pointer : Nat) {width : Nat}
    (wide : 0 < width) :
    Yields (readLE memory pointer width)
      (width ≤ (memory.drop pointer).length)
      (littleEndian ((memory.drop pointer).take width)) := by
  constructor
  · intro fits
    rw [List.length_drop] at fits
    exact readLE_eq_ok (by omega)
  · intro outside
    rw [List.length_drop] at outside
    exact ⟨_, readLE_eq_error wide (by omega)⟩

theorem readBytes_yields (memory : Bytes) (pointer count : Nat) :
    Yields (readBytes memory pointer count)
      (count ≤ (memory.drop pointer).length)
      ((memory.drop pointer).take count) := by
  constructor
  · intro fits
    rw [List.length_drop] at fits
    rw [readBytes, if_pos (by omega)]
  · intro outside
    rw [List.length_drop] at outside
    exact ⟨_, by rw [readBytes, if_neg (by omega)]⟩

end Region
