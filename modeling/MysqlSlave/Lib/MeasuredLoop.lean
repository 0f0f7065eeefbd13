import MysqlSlave.Lib.Region

/-!
# Loops that count something down

`while (measure ≠ 0) step`, run for a bounded number of rounds.  A loop whose
rounds all shorten the measure needs no more rounds than the measure it starts
with, and it has a result if they all come back.
-/

namespace Exec

variable {α β : Type}

/-- The run does not go on for ever: it has a result or faults. -/
def Settles (run : Exec α) : Prop := run ≠ .error .divergence

theorem settles_ok (value : α) : Settles (.ok value : Exec α) := by
  intro wrong
  cases wrong

theorem Settles.bind {run : Exec α} {next : α → Exec β} (first : run.Settles)
    (later : ∀ value, run = .ok value → (next value).Settles) :
    (run >>= next).Settles := by
  cases run with
  | ok value => exact later value rfl
  | error fault =>
      intro wrong
      apply first
      cases wrong
      rfl

end Exec

section Loop

variable {σ : Type} (step : σ → Exec σ) (measure : σ → Nat)

/-- `while (measure ≠ 0) step`, for at most this many rounds. -/
def whileRounds : Nat → σ → Exec σ
  | rounds, state =>
      if measure state = 0 then .ok state
      else
        match rounds with
        | 0 => .error .divergence
        | rounds + 1 => do
            let next ← step state
            whileRounds rounds next

/-- The states in which the loop condition is looked at. -/
inductive RoundsReach (start : σ) : σ → Prop where
  | start : RoundsReach start start
  | round {state next : σ} :
      RoundsReach start state →
      measure state ≠ 0 →
      step state = .ok next →
      RoundsReach start next

variable {step measure} {start final : σ}

theorem RoundsReach.cons {next : σ} (nonzero : measure start ≠ 0)
    (stepped : step start = .ok next)
    (reached : RoundsReach step measure next final) :
    RoundsReach step measure start final := by
  induction reached with
  | start => exact .round .start nonzero stepped
  | round _ positive later induction => exact .round induction positive later

theorem RoundsReach.invariant (good : σ → Prop) (initial : good start)
    (kept : ∀ state next, good state → measure state ≠ 0 →
      step state = .ok next → good next)
    (reached : RoundsReach step measure start final) : good final := by
  induction reached with
  | start => exact initial
  | round _ positive stepped induction =>
      exact kept _ _ induction positive stepped

theorem RoundsReach.eq_start (zero : measure start = 0)
    (reached : RoundsReach step measure start final) : final = start := by
  induction reached with
  | start => rfl
  | round _ nonzero _ induction =>
      rw [induction] at nonzero
      exact absurd zero nonzero

theorem whileRounds_reach {rounds : Nat}
    (run : whileRounds step measure rounds start = .ok final) :
    RoundsReach step measure start final ∧ measure final = 0 := by
  induction rounds generalizing start with
  | zero =>
      unfold whileRounds at run
      split at run
      · rename_i zero
        cases run
        exact ⟨.start, zero⟩
      · cases run
  | succ rounds induction =>
      unfold whileRounds at run
      split at run
      · rename_i zero
        cases run
        exact ⟨.start, zero⟩
      · rename_i nonzero
        obtain ⟨next, stepped, later⟩ := Exec.bind_eq_ok.mp run
        obtain ⟨reached, zero⟩ := induction later
        exact ⟨reached.cons nonzero stepped, zero⟩

/-- A loop whose rounds all shorten the measure ends within the measure. -/
theorem whileRounds_settles {rounds : Nat}
    (settles : ∀ state, (step state).Settles)
    (shortens : ∀ state next, RoundsReach step measure start state →
      measure state ≠ 0 → step state = .ok next →
      measure next < measure state)
    (enough : measure start ≤ rounds) :
    (whileRounds step measure rounds start).Settles := by
  induction rounds generalizing start with
  | zero =>
      unfold whileRounds
      rw [if_pos (by omega)]
      exact Exec.settles_ok start
  | succ rounds induction =>
      unfold whileRounds
      split
      · exact Exec.settles_ok start
      · rename_i nonzero
        apply (settles start).bind
        intro next stepped
        have less := shortens start next .start nonzero stepped
        apply induction
        · intro state later reached
          exact shortens state later (reached.cons nonzero stepped)
        · omega

theorem whileRounds_congr {other : σ → Exec σ} {good : σ → Prop}
    (same : ∀ state, good state → step state = other state)
    (kept : ∀ state next, good state → step state = .ok next → good next)
    (initial : good start) (rounds : Nat) :
    whileRounds step measure rounds start =
      whileRounds other measure rounds start := by
  induction rounds generalizing start with
  | zero =>
      unfold whileRounds
      rfl
  | succ rounds induction =>
      unfold whileRounds
      split
      · rfl
      · rw [← same start initial]
        cases stepped : step start with
        | error fault => rfl
        | ok next => exact induction (kept start next initial stepped)

end Loop
