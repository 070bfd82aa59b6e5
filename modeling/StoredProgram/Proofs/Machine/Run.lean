import StoredProgram.Machine.Run
import StoredProgram.Proofs.Machine.Action

set_option autoImplicit false

namespace StoredProgram

namespace Machine

/-- The machine after `n` steps, whatever they give. -/
def afterSteps : Nat → Machine → Machine
  | 0, m => m
  | n + 1, m => Action.step.after (afterSteps n m)

theorem afterSteps_succ (n : Nat) (m : Machine) :
    afterSteps (n + 1) m = afterSteps n (Action.step.after m) := by
  induction n with
  | zero => rfl
  | succ n ih => rw [afterSteps, ih, afterSteps]

theorem afterSteps_add (n k : Nat) (m : Machine) :
    afterSteps (n + k) m = afterSteps k (afterSteps n m) := by
  induction k with
  | zero => rfl
  | succ k ih => rw [← Nat.add_assoc, afterSteps, ih, afterSteps]

theorem runFrom_succ (done limit : Nat) (m : Machine) :
    runFrom done (limit + 1) m =
      match Action.step.outcome m with
      | .ok .next => runFrom (done + 1) limit (Action.step.after m)
      | .ok .halt => ⟨.halted, Action.step.after m, done + 1⟩
      | .error fault => ⟨.failed fault, Action.step.after m, done + 1⟩ := by
  unfold Action.outcome Action.after
  rw [runFrom]
  cases Action.step m with
  | ok signal next => cases signal <;> rfl
  | error fault next => rfl

/-- A run takes steps, and the last one is the first that does not go on. -/
theorem machine_runFrom (done limit : Nat) (m : Machine) :
    ∃ n, (runFrom done limit m).steps = done + n ∧
      (runFrom done limit m).machine = afterSteps n m := by
  induction limit generalizing done m with
  | zero => exact ⟨0, rfl, rfl⟩
  | succ limit ih =>
      rw [runFrom_succ]
      split
      · obtain ⟨n, steps, machine⟩ := ih (done + 1) (Action.step.after m)
        refine ⟨n + 1, ?_, ?_⟩
        · rw [steps]
          omega
        · rw [machine, afterSteps_succ]
      · exact ⟨1, rfl, rfl⟩
      · exact ⟨1, rfl, rfl⟩

/-- Steps after which the machine goes on only shorten the run that is left. -/
theorem runFrom_of_next {m : Machine} {n : Nat}
    (next : ∀ k < n, Action.step.outcome (m.afterSteps k) = .ok .next) (done limit : Nat) :
    runFrom done (n + limit) m = runFrom (done + n) limit (m.afterSteps n) := by
  induction n generalizing m done with
  | zero =>
      rw [Nat.zero_add]
      rfl
  | succ n ih =>
      have first : Action.step.outcome m = .ok .next := next 0 (Nat.zero_lt_succ n)
      have later : ∀ k < n, Action.step.outcome ((Action.step.after m).afterSteps k) = .ok .next := by
        intro k before
        rw [← afterSteps_succ]
        exact next (k + 1) (Nat.succ_lt_succ before)
      rw [Nat.add_right_comm, runFrom_succ, first]
      dsimp only
      rw [ih later, afterSteps_succ, Nat.add_assoc, Nat.add_comm 1]

/-- The machine goes on after each of the next `n` steps, and they lead to `m'`. -/
structure Goes (m : Machine) (n : Nat) (m' : Machine) : Prop where
  next : ∀ k < n, Action.step.outcome (m.afterSteps k) = .ok .next
  there : m.afterSteps n = m'

namespace Goes

variable {m m' m'' : Machine} {n k : Nat}

theorem one (gives : Action.step.outcome m = .ok .next) (leaves : Action.step.after m = m') :
    m.Goes 1 m' := by
  refine ⟨?_, leaves⟩
  intro k first
  rwa [Nat.lt_one_iff.mp first]

theorem trans (first : m.Goes n m') (second : m'.Goes k m'') : m.Goes (n + k) m'' := by
  constructor
  · intro j before
    by_cases early : j < n
    · exact first.next j early
    · obtain ⟨further, rfl⟩ := Nat.exists_eq_add_of_le (Nat.not_lt.mp early)
      rw [afterSteps_add, first.there]
      exact second.next further (by omega)
  · rw [afterSteps_add, first.there, second.there]

theorem runFrom (goes : m.Goes n m') (done limit : Nat) :
    Machine.runFrom done (n + limit) m = Machine.runFrom (done + n) limit m' := by
  rw [runFrom_of_next goes.next, goes.there]

end Goes

/-- A run that is over does not depend on how many steps it was given. -/
theorem runFrom_of_ended {m : Machine} {done limit : Nat}
    (ended : (runFrom done limit m).ending ≠ .unfinished) (more : Nat) :
    runFrom done (limit + more) m = runFrom done limit m := by
  induction limit generalizing done m with
  | zero => exact absurd rfl ended
  | succ limit ih =>
      rw [Nat.add_right_comm]
      rw [runFrom_succ] at ended ⊢
      rw [runFrom_succ]
      split
      · rename_i next
        rw [next] at ended
        exact ih ended
      · rfl
      · rfl

/-- A run never ends in states that every step leads on to such states. -/
theorem unfinished_of_invariant {invariant : Machine → Prop}
    (step : ∀ m, invariant m →
      Action.step.outcome m = .ok .next ∧ invariant (Action.step.after m))
    {m : Machine} (start : invariant m) (done limit : Nat) :
    (runFrom done limit m).ending = .unfinished := by
  induction limit generalizing done m with
  | zero => rfl
  | succ limit ih =>
      obtain ⟨next, later⟩ := step m start
      rw [runFrom_succ, next]
      exact ih later (done + 1)

/-- The summary is one more entry of the trace. -/
theorem close_eq (draw : Table → String) (m : Machine) : m.close draw = m.logged (m.summary draw) := rfl

/-- A run that halts is closed, and any other run is left as it ended. -/
theorem run_cases (draw : Table → String) (limit : Nat) (m : Machine) :
    (m.run draw limit).ending = (runFrom 0 limit m).ending ∧
      (m.run draw limit).steps = (runFrom 0 limit m).steps ∧
      (m.run draw limit).machine = if (m.run draw limit).ending = .halted then
        (m.afterSteps (m.run draw limit).steps).close draw
      else m.afterSteps (m.run draw limit).steps := by
  obtain ⟨n, counted, reached⟩ := machine_runFrom 0 limit m
  unfold run
  split
  · rename_i last steps same
    rw [same] at counted reached
    have counted : steps = 0 + n := counted
    have reached : last = m.afterSteps n := reached
    rw [same, if_pos rfl, reached, counted, Nat.zero_add]
    exact ⟨rfl, rfl, rfl⟩
  · rename_i running
    have unfinished : (runFrom 0 limit m).ending ≠ .halted := by
      intro halted
      exact running (runFrom 0 limit m).machine (runFrom 0 limit m).steps (by rw [← halted])
    rw [if_neg unfinished, counted, Nat.zero_add]
    exact ⟨rfl, rfl, reached⟩

theorem run_of_ended {draw : Table → String} {m : Machine} {limit more : Nat}
    (ended : (m.run draw limit).ending ≠ .unfinished) (enough : limit ≤ more) :
    m.run draw more = m.run draw limit := by
  obtain ⟨further, rfl⟩ := Nat.exists_eq_add_of_le enough
  rw [(run_cases draw limit m).1] at ended
  rw [run, runFrom_of_ended ended, run]

/-- If the machine never ends from some step on, and does not end before, then it never ends. -/
theorem run_unfinished {m : Machine} {n : Nat}
    (next : ∀ k < n, Action.step.outcome (m.afterSteps k) = .ok .next)
    (later : ∀ done limit, (runFrom done limit (m.afterSteps n)).ending = .unfinished)
    (draw : Table → String) (limit : Nat) : (m.run draw limit).ending = .unfinished := by
  by_contra ended
  apply ended
  rw [← run_of_ended ended (Nat.le_add_left limit n), (run_cases draw _ m).1, runFrom_of_next next]
  exact later _ _

/-- Every run that is given enough steps ends in the fault, at step `n`. -/
def FailsAtStep (m : Machine) (n : Nat) (fault : Fault) : Prop :=
  ∀ draw limit, n ≤ limit → (m.run draw limit).ending = .failed fault ∧ (m.run draw limit).steps = n

/-- A run fails at a step that fails, if the machine goes on after all steps before that. -/
theorem failsAtStep_iff {m : Machine} {n : Nat} {fault : Fault}
    (next : ∀ k < n, Action.step.outcome (m.afterSteps k) = .ok .next) :
    m.FailsAtStep (n + 1) fault ↔ Action.step.outcome (m.afterSteps n) = .error fault := by
  have ran (further : Nat) : runFrom 0 (n + 1 + further) m = runFrom n (further + 1) (m.afterSteps n) := by
    rw [Nat.add_assoc, Nat.add_comm 1, runFrom_of_next next, Nat.zero_add]
  constructor
  · intro fails
    obtain ⟨failed, _⟩ := fails (fun _ => "") (n + 1) (Nat.le_refl _)
    rw [(run_cases _ (n + 1) m).1, ran 0, runFrom_succ] at failed
    split at failed
    · cases failed
    · cases failed
    · rename_i other found
      rw [found]
      cases failed
      rfl
  · intro fails draw limit enough
    obtain ⟨further, rfl⟩ := Nat.exists_eq_add_of_le enough
    obtain ⟨ending, steps, _⟩ := run_cases draw (n + 1 + further) m
    rw [ending, steps, ran, runFrom_succ, fails]
    exact ⟨rfl, rfl⟩

end Machine

/-- Step `k` is the latest of the first `n` steps at which the event takes place. -/
def IsLatest (event : Nat → Prop) (n k : Nat) : Prop :=
  k < n ∧ event k ∧ ∀ j, k < j → j < n → ¬ event j

namespace IsLatest

variable {event : Nat → Prop} {n k : Nat}

theorem succ_iff (happens : event n) : IsLatest event (n + 1) k ↔ k = n := by
  constructor
  · rintro ⟨before, _, last⟩
    by_cases earlier : k < n
    · exact absurd happens (last n earlier (by omega))
    · omega
  · intro same
    subst same
    exact ⟨by omega, happens, fun j later before => by omega⟩

theorem succ_iff_of_not (missing : ¬ event n) :
    IsLatest event (n + 1) k ↔ IsLatest event n k := by
  constructor
  · rintro ⟨before, happens, last⟩
    have different : k ≠ n := by
      intro same
      rw [same] at happens
      exact missing happens
    exact ⟨by omega, happens, fun j later earlier => last j later (by omega)⟩
  · rintro ⟨before, happens, last⟩
    refine ⟨by omega, happens, ?_⟩
    intro j later earlier
    by_cases same : j = n
    · rwa [same]
    · exact last j later (by omega)

/-- After an event there is a latest one. -/
theorem exists_from (before : k < n) (happens : event k) : ∃ j, k ≤ j ∧ IsLatest event n j := by
  induction n with
  | zero => omega
  | succ n ih =>
      by_cases last : event n
      · exact ⟨n, by omega, (succ_iff last).mpr rfl⟩
      · have earlier : k < n := by
          by_cases same : k = n
          · rw [same] at happens
            exact absurd happens last
          · omega
        obtain ⟨j, from_, latest⟩ := ih earlier
        exact ⟨j, from_, (succ_iff_of_not last).mpr latest⟩

end IsLatest
end StoredProgram
