import StoredProgram.Machine.Step

set_option autoImplicit false

namespace StoredProgram

inductive Ending where
  | halted
  | failed (fault : Fault)
  | unfinished
  deriving DecidableEq, Repr

/-- A run that is over: the machine afterwards, and the number of steps, the last one included. -/
structure Outcome where
  ending : Ending
  machine : Machine
  steps : Nat

namespace Machine

/-- Runs for at most `limit` further steps, after `done` steps. -/
def runFrom (done : Nat) : Nat → Machine → Outcome
  | 0, m => ⟨.unfinished, m, done⟩
  | limit + 1, m =>
    match Action.step m with
    | .ok .next m => runFrom (done + 1) limit m
    | .ok .halt m => ⟨.halted, m, done + 1⟩
    | .error fault m => ⟨.failed fault, m, done + 1⟩

/-- Adds the summary to the output of a traced machine. -/
def close (draw : Table → String) (m : Machine) : Machine :=
  if m.trace then { m with output := m.output ++ m.summary draw ++ "\n" } else m

/-- Runs for at most `limit` steps. A traced run that halts ends with the summary. -/
def run (draw : Table → String) (limit : Nat) (m : Machine) : Outcome :=
  match runFrom 0 limit m with
  | ⟨.halted, m, steps⟩ => ⟨.halted, m.close draw, steps⟩
  | outcome => outcome

end Machine
end StoredProgram
