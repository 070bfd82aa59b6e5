import StoredProgram.Proofs.Machine.Reading

set_option autoImplicit false

namespace StoredProgram

inductive Event where
  | load (image : Image)
  | step

namespace Machine

/-- The address that the next step reads an integer for. -/
def lineFor? (m : Machine) : Option Word :=
  if m.inBody then none
  else
    match Action.fetch.outcome m with
    | .ok (.ref .read destination) => (m.resolve destination).toOption
    | _ => none

theorem takesLine_iff (m : Machine) : m.lineFor?.isSome = true ↔ m.TakesLine := by
  unfold lineFor? TakesLine
  cases inside : m.inBody with
  | true => simp
  | false =>
      simp only [Bool.false_eq_true, if_false, true_and]
      split
      · rename_i destination fetched
        cases resolved : m.resolve destination with
        | ok address => simp [Except.toOption, fetched, resolved]
        | error fault => simp [Except.toOption, fetched, resolved]
      · rename_i other
        constructor
        · intro impossible
          cases impossible
        · rintro ⟨destination, _, fetched, _⟩
          exact absurd fetched (other destination)

instance (m : Machine) : Decidable m.TakesLine := decidable_of_iff _ (takesLine_iff m)

end Machine

namespace Event

def after : Event → Machine → Machine
  | load image, m => (Action.load image).after m
  | step, m => Action.step.after m

/-- A load that succeeds gives nothing, and a step gives its signal. -/
def result : Event → Machine → Except Fault (Option Signal)
  | load image, m => ((Action.load image).outcome m).map fun _ => none
  | step, m => (Action.step.outcome m).map some

/-- Loads take no input. -/
def TakesLine : Event → Machine → Prop
  | load _, _ => False
  | step, m => m.TakesLine

instance : (event : Event) → (m : Machine) → Decidable (event.TakesLine m)
  | load _, _ => inferInstanceAs (Decidable False)
  | step, m => inferInstanceAs (Decidable m.TakesLine)

variable {event : Event} {m : Machine}

end Event

namespace Machine

variable {m : Machine} {history : List Event}

end Machine
end StoredProgram
