import StoredProgram.Machine
import StoredProgram.Trace

set_option autoImplicit false

namespace StoredProgram

/-- A change of the machine that gives a result or ends in a fault. What was changed before the fault stays
changed. -/
abbrev Action := EStateM Fault Machine

namespace Action

/-- Looks something up in the machine. -/
def query {α : Type} (f : Machine → Except Fault α) : Action α := fun m =>
  match f m with
  | .ok a => .ok a m
  | .error fault => .error fault m

def resolve (r : Reference) : Action Word := query (·.resolve r)

def read (address : Word) : Action Word := query (·.memory.read address)

@[inline] def change (f : Memory → Except Fault Memory) : Action Unit := fun m =>
  match f m.memory with
  | .ok memory => .ok () { m with memory }
  | .error fault => .error fault m

def write (address value : Word) : Action Unit := change (·.write address value)

/-- The contents of a register, which is read like any other cell. -/
def register (r : Register) : Action Word := read (BitVec.ofNat 32 r.val)

def setRegister (r : Register) (value : Word) : Action Unit := write (BitVec.ofNat 32 r.val) value

/-- Adds a line to the output. Writing output is assumed not to fail. -/
def printLine (line : String) : Action Unit :=
  modify fun m => { m with output := m.output ++ line ++ "\n" }

/-- Adds a line to the output if the run is traced. -/
def traceLine (line : Unit → String) : Action Unit := fun m =>
  if m.trace then printLine (line ()) m else .ok () m

def traceEffect (op : Opcode) (fields : List (String × Int)) : Action Unit :=
  traceLine fun _ => Trace.effect op.mnemonic fields

/-- Moves on to the next instruction. -/
def advance : Action Unit := do
  setRegister .ip ((← register .ip) + 1)

/-- Moves the stack pointer down by one word, and gives the address of the new top. -/
def growStack : Action Word := do
  let top := (← register .sp) - 1
  setRegister .sp top
  return top

end Action
end StoredProgram
