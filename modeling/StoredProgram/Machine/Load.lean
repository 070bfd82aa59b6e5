import StoredProgram.Image
import StoredProgram.Machine.Action

set_option autoImplicit false

namespace StoredProgram

namespace Action

def reset : Action Unit :=
  modify fun m => { m with memory := .zero m.memory.size, functions := .empty, inBody := false }

/-- Clears the machine, points it at the first instruction and at an empty stack, and copies code and
static data behind the register file. The instruction count and the place of the pool are only set once
all has been copied. -/
def load (image : Image) : Action Unit := do
  reset
  setRegister .ip (BitVec.ofNat 32 Register.count)
  setRegister .sp (BitVec.ofNat 32 (← get).memory.size)
  change (·.copy Register.count image.code)
  change (·.copy (Register.count + image.code.length) image.static)
  modify fun m =>
    { m with
      instructionCount := image.code.length
      staticBase := Register.count + image.code.length }
  traceLine fun _ => Trace.loaded image.code.length

end Action

def Machine.withImage (image : Image) (config : Config) (input : List UInt8) :
    Except Fault Machine := do
  let m ← Machine.create config input
  match Action.load image m with
  | .ok _ m => return m
  | .error fault _ => throw fault

end StoredProgram
