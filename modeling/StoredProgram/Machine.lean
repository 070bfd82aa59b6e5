import StoredProgram.FunctionTable
import StoredProgram.Memory
import StoredProgram.RegisterTable

set_option autoImplicit false

/-!
The state of the machine. One memory holds everything that a program works on: the registers in the
lowest cells, then the code, the literal pool right behind it, and the stack, which grows down from the
top.
-/
namespace StoredProgram

/-- What is chosen when a machine is made. -/
structure Config where
  /-- The number of words of memory, the register file included. -/
  memorySize : Nat := 10000000
  /-- Whether every instruction adds a line to the output. -/
  trace : Bool := false
  deriving DecidableEq, Repr

namespace Config

/-- A memory holds more than the register file, and every address in it is a signed word, the one just
past its end included. -/
def check (config : Config) : Except Fault Unit :=
  if Register.count < config.memorySize ∧ config.memorySize < Word.signedLimit then .ok ()
  else .error (.invalidMemorySize config.memorySize)

end Config

/-- Everything that a program can change, and the choices made with the machine. -/
structure Machine where
  memory : Memory
  functions : FunctionTable := .empty
  /-- Set between the start and the end of a function body while it is passed over. -/
  inBody : Bool := false
  /-- Where the literal pool starts. -/
  staticBase : Nat := Register.count
  /-- The number of instructions in the image loaded last. -/
  instructionCount : Nat := 0
  trace : Bool
  /-- The input not read so far. -/
  input : List UInt8
  /-- All output so far. -/
  output : String := ""

namespace Machine

def create (config : Config) (input : List UInt8) : Except Fault Machine := do
  config.check
  return { memory := .zero config.memorySize, trace := config.trace, input }

def register (m : Machine) (r : Register) : Word := m.memory.cell r.val

/-- The value, or address, that a reference denotes. -/
def resolve (m : Machine) (r : Reference) : Except Fault Word :=
  m.memory.resolve (BitVec.ofNat 32 r.register.val) r.level.val

/-- The machine at a glance: three counts, and the registers in a table that is drawn by `draw`. -/
def summary (draw : Table → String) (m : Machine) : String :=
  "Instructions: " ++ Nat.repr m.instructionCount ++ "\tFunctions: " ++ Nat.repr m.functions.size ++
    "\tStatic base: " ++ Nat.repr m.staticBase ++ "\n" ++ draw (RegisterTable.table m.memory.registers)

end Machine
end StoredProgram
