import StoredProgram.Opcode
import StoredProgram.Register
import StoredProgram.Word

set_option autoImplicit false

namespace StoredProgram.Trace

/-- What every line of a trace starts with. -/
def mark : String := "[DEBUG] "

def loaded (count : Nat) : String := mark ++ "Loaded " ++ Nat.repr count ++ " instructions"

/-- The instruction `word` with operation `op` was fetched from address `ip`. -/
def fetched (ip : Word) (op : Opcode) (word : Word) : String :=
  mark ++ "#" ++ ip.signedText ++ " " ++ op.mnemonic ++ ": " ++ word.binary

/-- The effect of an instruction, as named numbers. -/
def effect (name : String) (fields : List (String × Int)) : String :=
  mark ++ name ++ ": " ++ ", ".intercalate (fields.map fun field => field.1 ++ "=" ++ Int.repr field.2)

end StoredProgram.Trace
