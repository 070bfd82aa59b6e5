import StoredProgram.Opcode

set_option autoImplicit false

namespace StoredProgram

inductive LineError where
  | unknownInstruction (name : String)
  | invalidRegister (token : String)
  /-- The token has the form of a reference, but more stars than there are levels. -/
  | tooManyIndirections (token : String)
  /-- The numeral denotes a number of more than `width` bits. -/
  | immediateOutOfRange (literal : String) (width : Nat)
  /-- The token is not a numeral. -/
  | invalidImmediate (token : String)
  /-- The operation comes with `given` operands, and that is not its number of operands. -/
  | wrongArity (op : Opcode) (given : Nat)
  deriving DecidableEq, Repr

def LineError.message : LineError → String
  | unknownInstruction name => "unknown instruction `" ++ name ++ "`"
  | invalidRegister token => "`" ++ token ++ "` is not a register"
  | tooManyIndirections token => "`" ++ token ++ "` has more than 7 levels of indirection"
  | immediateOutOfRange literal width =>
    "immediate " ++ literal ++ " does not fit in " ++ Nat.repr width ++ " bits"
  | invalidImmediate token => "`" ++ token ++ "` is not a non-negative integer"
  | wrongArity op given =>
    op.mnemonic ++ " requires " ++ Nat.repr op.shape.arity ++ " operands but was given " ++
      Nat.repr given

end StoredProgram
