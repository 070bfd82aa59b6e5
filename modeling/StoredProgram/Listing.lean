import StoredProgram.Image
import StoredProgram.Instruction.Codec
import StoredProgram.LiteralPool
import StoredProgram.Text.Lines

set_option autoImplicit false

namespace StoredProgram

inductive ListingError where
  | word (e : DecodeError)
  | literal (e : LiteralError)
  deriving DecidableEq, Repr

def ListingError.message : ListingError → String
  | word e => e.message
  | literal e => e.message

/-- The instruction as a line of assembly, with the literal that it prints. -/
def Instruction.listing (pool : List Word) : Instruction → Except LiteralError String
  | i@(imm .printLiteral index) => do
    return i.opcode.mnemonic ++ " " ++ (← LiteralPool.lookup pool index)
  | i => .ok i.text

def Word.listing (pool : List Word) (w : Word) : Except ListingError String :=
  match Instruction.decode w with
  | .error e => .error (.word e)
  | .ok i =>
    match i.listing pool with
    | .error e => .error (.literal e)
    | .ok line => .ok line

/-- The listing of all instructions. The first one that has no line is the error. -/
def Image.listing (image : Image) : Except ListingError String := do
  return Lines.join (← image.code.mapM (Word.listing image.static))

end StoredProgram
