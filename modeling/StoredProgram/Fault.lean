import StoredProgram.Instruction.Codec
import StoredProgram.LiteralPool

set_option autoImplicit false

namespace StoredProgram

inductive Fault where
  /-- The word at the instruction pointer is not an instruction. -/
  | instruction (e : DecodeError)
  /-- A literal to print is not in memory. -/
  | literal (e : LiteralError)
  /-- A function body starts at `address`, inside of another one. -/
  | nestedFunction (function address : Word)
  /-- A function is called that has no entry yet. -/
  | unknownFunction (function : Word)
  | addressOutOfBounds (address : Word)
  /-- The immediate is more than half a word. -/
  | immediateOutOfRange (immediate : Word)
  | invalidMemorySize (size : Nat)
  /-- So many words of an image do not fit in so many words of memory. -/
  | imageTooLarge (image memory : Nat)
  | endOfInput
  /-- The text on a line of input is not an integer of one word. -/
  | invalidInput (text : String)
  /-- A line of input is not text. -/
  | invalidUtf8
  deriving DecidableEq, Repr

def Fault.message : Fault → String
  | instruction e => e.message
  | literal e => e.message
  | nestedFunction function address =>
    "nested functions are not supported (FBEGIN " ++ function.unsignedText ++ " at " ++
      address.signedText ++ ")"
  | unknownFunction function => "function " ++ function.signedText ++ " has not been defined"
  | addressOutOfBounds address => "address " ++ address.signedText ++ " is outside of memory"
  | immediateOutOfRange immediate =>
    "immediate " ++ immediate.unsignedText ++ " does not fit in 16 bits"
  | invalidMemorySize size =>
    "memory of " ++ Nat.repr size ++ " words cannot hold the register file and be addressed"
  | imageTooLarge image memory =>
    "image of " ++ Nat.repr image ++ " words does not fit in " ++ Nat.repr memory ++
      " words of memory"
  | endOfInput => "unexpected end of input"
  | invalidInput text => "`" ++ text ++ "` is not an integer"
  | invalidUtf8 => "stream did not contain valid UTF-8"

end StoredProgram
