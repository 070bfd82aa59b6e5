import StoredProgram.Fault
import StoredProgram.Text.Blank
import StoredProgram.Text.Decimal

set_option autoImplicit false

namespace StoredProgram.Input

def newline : UInt8 := 10

/-- The first line, without its newline. -/
def line (input : List UInt8) : List UInt8 := input.takeWhile (· ≠ newline)

/-- What follows the first line and its newline. -/
def afterLine (input : List UInt8) : List UInt8 := (input.dropWhile (· ≠ newline)).drop 1

/-- The integer on a line. Blanks around it do not count, and it has to fit in a signed word. -/
def value (line : List UInt8) : Except Fault Word :=
  match String.fromUTF8? ⟨line.toArray⟩ with
  | none => .error .invalidUtf8
  | some text =>
    let numeral := Blank.trim text.toList
    match Decimal.integer? numeral with
    | some n =>
      let word := BitVec.ofInt 32 n
      if word.toInt = n then .ok word else .error (.invalidInput (String.ofList numeral))
    | none => .error (.invalidInput (String.ofList numeral))

end StoredProgram.Input
