import StoredProgram.Assembly.Statement
import StoredProgram.Image
import StoredProgram.Text.Lines

set_option autoImplicit false

namespace StoredProgram

/-- A refused line, by its number from 1 on. -/
structure AssemblyError where
  line : Nat
  cause : LineError
  deriving DecidableEq, Repr

def AssemblyError.message (e : AssemblyError) : String :=
  "Error on line " ++ Nat.repr e.line ++ ": " ++ e.cause.message

/-- An image under construction. -/
structure Draft where
  code : Array Word := #[]
  literals : LiteralPool := .empty
  deriving DecidableEq, Repr

namespace Draft

/-- Adds the lines of a text, the first of which has the given number. -/
def addLines : Draft → Nat → List String → Except AssemblyError Draft
  | draft, _, [] => .ok draft
  | ⟨code, literals⟩, number, line :: lines =>
    match assembleLine literals line with
    | (.error cause, _) => .error ⟨number, cause⟩
    | (.ok none, literals) => addLines ⟨code, literals⟩ (number + 1) lines
    | (.ok (some word), literals) => addLines ⟨code.push word, literals⟩ (number + 1) lines

def image (draft : Draft) : Image := ⟨draft.code.toList, draft.literals.pack⟩

end Draft

/-- The image of a source text. -/
def assemble (text : String) : Except AssemblyError Image := do
  let draft ← Draft.addLines {} 1 (Lines.split text)
  return draft.image

end StoredProgram
