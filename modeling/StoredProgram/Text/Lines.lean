set_option autoImplicit false

namespace StoredProgram.Lines

/-- Splits the rest of a text, given the line under way and the finished lines, both in reverse. -/
def splitFrom (line : List Char) (done : List String) : List Char → List String
  | [] => (if line = [] then done else String.ofList line.reverse :: done).reverse
  | c :: cs =>
    if c = '\n' then splitFrom [] (String.ofList line.reverse :: done) cs
    else splitFrom (c :: line) done cs

/-- The lines of a text, without their newlines. -/
def split (text : String) : List String := splitFrom [] [] text.toList

/-- The text that holds the given lines, each ended by a newline. -/
def join (lines : List String) : String := lines.foldl (fun text line => text ++ line ++ "\n") ""

end StoredProgram.Lines
