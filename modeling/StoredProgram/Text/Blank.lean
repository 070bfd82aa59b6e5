set_option autoImplicit false

namespace StoredProgram.Blank

/-- The ranges of code points with the property White_Space, ends included. -/
def ranges : List (Nat × Nat) :=
  [(0x09, 0x0D), (0x20, 0x20), (0x85, 0x85), (0xA0, 0xA0), (0x1680, 0x1680), (0x2000, 0x200A),
    (0x2028, 0x2029), (0x202F, 0x202F), (0x205F, 0x205F), (0x3000, 0x3000)]

def isBlank (c : Char) : Bool :=
  ranges.any fun r => r.1 ≤ c.toNat && c.toNat ≤ r.2

/-- The text without the blanks at its two ends. -/
def trim (cs : List Char) : List Char :=
  ((cs.dropWhile isBlank).reverse.dropWhile isBlank).reverse

/-- The longest prefix without a blank. -/
def token (cs : List Char) : List Char := cs.takeWhile fun c => !isBlank c

/-- What follows the first token, the blank after it included. -/
def afterToken (cs : List Char) : List Char := cs.dropWhile fun c => !isBlank c

/-- Ends the field under way, whose characters are held in reverse. An empty field is no field. -/
def closeField (field : List Char) (done : List (List Char)) : List (List Char) :=
  if field = [] then done else field.reverse :: done

/-- Splits the rest of a text, given the field under way and the finished fields, both in reverse. -/
def fieldsFrom (field : List Char) (done : List (List Char)) : List Char → List (List Char)
  | [] => (closeField field done).reverse
  | c :: cs =>
    if isBlank c then fieldsFrom [] (closeField field done) cs else fieldsFrom (c :: field) done cs

/-- The maximal runs of characters that are not blank. -/
def fields (cs : List Char) : List (List Char) := fieldsFrom [] [] cs

end StoredProgram.Blank
