set_option autoImplicit false

namespace StoredProgram

/-- A horizontal line across a table, with a junction where it meets a separator of columns. -/
structure Rule where
  line : Char
  junction : Char
  left : Char
  right : Char
  deriving DecidableEq, Repr

structure TableFormat where
  separator : Char
  border : Char
  titleRule : Rule
  bottomRule : Rule
  /-- The number of spaces on both sides of a text. -/
  padding : Nat × Nat
  deriving DecidableEq, Repr

/-- A text with the letters of its style, such as `r` for the right edge and `b` for bold. -/
structure Cell where
  text : String
  style : String := ""
  deriving DecidableEq, Repr

structure Table where
  format : TableFormat
  titles : List Cell
  rows : List (List Cell)
  deriving DecidableEq, Repr

end StoredProgram
