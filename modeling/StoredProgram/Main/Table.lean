import StoredProgram.Table
import StoredProgram.Text.Lines

set_option autoImplicit false

namespace StoredProgram.Table

def spaces (n : Nat) : String := String.ofList (List.replicate n ' ')

/-- The text of a cell in a field of `width` characters, without its padding. -/
def aligned (width : Nat) (cell : Cell) : String :=
  let room := spaces (width - cell.text.length)
  if cell.style.toList.contains 'r' then room ++ cell.text else cell.text ++ room

def line (format : TableFormat) (widths : List Nat) (cells : List Cell) : String :=
  let texts := (widths.zip cells).map fun field =>
    spaces format.padding.1 ++ aligned field.1 field.2 ++ spaces format.padding.2
  format.border.toString ++ format.separator.toString.intercalate texts ++ format.border.toString

def ruleLine (format : TableFormat) (widths : List Nat) (rule : Rule) : String :=
  let lines := widths.map fun width =>
    String.ofList (List.replicate (width + format.padding.1 + format.padding.2) rule.line)
  rule.left.toString ++ rule.junction.toString.intercalate lines ++ rule.right.toString

/-- The table as text. Each column is as wide as its longest text. -/
def text (table : Table) : String :=
  let widths := table.rows.foldl (fun widths row => widths.zipWith max (row.map fun cell => cell.text.length))
    (table.titles.map fun cell => cell.text.length)
  Lines.join <|
    [line table.format widths table.titles, ruleLine table.format widths table.format.titleRule] ++
      table.rows.map (line table.format widths) ++
      [ruleLine table.format widths table.format.bottomRule]

end StoredProgram.Table
