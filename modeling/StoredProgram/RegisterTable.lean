import StoredProgram.Register
import StoredProgram.Table
import StoredProgram.Word

set_option autoImplicit false

namespace StoredProgram.RegisterTable

def format : TableFormat where
  separator := '│'
  border := ' '
  titleRule := ⟨'─', '┼', ' ', ' '⟩
  bottomRule := ⟨'─', '┴', ' ', ' '⟩
  padding := (1, 1)

/-- The row of cell `i`. The register file is named round and round in steps of 256 cells, and cell 0
is marked as the instruction pointer. -/
def row (i : Nat) (value : Word) : List Cell :=
  [⟨(if i = 0 then "* --> " else "") ++ Register.nameAt (i % 256) ++ " =", "r"⟩, ⟨value.signedText, ""⟩]

def table (values : List Word) : Table where
  format
  titles := [⟨"Register", "ubr"⟩, ⟨"Contents", "ubl"⟩]
  rows := values.mapIdx row

end StoredProgram.RegisterTable
