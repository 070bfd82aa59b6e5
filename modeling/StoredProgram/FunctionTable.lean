import StoredProgram.Word

set_option autoImplicit false

namespace StoredProgram

/-- Function numbers with their entries, the latest definition first. -/
structure FunctionTable where
  entries : List (Word × Word) := []
  deriving DecidableEq, Repr

namespace FunctionTable

def empty : FunctionTable := {}

/-- Defines `function` at `entry`, in place of an earlier definition. -/
def define (table : FunctionTable) (function entry : Word) : FunctionTable :=
  ⟨(function, entry) :: table.entries.filter fun e => e.1 ≠ function⟩

def find? (table : FunctionTable) (function : Word) : Option Word := table.entries.lookup function

def size (table : FunctionTable) : Nat := table.entries.length

@[simp] theorem find?_empty (function : Word) : empty.find? function = none := rfl

theorem find?_define_same (table : FunctionTable) (function entry : Word) :
    (table.define function entry).find? function = some entry := by
  simp [define, find?]

theorem find?_define_other (table : FunctionTable) {function other : Word} (entry : Word)
    (h : other ≠ function) : (table.define function entry).find? other = table.find? other := by
  obtain ⟨entries⟩ := table
  simp only [define, find?, List.lookup_cons, beq_false_of_ne h]
  induction entries with
  | nil => rfl
  | cons e entries ih =>
    obtain ⟨key, value⟩ := e
    by_cases same : key = function
    · rw [List.filter_cons_of_neg (by simp [same]), ih]
      simp only [List.lookup_cons, same, beq_false_of_ne h]
    · rw [List.filter_cons_of_pos (by simp [same])]
      simp only [List.lookup_cons, ih]

end FunctionTable
end StoredProgram
