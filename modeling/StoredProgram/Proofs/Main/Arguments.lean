import StoredProgram.Main.Arguments
import StoredProgram.Proofs.Text.Decimal

set_option autoImplicit false

namespace StoredProgram.Arguments

open ArgumentParser

/-- An argument that is no option is a name. -/
theorem sort_value {text : String} (value : IsValue text) (args : Arguments) (rest : List String) :
    sort args (text :: rest) = sort (args.addName text) rest := by
  have dashes : text ≠ "--" := by
    rintro rfl
    revert value
    decide
  rw [sort, if_neg dashes, isOption, decide_eq_true value]
  rfl

theorem conversion_values {source target : String} (first : IsValue source) (second : IsValue target) :
    conversion [source, target] = .ok ⟨source, target⟩ := by
  rw [conversion, sort_value first, sort_value second]
  rfl

/-- The option takes the argument behind it as its value. -/
theorem sort_size {value : String} (isValue : IsValue value) (args : Arguments) (rest : List String) :
    sort args ("--memory-size" :: value :: rest) = sort (args.addSize (some value)) rest := by
  have option : isOption "--memory-size" = true := by decide
  have long : isLong "--memory-size" = true := by decide
  have split : longOption "--memory-size" = ("memory-size", none) := by decide
  have taken : isOption value = false := by rw [isOption, decide_eq_true isValue, Bool.not_true]
  rw [sort, if_neg (by decide), option, long, split]
  simp [taken]

theorem isDigit_of_mem_repr {n : Nat} {c : Char} (member : c ∈ (Nat.repr n).toList) : c.isDigit = true := by
  rw [Nat.toList_repr] at member
  exact Nat.isDigit_of_mem_toDigits (by decide) (by decide) member

/-- A numeral is a value, since it starts with a digit. -/
theorem isValue_repr (n : Nat) : IsValue (Nat.repr n) := by
  refine Or.inr fun first => ?_
  have digit := isDigit_of_mem_repr (List.mem_of_mem_head? first)
  exact absurd digit (by decide)

theorem size?_repr {n : Nat} (small : n < sizeLimit) : size? (Nat.repr n) = some n := by
  have noSign (cs : List Char) : (Nat.repr n).toList ≠ '+' :: cs := by
    intro same
    have digit := isDigit_of_mem_repr (same ▸ List.mem_cons_self)
    exact absurd digit (by decide)
  unfold size?
  split
  · rename_i cs signed
    exact absurd signed (noSign cs)
  · dsimp only
    rw [Nat.toList_repr, Decimal.natural?_toDigits]
    simp [small]

theorem documented : parser.Documented where
  assembler first second := conversion_values first second
  disassembler first second := conversion_values first second
  runner := by
    intro source size value small
    have sorted : sort {} [source, "--memory-size", Nat.repr size] =
        some { names := [source], sizes := [some (Nat.repr size)] } := by
      rw [sort_value value, sort_size (isValue_repr size)]
      rfl
    have asked : memorySize? ⟨[source], [some (Nat.repr size)]⟩ ({} : Config).memorySize = some size :=
      size?_repr small
    change runOptions _ = _
    simp only [runOptions, sorted, Option.map_some, asked]

end StoredProgram.Arguments
