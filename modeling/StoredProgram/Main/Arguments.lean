import StoredProgram.Command
import StoredProgram.Text.Decimal

set_option autoImplicit false

namespace StoredProgram

/-- Arguments sorted into names and options. -/
structure Arguments where
  names : List String := []
  /-- The memory size, each time that it is given, with its value if there is one. -/
  sizes : List (Option String) := []
  deriving DecidableEq, Repr

namespace Arguments

def addName (args : Arguments) (name : String) : Arguments :=
  { args with names := args.names ++ [name] }

def addSize (args : Arguments) (value? : Option String) : Arguments :=
  { args with sizes := args.sizes ++ [value?] }

def isOption (text : String) : Bool := !decide (ArgumentParser.IsValue text)

def isLong (text : String) : Bool := ['-', '-'].isPrefixOf text.toList

/-- The name of a long option, and the value joined to it. Dashes in front of the name and equals signs
in front of the value may be more than it takes. -/
def longOption (text : String) : String × Option String :=
  let cs := text.toList.dropWhile (· = '-')
  let value? :=
    match cs.dropWhile (· ≠ '=') with
    | [] => none
    | joined => some (String.ofList (joined.dropWhile (· = '=')))
  (String.ofList (cs.takeWhile (· ≠ '=')), value?)

/-- Sorts arguments, after those sorted before. All that follows a double dash is a name. A memory size
that has no value joined to it takes the next argument as its value, unless that is an option. -/
def sort (args : Arguments) : List String → Option Arguments
  | [] => some args
  | text :: rest =>
    if text = "--" then some { args with names := args.names ++ rest }
    else if !isOption text then sort (args.addName text) rest
    else if !isLong text then none
    else
      let (name, value?) := longOption text
      if name ≠ "memory-size" then none
      else
        match value?, rest with
        | some value, rest => sort (args.addSize (some value)) rest
        | none, [] => some (args.addSize none)
        | none, next :: rest =>
          if isOption next then sort (args.addSize none) (next :: rest)
          else sort (args.addSize (some next)) rest

/-- Reads a number of words of memory, which may have a plus sign. -/
def size? (text : String) : Option Nat :=
  let numeral :=
    match text.toList with
    | '+' :: cs => cs
    | cs => cs
  (Decimal.natural? numeral).filter (· < ArgumentParser.sizeLimit)

/-- The memory size that is asked for. It may be given only once; if it is not given, or without a
value, it is the `usual` one. -/
def memorySize? (args : Arguments) (usual : Nat) : Option Nat :=
  match args.sizes with
  | [] => some usual
  | [none] => some usual
  | [some text] => size? text
  | _ => none

def usage : String :=
  "usage: vn-asm SOURCE OUTPUT\n       vn-disasm INPUT OUTPUT\n" ++
    "       vn-run INPUT [DEBUG] [--memory-size WORDS]"

def unusable : Report := { status := some 1, errors := usage ++ "\n" }

def conversion (args : List String) : Except Report Conversion :=
  match sort {} args with
  | some ⟨[source, target], []⟩ => .ok ⟨source, target⟩
  | _ => .error unusable

def runOptions (args : List String) : Except Report RunOptions :=
  match (sort {} args).map fun args => (args.names, args.memorySize? ({} : Config).memorySize) with
  | some ([source], some size) => .ok ⟨source, none, size⟩
  | some ([source, "DEBUG"], some size) => .ok ⟨source, some "DEBUG", size⟩
  | _ => .error unusable

def parser : ArgumentParser := ⟨conversion, conversion, runOptions⟩

end Arguments
end StoredProgram
