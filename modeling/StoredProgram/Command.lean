import StoredProgram.Assembly
import StoredProgram.Files
import StoredProgram.Image.Bytes
import StoredProgram.Listing
import StoredProgram.Machine.Load
import StoredProgram.Machine.Run

set_option autoImplicit false

namespace StoredProgram

/-- The commands by name: `vn-asm`, `vn-disasm` and `vn-run`. -/
inductive Tool where
  | assembler
  | disassembler
  | runner
  deriving DecidableEq, Repr

/-- What the first two commands take: the file to read, and the file to write. -/
structure Conversion where
  source : String
  target : String
  deriving DecidableEq, Repr

structure RunOptions where
  source : String
  mode : Option String
  memorySize : Nat
  deriving DecidableEq, Repr

/-- Any mode turns the trace on. -/
def RunOptions.config (options : RunOptions) : Config :=
  { memorySize := options.memorySize, trace := options.mode.isSome || ({} : Config).trace }

inductive Command where
  | assemble (options : Conversion)
  | disassemble (options : Conversion)
  | run (options : RunOptions)
  deriving DecidableEq, Repr

/-- What is left of a command that has ended: its exit status, and what it printed on standard output and
on standard error. A run that is given up has no exit status. -/
structure Report where
  status : Option UInt32 := some 0
  output : String := ""
  errors : String := ""
  deriving DecidableEq, Repr

def Report.failure (message output : String) : Report :=
  ⟨some 1, output, "Error: " ++ message ++ "\n"⟩

/-- How arguments are read. A parser gives the options that they stand for, or else ends the command
itself, with a report: so it does if they are not in order, or ask for help. -/
structure ArgumentParser where
  assembler : List String → Except Report Conversion
  disassembler : List String → Except Report Conversion
  runner : List String → Except Report RunOptions

namespace ArgumentParser

/-- An argument that is a value by its form, and not an option: it is a dash, or does not start with one. -/
def IsValue (text : String) : Prop := text = "-" ∨ text.toList.head? ≠ some '-'

instance (text : String) : Decidable (IsValue text) := inferInstanceAs (Decidable (_ ∨ _))

/-- Numbers on the command line have at most 64 bits. -/
def sizeLimit : Nat := 18446744073709551616

/-- What is known of a parser: values stand for the paths in their order, and the memory size is a numeral
behind its option. -/
structure Documented (parser : ArgumentParser) : Prop where
  assembler {source target : String} : IsValue source → IsValue target →
    parser.assembler [source, target] = .ok ⟨source, target⟩
  disassembler {source target : String} : IsValue source → IsValue target →
    parser.disassembler [source, target] = .ok ⟨source, target⟩
  runner {source : String} {size : Nat} : IsValue source → size < sizeLimit →
    parser.runner [source, "--memory-size", Nat.repr size] = .ok ⟨source, none, size⟩

end ArgumentParser

/-- A call of a command: its arguments, and what is on its standard input. -/
structure Invocation where
  tool : Tool
  args : List String
  input : List UInt8 := []
  deriving DecidableEq, Repr

def Invocation.command (call : Invocation) (parser : ArgumentParser) : Except Report Command :=
  match call.tool with
  | .assembler => (parser.assembler call.args).map .assemble
  | .disassembler => (parser.disassembler call.args).map .disassemble
  | .runner => (parser.runner call.args).map .run

inductive CommandError where
  | system (message : String)
  | invalidUtf8
  | assembly (e : AssemblyError)
  | image (e : ImageError)
  | listing (e : ListingError)
  | fault (e : Fault)
  deriving DecidableEq, Repr

def CommandError.message : CommandError → String
  | system message => message
  | invalidUtf8 => "stream did not contain valid UTF-8"
  | assembly e => e.message
  | image e => e.message
  | listing e => e.message
  | fault e => e.message

namespace Command

def imageFile (source : List UInt8) : Except CommandError (List UInt8) :=
  match String.fromUTF8? ⟨source.toArray⟩ with
  | none => .error .invalidUtf8
  | some text =>
    match StoredProgram.assemble text with
    | .ok image => .ok image.toBytes
    | .error e => .error (.assembly e)

def listingFile (bytes : List UInt8) : Except CommandError (List UInt8) := do
  let image ← (Image.ofBytes bytes).mapError .image
  let text ← image.listing.mapError .listing
  return text.toUTF8.data.toList

/-- A machine with an image file loaded. -/
def machine (bytes : List UInt8) (config : Config) (input : List UInt8) :
    Except CommandError Machine := do
  let image ← (Image.ofBytes bytes).mapError .image
  (Machine.withImage image config input).mapError .fault

def conversionReport : Except CommandError Unit → Report
  | .ok () => {}
  | .error e => .failure e.message ""

def runReport : Except CommandError Outcome → Report
  | .ok outcome =>
    match outcome.ending with
    | .halted => { output := outcome.machine.output }
    | .failed fault => .failure fault.message outcome.machine.output
    | .unfinished => { status := none, output := outcome.machine.output }
  | .error e => .failure e.message ""

section
variable {m : Type → Type} [Monad m] {File : Type} (files : Files m File)

def attempt {α : Type} (call : m (Except String α)) : ExceptT CommandError m α :=
  ExceptT.mk do return (← call).mapError .system

def check {α : Type} (result : Except CommandError α) : ExceptT CommandError m α :=
  ExceptT.mk (pure result)

/-- Makes a file out of another one. What an error leaves undone comes after it: the target is not opened
before there is something to write to it. -/
def convert (f : List UInt8 → Except CommandError (List UInt8)) (options : Conversion) :
    ExceptT CommandError m Unit := do
  let bytes ← attempt (files.read options.source)
  let result ← check (f bytes)
  let file ← attempt (files.create options.target)
  attempt (files.write file result)

/-- Loads an image file, and leaves it to `finish` to run the machine. -/
def runImage (finish : Machine → m Outcome) (options : RunOptions) (input : List UInt8) :
    ExceptT CommandError m Outcome := do
  let bytes ← attempt (files.read options.source)
  let loaded ← check (machine bytes options.config input)
  ExceptT.lift (finish loaded)

def execute (finish : Machine → m Outcome) (input : List UInt8) : Command → m Report
  | assemble options => do return conversionReport (← (convert files imageFile options).run)
  | disassemble options => do return conversionReport (← (convert files listingFile options).run)
  | run options => do return runReport (← (runImage files finish options input).run)

def perform (parser : ArgumentParser) (finish : Machine → m Outcome) (call : Invocation) : m Report :=
  match call.command parser with
  | .ok command => command.execute files finish call.input
  | .error report => return report

end

end Command
end StoredProgram
