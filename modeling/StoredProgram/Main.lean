import StoredProgram.Main.Arguments
import StoredProgram.Main.Table

set_option autoImplicit false

namespace StoredProgram

/-- Whether the next step takes a line of input of which the end has not been seen yet. -/
def Machine.awaitsInput (m : Machine) : Bool :=
  match (m.memory.read (m.register .ip)).toOption.map Instruction.decode with
  | some (.ok (.ref .read _)) => !m.inBody && !m.input.contains Input.newline
  | _ => false

namespace CommandLine

def systemMessage (e : IO.Error) : String :=
  match e with
  | .noFileOrDirectory .. => "No such file or directory (os error 2)"
  | .permissionDenied .. => "Permission denied (os error 13)"
  | .inappropriateType .. => "Is a directory (os error 21)"
  | e => toString e

def guarded {α : Type} (action : IO α) : IO (Except String α) := do
  try return .ok (← action)
  catch e => return .error (systemMessage e)

def files : Files IO IO.FS.Handle where
  read path := guarded do return (← IO.FS.readBinFile path).data.toList
  create path := guarded (IO.FS.Handle.mk path .write)
  write file bytes := guarded do
    file.write ⟨bytes.toArray⟩
    file.flush

/-- Prints what the machine has output since the last time. -/
def flush (m : Machine) : IO Machine := do
  let stdout ← IO.getStdout
  stdout.putStr m.output
  stdout.flush
  return { m with output := "" }

/-- Runs a machine to its end, and feeds it from standard input until that has `ended`. Its output appears
before it waits for input. -/
partial def run (ended : Bool) (done : Nat) (m : Machine) : IO Outcome := do
  if !ended && m.awaitsInput then
    let m ← flush m
    let bytes ← (← IO.getStdin).read 4096
    run bytes.isEmpty done { m with input := m.input ++ bytes.data.toList }
  else
    match Action.step m with
    | .ok .next m => run ended (done + 1) (← if m.output.isEmpty then pure m else flush m)
    | .ok .halt m => return ⟨.halted, m.close Table.text, done + 1⟩
    | .error fault m => return ⟨.failed fault, m, done + 1⟩

/-- Prints what is left to print of a command, and gives its exit status. -/
def deliver (report : Report) : IO UInt32 := do
  (← IO.getStdout).putStr report.output
  (← IO.getStderr).putStr report.errors
  return report.status.getD 1

end CommandLine
end StoredProgram

open StoredProgram in
/-- Carries out the command that the arguments ask for, the first of which is its name. -/
def main (args : List String) : IO UInt32 := do
  let call (tool : Tool) : IO Report :=
    Command.perform CommandLine.files Arguments.parser (CommandLine.run false 0) ⟨tool, args.tail, []⟩
  let report ←
    match args.head? with
    | some "vn-asm" => call .assembler
    | some "vn-disasm" => call .disassembler
    | some "vn-run" => call .runner
    | _ => pure Arguments.unusable
  CommandLine.deliver report
