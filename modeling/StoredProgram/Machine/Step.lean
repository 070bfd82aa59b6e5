import StoredProgram.Input
import StoredProgram.Machine.Action
import StoredProgram.Memory.Literal

set_option autoImplicit false

namespace StoredProgram

/-- What follows a step that did not fail. -/
inductive Signal where
  | next
  | halt
  deriving DecidableEq, Repr

namespace Action

/-- `MOV`: the value of the source goes to the address that the destination denotes. -/
def move (destination source : Reference) : Action Unit := do
  let address ← resolve destination
  let value ← resolve source
  traceEffect (.twoRef .mov) [("res_addr", address.toInt), ("value", value.toInt)]
  write address value
  advance

/-- `ADD`: the left operand is the contents of the destination register itself, while the sum goes to
the address that the destination denotes. -/
def add (destination source : Reference) : Action Unit := do
  let address ← resolve destination
  let term ← resolve source
  let sum := (← register destination.register) + term
  traceEffect (.twoRef .add) [("res_addr", address.toInt), ("value", sum.toInt)]
  write address sum
  advance

/-- `SUB`: as `ADD`, but traced only after the difference is in place. -/
def sub (destination source : Reference) : Action Unit := do
  let address ← resolve destination
  let term ← resolve source
  let difference := (← register destination.register) - term
  write address difference
  traceEffect (.twoRef .sub) [("res_addr", address.toInt), ("value", difference.toInt)]
  advance

/-- Adds an immediate to the destination register, and leaves the instruction pointer alone. -/
def addTo (destination : Reference) (immediate : Word) : Action Unit := do
  let address ← resolve destination
  let sum := (← register destination.register) + immediate
  traceEffect (.refImm .addImm) [("res_addr", address.toInt), ("value", sum.toInt)]
  write address sum

def addImm (destination : Reference) (immediate : Word) : Action Unit := do
  addTo destination immediate
  advance

def subImm (destination : Reference) (immediate : Word) : Action Unit := do
  let address ← resolve destination
  let difference := (← register destination.register) - immediate
  traceEffect (.refImm .subImm) [("res_addr", address.toInt), ("sub_result", difference.toInt)]
  write address difference
  advance

/-- Changes one half of the word that the destination denotes, by `join`, which takes the word and the
new half. The immediate has to fit before the destination is looked at. -/
def loadHalf (op : RefImmOp) (join : Word → BitVec 16 → Word) (destination : Reference)
    (immediate : Word) : Action Unit := do
  if 0xFFFF < immediate then throw (.immediateOutOfRange immediate)
  let address ← resolve destination
  let word := join (← read address) (immediate.setWidth 16)
  write address word
  traceEffect (.refImm op)
    [("res_addr", address.toInt), ("value", immediate.toNat), ("result", word.toNat)]
  advance

/-- `LOADL` replaces the low half of a word. -/
def loadLow (destination : Reference) (immediate : Word) : Action Unit :=
  loadHalf .loadLow (fun word half => word.extractLsb' 16 16 ++ half) destination immediate

/-- `LOADH` replaces the high half of a word. -/
def loadHigh (destination : Reference) (immediate : Word) : Action Unit :=
  loadHalf .loadHigh (fun word half => half ++ word.extractLsb' 0 16) destination immediate

/-- `PUSH`: the stack grows first, so the source may denote the new stack pointer. -/
def push (source : Reference) : Action Unit := do
  let top ← growStack
  let value ← resolve source
  write top value
  traceEffect (.ref .push) [("res_addr", top.toInt), ("value", value.toInt)]
  advance

/-- `POP` drops the top of the stack, by an addition to the stack pointer. -/
def pop : Action Unit := addImm (.direct .sp) 1

def jump (target : Reference) : Action Unit := do
  let address ← resolve target
  traceEffect (.ref .jump) [("value", address.toInt)]
  setRegister .ip address

/-- `JUMP_IF_GZ`: the offset counts from the jump itself, and is added to the instruction pointer. -/
def jumpIfPositive (condition : Reference) (offset : Word) : Action Unit := do
  let value ← resolve condition
  traceEffect (.refImm .jumpIfPositive) [("offset", offset.toNat), ("value", value.toInt)]
  if 0 < value.toInt then addTo (.direct .ip) offset else advance

/-- Goes on at the entry of a function, with the address to return to on the stack. -/
def enter (function : Word) : Action Unit := do
  let entry ← query fun m =>
    match m.functions.find? function with
    | some entry => .ok entry
    | none => .error (.unknownFunction function)
  let back := (← register .ip) + 1
  let top ← growStack
  write top back
  traceEffect (.imm .call)
    [("function", function.toInt), ("entry", entry.toInt), ("return", back.toInt)]
  setRegister .ip entry

def callIndirect (source : Reference) : Action Unit := do
  enter (← resolve source)

/-- `FBEGIN`: the body starts at the next address. A body inside a body is a fault. -/
def beginFunction (function : Word) : Action Unit := do
  let address ← register .ip
  if (← get).inBody then throw (.nestedFunction function address)
  modify fun m =>
    { m with functions := m.functions.define function (address + 1), inBody := true }
  advance

def endFunction : Action Unit := do
  modify fun m => { m with inBody := false }
  advance

def print (source : Reference) : Action Unit := do
  let value ← resolve source
  traceEffect (.ref .print)
    [("value", value.toInt), ("address", source.register.val), ("val_access", source.level.val)]
  printLine value.signedText
  advance

/-- Takes the next line of the input, which is used up even if it holds no integer. -/
def inputValue : Action Word := fun m =>
  if m.input = [] then .error .endOfInput m
  else query (fun _ => Input.value (Input.line m.input)) { m with input := Input.afterLine m.input }

/-- `READ`: the destination is looked at before the input. -/
def readValue (destination : Reference) : Action Unit := do
  let address ← resolve destination
  let value ← inputValue
  write address value
  traceEffect (.ref .read) [("res_addr", address.toInt), ("value", value.toInt)]
  advance

def printLiteral (index : Word) : Action Unit := do
  let literal ← query fun m => m.memory.literal (BitVec.ofNat 32 m.staticBase) index
  printLine literal
  advance

def dispatch : Instruction → Action Signal
  | .twoRef .mov destination source => do move destination source; return .next
  | .twoRef .add destination source => do add destination source; return .next
  | .twoRef .sub destination source => do sub destination source; return .next
  | .refImm .jumpIfPositive condition offset => do jumpIfPositive condition offset; return .next
  | .refImm .loadLow destination immediate => do loadLow destination immediate; return .next
  | .refImm .loadHigh destination immediate => do loadHigh destination immediate; return .next
  | .refImm .addImm destination immediate => do addImm destination immediate; return .next
  | .refImm .subImm destination immediate => do subImm destination immediate; return .next
  | .ref .push source => do push source; return .next
  | .ref .jump target => do jump target; return .next
  | .ref .print source => do print source; return .next
  | .ref .read destination => do readValue destination; return .next
  | .ref .callIndirect source => do callIndirect source; return .next
  | .imm .call function => do enter function; return .next
  | .imm .beginFunction function => do beginFunction function; return .next
  | .imm .printLiteral index => do printLiteral index; return .next
  | .bare .pop => do pop; return .next
  | .bare .endFunction => do endFunction; return .next
  | .bare .halt => return .halt

def fetch : Action Instruction := do
  let ip ← register .ip
  let word ← read ip
  match Instruction.decode word with
  | .error e => throw (.instruction e)
  | .ok i =>
    traceLine fun _ => Trace.fetched ip i.opcode word
    return i

/-- One step. A function body stands among the other instructions and is passed over once its start was
carried out, so inside a body only the marks of bodies are. -/
def step : Action Signal := do
  let i ← fetch
  if (← get).inBody && !i.marksBody then
    advance
    return .next
  else dispatch i

end Action
end StoredProgram
