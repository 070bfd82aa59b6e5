import StoredProgram.Proofs.Machine.Failure
import StoredProgram.Proofs.Machine.Printing

set_option autoImplicit false

namespace StoredProgram

/-- What a destination gets, out of the contents of its register and the value of the source. -/
def TwoRefOp.result : TwoRefOp → Word → Word → Word
  | .mov, _, right => right
  | .add, left, right => left + right
  | .sub, left, right => left - right

def Word.withLow (word : Word) (half : BitVec 16) : Word := word.extractLsb' 16 16 ++ half

def Word.withHigh (word : Word) (half : BitVec 16) : Word := half ++ word.extractLsb' 0 16

theorem Word.toNat_halves (high low : BitVec 16) :
    (high ++ low).toNat = high.toNat * 65536 + low.toNat := by
  rw [BitVec.toNat_append, ← Nat.shiftLeft_add_eq_or_of_lt low.isLt, Nat.shiftLeft_eq]

theorem Word.toNat_withLow (word : Word) (half : BitVec 16) :
    (word.withLow half).toNat = word.toNat / 65536 * 65536 + half.toNat := by
  have upper := word.isLt
  rw [withLow, toNat_halves, BitVec.extractLsb'_toNat, Nat.shiftRight_eq_div_pow]
  omega

theorem Word.toNat_withHigh (word : Word) (half : BitVec 16) :
    (word.withHigh half).toNat = half.toNat * 65536 + word.toNat % 65536 := by
  rw [withHigh, toNat_halves, BitVec.extractLsb'_toNat, Nat.shiftRight_zero]

/-- The contents of a register, as an operand. -/
def Reference.once (r : Register) : Reference := ⟨(1#3).toFin, r⟩

/-- The word that a register holds the address of, as an operand. -/
def Reference.twice (r : Register) : Reference := ⟨(2#3).toFin, r⟩

def Instruction.signal : Instruction → Signal
  | bare .halt => .halt
  | _ => .next

namespace Machine

def write (m : Machine) (address value : Word) : Except Fault Machine := do
  return { m with memory := ← m.memory.write address value }

def stored (m : Machine) (address value : Word) : Except Fault Machine := do
  return (← m.write address value).advanced

/-- The machine in a function, if that is defined, with the address to return to on the stack. -/
def entered (m : Machine) (function : Word) : Except Fault Machine :=
  match m.functions.find? function with
  | some entry => do
    return (← m.grown.write (m.register .sp - 1) (m.register .ip + 1)).setRegister .ip entry
  | none => .error (.unknownFunction function)

/-- The machine with one half of a word replaced by an immediate. -/
def halfReplaced (m : Machine) (join : Word → BitVec 16 → Word) (destination : Reference)
    (immediate : Word) : Except Fault Machine := do
  if 0xFFFF < immediate then throw (.immediateOutOfRange immediate)
  let address ← m.resolve destination
  let word ← m.memory.read address
  m.stored address (join word (immediate.setWidth 16))

/-- What an instruction makes of a machine that carries it out, or the fault that it ends in. -/
def perform (m : Machine) : Instruction → Except Fault Machine
  | .twoRef op destination source => do
    let address ← m.resolve destination
    let right ← m.resolve source
    m.stored address (op.result (m.register destination.register) right)
  | .refImm .jumpIfPositive condition offset => do
    let value ← m.resolve condition
    if 0 < value.toInt then m.write (BitVec.ofNat 32 Register.ip.val) (m.register .ip + offset)
    else return m.advanced
  | .refImm .loadLow destination immediate =>
    m.halfReplaced Word.withLow destination immediate
  | .refImm .loadHigh destination immediate =>
    m.halfReplaced Word.withHigh destination immediate
  | .refImm .addImm destination immediate => do
    let address ← m.resolve destination
    m.stored address (m.register destination.register + immediate)
  | .refImm .subImm destination immediate => do
    let address ← m.resolve destination
    m.stored address (m.register destination.register - immediate)
  | .ref .push source => do
    let value ← m.grown.resolve source
    m.grown.stored (m.register .sp - 1) value
  | .ref .jump target => do return m.setRegister .ip (← m.resolve target)
  | .ref .print source => do return m.printed (← m.resolve source).signedText
  | .ref .read destination => do
    let address ← m.resolve destination
    if m.input = [] then throw .endOfInput
    let value ← Input.value (Input.line m.input)
    m.afterLine.stored address value
  | .ref .callIndirect source => do m.entered (← m.resolve source)
  | .imm .call function => m.entered function
  | .imm .beginFunction function =>
    if m.inBody then .error (.nestedFunction function (m.register .ip))
    else
      .ok { m with
        functions := m.functions.define function (m.register .ip + 1), inBody := true }.advanced
  | .imm .printLiteral index => do
    return m.printed (← m.memory.literal (BitVec.ofNat 32 m.staticBase) index)
  | .bare .pop => m.stored (BitVec.ofNat 32 Register.sp.val) (m.register .sp + 1)
  | .bare .endFunction => .ok { m with inBody := false }.advanced
  | .bare .halt => .ok m

variable {m m' : Machine} {address value : Word}

theorem write_eq_ok_iff : m.write address value = .ok m' ↔
    m.memory.InBounds address ∧ m' = { m with memory := m.memory.put address.toNat value } := by
  unfold write Memory.write
  by_cases within : m.memory.InBounds address
  · rw [if_pos within, and_iff_right within]
    exact ⟨fun same => (Except.ok.inj same).symm, fun same => congrArg Except.ok same.symm⟩
  · rw [if_neg within]
    constructor
    · intro same
      cases same
    · exact fun both => absurd both.1 within

theorem write_eq_error_iff {fault : Fault} : m.write address value = .error fault ↔
    ¬ m.memory.InBounds address ∧ fault = .addressOutOfBounds address := by
  unfold write Memory.write
  by_cases within : m.memory.InBounds address
  · rw [if_pos within]
    constructor
    · intro same
      cases same
    · exact fun both => absurd within both.1
  · rw [if_neg within, and_iff_right within]
    exact ⟨fun same => (Except.error.inj same).symm, fun same => congrArg Except.error same.symm⟩

theorem positive_of_write (written : m.write address value = .ok m') : 0 < m'.memory.size := by
  obtain ⟨within, rfl⟩ := write_eq_ok_iff.mp written
  exact within.positive

theorem stored_eq_error_iff {fault : Fault} : m.stored address value = .error fault ↔
    ¬ m.memory.InBounds address ∧ fault = .addressOutOfBounds address := by
  have cause : m.write address value = .error fault ↔ ¬ m.memory.InBounds address ∧
      fault = .addressOutOfBounds address := write_eq_error_iff
  rw [← cause]
  unfold stored
  cases m.write address value with
  | ok written =>
      constructor
      · intro same
        cases same
      · intro same
        cases same
  | error other => exact Iff.rfl

theorem stored_stops (fault : Fault) (stopped : m.write address value = .error fault) :
    m.stored address value = .error fault :=
  stored_eq_error_iff.mpr (write_eq_error_iff.mp stopped)

/-- Only a reference without indirection denotes anything where its register has no cell. -/
theorem eq_of_resolve_outside {r : Reference} (outside : m.memory.size ≤ r.register.val)
    (denotes : m.resolve r = .ok address) : address = BitVec.ofNat 32 r.register.val := by
  unfold resolve at denotes
  cases level : r.level.val with
  | zero =>
      rw [level] at denotes
      exact (Except.ok.inj denotes).symm
  | succ further =>
      rw [level, Memory.resolve, Memory.read_outside (Action.not_inBounds_register outside)] at denotes
      cases denotes

/-- A reference without indirection denotes the cell of its register. -/
theorem stored_register (lower : Register.count < m.memory.size) (r : Register) (value : Word) :
    m.stored (BitVec.ofNat 32 r.val) value = .ok (m.setRegister r value).advanced := by
  have written : m.write (BitVec.ofNat 32 r.val) value = .ok (m.setRegister r value) := by
    refine write_eq_ok_iff.mpr ⟨inBounds_register lower r, ?_⟩
    rw [Register.toNat_address]
    rfl
  rw [stored, written]
  rfl

theorem resolve_once (lower : Register.count < m.memory.size) (r : Register) :
    m.resolve (.once r) = .ok (m.register r) := by
  show (m.memory.read (BitVec.ofNat 32 r.val) >>= fun value => m.memory.resolve value 0) = _
  rw [read_register lower]
  rfl

theorem resolve_twice (lower : Register.count < m.memory.size) (r : Register) :
    m.resolve (.twice r) = m.memory.read (m.register r) := by
  show (m.memory.read (BitVec.ofNat 32 r.val) >>= fun value =>
    m.memory.read value >>= fun value => m.memory.resolve value 0) = _
  rw [read_register lower]
  show (m.memory.read (m.register r) >>= fun value => .ok value) = _
  cases m.memory.read (m.register r) <;> rfl

theorem perform_move (lower : Register.count < m.memory.size) (r : Register) {source : Reference}
    (found : m.resolve source = .ok value) :
    m.perform (.twoRef .mov (.direct r) source) = .ok (m.setRegister r value).advanced := by
  show (m.resolve source >>= fun right => m.stored (BitVec.ofNat 32 r.val) right) = _
  rw [found]
  exact stored_register lower r value

theorem perform_move_direct (lower : Register.count < m.memory.size) (destination source : Register) :
    m.perform (.twoRef .mov (.direct destination) (.direct source)) =
      .ok (m.setRegister destination (BitVec.ofNat 32 source.val)).advanced :=
  perform_move lower destination rfl

theorem perform_subImm (lower : Register.count < m.memory.size) (r : Register) (immediate : Word) :
    m.perform (.refImm .subImm (.direct r) immediate) =
      .ok (m.setRegister r (m.register r - immediate)).advanced :=
  stored_register lower r _

theorem perform_pop (lower : Register.count < m.memory.size) :
    m.perform (.bare .pop) = .ok (m.setRegister .sp (m.register .sp + 1)).advanced :=
  stored_register lower .sp _

theorem perform_jump {target : Reference} (found : m.resolve target = .ok value) :
    m.perform (.ref .jump target) = .ok (m.setRegister .ip value) := by
  rw [perform, found]
  rfl

theorem perform_print {source : Reference} (found : m.resolve source = .ok value) :
    m.perform (.ref .print source) = .ok (m.printed value.signedText) := by
  rw [perform, found]
  rfl

theorem perform_jumpIfPositive (lower : Register.count < m.memory.size) {condition : Reference}
    (offset : Word) (found : m.resolve condition = .ok value) :
    m.perform (.refImm .jumpIfPositive condition offset) =
      .ok (if 0 < value.toInt then m.setRegister .ip (m.register .ip + offset) else m.advanced) := by
  have moved : m.write (BitVec.ofNat 32 Register.ip.val) (m.register .ip + offset) =
      .ok (m.setRegister .ip (m.register .ip + offset)) :=
    write_eq_ok_iff.mpr ⟨inBounds_register lower .ip, rfl⟩
  rw [perform, found]
  show (if 0 < value.toInt then m.write (BitVec.ofNat 32 Register.ip.val) (m.register .ip + offset)
    else .ok m.advanced) = _
  rw [moved]
  split <;> rfl

def pushed (m : Machine) (value : Word) : Machine :=
  { m.grown with memory := m.grown.memory.put (m.register .sp - 1).toNat value }

theorem write_top (room : m.memory.InBounds (m.register .sp - 1)) (value : Word) :
    m.grown.write (m.register .sp - 1) value = .ok (m.pushed value) :=
  write_eq_ok_iff.mpr ⟨room, rfl⟩

theorem perform_push {source : Reference} (room : m.memory.InBounds (m.register .sp - 1))
    (found : m.grown.resolve source = .ok value) :
    m.perform (.ref .push source) = .ok (m.pushed value).advanced := by
  show (m.grown.resolve source >>= fun value => m.grown.stored (m.register .sp - 1) value) = _
  rw [found]
  show m.grown.stored (m.register .sp - 1) value = _
  rw [stored, write_top room]
  rfl

theorem entered_eq {function entry : Word} (defined : m.functions.find? function = some entry)
    (room : m.memory.InBounds (m.register .sp - 1)) :
    m.entered function = .ok ((m.pushed (m.register .ip + 1)).setRegister .ip entry) := by
  rw [entered, defined]
  show (m.grown.write (m.register .sp - 1) (m.register .ip + 1) >>= fun written =>
    .ok (written.setRegister .ip entry)) = _
  rw [write_top room]
  rfl

theorem cell_setRegister {r : Register} (within : r.val < m.memory.size) (value : Word) (k : Nat) :
    (m.setRegister r value).memory.cell k = if k = r.val then value else m.memory.cell k :=
  Memory.cell_put within value k

theorem cell_advanced (positive : 0 < m.memory.size) (k : Nat) :
    m.advanced.memory.cell k = if k = 0 then m.register .ip + 1 else m.memory.cell k :=
  Memory.cell_put positive _ k

theorem cell_pushed (lower : Register.count < m.memory.size)
    (room : m.memory.InBounds (m.register .sp - 1)) (value : Word) (k : Nat) :
    (m.pushed value).memory.cell k =
      if k = (m.register .sp - 1).toNat then value
      else if k = 1 then m.register .sp - 1 else m.memory.cell k := by
  have within : (m.register .sp - 1).toNat < m.grown.memory.size := by
    have upper := room.2
    rw [room.toInt_eq] at upper
    show _ < m.memory.size
    omega
  have few : Register.sp.val < m.memory.size := Nat.lt_trans (by decide) lower
  rw [pushed, Memory.cell_put within, grown, cell_setRegister few]
  rfl

/-- The half of a word is replaced where the destination points. -/
theorem halfReplaced_eq (join : Word → BitVec 16 → Word) {destination : Reference} {immediate : Word}
    (half : immediate.toNat < 65536) (target : m.resolve destination = .ok address)
    (within : m.memory.InBounds address) :
    m.halfReplaced join destination immediate =
      m.stored address (join (m.memory.cell address.toNat) (immediate.setWidth 16)) := by
  have fits : ¬ 0xFFFF < immediate := by
    rw [BitVec.lt_def]
    change ¬ 65535 < immediate.toNat
    omega
  rw [halfReplaced, if_neg fits]
  change (m.resolve destination >>= fun address => m.memory.read address >>= fun word =>
    m.stored address (join word (immediate.setWidth 16))) = _
  rw [target]
  change (m.memory.read address >>= fun word =>
    m.stored address (join word (immediate.setWidth 16))) = _
  rw [Memory.read_inside within]
  rfl

theorem perform_loadLow_direct (lower : Register.count < m.memory.size) (r : Register)
    {immediate : Word} (half : immediate.toNat < 65536) :
    m.perform (.refImm .loadLow (.direct r) immediate) =
      .ok (m.setRegister r ((m.register r).withLow (immediate.setWidth 16))).advanced := by
  have target : m.resolve (.direct r) = .ok (BitVec.ofNat 32 r.val) := rfl
  have replaced := halfReplaced_eq Word.withLow half target (inBounds_register lower r)
  rwa [Register.toNat_address, stored_register lower] at replaced

theorem perform_beginFunction_nested (inside : m.inBody = true) (function : Word) :
    m.perform (.imm .beginFunction function) = .error (.nestedFunction function (m.register .ip)) :=
  if_pos inside

theorem perform_beginFunction (outside : m.inBody = false) (function : Word) :
    m.perform (.imm .beginFunction function) = .ok
      { m with
        functions := m.functions.define function (m.register .ip + 1), inBody := true }.advanced :=
  if_neg (by rw [outside]; exact Bool.false_ne_true)

end Machine

namespace Action

variable {α : Type} {a : Action α} {g : α → Action Unit} {b : Unit → Action Unit} {m : Machine}
  {result : Except Fault Machine}

/-- An action makes of a machine what a computation says, or ends in the fault that it says. -/
structure Yields (a : Action Unit) (m : Machine) (result : Except Fault Machine) : Prop where
  outcome : a.outcome m = result.map fun _ => ()
  after : ∀ m', result = .ok m' → a.after m = m'

namespace Yields

theorem of_ok {a : Action Unit} {m' : Machine} (run : a m = .ok () m') : Yields a m (pure m') :=
  ⟨outcome_of_ok run, fun _ same => (after_of_ok run).trans (Except.ok.inj same)⟩

theorem of_error {a : Action Unit} {m' : Machine} {fault : Fault} (run : a m = .error fault m') :
    Yields a m (.error fault) :=
  ⟨outcome_of_error run, fun _ same => by cases same⟩

/-- Two actions that run alike, perhaps from different machines, yield the same. -/
theorem of_run {a b : Action Unit} {m' : Machine} (same : a m = b m') (yields : Yields b m' result) :
    Yields a m result :=
  ⟨(outcome_congr same).trans yields.outcome, fun m₁ is => (after_congr same).trans (yields.after m₁ is)⟩

/-- An action that succeeds passes on its value and the machine that it leaves. -/
theorem bind_of_ok {x : α} (success : a.outcome m = .ok x) (rest : Yields (g x) (a.after m) result) :
    Yields (a >>= g) m result := by
  constructor
  · rw [outcome_bind_ok g success, rest.outcome]
  · intro m' same
    rw [after_bind_ok g success, rest.after m' same]

theorem bind_register {r : Register} {g : Word → Action Unit} (within : r.val < m.memory.size)
    (rest : Yields (g (m.register r)) m result) : Yields (Action.register r >>= g) m result :=
  of_run (Action.bind_of_ok g (run_register within)) rest

/-- If the register of a destination has no cell, looking it up stops at the same address as the write to
the destination does. -/
theorem bind_contents {r : Reference} {g : Word → Action Unit} {address value : Word}
    (denotes : m.resolve r = .ok address)
    (stops : ∀ fault, m.write address value = .error fault → result = .error fault)
    (rest : Yields (g (m.register r.register)) m result) :
    Yields (Action.register r.register >>= g) m result := by
  by_cases within : r.register.val < m.memory.size
  · exact bind_register within rest
  · have outside := Nat.not_lt.mp within
    obtain rfl := Machine.eq_of_resolve_outside outside denotes
    rw [stops _ (Machine.write_eq_error_iff.mpr ⟨not_inBounds_register outside, rfl⟩)]
    exact of_error (Action.bind_of_error g (run_register_outside outside))

/-- Without a trace nothing is shown. -/
theorem bind_traceEffect (off : m.trace = false) {op : Opcode} {fields : List (String × Int)}
    (rest : Yields (b ()) m result) : Yields (traceEffect op fields >>= b) m result := by
  have quiet : traceEffect op fields m = .ok () m := by
    rw [traceEffect, run_traceLine, Machine.logged_of_off off]
  exact of_run (Action.bind_of_ok b quiet) rest

theorem bind_query {f : Machine → Except Fault α} {h : α → Except Fault Machine}
    (rest : ∀ x, f m = .ok x → Yields (g x) m (h x)) : Yields (query f >>= g) m (f m >>= h) := by
  cases found : f m with
  | ok x => exact of_run (Action.bind_of_ok g (run_query found)) (rest x found)
  | error fault => exact of_error (Action.bind_of_error g (run_query_error found))

theorem bind {a : Action Unit} {h : Machine → Except Fault Machine} (first : Yields a m result)
    (rest : ∀ m', result = .ok m' → Yields (b ()) m' (h m')) :
    Yields (a >>= b) m (result >>= h) := by
  cases result with
  | ok m' =>
      apply bind_of_ok first.outcome
      rw [first.after m' rfl]
      exact rest m' rfl
  | error fault =>
      constructor
      · rw [outcome_bind_error b first.outcome]
        rfl
      · intro m' same
        cases same

theorem write (m : Machine) (address value : Word) :
    Yields (Action.write address value) m (m.write address value) := by
  unfold Machine.write
  cases written : m.memory.write address value with
  | ok memory =>
      constructor
      · exact outcome_change_ok written
      · intro m' same
        cases same
        exact after_change_ok written
  | error fault =>
      constructor
      · exact outcome_change_error written
      · intro m' same
        cases same

theorem advance (positive : 0 < m.memory.size) : Yields Action.advance m (pure m.advanced) :=
  of_ok (run_advance positive)

theorem write_advance (m : Machine) (address value : Word) :
    Yields (Action.write address value >>= fun _ => Action.advance) m (m.stored address value) :=
  (write m address value).bind fun _ written => advance (Machine.positive_of_write written)

/-- Lines of trace between a write and the next instruction do not count. -/
theorem write_traceEffect_advance (off : m.trace = false) (address value : Word) {op : Opcode}
    {fields : List (String × Int)} :
    Yields (Action.write address value >>= fun _ => traceEffect op fields >>= fun _ => Action.advance) m
      (m.stored address value) := by
  apply (write m address value).bind
  intro m' written
  have alsoOff : m'.trace = false := by
    rw [(Machine.write_eq_ok_iff.mp written).2]
    exact off
  exact bind_traceEffect alsoOff (advance (Machine.positive_of_write written))

end Yields

section
variable (off : m.trace = false)
include off

theorem yields_move (destination source : Reference) :
    Yields (move destination source) m (m.perform (.twoRef .mov destination source)) := by
  apply Yields.bind_query
  intro address _
  apply Yields.bind_query
  intro value _
  apply Yields.bind_traceEffect off
  exact Yields.write_advance m address value

theorem yields_add (destination source : Reference) :
    Yields (add destination source) m (m.perform (.twoRef .add destination source)) := by
  apply Yields.bind_query
  intro address denotes
  apply Yields.bind_query
  intro term _
  apply Yields.bind_contents denotes Machine.stored_stops
  apply Yields.bind_traceEffect off
  exact Yields.write_advance m address _

theorem yields_sub (destination source : Reference) :
    Yields (sub destination source) m (m.perform (.twoRef .sub destination source)) := by
  apply Yields.bind_query
  intro address denotes
  apply Yields.bind_query
  intro term _
  apply Yields.bind_contents denotes Machine.stored_stops
  exact Yields.write_traceEffect_advance off address _

theorem yields_addTo (destination : Reference) (immediate : Word) :
    Yields (addTo destination immediate) m (do
      let address ← m.resolve destination
      m.write address (m.register destination.register + immediate)) := by
  apply Yields.bind_query
  intro address denotes
  apply Yields.bind_contents denotes fun _ stopped => stopped
  apply Yields.bind_traceEffect off
  exact Yields.write m address _

theorem yields_subImm (destination : Reference) (immediate : Word) :
    Yields (subImm destination immediate) m (m.perform (.refImm .subImm destination immediate)) := by
  apply Yields.bind_query
  intro address denotes
  apply Yields.bind_contents denotes Machine.stored_stops
  apply Yields.bind_traceEffect off
  exact Yields.write_advance m address _

theorem yields_addImm (destination : Reference) (immediate : Word) :
    Yields (addImm destination immediate) m (m.perform (.refImm .addImm destination immediate)) := by
  have added : Yields (addImm destination immediate) m
      ((m.resolve destination >>= fun address =>
        m.write address (m.register destination.register + immediate)) >>= fun m' =>
          pure m'.advanced) :=
    (yields_addTo off destination immediate).bind fun m' done => by
      obtain ⟨address, _, written⟩ := exists_of_bind_eq_ok done
      exact Yields.advance (Machine.positive_of_write written)
  rwa [bind_assoc] at added

theorem yields_pop : Yields pop m (m.perform (.bare .pop)) :=
  yields_addImm off (.direct .sp) 1

theorem yields_loadHalf (op : RefImmOp) (join : Word → BitVec 16 → Word) (destination : Reference)
    (immediate : Word) :
    Yields (loadHalf op join destination immediate) m
      (m.halfReplaced join destination immediate) := by
  unfold loadHalf Machine.halfReplaced
  dsimp only
  split
  · constructor
    · rfl
    · intro m' same
      cases same
  · apply Yields.bind_query
    intro address _
    apply Yields.bind_query
    intro word _
    exact Yields.write_traceEffect_advance off address _

theorem yields_push (large : 1 < m.memory.size) (source : Reference) :
    Yields (push source) m (m.perform (.ref .push source)) := by
  have grown := run_growStack large
  apply Yields.of_run (bind_of_ok _ grown)
  apply Yields.bind_query (m := m.grown)
  intro value _
  exact Yields.write_traceEffect_advance (m := m.grown) off _ value

theorem yields_jump (positive : 0 < m.memory.size) (target : Reference) :
    Yields (jump target) m (m.perform (.ref .jump target)) := by
  apply Yields.bind_query
  intro address _
  apply Yields.bind_traceEffect off
  exact Yields.of_ok (run_setRegister (r := .ip) positive address)

theorem yields_jumpIfPositive (positive : 0 < m.memory.size) (condition : Reference) (offset : Word) :
    Yields (jumpIfPositive condition offset) m
      (m.perform (.refImm .jumpIfPositive condition offset)) := by
  apply Yields.bind_query
  intro value _
  apply Yields.bind_traceEffect off
  split
  · exact yields_addTo off (.direct .ip) offset
  · exact Yields.advance positive

theorem yields_enter (large : 1 < m.memory.size) (function : Word) :
    Yields (enter function) m (m.entered function) := by
  rw [Machine.entered]
  cases found : m.functions.find? function with
  | none => exact Yields.of_error (run_enter_unknown found)
  | some entry =>
      apply Yields.of_run (run_enter large found)
      apply (Yields.write m.grown (m.register .sp - 1) (m.register .ip + 1)).bind
      intro m' written
      have alsoOff : m'.trace = false := by
        rw [(Machine.write_eq_ok_iff.mp written).2]
        exact off
      apply Yields.bind_traceEffect alsoOff
      exact Yields.of_ok (run_setRegister (r := .ip) (Machine.positive_of_write written) entry)

theorem yields_callIndirect (large : 1 < m.memory.size) (source : Reference) :
    Yields (callIndirect source) m (m.perform (.ref .callIndirect source)) := by
  apply Yields.bind_query
  intro function _
  exact yields_enter off large function

theorem yields_print (positive : 0 < m.memory.size) (source : Reference) :
    Yields (print source) m (m.perform (.ref .print source)) := by
  apply Yields.bind_query
  intro value _
  apply Yields.bind_traceEffect off
  exact Yields.of_ok (run_advance
    (m := { m with output := m.output ++ value.signedText ++ "\n" }) positive)

theorem yields_readValue (destination : Reference) :
    Yields (readValue destination) m (m.perform (.ref .read destination)) := by
  apply Yields.bind_query
  intro address _
  by_cases none : m.input = []
  · have ended : inputValue.outcome m = .error .endOfInput := by rw [outcome_inputValue, if_pos none]
    rw [if_pos none]
    exact ⟨outcome_bind_error _ ended, fun m' same => by cases same⟩
  · rw [if_neg none]
    have given : inputValue.outcome m = Input.value (Input.line m.input) := by
      rw [outcome_inputValue, if_neg none]
    have taken : inputValue.after m = m.afterLine := by
      rw [after_inputValue, if_neg none, Machine.afterLine]
    cases read : Input.value (Input.line m.input) with
    | error fault => exact ⟨outcome_bind_error _ (given.trans read), fun m' same => by cases same⟩
    | ok value =>
        apply Yields.bind_of_ok (given.trans read)
        rw [taken]
        exact Yields.write_traceEffect_advance (m := m.afterLine) off address value

end

section
variable (positive : 0 < m.memory.size)
include positive

theorem yields_printLiteral (index : Word) :
    Yields (printLiteral index) m (m.perform (.imm .printLiteral index)) := by
  apply Yields.bind_query
  intro literal _
  exact Yields.of_ok (run_advance (m := { m with output := m.output ++ literal ++ "\n" }) positive)

theorem yields_beginFunction (function : Word) :
    Yields (beginFunction function) m (m.perform (.imm .beginFunction function)) := by
  cases inside : m.inBody with
  | true =>
      rw [Machine.perform_beginFunction_nested inside]
      exact ⟨outcome_of_error (beginFunction_nested positive inside function),
        fun m' same => by cases same⟩
  | false =>
      rw [Machine.perform_beginFunction inside]
      exact Yields.of_ok (beginFunction_outside positive inside function)

theorem yields_endFunction : Yields endFunction m (m.perform (.bare .endFunction)) :=
  Yields.of_ok (run_endFunction positive)

end

/-- The signal after an action does not matter to the machine. -/
theorem run_signal (a : Action Unit) (m : Machine) (signal : Signal) :
    (a >>= fun _ => pure signal).outcome m = (a.outcome m).map (fun _ => signal) ∧
      (a >>= fun _ => pure signal).after m = a.after m := by
  cases run : a.outcome m with
  | ok _ =>
      rw [outcome_bind_ok _ run, after_bind_ok _ run]
      exact ⟨rfl, rfl⟩
  | error fault => exact ⟨outcome_bind_error _ run, after_bind_error _ run⟩

theorem Yields.signal {a : Action Unit} (yields : Yields a m result) (signal : Signal) :
    (a >>= fun _ => pure signal).outcome m = result.map (fun _ => signal) ∧
      ∀ m', result = .ok m' → (a >>= fun _ => pure signal).after m = m' := by
  obtain ⟨gives, leaves⟩ := run_signal a m signal
  rw [gives, leaves, yields.outcome]
  refine ⟨?_, yields.after⟩
  cases result <;> rfl

/-- An instruction that is carried out does what `perform` says. -/
theorem dispatch_eq (off : m.trace = false) (large : 1 < m.memory.size) (i : Instruction) :
    (dispatch i).outcome m = (m.perform i).map (fun _ => i.signal) ∧
      ∀ m', m.perform i = .ok m' → (dispatch i).after m = m' := by
  have positive : 0 < m.memory.size := Nat.zero_lt_of_lt large
  cases i with
  | twoRef op first second =>
      cases op with
      | mov => exact (yields_move off first second).signal .next
      | add => exact (yields_add off first second).signal .next
      | sub => exact (yields_sub off first second).signal .next
  | refImm op first immediate =>
      cases op with
      | jumpIfPositive => exact (yields_jumpIfPositive off positive first immediate).signal .next
      | loadLow => exact (yields_loadHalf off _ Word.withLow first immediate).signal .next
      | loadHigh => exact (yields_loadHalf off _ Word.withHigh first immediate).signal .next
      | addImm => exact (yields_addImm off first immediate).signal .next
      | subImm => exact (yields_subImm off first immediate).signal .next
  | ref op first =>
      cases op with
      | push => exact (yields_push off large first).signal .next
      | jump => exact (yields_jump off positive first).signal .next
      | print => exact (yields_print off positive first).signal .next
      | read => exact (yields_readValue off first).signal .next
      | callIndirect => exact (yields_callIndirect off large first).signal .next
  | imm op immediate =>
      cases op with
      | call => exact (yields_enter off large immediate).signal .next
      | beginFunction => exact (yields_beginFunction positive immediate).signal .next
      | printLiteral => exact (yields_printLiteral positive immediate).signal .next
  | bare op =>
      cases op with
      | pop => exact (yields_pop off).signal .next
      | endFunction => exact (yields_endFunction positive).signal .next
      | halt => exact ⟨rfl, fun _ same => Except.ok.inj same⟩

/-- A step that carries an instruction out does what `perform` says. -/
theorem step_of_perform (off : m.trace = false) {i : Instruction} (fetched : fetch.outcome m = .ok i)
    (carried : m.inBody = false ∨ i.marksBody = true) :
    step.outcome m = (m.perform i).map (fun _ => i.signal) ∧
      ∀ m', m.perform i = .ok m' → step.after m = m' := by
  obtain ⟨gives, leaves⟩ := step_of_dispatched fetched carried
  rw [gives, leaves, after_fetch_of_off off]
  by_cases zero : i = .twoRef .mov (.direct .ip) (.direct .ip)
  · rw [zero]
    exact (yields_move off (.direct .ip) (.direct .ip)).signal .next
  · exact dispatch_eq off (large_of_fetch fetched zero) i

/-- A step that passes over an instruction moves on to the next one. -/
theorem step_of_passed (off : m.trace = false) {i : Instruction} (fetched : fetch.outcome m = .ok i)
    (inside : m.inBody = true) (unmarked : i.marksBody = false) :
    step.outcome m = .ok .next ∧ step.after m = m.advanced := by
  obtain ⟨gives, leaves⟩ := step_of_skipped fetched inside unmarked
  rw [gives, leaves, after_fetch_of_off off]
  exact ⟨rfl, rfl⟩

end Action
end StoredProgram
