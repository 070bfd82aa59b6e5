import StoredProgram.Proofs.Machine.Load
import StoredProgram.Proofs.Machine.Run
import StoredProgram.Proofs.Machine.Step

set_option autoImplicit false

namespace StoredProgram

theorem FunctionTable.mem_define {table : FunctionTable} {function address : Word}
    {entry : Word × Word} (member : entry ∈ (table.define function address).entries) :
    entry = (function, address) ∨ entry ∈ table.entries := by
  rcases List.mem_cons.mp member with new | old
  · exact Or.inl new
  · exact Or.inr (List.mem_filter.mp old).1

namespace Machine

variable {config : Config} {m : Machine}

/-- All that becomes of a new machine by loads, steps and runs, however they end. -/
inductive Reachable (config : Config) : Machine → Prop where
  | created {m : Machine} {input : List UInt8} (success : create config input = .ok m) :
      Reachable config m
  | loaded {m : Machine} (earlier : Reachable config m) (image : Image) :
      Reachable config ((Action.load image).after m)
  | stepped {m : Machine} (earlier : Reachable config m) : Reachable config (Action.step.after m)
  | ran {m : Machine} (earlier : Reachable config m) (draw : Table → String) (limit : Nat) :
      Reachable config (m.run draw limit).machine

/-- The bounds that no load and no step breaks. -/
structure Control.Bounded (config : Config) (c : Control) : Prop where
  size : c.size = config.memorySize
  lower : Register.count < c.size
  upper : c.size < Word.signedLimit
  base : c.staticBase = Register.count + c.instructionCount
  counted : Register.count + c.instructionCount ≤ c.size
  keys : ∀ entry ∈ c.functions.entries, entry.1.toNat < 134217728
  addresses : ∀ entry ∈ c.functions.entries, 1 ≤ entry.2.toNat ∧ entry.2.toNat ≤ c.size

theorem Control.Bounded.of_empty {c : Control} (size : c.size = config.memorySize)
    (lower : Register.count < c.size) (upper : c.size < Word.signedLimit)
    (base : c.staticBase = Register.count + c.instructionCount)
    (counted : Register.count + c.instructionCount ≤ c.size) (empty : c.functions = .empty) :
    c.Bounded config := by
  have none : ∀ entry, entry ∉ c.functions.entries := by
    rw [empty]
    exact fun _ => List.not_mem_nil
  exact ⟨size, lower, upper, base, counted, fun entry member => absurd member (none entry),
    fun entry member => absurd member (none entry)⟩

theorem eq_of_create {input : List UInt8} (success : create config input = .ok m) :
    Register.count < config.memorySize ∧ config.memorySize < Word.signedLimit ∧
      m = { memory := .zero config.memorySize, trace := config.trace, input } := by
  unfold create Config.check at success
  split at success
  · rename_i valid
    injection success with same
    exact ⟨valid.1, valid.2, same.symm⟩
  · cases success

/-- A load forgets functions and bodies. The place of the pool and the count of instructions are those of
the image, which then fits in memory, or they stay as they were. -/
theorem control_load (image : Image) (m : Machine) :
    ∃ base count,
      ((Action.load image).after m).control = ⟨m.memory.size, .empty, false, base, count⟩ ∧
      (base = m.staticBase ∧ count = m.instructionCount ∨
        base = Register.count + count ∧ count = image.code.length ∧
          Register.count + count ≤ m.memory.size) := by
  obtain ⟨memory, sized, ⟨fault, failed⟩ | ⟨fits, success⟩⟩ :=
    Action.load_cases image m.memory.size
  · rw [(failed m rfl).2, ← sized]
    exact ⟨_, _, rfl, Or.inl ⟨rfl, rfl⟩⟩
  · rw [(success m rfl).2, control_logged, ← sized]
    refine ⟨_, _, rfl, Or.inr ⟨rfl, rfl, ?_⟩⟩
    rwa [sized]

theorem bounded_create {input : List UInt8} (success : create config input = .ok m) :
    m.control.Bounded config := by
  obtain ⟨lower, upper, same⟩ := eq_of_create success
  rw [same]
  exact .of_empty rfl lower upper rfl (Nat.le_of_lt lower) rfl

theorem bounded_load (bounded : m.control.Bounded config) (image : Image) :
    ((Action.load image).after m).control.Bounded config := by
  obtain ⟨base, count, loaded, kept | new⟩ := control_load image m
  · obtain ⟨rfl, rfl⟩ := kept
    rw [loaded]
    exact .of_empty bounded.size bounded.lower bounded.upper bounded.base bounded.counted rfl
  · obtain ⟨placed, _, fits⟩ := new
    rw [loaded]
    exact .of_empty bounded.size bounded.lower bounded.upper placed fits rfl

/-- A mark is fetched from memory, so its address is small and the entry behind it does not wrap. -/
theorem toNat_of_opened {function address : Word} (met : m.mark? = some (.opened function address)) :
    address.toInt = address.toNat ∧ address.toNat < m.memory.size ∧
      (address + 1).toNat = address.toNat + 1 := by
  obtain ⟨_, _, _, located, _⟩ := bounds_of_opened met
  have signed := located.toInt_eq
  have within := located.2
  exact ⟨signed, by omega, located.toNat_succ⟩

theorem bounded_step (bounded : m.control.Bounded config) :
    (Action.step.after m).control.Bounded config := by
  rw [control_step]
  cases met : m.mark? with
  | none => exact bounded
  | some mark =>
      cases mark with
      | closed => exact { bounded with }
      | opened function address =>
          obtain ⟨_, _, _, _, narrow⟩ := bounds_of_opened met
          obtain ⟨_, within, next⟩ := toNat_of_opened met
          refine { bounded with keys := ?_, addresses := ?_ }
          · intro entry member
            rcases FunctionTable.mem_define member with new | old
            · rw [new]
              exact narrow
            · exact bounded.keys entry old
          · intro entry member
            rcases FunctionTable.mem_define member with new | old
            · rw [new]
              change 1 ≤ (address + 1).toNat ∧ (address + 1).toNat ≤ m.memory.size
              omega
            · exact bounded.addresses entry old

theorem bounded_run (bounded : m.control.Bounded config) (draw : Table → String) (limit : Nat) :
    (m.run draw limit).machine.control.Bounded config := by
  have stepped (n : Nat) : (m.afterSteps n).control.Bounded config := by
    induction n with
    | zero => exact bounded
    | succ n ih => exact bounded_step ih
  rw [(run_cases draw limit m).2.2]
  split
  · rw [close_eq, control_logged]
    exact stepped _
  · exact stepped _

theorem Reachable.bounded (reachable : Reachable config m) : m.control.Bounded config := by
  induction reachable with
  | created success => exact bounded_create success
  | loaded _ image ih => exact bounded_load ih image
  | stepped _ ih => exact bounded_step ih
  | ran _ draw limit ih => exact bounded_run ih draw limit

/-- The cell of a register can be read in a memory that is larger than the register file. -/
theorem read_register (lower : Register.count < m.memory.size) (r : Register) :
    m.memory.read (BitVec.ofNat 32 r.val) = .ok (m.register r) := by
  rw [Memory.read_inside (inBounds_register lower r), Register.toNat_address, register]

/-- Whatever was loaded and run before, and however it ended: memory has the size that was asked for, the
literal pool starts within it, functions have numbers that fit in an immediate and entries that are
addresses or just past the end, and every register can be read. -/
theorem reachable_bounds (reachable : m.Reachable config) :
    m.memory.size = config.memorySize ∧ 16 < m.memory.size ∧ m.memory.size ≤ 2147483647 ∧
      m.staticBase = 16 + m.instructionCount ∧ 16 ≤ m.staticBase ∧ m.staticBase ≤ m.memory.size ∧
      (BitVec.ofNat 32 m.staticBase).toInt = m.staticBase ∧
      (∀ entry ∈ m.functions.entries,
        0 ≤ entry.1.toInt ∧ entry.1.toInt < 134217728 ∧
          1 ≤ entry.2.toInt ∧ entry.2.toInt ≤ m.memory.size) ∧
      ∀ r : Register, m.memory.read (BitVec.ofNat 32 r.val) = .ok (m.register r) := by
  have bounded := reachable.bounded
  have lower : 16 < m.memory.size := bounded.lower
  have upper : m.memory.size < 2147483648 := bounded.upper
  have counted : 16 + m.instructionCount ≤ m.memory.size := bounded.counted
  have base : m.staticBase = 16 + m.instructionCount := bounded.base
  have number : (BitVec.ofNat 32 m.staticBase).toNat = m.staticBase := by
    rw [BitVec.toNat_ofNat]
    omega
  have signed := Word.toInt_of_small (w := BitVec.ofNat 32 m.staticBase) (by omega)
  refine ⟨bounded.size, lower, by omega, base, by omega, by omega, by omega, ?_,
    read_register bounded.lower⟩
  intro entry member
  have key := bounded.keys entry member
  obtain ⟨first, last⟩ := bounded.addresses entry member
  have last : entry.2.toNat ≤ m.memory.size := last
  have keySigned := Word.toInt_of_small (w := entry.1) (by omega)
  have addressSigned := Word.toInt_of_small (w := entry.2) (by omega)
  omega

/-- A machine that defined a function at the end of its memory, and then failed in the middle of a load:
it keeps its old count of instructions. -/
theorem reachable_bounds_after_failed_load :
    let definition := Instruction.encode (.imm .beginFunction 3)
    let fresh : Machine := { memory := .zero 17, trace := false, input := [] }
    let defined := Action.step.after ((Action.load ⟨[definition], []⟩).after fresh)
    let m := (Action.load ⟨[definition, definition], []⟩).after defined
    defined.functions.entries = [(3, 17)] ∧
      (∀ entry ∈ defined.functions.entries,
        0 ≤ entry.1.toInt ∧ entry.1.toInt < 134217728 ∧
          1 ≤ entry.2.toInt ∧ entry.2.toInt ≤ defined.memory.size) ∧
      m.functions.entries = [] ∧ m.staticBase = 17 ∧ m.staticBase ≤ m.memory.size ∧
      m.memory.size = 17 ∧
      ∀ r : Register, m.memory.read (BitVec.ofNat 32 r.val) = .ok (m.register r) := by
  intro definition fresh defined m
  have earlier : defined.Reachable ⟨17, false⟩ := .stepped (.loaded (.created rfl) _)
  have later : m.Reachable ⟨17, false⟩ := earlier.loaded _
  obtain ⟨_, _, _, _, _, _, _, entries, _⟩ := reachable_bounds earlier
  obtain ⟨size, _, _, _, _, base, _, _, read⟩ := reachable_bounds later
  exact ⟨by decide +kernel, entries, by decide +kernel, by decide +kernel, base, size, read⟩

end Machine
end StoredProgram
