import StoredProgram.Main.Table
import StoredProgram.Proofs.Machine.Output
import StoredProgram.Proofs.Machine.Reachable

set_option autoImplicit false

namespace StoredProgram

/-- Memory of `size` words at the start of a program: the first instruction is next, the stack is empty,
and the words stand behind the register file. -/
structure Memory.Starts (memory : Memory) (size : Nat) (words : List Word) : Prop where
  sized : memory.size = size
  next : memory.read 0 = .ok 16
  stack : memory.read 1 = .ok (BitVec.ofNat 32 size)
  placed : ∀ k word, words[k]? = some word → memory.read (BitVec.ofNat 32 (16 + k)) = .ok word
  zero : ∀ i, 2 ≤ i → i < 16 ∨ 16 + words.length ≤ i → i < size →
    memory.read (BitVec.ofNat 32 i) = .ok 0

namespace Action

variable {size : Nat} {words : List Word}

/-- Words behind the register file change nothing else of a prepared memory. -/
theorem starts_putAll (lower : Register.count < size) (upper : size < Word.signedLimit)
    (fits : Register.count + words.length ≤ size) :
    ((prepared size).putAll Register.count words).Starts size words := by
  have lower' : 16 < size := lower
  have upper' : size < 2147483648 := upper
  have sized : ((prepared size).putAll Register.count words).size = size := Memory.size_putAll _ _ _
  have holds : ((prepared size).putAll Register.count words).Holds Register.count words :=
    Memory.holds_putAll fits
  -- What the words do not reach reads as it was prepared, pointers and zeros alike.
  have outside (i : Nat) (within : i < size)
      (apart : i < Register.count ∨ Register.count + words.length ≤ i) :
      ((prepared size).putAll Register.count words).read (BitVec.ofNat 32 i) =
        .ok (if i = 1 then BitVec.ofNat 32 size
          else if i = 0 then BitVec.ofNat 32 Register.count else 0) := by
    rw [Memory.read_ofNat (by omega) (by rwa [sized]), Memory.cell_putAll_outside apart,
      cell_prepared lower]
  refine ⟨sized, ?_, ?_, ?_, ?_⟩
  · exact outside 0 (by omega) (Or.inl (by decide))
  · exact outside 1 (by omega) (Or.inl (by decide))
  · exact fun k word listed => holds.read (by rwa [sized]) listed
  · intro i after apart within
    rw [outside i within apart, if_neg (by omega), if_neg (by omega)]

end Action

namespace Machine

variable {config : Config} {m : Machine}

/-- A load makes no difference between a machine and a new one but for the output so far. -/
theorem load_eq_withImage {image : Image} (lower : Register.count < m.memory.size)
    (upper : m.memory.size < Word.signedLimit)
    (fits : Register.count + image.code.length + image.static.length ≤ m.memory.size) :
    ∃ fresh, withImage image ⟨m.memory.size, m.trace⟩ m.input = .ok fresh ∧
      (Action.load image).after m = fresh.behind m.output ∧
      fresh.control = ⟨m.memory.size, .empty, false, Register.count + image.code.length, image.code.length⟩ ∧
      fresh.memory.Starts m.memory.size (image.code ++ image.static) := by
  have made : withImage image ⟨m.memory.size, m.trace⟩ m.input = .ok _ :=
    withImage_of_fits lower upper fits m.input
  refine ⟨_, made, ?_, ?_, ?_⟩
  · rw [(Action.load_of_fits fits).2, ← logged_behind]
    congr 1
    change _ = { Action.loaded image m with output := m.output ++ "" }
    rw [String.append_empty]
    rfl
  · rw [control_logged]
    exact congrArg (Control.mk · _ _ _ _) (Action.size_loadedMemory image m.memory.size)
  · rw [memory_logged]
    change (Action.loadedMemory image m.memory.size).Starts _ _
    rw [Action.loadedMemory_eq]
    apply Action.starts_putAll lower upper
    rwa [List.length_append, ← Nat.add_assoc]

/-- A load that fails has emptied the machine, and has copied the code if that fits. -/
theorem load_failed {image : Image} (lower : Register.count < m.memory.size)
    (upper : m.memory.size < Word.signedLimit)
    (large : m.memory.size < Register.count + image.code.length + image.static.length) :
    ∃ memory,
      (Action.load image).outcome m = .error (.imageTooLarge
        (if m.memory.size < Register.count + image.code.length then image.code.length
          else image.static.length) m.memory.size) ∧
      (Action.load image).after m = { m with memory, functions := .empty, inBody := false } ∧
      memory.Starts m.memory.size
        (if m.memory.size < Register.count + image.code.length then [] else image.code) := by
  by_cases code : m.memory.size < Register.count + image.code.length
  · have pointers : 1 < m.memory.size := Nat.lt_trans (by decide) lower
    obtain ⟨failed, leaves⟩ := Action.load_of_large_code pointers code
    have room : Register.count + ([] : List Word).length ≤ m.memory.size := Nat.le_of_lt lower
    rw [if_pos code, if_pos code]
    exact ⟨_, failed, leaves, Action.starts_putAll lower upper room⟩
  · obtain ⟨failed, leaves⟩ := Action.load_of_large_static (Nat.not_lt.mp code) large
    rw [if_neg code, if_neg code]
    exact ⟨_, failed, leaves, Action.starts_putAll lower upper (Nat.not_lt.mp code)⟩

/-- A load succeeds exactly if the image fits behind the register file. It then leaves the machine as a
new one with that image, apart from the output so far, and no step and no run tells the two apart. If the
image does not fit, the load names the part that is too large, and leaves the machine without functions
and bodies, with nothing in memory but the pointers and the code, if that fits, and with its count of
instructions and its output as they were. -/
theorem load_resets (reachable : m.Reachable config) (image : Image) :
    ((Action.load image).outcome m = .ok () ↔
      16 + image.code.length + image.static.length ≤ m.memory.size) ∧
    (16 + image.code.length + image.static.length ≤ m.memory.size →
      ∃ fresh, withImage image ⟨m.memory.size, m.trace⟩ m.input = .ok fresh ∧
        (Action.load image).after m = fresh.behind m.output ∧
        fresh.memory.Starts m.memory.size (image.code ++ image.static) ∧
        fresh.functions = .empty ∧ fresh.inBody = false ∧
        fresh.instructionCount = image.code.length ∧ fresh.staticBase = 16 + image.code.length ∧
        (∀ n, Action.step.outcome (((Action.load image).after m).afterSteps n) =
            Action.step.outcome (fresh.afterSteps n) ∧
          ((Action.load image).after m).afterSteps n = (fresh.afterSteps n).behind m.output) ∧
        ∀ draw limit, ((Action.load image).after m).run draw limit =
          { fresh.run draw limit with machine := (fresh.run draw limit).machine.behind m.output }) ∧
    (m.memory.size < 16 + image.code.length + image.static.length →
      ∃ memory,
        (Action.load image).outcome m = .error (.imageTooLarge
          (if m.memory.size < 16 + image.code.length then image.code.length
            else image.static.length) m.memory.size) ∧
        (Action.load image).after m = { m with memory, functions := .empty, inBody := false } ∧
        memory.Starts m.memory.size
          (if m.memory.size < 16 + image.code.length then [] else image.code)) := by
  have bounded := reachable.bounded
  refine ⟨Action.load_ok_iff, ?_, load_failed bounded.lower bounded.upper⟩
  intro fits
  obtain ⟨fresh, made, same, control, starts⟩ :=
    load_eq_withImage bounded.lower bounded.upper fits
  refine ⟨fresh, made, same, starts, congrArg Control.functions control,
    congrArg Control.inBody control, congrArg Control.instructionCount control,
    congrArg Control.staticBase control, ?_, ?_⟩
  · intro n
    rw [same, afterSteps_behind]
    exact ⟨(Action.appends_step _ _).1, rfl⟩
  · intro draw limit
    rw [same, run_behind]

/-- A machine whose run failed inside of a body is loaded again, with an image that fits and with one whose
static data does not. -/
theorem load_resets_after_failure :
    let broken : Image := ⟨[Instruction.encode (.imm .beginFunction 3), 0xFFFFFFFF], [5]⟩
    let new : Machine := { memory := .zero 20, trace := true, input := [] }
    let m := (((Action.load broken).after new).run Table.text 5).machine
    let small : Image := ⟨[Instruction.encode (.bare .halt)], [7]⟩
    let large : Image := ⟨[1, 2, 3], [4, 5]⟩
    m.inBody = true ∧ m.functions.entries = [(3, 17)] ∧ m.instructionCount = 2 ∧
      (Action.load small).outcome m = .ok () ∧
      (∃ fresh, withImage small ⟨20, true⟩ [] = .ok fresh ∧
        (Action.load small).after m = fresh.behind m.output ∧
        ((Action.load small).after m).run Table.text 5 =
          { fresh.run Table.text 5 with machine := (fresh.run Table.text 5).machine.behind m.output }) ∧
      (Action.load large).outcome m = .error (.imageTooLarge 2 20) ∧
      ∃ memory, (Action.load large).after m = { m with memory, functions := .empty, inBody := false } ∧
        memory.Starts 20 [1, 2, 3] := by
  intro broken new m small large
  have reachable : m.Reachable ⟨20, true⟩ := .ran (.loaded (.created rfl) _) _ _
  have size : m.memory.size = 20 := by decide +kernel
  have traced : m.trace = true := by decide +kernel
  have read : m.input = [] := by decide +kernel
  have fits : 16 + small.code.length + small.static.length ≤ m.memory.size := by rw [size]; decide
  have short : m.memory.size < 16 + large.code.length + large.static.length := by rw [size]; decide
  obtain ⟨success, placed, _⟩ := load_resets reachable small
  obtain ⟨fresh, made, same, _, _, _, _, _, _, runs⟩ := placed fits
  obtain ⟨_, _, refused⟩ := load_resets reachable large
  obtain ⟨memory, failed, leaves, starts⟩ := refused short
  rw [size, traced, read] at made
  rw [size] at failed starts
  exact ⟨by decide +kernel, by decide +kernel, by decide +kernel, success.mpr fits,
    ⟨fresh, made, same, runs _ 5⟩, failed, memory, leaves, starts⟩

end Machine
end StoredProgram
