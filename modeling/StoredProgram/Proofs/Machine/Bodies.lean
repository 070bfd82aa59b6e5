import StoredProgram.Proofs.Machine.Perform

set_option autoImplicit false

namespace StoredProgram

/-- The marks of bodies are the two instructions that open and close one. -/
theorem Instruction.cases_of_marksBody {i : Instruction} (marked : i.marksBody = true) :
    (∃ function, i = .imm .beginFunction function) ∨ i = .bare .endFunction := by
  cases i with
  | imm op function =>
      cases op with
      | beginFunction => exact Or.inl ⟨function, rfl⟩
      | _ => cases marked
  | bare op =>
      cases op with
      | endFunction => exact Or.inr rfl
      | _ => cases marked
  | _ => cases marked

namespace Machine

variable {m m' : Machine}

theorem setRegister_setRegister (m : Machine) (r : Register) (first second : Word) :
    (m.setRegister r first).setRegister r second = m.setRegister r second := by
  simp only [setRegister, Memory.put_put]

theorem OnlyTraced.advanced (same : m.OnlyTraced m') : m.advanced.OnlyTraced m'.advanced := by
  obtain ⟨lines, form, silent, rfl⟩ := same
  exact ⟨lines, form, silent, rfl⟩

def opened (m : Machine) (function : Word) : Machine :=
  { m with functions := m.functions.define function (m.register .ip + 1), inBody := true }.advanced

def closed (m : Machine) : Machine := { m with inBody := false }.advanced

theorem OnlyTraced.opened (same : m.OnlyTraced m') (function : Word) :
    (m.opened function).OnlyTraced (m'.opened function) := by
  obtain ⟨lines, form, silent, rfl⟩ := same
  exact ⟨lines, form, silent, rfl⟩

theorem OnlyTraced.closed (same : m.OnlyTraced m') : m.closed.OnlyTraced m'.closed := by
  obtain ⟨lines, form, silent, rfl⟩ := same
  exact ⟨lines, form, silent, rfl⟩

end Machine

namespace Action

variable {m : Machine} {i : Instruction}

theorem step_passes (fetched : fetch.outcome m = .ok i) (inside : m.inBody = true)
    (unmarked : i.marksBody = false) :
    step.outcome m = .ok .next ∧ m.advanced.OnlyTraced (step.after m) := by
  obtain ⟨gives, leaves⟩ := step_of_skipped fetched inside unmarked
  rw [leaves]
  exact ⟨gives, (Machine.onlyTraced_fetch m).advanced⟩

theorem step_opens {function : Word} (fetched : fetch.outcome m = .ok (.imm .beginFunction function))
    (outside : m.inBody = false) :
    step.outcome m = .ok .next ∧ (m.opened function).OnlyTraced (step.after m) := by
  have opened :=
    beginFunction_outside (positive_after_fetch fetched) ((inBody_fetch m).trans outside) function
  obtain ⟨gives, leaves⟩ := step_of_ok fetched (Or.inr rfl) (bind_of_ok _ opened)
  rw [leaves]
  exact ⟨gives, (Machine.onlyTraced_fetch m).opened function⟩

theorem step_closes (fetched : fetch.outcome m = .ok (.bare .endFunction)) :
    step.outcome m = .ok .next ∧ m.closed.OnlyTraced (step.after m) := by
  have closed := run_endFunction (positive_after_fetch fetched)
  obtain ⟨gives, leaves⟩ := step_of_ok fetched (Or.inr rfl) (bind_of_ok _ closed)
  rw [leaves]
  exact ⟨gives, (Machine.onlyTraced_fetch m).closed⟩

/-- A step inside of a body fails, leaves the body, or moves on to the next word of it. -/
theorem step_inside_cases (inside : m.inBody = true) :
    (∃ fault, step.outcome m = .error fault) ∨
      (step.outcome m = .ok .next ∧ (step.after m).inBody = false) ∨
      (step.outcome m = .ok .next ∧ m.memory.InBounds (m.register .ip) ∧
        m.advanced.OnlyTraced (step.after m)) := by
  rcases fetch_cases m with ⟨fault, failed, _⟩ | ⟨i, within, _, fetched, _⟩
  · exact Or.inl ⟨fault, (step_of_fetch_error failed).1⟩
  · cases marked : i.marksBody with
    | false =>
        obtain ⟨gives, same⟩ := step_passes fetched inside marked
        exact Or.inr (Or.inr ⟨gives, within, same⟩)
    | true =>
        rcases Instruction.cases_of_marksBody marked with ⟨function, rfl⟩ | rfl
        · exact Or.inl ⟨_, (step_beginFunction_nested fetched inside).1⟩
        · obtain ⟨gives, same⟩ := step_closes fetched
          exact Or.inr (Or.inl ⟨gives, congrArg Machine.Control.inBody same.control⟩)

end Action

namespace Machine

variable {m m' : Machine} {function : Word} {p n : Nat}

/-- The machine in a body that opens at `p`, when `k` words of the body have been passed over. -/
def passing (m : Machine) (function : Word) (p k : Nat) : Machine :=
  { m with
    functions := m.functions.define function (BitVec.ofNat 32 (p + 1)), inBody := true }.setRegister
      .ip (BitVec.ofNat 32 (p + 1 + k))

theorem register_ip_passing (positive : 0 < m.memory.size) (function : Word) (p k : Nat) :
    (m.passing function p k).register .ip = BitVec.ofNat 32 (p + 1 + k) :=
  register_setRegister _ _ _ positive

theorem opened_eq (there : m.register .ip = BitVec.ofNat 32 p) :
    m.opened function = m.passing function p 0 := by
  have next : m.register .ip + 1 = BitVec.ofNat 32 (p + 1) := by rw [there, Word.ofNat_add_one]
  rw [opened, passing, next]
  exact congrArg (setRegister _ .ip) next

theorem advanced_passing (positive : 0 < m.memory.size) (function : Word) (p k : Nat) :
    (m.passing function p k).advanced = m.passing function p (k + 1) := by
  rw [advanced, register_ip_passing positive, Word.ofNat_add_one]
  exact setRegister_setRegister _ _ _ _

/-- The instruction pointer is the only cell that is written on the way, and it is none of those that
are still to be passed over. -/
theorem read_passing (small : m.memory.size < 2147483648) (function : Word) {k : Nat}
    (within : p + 1 + k < m.memory.size) :
    (m.passing function p k).memory.read ((m.passing function p k).register .ip) =
      .ok (m.memory.cell (p + 1 + k)) := by
  have apart : Register.ip.val ≠ p + 1 + k := by
    change 0 ≠ p + 1 + k
    omega
  have size : (m.passing function p k).memory.size = m.memory.size := Memory.size_put _ _ _
  rw [register_ip_passing (by omega), Memory.read_ofNat (by omega) (by omega)]
  exact congrArg Except.ok (Memory.cell_put_other _ _ apart)

section
variable (small : m.memory.size < 2147483648) (outside : m.inBody = false)
  (there : m.register .ip = BitVec.ofNat 32 p) (within : p + n + 1 < m.memory.size)
  (opens : Instruction.decode (m.memory.cell p) = .ok (.imm .beginFunction function))
  (inner : ∀ k < n, ∃ i, Instruction.decode (m.memory.cell (p + 1 + k)) = .ok i ∧ i.marksBody = false)
include small outside there within opens inner

/-- A body is passed over word by word, by induction on how many words have been passed over. -/
theorem afterSteps_passing :
    (∀ k < n + 1, Action.step.outcome (m.afterSteps k) = .ok .next) ∧
      (m.passing function p n).OnlyTraced (m.afterSteps (n + 1)) := by
  induction n with
  | zero =>
      have present : m.memory.read (m.register .ip) = .ok (m.memory.cell p) := by
        rw [there, Memory.read_ofNat (by omega) (by omega)]
      obtain ⟨gives, same⟩ := Action.step_opens (Action.fetch_of_read present opens) outside
      rw [opened_eq there] at same
      refine ⟨?_, same⟩
      intro k first
      rwa [Nat.lt_one_iff.mp first]
  | succ n ih =>
      obtain ⟨earlier, same⟩ := ih (by omega) fun k before => inner k (by omega)
      obtain ⟨i, decoded, unmarked⟩ := inner n (by omega)
      have fetched : Action.fetch.outcome (m.afterSteps (n + 1)) = .ok i := by
        rw [same.outcome_eq.1]
        exact Action.fetch_of_read (read_passing small function (by omega)) decoded
      have inside : (m.afterSteps (n + 1)).inBody = true := congrArg Control.inBody same.control
      obtain ⟨gives, moved⟩ := Action.step_passes fetched inside unmarked
      have next := same.advanced.trans moved
      rw [advanced_passing (by omega)] at next
      exact ⟨Nat.forall_lt_succ_right.mpr ⟨earlier, gives⟩, next⟩

/-- The word at which the body ends, or fails to, is met after the others. -/
theorem fetch_after_body :
    Action.fetch.outcome (m.afterSteps (n + 1)) = Action.fetch.outcome (m.passing function p n) ∧
      (m.passing function p n).memory.read ((m.passing function p n).register .ip) =
        .ok (m.memory.cell (p + n + 1)) := by
  obtain ⟨_, same⟩ := afterSteps_passing small outside there within opens inner
  have present := read_passing small function (p := p) (k := n) (by omega)
  rw [show p + 1 + n = p + n + 1 by omega] at present
  exact ⟨same.outcome_eq.1, present⟩

end

/-- What is different behind a body that opens at `p` and has `n` words between its marks. -/
structure HasPassed (m : Machine) (function : Word) (p n : Nat) (m' : Machine) : Prop where
  next : m'.register .ip = BitVec.ofNat 32 (p + n + 2)
  outside : m'.inBody = false
  entry : m'.functions.find? function = some (BitVec.ofNat 32 (p + 1))
  others : ∀ other, other ≠ function → m'.functions.find? other = m.functions.find? other
  size : m'.memory.size = m.memory.size
  cell : ∀ k, k ≠ 0 → m'.memory.cell k = m.memory.cell k
  input : m'.input = m.input
  staticBase : m'.staticBase = m.staticBase
  instructionCount : m'.instructionCount = m.instructionCount
  output : ∃ lines, (∀ line ∈ lines, Trace.IsTraceLine line) ∧ (m.trace = false → lines = []) ∧
    m'.output = m.output ++ Lines.join lines

theorem closed_passing (positive : 0 < m.memory.size) (function : Word) (p n : Nat) :
    (m.passing function p n).closed =
      { m with
        functions := m.functions.define function (BitVec.ofNat 32 (p + 1))
        inBody := false }.setRegister .ip (BitVec.ofNat 32 (p + n + 2)) := by
  have next : (m.passing function p n).register .ip + 1 = BitVec.ofNat 32 (p + n + 2) := by
    rw [register_ip_passing positive, Word.ofNat_add_one, show p + 1 + n + 1 = p + n + 2 by omega]
  rw [closed, advanced]
  change setRegister _ .ip ((m.passing function p n).register .ip + 1) = _
  rw [next]
  exact setRegister_setRegister
    { m with functions := m.functions.define function (BitVec.ofNat 32 (p + 1)), inBody := false } _ _ _

theorem hasPassed_closed (positive : 0 < m.memory.size)
    (same : (m.passing function p n).closed.OnlyTraced m') : m.HasPassed function p n m' := by
  rw [closed_passing positive] at same
  have memory := same.memory
  have table : m'.functions = m.functions.define function (BitVec.ofNat 32 (p + 1)) :=
    congrArg Control.functions same.control
  refine
    { next := ?_
      outside := congrArg Control.inBody same.control
      entry := by rw [table, FunctionTable.find?_define_same]
      others := fun other apart => by rw [table, FunctionTable.find?_define_other _ _ apart]
      size := congrArg Control.size same.control
      cell := ?_
      input := same.input
      staticBase := congrArg Control.staticBase same.control
      instructionCount := congrArg Control.instructionCount same.control
      output := same.output }
  · rw [register, memory]
    exact Memory.cell_put_same _ _ positive
  · intro k other
    rw [memory]
    exact Memory.cell_put_other _ _ (Ne.symm other)

/-- Without a trace, a body that is closed leaves its function defined, and the machine behind it. -/
theorem goes_past_body (untraced : m.trace = false) (small : m.memory.size < 2147483648)
    (outside : m.inBody = false) (there : m.register .ip = BitVec.ofNat 32 p)
    (within : p + n + 1 < m.memory.size)
    (opens : Instruction.decode (m.memory.cell p) = .ok (.imm .beginFunction function))
    (inner : ∀ k < n, ∃ i, Instruction.decode (m.memory.cell (p + 1 + k)) = .ok i ∧ i.marksBody = false)
    (closes : Instruction.decode (m.memory.cell (p + n + 1)) = .ok (.bare .endFunction)) :
    m.Goes (n + 2) ({ m with
      functions := m.functions.define function (BitVec.ofNat 32 (p + 1))
      inBody := false }.setRegister .ip (BitVec.ofNat 32 (p + n + 2))) := by
  obtain ⟨earlier, same⟩ := afterSteps_passing small outside there within opens inner
  obtain ⟨met, present⟩ := fetch_after_body small outside there within opens inner
  rw [Action.fetch_of_read present closes] at met
  obtain ⟨gives, left⟩ := Action.step_closes met
  refine ⟨Nat.forall_lt_succ_right.mpr ⟨earlier, gives⟩, ?_⟩
  rw [← closed_passing (by omega)]
  exact (same.closed.trans left).eq_of_off untraced

/-- Inside of a body the machine gets to the end of the body or of memory, or fails before. -/
theorem body_ends (small : m.memory.size < 2147483648) (inside : m.inBody = true) :
    ∃ k ≤ (m.memory.size - (m.register .ip).toInt).toNat,
      (∀ j < k, Action.step.outcome (m.afterSteps j) = .ok .next ∧
        (m.afterSteps (j + 1)).inBody = true) ∧
      ((∃ fault, Action.step.outcome (m.afterSteps k) = .error fault) ∨
        (Action.step.outcome (m.afterSteps k) = .ok .next ∧
          (m.afterSteps (k + 1)).inBody = false)) := by
  -- By induction on the distance to the end of memory, which each word passed over makes smaller.
  induction distance : (m.memory.size - (m.register .ip).toInt).toNat generalizing m with
  | zero =>
      rcases Action.step_inside_cases inside with failed | left | ⟨_, within, _⟩
      · exact ⟨0, Nat.le_refl 0, by simp, Or.inl failed⟩
      · exact ⟨0, Nat.le_refl 0, by simp, Or.inr left⟩
      · obtain ⟨_, below⟩ := within
        omega
  | succ d ih =>
      rcases Action.step_inside_cases inside with failed | left | ⟨gives, within, same⟩
      · exact ⟨0, Nat.zero_le _, by simp, Or.inl failed⟩
      · exact ⟨0, Nat.zero_le _, by simp, Or.inr left⟩
      · obtain ⟨above, below⟩ := within
        have size : (Action.step.after m).memory.size = m.memory.size :=
          congrArg Control.size same.control
        have later : (Action.step.after m).inBody = true :=
          (congrArg Control.inBody same.control).trans inside
        have moved : (Action.step.after m).register .ip = m.register .ip + 1 := by
          rw [register, same.memory]
          exact register_setRegister m .ip _ (show 0 < m.memory.size by omega)
        have next : ((Action.step.after m).register .ip).toInt = (m.register .ip).toInt + 1 := by
          rw [moved, BitVec.toInt_add, show (1 : Word).toInt = 1 from rfl]
          exact Int.bmod_eq_of_le (by omega) (by omega)
        obtain ⟨k, near, passed, ended⟩ := ih (by omega) later (by omega)
        refine ⟨k + 1, by omega, ?_, ?_⟩
        · intro j before
          cases j with
          | zero => exact ⟨gives, later⟩
          | succ j =>
              rw [afterSteps_succ, afterSteps_succ]
              exact passed j (by omega)
        · rw [afterSteps_succ, afterSteps_succ]
          exact ended

/-- A body is passed over whatever is in it, in a memory of any size that a machine can have. From its
opening mark every step succeeds, up to the closing mark and with it, and then the machine stands behind the
body with nothing different but the instruction pointer and the entry of the function. If another body opens
before, or a word is no instruction, that step fails. Inside of any body the machine gets out of it or fails
within the distance to the end of memory. -/
theorem bodies_are_passed_over (small : m.memory.size < 2147483648) :
    (∀ (p n : Nat) (function : Word), m.inBody = false → m.register .ip = BitVec.ofNat 32 p →
      p + n + 1 < m.memory.size →
      Instruction.decode (m.memory.cell p) = .ok (.imm .beginFunction function) →
      (∀ k < n, ∃ i, Instruction.decode (m.memory.cell (p + 1 + k)) = .ok i ∧ i.marksBody = false) →
      (∀ k ≤ n, Action.step.outcome (m.afterSteps k) = .ok .next) ∧
      (Instruction.decode (m.memory.cell (p + n + 1)) = .ok (.bare .endFunction) →
        (∀ k < n + 2, Action.step.outcome (m.afterSteps k) = .ok .next) ∧
          m.HasPassed function p n (m.afterSteps (n + 2))) ∧
      (∀ other, Instruction.decode (m.memory.cell (p + n + 1)) = .ok (.imm .beginFunction other) →
        Action.step.outcome (m.afterSteps (n + 1)) =
          .error (.nestedFunction other (BitVec.ofNat 32 (p + n + 1)))) ∧
      ∀ e, Instruction.decode (m.memory.cell (p + n + 1)) = .error e →
        Action.step.outcome (m.afterSteps (n + 1)) = .error (.instruction e)) ∧
    (m.inBody = true →
      ∃ k ≤ (m.memory.size - (m.register .ip).toInt).toNat,
        (∀ j < k, Action.step.outcome (m.afterSteps j) = .ok .next ∧
          (m.afterSteps (j + 1)).inBody = true) ∧
        ((∃ fault, Action.step.outcome (m.afterSteps k) = .error fault) ∨
          (Action.step.outcome (m.afterSteps k) = .ok .next ∧
            (m.afterSteps (k + 1)).inBody = false))) := by
  refine ⟨?_, body_ends small⟩
  intro p n function outside there within opens inner
  obtain ⟨earlier, same⟩ := afterSteps_passing small outside there within opens inner
  obtain ⟨met, present⟩ := fetch_after_body small outside there within opens inner
  have inside : (m.afterSteps (n + 1)).inBody = true := congrArg Control.inBody same.control
  refine ⟨fun k before => earlier k (Nat.lt_succ_of_le before), ?_, ?_, ?_⟩
  · intro closes
    rw [Action.fetch_of_read present closes] at met
    obtain ⟨gives, left⟩ := Action.step_closes met
    exact ⟨Nat.forall_lt_succ_right.mpr ⟨earlier, gives⟩,
      hasPassed_closed (by omega) (same.closed.trans left)⟩
  · intro other nested
    rw [Action.fetch_of_read present nested] at met
    have here : (m.afterSteps (n + 1)).register .ip = BitVec.ofNat 32 (p + n + 1) := by
      rw [register, same.memory, show p + n + 1 = p + 1 + n by omega]
      exact register_ip_passing (by omega) function p n
    rw [(Action.step_beginFunction_nested met inside).1, here]
  · intro e unknown
    rw [Action.fetch_of_unknown present unknown] at met
    exact (Action.step_of_fetch_error met).1

/-- A body of a halt, a jump, a read and a call is passed over, and no line of input is taken. In the next
body the mark of a third one is met. -/
theorem bodies_are_passed_over_up_to_a_nested_one :
    let body : List Instruction :=
      [.bare .halt, .ref .jump ⟨1, .ip⟩, .ref .read (.direct 3), .imm .call 9]
    let program : List Instruction := .imm .beginFunction 5 :: body ++
      [.bare .endFunction, .imm .beginFunction 6, .bare .halt, .imm .beginFunction 7]
    let fresh : Machine := { memory := .zero 32, trace := false, input := [53, 10] }
    let m := (Action.load ⟨program.map Instruction.encode, []⟩).after fresh
    let behind := m.afterSteps 6
    m.HasPassed 5 16 4 behind ∧ behind.input = [53, 10] ∧
      Action.step.outcome (behind.afterSteps 2) = .error (.nestedFunction 7 24) ∧
      (behind.afterSteps 1).inBody = true ∧
      ∃ k ≤ 9,
        (∀ j < k, Action.step.outcome ((behind.afterSteps 1).afterSteps j) = .ok .next ∧
          ((behind.afterSteps 1).afterSteps (j + 1)).inBody = true) ∧
        ((∃ fault, Action.step.outcome ((behind.afterSteps 1).afterSteps k) = .error fault) ∨
          (Action.step.outcome ((behind.afterSteps 1).afterSteps k) = .ok .next ∧
            ((behind.afterSteps 1).afterSteps (k + 1)).inBody = false)) := by
  intro body program fresh m behind
  have inner : ∀ k < 4, ∃ i ∈ body,
      (Instruction.decode (m.memory.cell (17 + k))).toOption = some i ∧ i.marksBody = false := by
    decide +kernel
  have small : m.memory.size < 2147483648 := by decide +kernel
  obtain ⟨_, closes, _, _⟩ := (bodies_are_passed_over small).1 16 4 5 (by decide +kernel)
    (by decide +kernel) (by decide +kernel) (eq_ok_of_toOption (by decide +kernel)) (by
      intro k before
      obtain ⟨i, _, decoded, unmarked⟩ := inner k before
      exact ⟨i, eq_ok_of_toOption decoded, unmarked⟩)
  obtain ⟨_, passed⟩ := closes (eq_ok_of_toOption (by decide +kernel))
  have later : behind.memory.size < 2147483648 := by decide +kernel
  obtain ⟨_, _, nests, _⟩ := (bodies_are_passed_over later).1 22 1 6 (by decide +kernel)
    (by decide +kernel) (by decide +kernel) (eq_ok_of_toOption (by decide +kernel)) (by
      intro k before
      obtain rfl : k = 0 := Nat.lt_one_iff.mp before
      exact ⟨.bare .halt, eq_ok_of_toOption (by decide +kernel), rfl⟩)
  have inside : (behind.afterSteps 1).inBody = true := by decide +kernel
  have last : (behind.afterSteps 1).memory.size < 2147483648 := by decide +kernel
  have distance : ((behind.afterSteps 1).memory.size -
      ((behind.afterSteps 1).register .ip).toInt).toNat = 9 := by decide +kernel
  have ended := (bodies_are_passed_over last).2 inside
  rw [distance] at ended
  exact ⟨passed, passed.input.trans (by decide +kernel),
    nests 7 (eq_ok_of_toOption (by decide +kernel)), inside, ended⟩

end Machine
end StoredProgram
