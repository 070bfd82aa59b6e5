import StoredProgram.Proofs.Machine.Step

set_option autoImplicit false

namespace StoredProgram

/-- The next step carries out a call of a function. -/
def Machine.Calls (m : Machine) (function : Word) : Prop :=
  m.inBody = false ∧ (Action.fetch.outcome m = .ok (.imm .call function) ∨
    ∃ source, Action.fetch.outcome m = .ok (.ref .callIndirect source) ∧
      m.resolve source = .ok function)

namespace Action

variable {m : Machine} {function : Word}

def entryOf (function : Word) : Action Word := query fun m =>
  match m.functions.find? function with
  | some entry => .ok entry
  | none => .error (.unknownFunction function)

/-- The rest of a call when the stack pointer has moved to `top`. -/
def enterFrom (top back function entry : Word) : Action Unit := do
  write top back
  traceEffect (.imm .call)
    [("function", function.toInt), ("entry", entry.toInt), ("return", back.toInt)]
  setRegister .ip entry

theorem enter_eq (function : Word) : enter function = entryOf function >>= fun entry =>
    register .ip >>= fun ip => growStack >>= fun top => enterFrom top (ip + 1) function entry := rfl

theorem run_enter_unknown (absent : m.functions.find? function = none) :
    enter function m = .error (.unknownFunction function) m := by
  have unknown : entryOf function m = .error (.unknownFunction function) m := by
    rw [entryOf, query, absent]
  exact bind_of_error _ unknown

theorem run_entryOf {entry : Word} (found : m.functions.find? function = some entry) :
    entryOf function m = .ok entry m := by
  rw [entryOf, query, found]

theorem run_enter {entry : Word} (large : 1 < m.memory.size)
    (found : m.functions.find? function = some entry) :
    enter function m =
      enterFrom (m.register .sp - 1) (m.register .ip + 1) function entry m.grown := by
  rw [enter_eq, bind_of_ok _ (run_entryOf found),
    bind_of_ok _ (run_register (r := .ip) (Nat.zero_lt_of_lt large)), bind_of_ok _ (run_growStack large)]

/-- A memory of one cell has no stack pointer. -/
theorem run_enter_small {entry : Word} (positive : 0 < m.memory.size) (small : m.memory.size ≤ 1)
    (found : m.functions.find? function = some entry) :
    enter function m = .error (.addressOutOfBounds (BitVec.ofNat 32 Register.sp.val)) m := by
  rw [enter_eq, bind_of_ok _ (run_entryOf found), bind_of_ok _ (run_register (r := .ip) positive)]
  exact bind_of_error _ (bind_of_error _ (run_register_outside (r := .sp) small))

/-- Entering a known function may fail where the address to return to is written, and nowhere else. -/
theorem enter_known {entry : Word} (positive : 0 < m.memory.size)
    (found : m.functions.find? function = some entry) :
    (∃ address, (enter function).outcome m = .error (.addressOutOfBounds address)) ∨
      ((enter function).outcome m = .ok () ∧
        ((enter function).after m).register .ip = entry) := by
  by_cases large : 1 < m.memory.size
  case neg =>
    exact Or.inl ⟨_, outcome_of_error (run_enter_small positive (Nat.not_lt.mp large) found)⟩
  rw [outcome_congr (run_enter large found), after_congr (run_enter large found)]
  by_cases within : m.grown.memory.InBounds (m.register .sp - 1)
  case neg => exact Or.inl ⟨_, outcome_bind_error _ (outcome_of_error (run_write_outside within))⟩
  -- Neither the write nor the line of trace makes the memory smaller than it was.
  let m₁ : Machine := { m.grown with
    memory := m.grown.memory.put (m.register .sp - 1).toNat (m.register .ip + 1) }
  let line := Trace.effect (Opcode.imm .call).mnemonic
    [("function", function.toInt), ("entry", entry.toInt), ("return", (m.register .ip + 1).toInt)]
  have room : 0 < (m₁.logged line).memory.size := by
    rw [Machine.memory_logged]
    exact positive
  have run : enterFrom (m.register .sp - 1) (m.register .ip + 1) function entry m.grown =
      .ok () ((m₁.logged line).setRegister .ip entry) := by
    rw [enterFrom, bind_of_ok _ (run_write within), traceEffect, bind_of_ok _ (run_traceLine _ m₁)]
    exact run_setRegister (r := .ip) room entry
  right
  rw [outcome_of_ok run, after_of_ok run]
  exact ⟨rfl, Machine.register_setRegister _ _ _ room⟩

/-- A call and an indirect call are one entering of the function that they mean. -/
theorem step_of_call (calls : m.Calls function) :
    step.outcome m = (enter function >>= fun _ => pure Signal.next : Action Signal).outcome
        (fetch.after m) ∧
      step.after m = (enter function >>= fun _ => pure Signal.next : Action Signal).after
        (fetch.after m) := by
  obtain ⟨outside, fetched | ⟨source, fetched, resolved⟩⟩ := calls
  · exact step_of_dispatched fetched (Or.inl outside)
  · obtain ⟨gives, leaves⟩ := step_of_dispatched fetched (Or.inl outside)
    have meant : resolve source (fetch.after m) = .ok function (fetch.after m) :=
      run_resolve ((resolve_fetch m source).trans resolved)
    have same : callIndirect source (fetch.after m) = enter function (fetch.after m) :=
      bind_of_ok enter meant
    have same := bind_congr_left (fun _ => pure Signal.next) same
    rw [gives, leaves]
    exact ⟨outcome_congr same, after_congr same⟩

/-- A call fails to find its function, fails to write the address to return to, or goes to the entry. -/
theorem step_of_call_cases (positive : 0 < m.memory.size) (calls : m.Calls function) :
    (m.functions.find? function = none ∧ step.outcome m = .error (.unknownFunction function)) ∨
      ∃ entry, m.functions.find? function = some entry ∧
        ((∃ address, step.outcome m = .error (.addressOutOfBounds address)) ∨
          (step.outcome m = .ok .next ∧ (step.after m).register .ip = entry)) := by
  obtain ⟨gives, leaves⟩ := step_of_call calls
  have table : (fetch.after m).functions = m.functions :=
    congrArg Machine.Control.functions (Quiet.fetch.steady m)
  cases found : m.functions.find? function with
  | none =>
      left
      rw [gives]
      refine ⟨rfl, outcome_bind_error _ (outcome_of_error (run_enter_unknown ?_))⟩
      rw [table, found]
  | some entry =>
      right
      refine ⟨entry, rfl, ?_⟩
      have sized : 0 < (fetch.after m).memory.size := by rwa [memory_fetch]
      rcases enter_known sized (by rw [table, found]) with ⟨address, failed⟩ | ⟨success, there⟩
      · left
        rw [gives]
        exact ⟨address, outcome_bind_error _ failed⟩
      · right
        rw [gives, leaves, outcome_bind_ok _ success, after_bind_ok _ success]
        exact ⟨rfl, there⟩

theorem unknown_of_call_iff (positive : 0 < m.memory.size) (calls : m.Calls function) :
    step.outcome m = .error (.unknownFunction function) ↔ m.functions.find? function = none := by
  constructor
  · intro failed
    rcases step_of_call_cases positive calls with ⟨absent, _⟩ | ⟨_, _, ⟨_, other⟩ | ⟨other, _⟩⟩
    · exact absent
    · rw [other] at failed
      injection failed with failed
      cases failed
    · rw [other] at failed
      cases failed
  · intro absent
    rcases step_of_call_cases positive calls with ⟨_, failed⟩ | ⟨_, found, _⟩
    · exact failed
    · rw [absent] at found
      cases found

theorem entry_of_call (positive : 0 < m.memory.size) (calls : m.Calls function) {signal : Signal}
    (success : step.outcome m = .ok signal) :
    ∃ entry, m.functions.find? function = some entry ∧ (step.after m).register .ip = entry := by
  rcases step_of_call_cases positive calls with ⟨_, other⟩ | ⟨entry, found, ⟨_, other⟩ | ⟨_, there⟩⟩
  · rw [other] at success
    cases success
  · rw [other] at success
    cases success
  · exact ⟨entry, found, there⟩

end Action
end StoredProgram
