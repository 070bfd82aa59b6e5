import StoredProgram.Proofs.Instruction.Codec
import StoredProgram.Proofs.Machine.Action

set_option autoImplicit false

namespace StoredProgram

namespace Machine

def current (m : Machine) : Word := m.memory.cell (m.register .ip).toNat

/-- What is left alone by everything but the marks of bodies and a load. -/
structure Control where
  size : Nat
  functions : FunctionTable
  inBody : Bool
  staticBase : Nat
  instructionCount : Nat

def control (m : Machine) : Control :=
  ⟨m.memory.size, m.functions, m.inBody, m.staticBase, m.instructionCount⟩

theorem control_logged (m : Machine) (line : String) : (m.logged line).control = m.control := by
  unfold logged
  split <;> rfl

theorem memory_logged (m : Machine) (line : String) : (m.logged line).memory = m.memory := by
  unfold logged
  split <;> rfl

/-- A register whose cell is in memory holds what was written to it last. -/
theorem register_setRegister (m : Machine) (r : Register) (value : Word)
    (within : r.val < m.memory.size) : (m.setRegister r value).register r = value :=
  Memory.cell_put_same m.memory value within

/-- The mark of a body, with its address if it opens one. -/
inductive Mark where
  | opened (function address : Word)
  | closed
  deriving DecidableEq, Repr

/-- The mark that the next step meets and carries out without a fault. -/
def mark? (m : Machine) : Option Mark :=
  match Action.fetch.outcome m, Action.step.outcome m with
  | .ok (.imm .beginFunction function), .ok _ => some (.opened function (m.register .ip))
  | .ok (.bare .endFunction), .ok _ => some .closed
  | _, _ => none

def Control.record (c : Control) : Option Mark → Control
  | some (.opened function address) =>
    { c with functions := c.functions.define function (address + 1), inBody := true }
  | some .closed => { c with inBody := false }
  | none => c

end Machine

namespace Action

open Machine (Mark)

variable {α β : Type} {m : Machine} {i : Instruction}

/-- Actions that leave alone what only the marks of bodies change. -/
def Steady (a : Action α) : Prop := ∀ m, (a.after m).control = m.control

theorem Steady.bind {a : Action α} {f : α → Action β} (first : Steady a)
    (rest : ∀ x, Steady (f x)) : Steady (a >>= f) := by
  intro m
  cases run : a.outcome m with
  | ok x => rw [after_bind_ok f run, rest x, first]
  | error fault => rw [after_bind_error f run, first]

theorem Quiet.steady {a : Action α} (quiet : Quiet true a) : Steady a := by
  induction quiet with
  | bind _ _ ihFirst ihRest => exact ihFirst.bind ihRest
  | pure x => exact fun _ => rfl
  | throw fault => exact fun _ => rfl
  | query f unseen =>
      intro m
      rw [after_query]
  | change f sized =>
      intro m
      cases run : f m.memory with
      | ok memory =>
          rw [after_change_ok run]
          simp only [Machine.control, sized _ _ run]
      | error fault => rw [after_change_error run]
  | inputValue =>
      intro m
      rw [after_inputValue]
      split <;> rfl
  | traceLine line form allowed =>
      intro m
      rw [after_traceLine, Machine.control_logged]

theorem run_fetch_missing {fault : Fault} (positive : 0 < m.memory.size)
    (missing : m.memory.read (m.register .ip) = .error fault) : fetch m = .error fault m :=
  (bind_of_ok _ (run_register (r := .ip) positive)).trans (bind_of_error _ (run_read_missing missing))

/-- Beyond the read a fetch depends on the word alone. -/
theorem run_fetch_of_read {w : Word} (present : m.memory.read (m.register .ip) = .ok w) :
    fetch m = match Instruction.decode w with
      | .error e => .error (.instruction e) m
      | .ok i => .ok i (m.logged (Trace.fetched (m.register .ip) i.opcode w)) := by
  have located := run_register (r := .ip) (Memory.inBounds_of_read present).positive
  rw [fetch, bind_of_ok _ located, bind_of_ok _ (run_read present)]
  cases Instruction.decode w with
  | error e => rfl
  | ok i => exact bind_of_ok _ (run_traceLine _ m)

/-- The instruction whose word stands at the instruction pointer. -/
theorem run_fetch {w : Word} (present : m.memory.read (m.register .ip) = .ok w)
    (decoded : Instruction.decode w = .ok i) :
    fetch m = .ok i (m.logged (Trace.fetched (m.register .ip) i.opcode w)) := by
  rw [run_fetch_of_read present, decoded]

theorem fetch_of_read {w : Word} (present : m.memory.read (m.register .ip) = .ok w)
    (decoded : Instruction.decode w = .ok i) : fetch.outcome m = .ok i :=
  outcome_of_ok (run_fetch present decoded)

/-- A word that is no instruction cannot be fetched. -/
theorem run_fetch_unknown {w : Word} {e : DecodeError}
    (present : m.memory.read (m.register .ip) = .ok w) (unknown : Instruction.decode w = .error e) :
    fetch m = .error (.instruction e) m := by
  rw [run_fetch_of_read present, unknown]

theorem fetch_of_unknown {w : Word} {e : DecodeError}
    (present : m.memory.read (m.register .ip) = .ok w) (unknown : Instruction.decode w = .error e) :
    fetch.outcome m = .error (.instruction e) :=
  outcome_of_error (run_fetch_unknown present unknown)

/-- A fetch gives the instruction that the current word encodes, and adds its line to the trace. -/
theorem fetch_cases (m : Machine) :
    (∃ fault, fetch.outcome m = .error fault ∧ fetch.after m = m) ∨
      (∃ i, m.memory.InBounds (m.register .ip) ∧ Instruction.decode m.current = .ok i ∧
        fetch.outcome m = .ok i ∧
        fetch.after m = m.logged (Trace.fetched (m.register .ip) i.opcode m.current)) := by
  have fails {fault : Fault} (run : fetch m = .error fault m) :
      ∃ fault, fetch.outcome m = .error fault ∧ fetch.after m = m :=
    ⟨fault, outcome_of_error run, after_of_error run⟩
  by_cases positive : 0 < m.memory.size
  case neg =>
    exact Or.inl (fails (bind_of_error _ (run_register_outside (Nat.not_lt.mp positive))))
  by_cases within : m.memory.InBounds (m.register .ip)
  case neg => exact Or.inl (fails (run_fetch_missing positive (Memory.read_outside within)))
  have present : m.memory.read (m.register .ip) = .ok m.current := Memory.read_inside within
  cases decoded : Instruction.decode m.current with
  | error e => exact Or.inl (fails (run_fetch_unknown present decoded))
  | ok i =>
      have run := run_fetch present decoded
      exact Or.inr ⟨i, within, rfl, outcome_of_ok run, after_of_ok run⟩

theorem positive_of_fetch (fetched : fetch.outcome m = .ok i) : 0 < m.memory.size := by
  rcases fetch_cases m with ⟨fault, failed, _⟩ | ⟨_, within, _⟩
  · rw [failed] at fetched
    cases fetched
  · exact within.positive

/-- In a memory of one cell the only word that can be fetched is a zero. -/
theorem large_of_fetch (fetched : fetch.outcome m = .ok i)
    (other : i ≠ .twoRef .mov (.direct .ip) (.direct .ip)) : 1 < m.memory.size := by
  rcases fetch_cases m with ⟨fault, failed, _⟩ | ⟨j, within, decoded, success, _⟩
  · rw [failed] at fetched
    cases fetched
  · rw [success] at fetched
    injection fetched with same
    subst same
    refine Nat.not_le.mp fun small => other ?_
    have upper := within.2
    rw [within.toInt_eq] at upper
    have first : (m.register .ip).toNat = 0 := by omega
    have zero : m.current = 0 := by
      rw [Machine.current, first]
      exact BitVec.eq_of_toNat_eq first
    rw [zero] at decoded
    exact (Except.ok.inj decoded).symm

def execute (i : Instruction) : Action Signal := do
  if (← get).inBody && !i.marksBody then
    advance
    return .next
  else dispatch i

theorem step_eq : step = fetch >>= execute := rfl

/-- Inside of a body only the marks are carried out, and outside of bodies everything is. -/
theorem skipped_or_carried (m : Machine) (i : Instruction) :
    (m.inBody = true ∧ i.marksBody = false) ∨ (m.inBody = false ∨ i.marksBody = true) := by
  cases inside : m.inBody with
  | false => exact Or.inr (Or.inl rfl)
  | true =>
      cases marked : i.marksBody with
      | false => exact Or.inl ⟨rfl, rfl⟩
      | true => exact Or.inr (Or.inr rfl)

theorem execute_skipped (inside : m.inBody = true) (unmarked : i.marksBody = false) :
    execute i m = (advance >>= fun _ => pure Signal.next : Action Signal) m := by
  have skipped : (m.inBody && !i.marksBody) = true := by
    simp only [inside, unmarked, Bool.not_false, Bool.and_true]
  change (if (m.inBody && !i.marksBody) = true then _ else _ : Action Signal) m = _
  rw [if_pos skipped]

theorem execute_dispatched (carried : m.inBody = false ∨ i.marksBody = true) :
    execute i m = dispatch i m := by
  have carried : ¬ (m.inBody && !i.marksBody) = true := by
    rcases carried with outside | marked
    · simp only [outside, Bool.false_and, Bool.false_eq_true, not_false_eq_true]
    · simp only [marked, Bool.not_true, Bool.and_false, Bool.false_eq_true, not_false_eq_true]
  change (if (m.inBody && !i.marksBody) = true then _ else _ : Action Signal) m = _
  rw [if_neg carried]

/-- Enters a function in the table, with its body behind `address`. -/
def openBody (function address : Word) : Action Unit := do
  if (← get).inBody then throw (.nestedFunction function address)
  modify fun m =>
    { m with functions := m.functions.define function (address + 1), inBody := true }

def closeBody : Action Unit := modify fun m => { m with inBody := false }

theorem openBody_nested (inside : m.inBody = true) (function address : Word) :
    openBody function address m = .error (.nestedFunction function address) m := by
  change (if m.inBody = true then _ else _ : Action Unit) m = _
  rw [if_pos inside]
  rfl

theorem openBody_outside (outside : m.inBody = false) (function address : Word) :
    openBody function address m = .ok ()
      { m with functions := m.functions.define function (address + 1), inBody := true } := by
  change (if m.inBody = true then _ else _ : Action Unit) m = _
  rw [if_neg (by rw [outside]; exact Bool.false_ne_true)]
  rfl

theorem beginFunction_eq (function : Word) : beginFunction function =
    register .ip >>= fun address => openBody function address >>= fun _ => advance := by
  have same (address : Word) : (do
      if (← get).inBody then throw (.nestedFunction function address)
      modify fun m =>
        { m with functions := m.functions.define function (address + 1), inBody := true }
      advance : Action Unit) = openBody function address >>= fun _ => advance := by
    funext m
    cases inside : m.inBody with
    | true =>
        rw [bind_of_error _ (openBody_nested inside function address)]
        change (if m.inBody = true then _ else _ : Action Unit) m = _
        rw [if_pos inside]
        rfl
    | false =>
        rw [bind_of_ok _ (openBody_outside inside function address)]
        change (if m.inBody = true then _ else _ : Action Unit) m = _
        rw [if_neg (by rw [inside]; exact Bool.false_ne_true)]
        rfl
  exact congrArg (register .ip >>= ·) (funext same)

theorem beginFunction_nested (positive : 0 < m.memory.size) (inside : m.inBody = true)
    (function : Word) :
    beginFunction function m = .error (.nestedFunction function (m.register .ip)) m := by
  rw [beginFunction_eq, bind_of_ok _ (run_register (r := .ip) positive)]
  exact bind_of_error _ (openBody_nested inside function _)

theorem beginFunction_outside (positive : 0 < m.memory.size) (outside : m.inBody = false)
    (function : Word) :
    beginFunction function m = .ok () (Machine.setRegister
      { m with functions := m.functions.define function (m.register .ip + 1), inBody := true }
      .ip (m.register .ip + 1)) := by
  rw [beginFunction_eq, bind_of_ok _ (run_register (r := .ip) positive),
    bind_of_ok _ (openBody_outside outside function _)]
  exact run_advance (m := { m with
    functions := m.functions.define function (m.register .ip + 1), inBody := true }) positive

theorem run_endFunction (positive : 0 < m.memory.size) :
    endFunction m = .ok () (Machine.setRegister { m with inBody := false } .ip (m.register .ip + 1)) :=
  run_advance (m := { m with inBody := false }) positive

theorem steady_printLine (line : String) : Steady (printLine line) := fun _ => rfl

theorem steady_print (source : Reference) : Steady (print source) := by
  apply (Quiet.resolve source).steady.bind
  intro value
  apply (Quiet.traceEffect _ (by simp only [List.map]; decide)).steady.bind
  intro _
  exact (steady_printLine _).bind fun _ => Quiet.advance.steady

theorem steady_printLiteral (index : Word) : Steady (printLiteral index) := by
  apply (Quiet.query _ fun _ _ _ => rfl).steady.bind
  intro literal
  exact (steady_printLine _).bind fun _ => Quiet.advance.steady

theorem steady_dispatch (unmarked : i.marksBody = false) : Steady (dispatch i) := by
  rcases dispatch_cases i with quiet | ⟨source, rfl⟩ | ⟨index, rfl⟩ | ⟨function, rfl⟩ | rfl
  · exact quiet.steady
  · exact (steady_print source).bind fun _ => (Quiet.pure _).steady
  · exact (steady_printLiteral index).bind fun _ => (Quiet.pure _).steady
  · cases unmarked
  · cases unmarked

theorem step_of_fetch_error {fault : Fault} (failed : fetch.outcome m = .error fault) :
    step.outcome m = .error fault ∧ step.after m = m := by
  rw [step_eq, outcome_bind_error _ failed, after_bind_error _ failed]
  rcases fetch_cases m with ⟨_, _, unmoved⟩ | ⟨_, _, _, fetched, _⟩
  · exact ⟨rfl, unmoved⟩
  · rw [fetched] at failed
    cases failed

/-- Without a trace a fetch shows nothing. -/
theorem after_fetch_of_off (off : m.trace = false) : fetch.after m = m := by
  rcases fetch_cases m with ⟨_, _, unmoved⟩ | ⟨_, _, _, _, logged⟩
  · exact unmoved
  · rw [logged, Machine.logged_of_off off]

theorem inBody_fetch (m : Machine) : (fetch.after m).inBody = m.inBody :=
  congrArg Machine.Control.inBody (Quiet.fetch.steady m)

theorem memory_fetch (m : Machine) : (fetch.after m).memory = m.memory := by
  rcases fetch_cases m with ⟨_, _, unmoved⟩ | ⟨_, _, _, _, logged⟩
  · rw [unmoved]
  · rw [logged, Machine.memory_logged]

theorem positive_after_fetch (fetched : fetch.outcome m = .ok i) :
    0 < (fetch.after m).memory.size := by
  rw [memory_fetch]
  exact positive_of_fetch fetched

theorem register_fetch (m : Machine) (r : Register) :
    (fetch.after m).register r = m.register r := by
  rw [Machine.register, memory_fetch, Machine.register]

theorem resolve_fetch (m : Machine) (source : Reference) :
    (fetch.after m).resolve source = m.resolve source := by
  rw [Machine.resolve, memory_fetch, Machine.resolve]

theorem step_of_dispatched (fetched : fetch.outcome m = .ok i)
    (carried : m.inBody = false ∨ i.marksBody = true) :
    step.outcome m = (dispatch i).outcome (fetch.after m) ∧
      step.after m = (dispatch i).after (fetch.after m) := by
  have same : execute i (fetch.after m) = dispatch i (fetch.after m) := by
    apply execute_dispatched
    rwa [inBody_fetch]
  rw [step_eq, outcome_bind_ok _ fetched, after_bind_ok _ fetched]
  exact ⟨outcome_congr same, after_congr same⟩

theorem step_of_ok {signal : Signal} {m' : Machine} (fetched : fetch.outcome m = .ok i)
    (carried : m.inBody = false ∨ i.marksBody = true)
    (run : dispatch i (fetch.after m) = .ok signal m') :
    step.outcome m = .ok signal ∧ step.after m = m' := by
  obtain ⟨gives, leaves⟩ := step_of_dispatched fetched carried
  exact ⟨gives.trans (outcome_of_ok run), leaves.trans (after_of_ok run)⟩

theorem step_of_error {fault : Fault} {m' : Machine} (fetched : fetch.outcome m = .ok i)
    (carried : m.inBody = false ∨ i.marksBody = true)
    (run : dispatch i (fetch.after m) = .error fault m') :
    step.outcome m = .error fault ∧ step.after m = m' := by
  obtain ⟨gives, leaves⟩ := step_of_dispatched fetched carried
  exact ⟨gives.trans (outcome_of_error run), leaves.trans (after_of_error run)⟩

theorem step_of_skipped (fetched : fetch.outcome m = .ok i) (inside : m.inBody = true)
    (unmarked : i.marksBody = false) :
    step.outcome m = .ok .next ∧ step.after m = (fetch.after m).advanced := by
  have positive := positive_after_fetch fetched
  have same : execute i (fetch.after m) =
      (advance >>= fun _ => pure Signal.next : Action Signal) (fetch.after m) := by
    apply execute_skipped _ unmarked
    rwa [inBody_fetch]
  have ran := same.trans (bind_of_ok _ (run_advance positive))
  rw [step_eq, outcome_bind_ok _ fetched, after_bind_ok _ fetched]
  exact ⟨outcome_of_ok ran, after_of_ok ran⟩

theorem step_beginFunction_nested {function : Word}
    (fetched : fetch.outcome m = .ok (.imm .beginFunction function)) (inside : m.inBody = true) :
    step.outcome m = .error (.nestedFunction function (m.register .ip)) ∧
      (step.after m).control = m.control := by
  have nested :=
    beginFunction_nested (positive_after_fetch fetched) ((inBody_fetch m).trans inside) function
  obtain ⟨gives, leaves⟩ := step_of_error fetched (Or.inr rfl) (bind_of_error _ nested)
  rw [gives, leaves, register_fetch]
  exact ⟨rfl, Quiet.fetch.steady m⟩

theorem step_beginFunction {function : Word}
    (fetched : fetch.outcome m = .ok (.imm .beginFunction function)) (outside : m.inBody = false) :
    step.outcome m = .ok .next ∧
      (step.after m).control = m.control.record (some (.opened function (m.register .ip))) := by
  have opened :=
    beginFunction_outside (positive_after_fetch fetched) ((inBody_fetch m).trans outside) function
  obtain ⟨gives, leaves⟩ := step_of_ok fetched (Or.inr rfl) (bind_of_ok _ opened)
  rw [leaves, ← Quiet.fetch.steady m, register_fetch]
  exact ⟨gives, rfl⟩

theorem step_endFunction (fetched : fetch.outcome m = .ok (.bare .endFunction)) :
    step.outcome m = .ok .next ∧ (step.after m).control = m.control.record (some .closed) := by
  have closed := run_endFunction (positive_after_fetch fetched)
  obtain ⟨gives, leaves⟩ := step_of_ok fetched (Or.inr rfl) (bind_of_ok _ closed)
  rw [leaves, ← Quiet.fetch.steady m]
  exact ⟨gives, rfl⟩

end Action

namespace Machine

variable {m : Machine} {i : Instruction}

theorem mark?_of_fetch_error {fault : Fault} (failed : Action.fetch.outcome m = .error fault) :
    m.mark? = none := by
  simp only [mark?, failed]

theorem mark?_of_unmarked (fetched : Action.fetch.outcome m = .ok i)
    (unmarked : i.marksBody = false) : m.mark? = none := by
  unfold mark?
  rw [fetched]
  split
  · rename_i same _
    injection same with same
    rw [same] at unmarked
    cases unmarked
  · rename_i same _
    injection same with same
    rw [same] at unmarked
    cases unmarked
  · rfl

/-- A step changes the function table and the body flag as its mark says, and nothing else of the
control part. -/
theorem control_step (m : Machine) :
    (Action.step.after m).control = m.control.record m.mark? := by
  rcases Action.fetch_cases m with ⟨fault, failed, _⟩ | ⟨i, _, _, fetched, logged⟩
  · rw [mark?_of_fetch_error failed, (Action.step_of_fetch_error failed).2]
    rfl
  · have before : (Action.fetch.after m).control = m.control := Action.Quiet.fetch.steady m
    cases marked : i.marksBody with
    | false =>
        -- Skipped inside of a body and carried out elsewhere, it is steady either way.
        rw [mark?_of_unmarked fetched marked]
        cases inside : m.inBody with
        | true =>
            rw [(Action.step_of_skipped fetched inside marked).2]
            exact before
        | false =>
            rw [(Action.step_of_dispatched fetched (Or.inl inside)).2]
            exact (Action.steady_dispatch marked _).trans before
    | true =>
        cases i with
        | imm op function =>
            cases op with
            | beginFunction =>
                cases inside : m.inBody with
                | true =>
                    obtain ⟨gives, leaves⟩ := Action.step_beginFunction_nested fetched inside
                    rw [leaves]
                    simp only [mark?, fetched, gives, Control.record]
                | false =>
                    obtain ⟨gives, leaves⟩ := Action.step_beginFunction fetched inside
                    rw [leaves]
                    simp only [mark?, fetched, gives]
            | _ => cases marked
        | bare op =>
            cases op with
            | endFunction =>
                obtain ⟨gives, leaves⟩ := Action.step_endFunction fetched
                rw [leaves]
                simp only [mark?, fetched, gives]
            | _ => cases marked
        | _ => cases marked

/-- A body is opened only outside of bodies, at an address of memory, and with a number that fits in an
immediate. -/
theorem bounds_of_opened {function address : Word} (met : m.mark? = some (.opened function address)) :
    Action.fetch.outcome m = .ok (.imm .beginFunction function) ∧ address = m.register .ip ∧
      m.inBody = false ∧ m.memory.InBounds address ∧ function.toNat < 134217728 := by
  unfold mark? at met
  split at met
  · rename_i f signal fetched gives
    injection met with met
    injection met with sameFunction sameAddress
    subst sameFunction sameAddress
    -- The bounds on address and number were checked by the fetch of this same step.
    rcases Action.fetch_cases m with ⟨fault, failed, _⟩ | ⟨i, within, decoded, success, _⟩
    · rw [failed] at fetched
      cases fetched
    · rw [success] at fetched
      injection fetched with same
      subst same
      refine ⟨success, rfl, ?_, within, Instruction.fits_of_decode decoded⟩
      cases inside : m.inBody with
      | false => rfl
      | true =>
          rw [(Action.step_beginFunction_nested success inside).1] at gives
          cases gives
  · injection met with met
    cases met
  · cases met

end Machine
end StoredProgram
