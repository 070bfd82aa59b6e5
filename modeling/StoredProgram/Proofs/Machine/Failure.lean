import StoredProgram.Proofs.Machine.Call
import StoredProgram.Proofs.Machine.Reachable
import StoredProgram.Proofs.Machine.Tracing

set_option autoImplicit false

namespace StoredProgram

/-- Whether an instruction changes something before its last check. -/
def Instruction.changesEarly : Instruction → Bool
  | ref .push _ | ref .read _ | ref .callIndirect _ | imm .call _ => true
  | _ => false

namespace Machine

/-- The second machine is the first one with lines of trace added to its output, and with none unless it
is traced. -/
def OnlyTraced (m m' : Machine) : Prop :=
  ∃ lines, (∀ line ∈ lines, Trace.IsTraceLine line) ∧ (m.trace = false → lines = []) ∧
    m' = { m with output := m.output ++ Lines.join lines }

/-- The next step puts a word on the stack: it is a push, or a call of a function that is defined. -/
def Grows (m : Machine) : Prop :=
  m.inBody = false ∧
    match Action.fetch.outcome m with
    | .ok (.ref .push _) => True
    | .ok (.imm .call function) => m.functions.find? function ≠ none
    | .ok (.ref .callIndirect source) =>
      ∃ function, m.resolve source = .ok function ∧ m.functions.find? function ≠ none
    | _ => False

/-- The next step takes a line of input: it is a read, and its destination can be resolved. -/
def TakesLine (m : Machine) : Prop :=
  m.inBody = false ∧ ∃ destination address,
    Action.fetch.outcome m = .ok (.ref .read destination) ∧ m.resolve destination = .ok address

def afterLine (m : Machine) : Machine := { m with input := Input.afterLine m.input }

variable {m m' m'' : Machine}

namespace OnlyTraced

theorem refl (m : Machine) : m.OnlyTraced m :=
  ⟨[], by simp, fun _ => rfl, by simp⟩

theorem trans (first : m.OnlyTraced m') (second : m'.OnlyTraced m'') : m.OnlyTraced m'' := by
  obtain ⟨lines, form, silent, rfl⟩ := first
  obtain ⟨more, formMore, silentMore, rfl⟩ := second
  refine ⟨lines ++ more, List.forall_mem_append.mpr ⟨form, formMore⟩, ?_, ?_⟩
  · intro off
    rw [silent off, silentMore off, List.append_nil]
  · simp only [Lines.join_append, String.append_assoc]

theorem eq_of_off (same : m.OnlyTraced m') (off : m.trace = false) : m' = m := by
  obtain ⟨lines, _, silent, rfl⟩ := same
  rw [silent off, Lines.join_nil, String.append_empty]

theorem memory (same : m.OnlyTraced m') : m'.memory = m.memory := by
  obtain ⟨_, _, _, rfl⟩ := same
  rfl

theorem input (same : m.OnlyTraced m') : m'.input = m.input := by
  obtain ⟨_, _, _, rfl⟩ := same
  rfl

theorem control (same : m.OnlyTraced m') : m'.control = m.control := by
  obtain ⟨_, _, _, rfl⟩ := same
  rfl

theorem output (same : m.OnlyTraced m') :
    ∃ lines, (∀ line ∈ lines, Trace.IsTraceLine line) ∧ (m.trace = false → lines = []) ∧
      m'.output = m.output ++ Lines.join lines := by
  obtain ⟨lines, form, silent, rfl⟩ := same
  exact ⟨lines, form, silent, rfl⟩

theorem resolve (same : m.OnlyTraced m') (r : Reference) : m'.resolve r = m.resolve r := by
  rw [Machine.resolve, same.memory, Machine.resolve]

theorem grown (same : m.OnlyTraced m') : m.grown.OnlyTraced m'.grown := by
  obtain ⟨lines, form, silent, rfl⟩ := same
  exact ⟨lines, form, silent, rfl⟩

theorem afterLine (same : m.OnlyTraced m') : m.afterLine.OnlyTraced m'.afterLine := by
  obtain ⟨lines, form, silent, rfl⟩ := same
  exact ⟨lines, form, silent, rfl⟩

/-- Machines with different lines of trace go on alike. -/
theorem outcome_eq (same : m.OnlyTraced m') :
    Action.fetch.outcome m' = Action.fetch.outcome m ∧
      Action.step.outcome m' = Action.step.outcome m := by
  by_cases traced : m.trace = true
  · -- Both are twins of the machine without the trace.
    obtain ⟨lines, _, _, rfl⟩ := same
    have one : Twins { m with trace := false } m :=
      ⟨rfl, rfl, rfl, rfl, rfl, rfl, rfl, traced⟩
    have other : Twins { m with trace := false }
        { m with output := m.output ++ Lines.join lines } :=
      ⟨rfl, rfl, rfl, rfl, rfl, rfl, rfl, traced⟩
    obtain ⟨_, _, _, fetched⟩ := Action.Quiet.fetch.mirrors one
    obtain ⟨_, _, _, also⟩ := Action.Quiet.fetch.mirrors other
    exact ⟨also.outcome.trans fetched.outcome.symm, other.outcome_step.trans one.outcome_step.symm⟩
  · rw [same.eq_of_off (by simpa using traced)]
    exact ⟨rfl, rfl⟩

end OnlyTraced

theorem onlyTraced_logged {line : String} (form : Trace.IsTraceLine line) :
    m.OnlyTraced (m.logged line) := by
  cases traced : m.trace with
  | false =>
      rw [logged_of_off traced]
      exact .refl m
  | true =>
      rw [logged_of_on traced]
      refine ⟨[line], by simpa using form, ?_, ?_⟩
      · intro off
        rw [traced] at off
        cases off
      · rw [Lines.join_cons, Lines.join_nil, String.append_empty, String.append_assoc]

theorem onlyTraced_fetch (m : Machine) : m.OnlyTraced (Action.fetch.after m) := by
  rcases Action.fetch_cases m with ⟨_, _, unmoved⟩ | ⟨i, _, _, _, added⟩
  · rw [unmoved]
    exact .refl m
  · rw [added]
    exact onlyTraced_logged (Trace.isTraceLine_fetched _ _ _)

end Machine

namespace Action

variable {α β : Type} {a : Action α} {f : α → Action β} {m : Machine} {fault : Fault}

/-- Actions that change nothing. -/
def Looks (a : Action α) : Prop := ∀ m : Machine, m.OnlyTraced (a.after m)

/-- Actions that do not fail. Like all actions they leave memory as large as it is; without a cell for the
instruction pointer they are not even fetched. -/
structure Sure (a : Action α) : Prop where
  sized : ∀ m, (a.after m).memory.size = m.memory.size
  succeeds : ∀ m : Machine, 0 < m.memory.size → ∃ x, a.outcome m = .ok x

/-- Actions that have changed nothing when they fail. -/
structure Careful (a : Action α) : Prop where
  sized : ∀ m, (a.after m).memory.size = m.memory.size
  unchanged : ∀ (m : Machine) (fault : Fault), 0 < m.memory.size → a.outcome m = .error fault →
    m.OnlyTraced (a.after m)

theorem Looks.sized (looks : Looks a) (m : Machine) : (a.after m).memory.size = m.memory.size := by
  rw [(looks m).memory]

theorem Looks.careful (looks : Looks a) : Careful a := ⟨looks.sized, fun m _ _ _ => looks m⟩

theorem Sure.careful (sure : Sure a) : Careful a := by
  refine ⟨sure.sized, fun m fault positive failed => ?_⟩
  obtain ⟨x, success⟩ := sure.succeeds m positive
  rw [success] at failed
  cases failed

theorem sized_bind (first : ∀ m, (a.after m).memory.size = m.memory.size)
    (rest : ∀ x m, ((f x).after m).memory.size = m.memory.size) (m : Machine) :
    ((a >>= f).after m).memory.size = m.memory.size := by
  cases run : a.outcome m with
  | ok x => rw [after_bind_ok f run, rest, first]
  | error fault => rw [after_bind_error f run, first]

theorem Sure.bind (first : Sure a) (rest : ∀ x, Sure (f x)) : Sure (a >>= f) := by
  refine ⟨sized_bind first.sized fun x => (rest x).sized, fun m positive => ?_⟩
  obtain ⟨x, success⟩ := first.succeeds m positive
  rw [outcome_bind_ok f success]
  exact (rest x).succeeds (a.after m) (by rwa [first.sized])

/-- Checks come first. -/
theorem Looks.bind (first : Looks a) (rest : ∀ x, Careful (f x)) : Careful (a >>= f) := by
  refine ⟨sized_bind first.sized fun x => (rest x).sized, fun m fault positive failed => ?_⟩
  cases run : a.outcome m with
  | error other =>
      rw [after_bind_error f run]
      exact first m
  | ok x =>
      rw [outcome_bind_ok f run] at failed
      rw [after_bind_ok f run]
      exact (first m).trans ((rest x).unchanged (a.after m) fault (by rwa [first.sized]) failed)

/-- After a change, nothing fails. -/
theorem Careful.bind (first : Careful a) (rest : ∀ x, Sure (f x)) : Careful (a >>= f) := by
  refine ⟨sized_bind first.sized fun x => (rest x).sized, fun m fault positive failed => ?_⟩
  cases run : a.outcome m with
  | error other =>
      rw [after_bind_error f run]
      exact first.unchanged m other positive run
  | ok x =>
      obtain ⟨y, success⟩ := (rest x).succeeds (a.after m) (by rwa [first.sized])
      rw [outcome_bind_ok f run, success] at failed
      cases failed

/-- The signal that follows an action does not fail. -/
theorem error_of_signal {a : Action Unit} {signal : Signal}
    (failed : (a >>= fun _ => pure signal).outcome m = .error fault) :
    a.outcome m = .error fault ∧ (a >>= fun _ => pure signal).after m = a.after m := by
  cases run : a.outcome m with
  | error other =>
      rw [outcome_bind_error _ run] at failed
      injection failed with same
      exact ⟨congrArg Except.error same, after_bind_error _ run⟩
  | ok x =>
      rw [outcome_bind_ok _ run] at failed
      cases failed

theorem looks_query (g : Machine → Except Fault α) : Looks (query g) := by
  intro m
  rw [after_query]
  exact .refl m

theorem looks_resolve (r : Reference) : Looks (resolve r) := looks_query _

theorem looks_read (address : Word) : Looks (read address) := looks_query _

theorem looks_register (r : Register) : Looks (register r) := looks_query _

theorem looks_traceEffect (op : Opcode) {fields : List (String × Int)}
    (plain : ∀ name ∈ fields.map Prod.fst, Lines.IsLine name) : Looks (traceEffect op fields) := by
  intro m
  rw [traceEffect, after_traceLine]
  exact Machine.onlyTraced_logged (Trace.isTraceLine_effect op plain)

theorem Quiet.sized (quiet : Quiet true a) (m : Machine) :
    (a.after m).memory.size = m.memory.size :=
  congrArg Machine.Control.size (quiet.steady m)

theorem sure_pure (x : α) : Sure (pure x) := ⟨fun _ => rfl, fun _ _ => ⟨x, rfl⟩⟩

theorem sure_goTo (address : Word) : Sure (setRegister .ip address) :=
  ⟨(Quiet.setRegister .ip address).sized, fun _ positive =>
    ⟨(), outcome_of_ok (run_setRegister (r := .ip) positive address)⟩⟩

theorem sure_advance : Sure advance :=
  ⟨Quiet.advance.sized, fun _ positive => ⟨(), outcome_of_ok (run_advance positive)⟩⟩

theorem sure_printLine (line : String) : Sure (printLine line) :=
  ⟨fun _ => rfl, fun _ _ => ⟨(), rfl⟩⟩

theorem sure_traceEffect (op : Opcode) (fields : List (String × Int)) :
    Sure (traceEffect op fields) := by
  refine ⟨fun m => ?_, fun m _ => ⟨(), outcome_traceLine _ m⟩⟩
  rw [traceEffect, after_traceLine, Machine.memory_logged]

theorem careful_write (address value : Word) : Careful (write address value) := by
  refine ⟨(Quiet.write address value).sized, fun m fault _ failed => ?_⟩
  cases written : m.memory.write address value with
  | ok memory =>
      have success : (write address value).outcome m = .ok () := outcome_change_ok written
      rw [success] at failed
      cases failed
  | error other =>
      have unchanged : (write address value).after m = m := after_change_error written
      rw [unchanged]
      exact .refl m

theorem careful_move (destination source : Reference) : Careful (move destination source) := by
  apply (looks_resolve destination).bind
  intro address
  apply (looks_resolve source).bind
  intro value
  apply (looks_traceEffect _ (by simp only [List.map]; decide)).bind
  intro _
  exact (careful_write address value).bind fun _ => sure_advance

theorem careful_add (destination source : Reference) : Careful (add destination source) := by
  apply (looks_resolve destination).bind
  intro address
  apply (looks_resolve source).bind
  intro term
  apply (looks_register destination.register).bind
  intro left
  apply (looks_traceEffect _ (by simp only [List.map]; decide)).bind
  intro _
  exact (careful_write address (left + term)).bind fun _ => sure_advance

theorem careful_sub (destination source : Reference) : Careful (sub destination source) := by
  apply (looks_resolve destination).bind
  intro address
  apply (looks_resolve source).bind
  intro term
  apply (looks_register destination.register).bind
  intro left
  apply (careful_write address (left - term)).bind
  intro _
  exact (sure_traceEffect _ _).bind fun _ => sure_advance

theorem careful_addTo (destination : Reference) (immediate : Word) :
    Careful (addTo destination immediate) := by
  apply (looks_resolve destination).bind
  intro address
  apply (looks_register destination.register).bind
  intro left
  apply (looks_traceEffect _ (by simp only [List.map]; decide)).bind
  intro _
  exact careful_write address (left + immediate)

theorem careful_addImm (destination : Reference) (immediate : Word) :
    Careful (addImm destination immediate) :=
  (careful_addTo destination immediate).bind fun _ => sure_advance

theorem careful_subImm (destination : Reference) (immediate : Word) :
    Careful (subImm destination immediate) := by
  apply (looks_resolve destination).bind
  intro address
  apply (looks_register destination.register).bind
  intro left
  apply (looks_traceEffect _ (by simp only [List.map]; decide)).bind
  intro _
  exact (careful_write address (left - immediate)).bind fun _ => sure_advance

theorem careful_loadHalf (op : RefImmOp) (join : Word → BitVec 16 → Word) (destination : Reference)
    (immediate : Word) : Careful (loadHalf op join destination immediate) := by
  unfold loadHalf
  dsimp only
  split
  · exact ⟨fun _ => rfl, fun m _ _ _ => .refl m⟩
  · apply (looks_resolve destination).bind
    intro address
    apply (looks_read address).bind
    intro old
    apply (careful_write address (join old (immediate.setWidth 16))).bind
    intro _
    exact (sure_traceEffect _ _).bind fun _ => sure_advance

theorem careful_jump (target : Reference) : Careful (jump target) := by
  apply (looks_resolve target).bind
  intro address
  exact ((sure_traceEffect _ _).bind fun _ => sure_goTo address).careful

theorem careful_jumpIfPositive (condition : Reference) (offset : Word) :
    Careful (jumpIfPositive condition offset) := by
  apply (looks_resolve condition).bind
  intro value
  apply (looks_traceEffect _ (by simp only [List.map]; decide)).bind
  intro _
  split
  · exact careful_addTo (.direct .ip) offset
  · exact sure_advance.careful

theorem careful_openBody (function address : Word) : Careful (openBody function address) := by
  constructor
  · intro m
    cases inside : m.inBody with
    | true => rw [after_of_error (openBody_nested inside function address)]
    | false => rw [after_of_ok (openBody_outside inside function address)]
  · intro m fault _ failed
    cases inside : m.inBody with
    | true =>
        rw [after_of_error (openBody_nested inside function address)]
        exact .refl m
    | false =>
        rw [outcome_of_ok (openBody_outside inside function address)] at failed
        cases failed

theorem careful_beginFunction (function : Word) : Careful (beginFunction function) := by
  rw [beginFunction_eq]
  apply (looks_register .ip).bind
  intro address
  exact (careful_openBody function address).bind fun _ => sure_advance

theorem careful_print (source : Reference) : Careful (print source) := by
  apply (looks_resolve source).bind
  intro value
  apply Sure.careful
  apply (sure_traceEffect _ _).bind
  intro _
  exact (sure_printLine _).bind fun _ => sure_advance

theorem careful_printLiteral (index : Word) : Careful (printLiteral index) := by
  apply (looks_query _).bind
  intro literal
  exact ((sure_printLine literal).bind fun _ => sure_advance).careful

theorem sure_endFunction : Sure endFunction :=
  Sure.bind (a := closeBody) ⟨fun _ => rfl, fun _ _ => ⟨(), rfl⟩⟩ fun _ => sure_advance

theorem careful_dispatch {i : Instruction} (late : i.changesEarly = false) : Careful (dispatch i) := by
  cases i with
  | twoRef op first second =>
      cases op with
      | mov => exact (careful_move first second).bind fun _ => sure_pure _
      | add => exact (careful_add first second).bind fun _ => sure_pure _
      | sub => exact (careful_sub first second).bind fun _ => sure_pure _
  | refImm op first immediate =>
      cases op with
      | jumpIfPositive => exact (careful_jumpIfPositive first immediate).bind fun _ => sure_pure _
      | loadLow => exact (careful_loadHalf _ _ first immediate).bind fun _ => sure_pure _
      | loadHigh => exact (careful_loadHalf _ _ first immediate).bind fun _ => sure_pure _
      | addImm => exact (careful_addImm first immediate).bind fun _ => sure_pure _
      | subImm => exact (careful_subImm first immediate).bind fun _ => sure_pure _
  | ref op first =>
      cases op with
      | jump => exact (careful_jump first).bind fun _ => sure_pure _
      | print => exact (careful_print first).bind fun _ => sure_pure _
      | push => cases late
      | read => cases late
      | callIndirect => cases late
  | imm op immediate =>
      cases op with
      | beginFunction => exact (careful_beginFunction immediate).bind fun _ => sure_pure _
      | printLiteral => exact (careful_printLiteral immediate).bind fun _ => sure_pure _
      | call => cases late
  | bare op =>
      cases op with
      | pop => exact (careful_addImm (.direct .sp) 1).bind fun _ => sure_pure _
      | endFunction => exact (sure_endFunction.bind fun _ => sure_pure _).careful
      | halt => exact (sure_pure _).careful

/-- A failed push has moved the stack pointer. -/
theorem push_failed {source : Reference} (large : 1 < m.memory.size)
    (failed : (push source).outcome m = .error fault) :
    m.grown.OnlyTraced ((push source).after m) := by
  have moved := run_growStack large
  have rest : Careful (resolve source >>= fun value => do
      write (m.register .sp - 1) value
      traceEffect (.ref .push)
        [("res_addr", (m.register .sp - 1).toInt), ("value", value.toInt)]
      advance : Action Unit) := by
    apply (looks_resolve source).bind
    intro value
    apply (careful_write (m.register .sp - 1) value).bind
    intro _
    exact (sure_traceEffect _ _).bind fun _ => sure_advance
  rw [push, outcome_congr (bind_of_ok _ moved)] at failed
  rw [push, after_congr (bind_of_ok _ moved)]
  exact rest.unchanged m.grown fault (Nat.zero_lt_of_lt large) failed

/-- A failed call has moved the stack pointer, unless it does not know the function. -/
theorem enter_failed {function : Word} (large : 1 < m.memory.size)
    (failed : (enter function).outcome m = .error fault) :
    (m.functions.find? function = none ∧ m.OnlyTraced ((enter function).after m)) ∨
      ∃ entry, m.functions.find? function = some entry ∧
        m.grown.OnlyTraced ((enter function).after m) := by
  cases found : m.functions.find? function with
  | none =>
      left
      rw [after_of_error (run_enter_unknown found)]
      exact ⟨rfl, .refl m⟩
  | some entry =>
      have rest : Careful (enterFrom (m.register .sp - 1) (m.register .ip + 1) function entry) := by
        apply (careful_write _ _).bind
        intro _
        exact (sure_traceEffect _ _).bind fun _ => sure_goTo entry
      have same := run_enter large found
      right
      rw [outcome_congr same] at failed
      rw [after_congr same]
      exact ⟨entry, rfl, rest.unchanged m.grown fault (Nat.zero_lt_of_lt large) failed⟩

/-- A failed read has used up a line, unless there is no line or no destination to put it. -/
theorem readValue_failed {destination : Reference} (positive : 0 < m.memory.size)
    (failed : (readValue destination).outcome m = .error fault) :
    m.OnlyTraced ((readValue destination).after m) ∨
      ∃ address, m.resolve destination = .ok address ∧
        m.afterLine.OnlyTraced ((readValue destination).after m) := by
  cases resolved : m.resolve destination with
  | error other =>
      have stopped : readValue destination m = .error other m :=
        bind_of_error _ (run_resolve_missing resolved)
      left
      rw [after_of_error stopped]
      exact .refl m
  | ok address =>
      have found := run_resolve resolved
      rw [readValue, outcome_congr (bind_of_ok _ found)] at failed
      rw [readValue, after_congr (bind_of_ok _ found)]
      have taken := after_inputValue m
      by_cases none : m.input = []
      · have ended : inputValue.outcome m = .error .endOfInput := by
          rw [outcome_inputValue, if_pos none]
        left
        rw [after_bind_error _ ended, taken, if_pos none]
        exact .refl m
      · have taken : inputValue.after m = m.afterLine := by rw [taken, if_neg none, Machine.afterLine]
        right
        refine ⟨address, rfl, ?_⟩
        cases read : inputValue.outcome m with
        | error other =>
            rw [after_bind_error _ read, taken]
            exact .refl _
        | ok value =>
            have rest : Careful (write address value >>= fun _ => do
                traceEffect (.ref .read) [("res_addr", address.toInt), ("value", value.toInt)]
                advance : Action Unit) := by
              apply (careful_write address value).bind
              intro _
              exact (sure_traceEffect _ _).bind fun _ => sure_advance
            rw [outcome_bind_ok _ read, taken] at failed
            rw [after_bind_ok _ read, taken]
            exact rest.unchanged m.afterLine fault positive failed

/-- A step that skips an instruction does not fail. -/
theorem outside_of_step_failed {i : Instruction} (fetched : fetch.outcome m = .ok i)
    (unmarked : i.marksBody = false) (failed : step.outcome m = .error fault) : m.inBody = false := by
  cases inside : m.inBody with
  | false => rfl
  | true =>
      rw [(step_of_skipped fetched inside unmarked).1] at failed
      cases failed

theorem step_failed_of_late (late : ∀ i, fetch.outcome m = .ok i → i.changesEarly = false)
    (failed : step.outcome m = .error fault) : m.OnlyTraced (step.after m) := by
  cases fetched : fetch.outcome m with
  | error other =>
      rw [(step_of_fetch_error fetched).2]
      exact .refl m
  | ok i =>
      have dispatched : m.inBody = false ∨ i.marksBody = true := by
        cases marked : i.marksBody with
        | true => exact Or.inr rfl
        | false => exact Or.inl (outside_of_step_failed fetched marked failed)
      obtain ⟨gives, leaves⟩ := step_of_dispatched fetched dispatched
      rw [gives] at failed
      rw [leaves]
      exact (Machine.onlyTraced_fetch m).trans
        ((careful_dispatch (late i fetched)).unchanged _ _ (positive_after_fetch fetched) failed)

theorem step_failed_of_push {source : Reference} (outside : m.inBody = false)
    (fetched : fetch.outcome m = .ok (.ref .push source)) (failed : step.outcome m = .error fault) :
    m.Grows ∧ m.grown.OnlyTraced (step.after m) := by
  have large : 1 < (fetch.after m).memory.size := by
    rw [memory_fetch]
    exact large_of_fetch fetched nofun
  obtain ⟨gives, leaves⟩ := step_of_dispatched fetched (Or.inl outside)
  rw [gives] at failed
  obtain ⟨pushing, left⟩ := error_of_signal failed
  rw [leaves, Machine.Grows, fetched]
  exact ⟨⟨outside, trivial⟩, (Machine.onlyTraced_fetch m).grown.trans (left ▸ push_failed large pushing)⟩

theorem step_failed_of_read {destination : Reference} (outside : m.inBody = false)
    (fetched : fetch.outcome m = .ok (.ref .read destination))
    (failed : step.outcome m = .error fault) :
    m.OnlyTraced (step.after m) ∨ m.TakesLine ∧ m.afterLine.OnlyTraced (step.after m) := by
  have same := Machine.onlyTraced_fetch m
  obtain ⟨gives, leaves⟩ := step_of_dispatched fetched (Or.inl outside)
  rw [gives] at failed
  obtain ⟨reading, left⟩ := error_of_signal failed
  rw [leaves]
  rcases readValue_failed (positive_after_fetch fetched) reading with unchanged | ⟨address, resolved, taken⟩
  · exact Or.inl (same.trans (left ▸ unchanged))
  · rw [same.resolve] at resolved
    right
    exact ⟨⟨outside, destination, address, fetched, resolved⟩,
      same.afterLine.trans (left ▸ taken)⟩

/-- Whether a failed call has moved the stack pointer is a matter of its function being defined. -/
theorem step_failed_of_call {function : Word} (calls : m.Calls function)
    (failed : step.outcome m = .error fault) :
    (m.functions.find? function = none ∧ m.OnlyTraced (step.after m)) ∨
      (m.functions.find? function ≠ none ∧ m.grown.OnlyTraced (step.after m)) := by
  have same := Machine.onlyTraced_fetch m
  have table : (fetch.after m).functions = m.functions :=
    congrArg Machine.Control.functions same.control
  obtain ⟨gives, leaves⟩ := step_of_call calls
  rw [gives] at failed
  obtain ⟨entering, left⟩ := error_of_signal failed
  rw [leaves, left, ← table]
  have large : 1 < (fetch.after m).memory.size := by
    rw [memory_fetch]
    rcases calls.2 with fetched | ⟨_, fetched, _⟩ <;> exact large_of_fetch fetched nofun
  rcases enter_failed large entering with ⟨absent, unchanged⟩ | ⟨entry, found, moved⟩
  · exact Or.inl ⟨absent, same.trans unchanged⟩
  · right
    rw [found]
    exact ⟨Option.some_ne_none entry, same.grown.trans moved⟩

/-- An indirect call that does not find out which function is meant changes nothing. -/
theorem step_of_unresolved {source : Reference} {reason : Fault} (outside : m.inBody = false)
    (fetched : fetch.outcome m = .ok (.ref .callIndirect source))
    (unresolved : m.resolve source = .error reason) : m.OnlyTraced (step.after m) := by
  have stopped : callIndirect source (fetch.after m) = .error reason (fetch.after m) :=
    bind_of_error enter (run_resolve_missing ((resolve_fetch m source).trans unresolved))
  rw [(step_of_error fetched (Or.inl outside) (bind_of_error _ stopped)).2]
  exact Machine.onlyTraced_fetch m

theorem step_failed_of_callIndirect {source : Reference} (outside : m.inBody = false)
    (fetched : fetch.outcome m = .ok (.ref .callIndirect source))
    (failed : step.outcome m = .error fault) :
    (¬ m.Grows ∧ m.OnlyTraced (step.after m)) ∨ (m.Grows ∧ m.grown.OnlyTraced (step.after m)) := by
  have grows_iff : m.Grows ↔
      ∃ function, m.resolve source = .ok function ∧ m.functions.find? function ≠ none := by
    rw [Machine.Grows, fetched, and_iff_right outside]
  rw [grows_iff]
  cases resolved : m.resolve source with
  | error reason =>
      left
      refine ⟨?_, step_of_unresolved outside fetched resolved⟩
      rintro ⟨_, meant, _⟩
      cases meant
  | ok function =>
      have calls : m.Calls function := ⟨outside, Or.inr ⟨source, fetched, resolved⟩⟩
      rcases step_failed_of_call calls failed with ⟨absent, unchanged⟩ | ⟨known, moved⟩
      · left
        refine ⟨?_, unchanged⟩
        rintro ⟨_, meant, known⟩
        cases meant
        exact known absent
      · exact Or.inr ⟨⟨function, rfl, known⟩, moved⟩

end Action

namespace Machine

variable {m : Machine} {fault : Fault}

theorem not_grows_of_late
    (late : ∀ i, Action.fetch.outcome m = .ok i → i.changesEarly = false) : ¬ m.Grows := by
  rintro ⟨_, grows⟩
  split at grows
  · rename_i fetched
    cases late _ fetched
  · rename_i fetched
    cases late _ fetched
  · rename_i fetched
    cases late _ fetched
  · exact grows

/-- A failed step has changed nothing but the stack pointer or the input, and each of the two only for
the instructions that are meant to. -/
theorem step_failed_cases (failed : Action.step.outcome m = .error fault) :
    (¬ m.Grows ∧ m.OnlyTraced (Action.step.after m)) ∨
      (m.Grows ∧ m.grown.OnlyTraced (Action.step.after m)) ∨
      (¬ m.Grows ∧ m.TakesLine ∧ m.afterLine.OnlyTraced (Action.step.after m)) := by
  by_cases late : ∀ i, Action.fetch.outcome m = .ok i → i.changesEarly = false
  · exact Or.inl ⟨not_grows_of_late late, Action.step_failed_of_late late failed⟩
  · obtain ⟨i, fetched, early⟩ : ∃ i, Action.fetch.outcome m = .ok i ∧ ¬ i.changesEarly = false := by
      simpa only [Classical.not_forall, exists_prop] using late
    have unmarked : i.marksBody = false := by
      cases i with
      | imm op _ =>
          cases op with
          | beginFunction => exact absurd rfl early
          | _ => rfl
      | bare op => exact absurd rfl early
      | _ => rfl
    have outside := Action.outside_of_step_failed fetched unmarked failed
    cases i with
    | ref op first =>
        cases op with
        | push => exact Or.inr (Or.inl (Action.step_failed_of_push outside fetched failed))
        | read =>
            have steady : ¬ m.Grows := by
              rw [Grows, fetched]
              exact And.right
            rcases Action.step_failed_of_read outside fetched failed with unchanged | taken
            · exact Or.inl ⟨steady, unchanged⟩
            · exact Or.inr (Or.inr ⟨steady, taken⟩)
        | callIndirect =>
            rcases Action.step_failed_of_callIndirect outside fetched failed with unchanged | moved
            · exact Or.inl unchanged
            · exact Or.inr (Or.inl moved)
        | _ => exact absurd rfl early
    | imm op function =>
        cases op with
        | call =>
            have grows_iff : m.Grows ↔ m.functions.find? function ≠ none := by
              rw [Grows, fetched, and_iff_right outside]
            rw [grows_iff]
            rcases Action.step_failed_of_call ⟨outside, Or.inl fetched⟩ failed with
              ⟨absent, unchanged⟩ | moved
            · exact Or.inl ⟨fun known => known absent, unchanged⟩
            · exact Or.inr (Or.inl moved)
        | _ => exact absurd rfl early
    | _ => exact absurd rfl early

theorem step_failed_kept (failed : Action.step.outcome m = .error fault) :
    (Action.step.after m).control = m.control ∧
      ∃ lines, (∀ line ∈ lines, Trace.IsTraceLine line) ∧ (m.trace = false → lines = []) ∧
        (Action.step.after m).output = m.output ++ Lines.join lines := by
  -- Neither the stack pointer nor the input belongs to what is looked at here.
  rcases step_failed_cases failed with ⟨_, same⟩ | ⟨_, same⟩ | ⟨_, _, same⟩
  · exact ⟨same.control, same.output⟩
  · exact ⟨same.control, same.output⟩
  · exact ⟨same.control, same.output⟩

theorem step_failed_input (failed : Action.step.outcome m = .error fault) :
    (Action.step.after m).input = m.input ∨
      (Action.step.after m).input = Input.afterLine m.input ∧ m.TakesLine := by
  rcases step_failed_cases failed with ⟨_, same⟩ | ⟨_, same⟩ | ⟨_, reads, same⟩
  · exact Or.inl same.input
  · exact Or.inl same.input
  · exact Or.inr ⟨same.input, reads⟩

theorem step_failed_memory (failed : Action.step.outcome m = .error fault) :
    (¬ m.Grows → (Action.step.after m).memory = m.memory) ∧
      (m.Grows → (Action.step.after m).memory = m.grown.memory) := by
  rcases step_failed_cases failed with ⟨steady, same⟩ | ⟨grows, same⟩ | ⟨steady, _, same⟩
  · exact ⟨fun _ => same.memory, fun grows => absurd grows steady⟩
  · exact ⟨fun steady => absurd grows steady, fun _ => same.memory⟩
  · exact ⟨fun _ => same.memory, fun grows => absurd grows steady⟩

/-- What failed without a change fails again. -/
theorem step_failed_again (late : ∀ i, Action.fetch.outcome m = .ok i → i.changesEarly = false)
    (failed : Action.step.outcome m = .error fault) :
    m.OnlyTraced (Action.step.after m) ∧ Action.step.outcome (Action.step.after m) = .error fault ∧
      (Action.step.after m).OnlyTraced (Action.step.after (Action.step.after m)) := by
  have same := Action.step_failed_of_late late failed
  obtain ⟨fetched, stepped⟩ := same.outcome_eq
  have failed' : Action.step.outcome (Action.step.after m) = .error fault := stepped.trans failed
  exact ⟨same, failed', Action.step_failed_of_late (by rwa [fetched]) failed'⟩

/-- A register has one cell, and growing the stack writes to that of the stack pointer. -/
theorem cell_grown (lower : Register.count < m.memory.size) :
    m.grown.memory.cell 1 = m.memory.cell 1 - 1 ∧
      ∀ i, i ≠ 1 → m.grown.memory.cell i = m.memory.cell i := by
  constructor
  · exact Memory.cell_put_same m.memory _ (Nat.lt_trans (by decide) lower)
  · intro i other
    exact Memory.cell_put_other m.memory _ other.symm

/-- A failed step leaves functions, body flag, literal pool and output as they were, lines of trace apart.
It has taken a line of input only if it was a read that knew where to put it. Memory is unchanged, except
that the cell of the stack pointer, and no other one, is one less if the step was to put a word on the
stack. Where neither can be the case, the same step fails the same way again and changes nothing. -/
theorem failed_step_leaves {config : Config} (reachable : m.Reachable config)
    (failed : Action.step.outcome m = .error fault) :
    let m' := Action.step.after m
    m'.functions = m.functions ∧ m'.inBody = m.inBody ∧ m'.staticBase = m.staticBase ∧
      m'.instructionCount = m.instructionCount ∧
    (∃ lines, (∀ line ∈ lines, Trace.IsTraceLine line) ∧ (m.trace = false → lines = []) ∧
      m'.output = m.output ++ Lines.join lines) ∧
    (m'.input = m.input ∨
      m'.input = Input.afterLine m.input ∧ m.inBody = false ∧ ∃ destination address,
        Action.fetch.outcome m = .ok (.ref .read destination) ∧ m.resolve destination = .ok address) ∧
    (¬ m.Grows → m'.memory = m.memory) ∧
    (m.Grows → m'.memory.size = m.memory.size ∧ m'.memory.cell 1 = m.memory.cell 1 - 1 ∧
      ∀ i, i ≠ 1 → m'.memory.cell i = m.memory.cell i) ∧
    ((∀ i, Action.fetch.outcome m = .ok i → i.changesEarly = false) →
      m.OnlyTraced m' ∧ Action.step.outcome m' = .error fault ∧
        m'.OnlyTraced (Action.step.after m')) := by
  intro m'
  obtain ⟨control, output⟩ := step_failed_kept failed
  obtain ⟨steady, grown⟩ := step_failed_memory failed
  refine ⟨congrArg Control.functions control, congrArg Control.inBody control,
    congrArg Control.staticBase control, congrArg Control.instructionCount control, output,
    step_failed_input failed, steady, ?_, fun late => step_failed_again late failed⟩
  intro grows
  have moved : m'.memory = m.grown.memory := grown grows
  rw [moved]
  exact ⟨rfl, cell_grown reachable.bounded.lower⟩

/-- Behind a subtraction that leaves -1 in `r1`, following `r1` as an address fails. A push there has moved
the stack pointer, while a print changes nothing and goes on failing. -/
theorem failed_step_leaves_of_push_and_print :
    let after (i : Instruction) : Machine :=
      let fresh : Machine := { memory := .zero 20, trace := false, input := [] }
      let program : List Instruction := [.refImm .subImm (.direct 3) 1, i]
      Action.step.after ((Action.load ⟨program.map Instruction.encode, []⟩).after fresh)
    let pushing := after (.ref .push ⟨2, 3⟩)
    let printing := after (.ref .print ⟨2, 3⟩)
    (Action.step.outcome pushing = .error (.addressOutOfBounds (-1)) ∧
      (Action.step.after pushing).memory.cell 1 = 19 ∧
      ∀ i, i ≠ 1 → (Action.step.after pushing).memory.cell i = pushing.memory.cell i) ∧
    Action.step.outcome printing = .error (.addressOutOfBounds (-1)) ∧
      (Action.step.after printing).memory = printing.memory ∧
      Action.step.outcome (Action.step.after printing) = .error (.addressOutOfBounds (-1)) := by
  intro after pushing printing
  have reachable (i : Instruction) : (after i).Reachable ⟨20, false⟩ :=
    .stepped (.loaded (.created rfl) _)
  have pushFails : Action.step.outcome pushing = .error (.addressOutOfBounds (-1)) :=
    eq_error_of_match (by decide +kernel)
  have printFails : Action.step.outcome printing = .error (.addressOutOfBounds (-1)) :=
    eq_error_of_match (by decide +kernel)
  have printed : Action.fetch.outcome printing = .ok (.ref .print ⟨2, 3⟩) :=
    eq_ok_of_toOption (by decide +kernel)
  have grows : pushing.Grows := by
    have pushed : Action.fetch.outcome pushing = .ok (.ref .push ⟨2, 3⟩) :=
      eq_ok_of_toOption (by decide +kernel)
    rw [Machine.Grows, pushed]
    exact ⟨by decide +kernel, trivial⟩
  have late : ∀ i, Action.fetch.outcome printing = .ok i → i.changesEarly = false := by
    intro i fetched
    rw [printed] at fetched
    cases fetched
    rfl
  obtain ⟨_, _, _, _, _, _, _, moved, _⟩ := failed_step_leaves (reachable _) pushFails
  obtain ⟨_, _, _, _, _, _, _, _, again⟩ := failed_step_leaves (reachable _) printFails
  obtain ⟨_, cell, others⟩ := moved grows
  obtain ⟨same, failsAgain, _⟩ := again late
  have twenty : pushing.memory.cell 1 = 20 := by decide +kernel
  rw [twenty] at cell
  exact ⟨⟨pushFails, cell, others⟩, printFails, same.memory, failsAgain⟩

end Machine
end StoredProgram
