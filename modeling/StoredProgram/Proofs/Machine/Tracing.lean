import StoredProgram.Proofs.Machine.Load
import StoredProgram.Proofs.Machine.Run
import StoredProgram.Proofs.Machine.Step

set_option autoImplicit false

namespace StoredProgram

/-- A machine and a traced copy of it, which may differ in their outputs. -/
structure Twins (plain traced : Machine) : Prop where
  memory : traced.memory = plain.memory
  functions : traced.functions = plain.functions
  inBody : traced.inBody = plain.inBody
  staticBase : traced.staticBase = plain.staticBase
  instructionCount : traced.instructionCount = plain.instructionCount
  input : traced.input = plain.input
  off : plain.trace = false
  on : traced.trace = true

variable {plain traced : Machine}

theorem Twins.traced_eq (twins : Twins plain traced) :
    traced = { plain with trace := true, output := traced.output } := by
  obtain ⟨memory, functions, inBody, staticBase, instructionCount, input, _, on⟩ := twins
  obtain ⟨_, _, _, _, _, _, _, _⟩ := traced
  subst memory functions inBody staticBase instructionCount input on
  rfl

theorem Twins.plain_eq (twins : Twins plain traced) :
    plain = { traced with trace := false, output := plain.output } := by
  obtain ⟨memory, functions, inBody, staticBase, instructionCount, input, off, _⟩ := twins
  obtain ⟨_, _, _, _, _, _, _, _⟩ := plain
  subst memory functions inBody staticBase instructionCount input off
  rfl

theorem Twins.register (twins : Twins plain traced) (r : Register) :
    traced.register r = plain.register r := by
  rw [Machine.register, twins.memory, Machine.register]

theorem Twins.setRegister (twins : Twins plain traced) (r : Register) (value : Word) :
    Twins (plain.setRegister r value) (traced.setRegister r value) := by
  refine { twins with memory := ?_ }
  rw [Machine.setRegister, Machine.setRegister, twins.memory]

theorem Twins.current (twins : Twins plain traced) : traced.current = plain.current := by
  rw [Machine.current, twins.memory, twins.register, Machine.current]

namespace Action

variable {α β : Type} {a : Action α} {lines more : List String} {text : String}

/-- An action gives the same to twins and leaves them twins. Both add `text` to their outputs, and the
traced one adds `lines` before it. -/
structure Mirrors (lines : List String) (text : String) (a : Action α) (plain traced : Machine) :
    Prop where
  outcome : a.outcome traced = a.outcome plain
  twins : Twins (a.after plain) (a.after traced)
  plain : (a.after plain).output = plain.output ++ text
  traced : (a.after traced).output = traced.output ++ (Lines.join lines ++ text)

theorem Mirrors.bind_error {fault : Fault} (first : Mirrors lines text a plain traced)
    (failed : a.outcome plain = .error fault) (f : α → Action β) :
    Mirrors lines text (a >>= f) plain traced := by
  have also := first.outcome.trans failed
  refine ⟨?_, ?_, ?_, ?_⟩
  · rw [outcome_bind_error f failed, outcome_bind_error f also]
  · rw [after_bind_error f failed, after_bind_error f also]
    exact first.twins
  · rw [after_bind_error f failed, first.plain]
  · rw [after_bind_error f also, first.traced]

/-- One action after the other: what the first one prints may not be followed by lines of trace. -/
theorem Mirrors.bind_ok {x : α} {f : α → Action β} {rest : String}
    (first : Mirrors lines text a plain traced) (success : a.outcome plain = .ok x)
    (second : Mirrors more rest (f x) (a.after plain) (a.after traced))
    (apart : text = "" ∨ more = []) :
    Mirrors (lines ++ more) (text ++ rest) (a >>= f) plain traced := by
  have also := first.outcome.trans success
  refine ⟨?_, ?_, ?_, ?_⟩
  · rw [outcome_bind_ok f success, outcome_bind_ok f also, second.outcome]
  · rw [after_bind_ok f success, after_bind_ok f also]
    exact second.twins
  · rw [after_bind_ok f success, second.plain, first.plain, String.append_assoc]
  · rw [after_bind_ok f also, second.traced, first.traced, Lines.join_append]
    rcases apart with none | none
    · rw [none]
      simp only [String.append_empty, String.empty_append, String.append_assoc]
    · rw [none]
      simp only [Lines.join_nil, String.append_empty, String.empty_append, String.append_assoc]

/-- An action that changes twins alike and adds nothing to their outputs. -/
theorem Mirrors.of_silent (outcome : a.outcome traced = a.outcome plain)
    (twins : Twins (a.after plain) (a.after traced))
    (plain_output : (a.after plain).output = plain.output)
    (traced_output : (a.after traced).output = traced.output) :
    Mirrors [] "" a plain traced := by
  refine ⟨outcome, twins, ?_, ?_⟩
  · rw [plain_output, String.append_empty]
  · rw [traced_output, Lines.join_nil, String.append_empty, String.append_empty]

theorem mirrors_traceLine (twins : Twins plain traced) (line : Unit → String) :
    Mirrors [line ()] "" (traceLine line) plain traced := by
  have unmoved := Machine.logged_of_off twins.off (line ())
  have added := Machine.logged_of_on twins.on (line ())
  refine ⟨?_, ?_, ?_, ?_⟩
  · rw [outcome_traceLine, outcome_traceLine]
  · rw [after_traceLine, after_traceLine, unmoved, added]
    exact { twins with }
  · rw [after_traceLine, unmoved, String.append_empty]
  · rw [after_traceLine, added, Lines.join_cons, Lines.join_nil]
    simp only [String.append_empty, String.append_assoc]

/-- Quiet actions add lines of trace at most. -/
theorem Quiet.mirrors {traces : Bool} (quiet : Quiet traces a) (twins : Twins plain traced) :
    ∃ lines, (∀ line ∈ lines, Trace.IsTraceLine line) ∧ (traces = false → lines = []) ∧
      Mirrors lines "" a plain traced := by
  -- What a primitive looks at is the same in twins, so it succeeds for both or fails for both.
  induction quiet generalizing plain traced with
  | pure x => exact ⟨[], by simp, fun _ => rfl, .of_silent rfl twins rfl rfl⟩
  | throw fault => exact ⟨[], by simp, fun _ => rfl, .of_silent rfl twins rfl rfl⟩
  | query f unseen =>
      refine ⟨[], by simp, fun _ => rfl, .of_silent ?_ ?_ ?_ ?_⟩
      · rw [outcome_query, outcome_query, twins.traced_eq, unseen]
      · rw [after_query, after_query]
        exact twins
      · rw [after_query]
      · rw [after_query]
  | change f sized =>
      refine ⟨[], by simp, fun _ => rfl, ?_⟩
      cases run : f plain.memory with
      | ok memory =>
          have also : f traced.memory = .ok memory := by rw [twins.memory, run]
          apply Mirrors.of_silent
          · rw [outcome_change_ok run, outcome_change_ok also]
          · rw [after_change_ok run, after_change_ok also]
            exact { twins with memory := rfl }
          · rw [after_change_ok run]
          · rw [after_change_ok also]
      | error fault =>
          have also : f traced.memory = .error fault := by rw [twins.memory, run]
          apply Mirrors.of_silent
          · rw [outcome_change_error run, outcome_change_error also]
          · rw [after_change_error run, after_change_error also]
            exact twins
          · rw [after_change_error run]
          · rw [after_change_error also]
  | inputValue =>
      refine ⟨[], by simp, fun _ => rfl, ?_⟩
      have same := twins.input
      apply Mirrors.of_silent
      · rw [outcome_inputValue, outcome_inputValue, same]
      · rw [after_inputValue, after_inputValue, same]
        split
        · exact twins
        · exact { twins with input := rfl }
      · rw [after_inputValue]
        split <;> rfl
      · rw [after_inputValue]
        split <;> rfl
  | traceLine line form allowed =>
      refine ⟨[line ()], ?_, ?_, mirrors_traceLine twins line⟩
      · intro other member
        rw [List.mem_singleton.mp member]
        exact form
      · intro silent
        rw [silent] at allowed
        cases allowed
  | bind first rest ihFirst ihRest =>
      rename_i a f
      obtain ⟨lines, form, silent, mirrored⟩ := ihFirst twins
      cases run : a.outcome plain with
      | error fault => exact ⟨lines, form, silent, mirrored.bind_error run f⟩
      | ok x =>
          obtain ⟨more, formMore, silentMore, second⟩ := ihRest x mirrored.twins
          refine ⟨lines ++ more, ?_, ?_, mirrored.bind_ok run second (Or.inl rfl)⟩
          · exact List.forall_mem_append.mpr ⟨form, formMore⟩
          · intro none
            rw [silent none, silentMore none, List.append_nil]

/-- Actions that a trace only observes: lines of trace come first, and what is printed comes last. -/
def Observed (a : Action α) : Prop :=
  ∀ plain traced, Twins plain traced →
    ∃ lines text, (∀ line ∈ lines, Trace.IsTraceLine line) ∧ Mirrors lines text a plain traced

theorem Quiet.observed (quiet : Quiet true a) : Observed a := by
  intro plain traced twins
  obtain ⟨lines, form, _, mirrored⟩ := quiet.mirrors twins
  exact ⟨lines, "", form, mirrored⟩

theorem Quiet.bind_observed {f : α → Action β} (first : Quiet true a) (rest : ∀ x, Observed (f x)) :
    Observed (a >>= f) := by
  intro plain traced twins
  obtain ⟨lines, form, _, mirrored⟩ := first.mirrors twins
  cases run : a.outcome plain with
  | error fault => exact ⟨lines, "", form, mirrored.bind_error run f⟩
  | ok x =>
      obtain ⟨more, text, formMore, second⟩ := rest x _ _ mirrored.twins
      exact ⟨lines ++ more, "" ++ text, List.forall_mem_append.mpr ⟨form, formMore⟩,
        mirrored.bind_ok run second (Or.inl rfl)⟩

theorem Observed.bind_silent {f : α → Action β} (first : Observed a)
    (rest : ∀ x, Quiet false (f x)) : Observed (a >>= f) := by
  intro plain traced twins
  obtain ⟨lines, text, form, mirrored⟩ := first plain traced twins
  cases run : a.outcome plain with
  | error fault => exact ⟨lines, text, form, mirrored.bind_error run f⟩
  | ok x =>
      obtain ⟨more, _, silent, second⟩ := (rest x).mirrors mirrored.twins
      have none := silent rfl
      rw [none] at second
      exact ⟨lines ++ [], text ++ "", by rwa [List.append_nil],
        mirrored.bind_ok run second (Or.inr rfl)⟩

theorem observed_printLine (line : String) : Observed (printLine line) := by
  intro plain traced twins
  refine ⟨[], line ++ "\n", by simp, rfl, { twins with }, ?_, ?_⟩
  · exact String.append_assoc
  · rw [Lines.join_nil, String.empty_append]
    exact String.append_assoc

theorem observed_print (source : Reference) : Observed (print source) := by
  apply (Quiet.resolve source).bind_observed
  intro value
  apply (Quiet.traceEffect _ (by simp only [List.map]; decide)).bind_observed
  intro _
  exact (observed_printLine _).bind_silent fun _ => .advance

theorem observed_printLiteral (index : Word) : Observed (printLiteral index) := by
  apply (Quiet.query _ fun _ _ _ => rfl).bind_observed
  intro literal
  exact (observed_printLine literal).bind_silent fun _ => .advance

theorem observed_openBody (function address : Word) : Observed (openBody function address) := by
  intro plain traced twins
  refine ⟨[], "", by simp, ?_⟩
  cases inside : plain.inBody with
  | true =>
      have run := openBody_nested inside function address
      have also := openBody_nested (twins.inBody.trans inside) function address
      apply Mirrors.of_silent
      · rw [outcome_of_error run, outcome_of_error also]
      · rw [after_of_error run, after_of_error also]
        exact twins
      · rw [after_of_error run]
      · rw [after_of_error also]
  | false =>
      have run := openBody_outside inside function address
      have also := openBody_outside (twins.inBody.trans inside) function address
      rw [twins.functions] at also
      apply Mirrors.of_silent
      · rw [outcome_of_ok run, outcome_of_ok also]
      · rw [after_of_ok run, after_of_ok also]
        exact { twins with functions := rfl, inBody := rfl }
      · rw [after_of_ok run]
      · rw [after_of_ok also]

theorem observed_closeBody : Observed closeBody :=
  fun _ _ twins => ⟨[], "", by simp, .of_silent rfl { twins with inBody := rfl } rfl rfl⟩

theorem observed_beginFunction (function : Word) : Observed (beginFunction function) := by
  rw [beginFunction_eq]
  apply (Quiet.register .ip).bind_observed
  intro address
  exact (observed_openBody function address).bind_silent fun _ => .advance

theorem observed_endFunction : Observed endFunction :=
  observed_closeBody.bind_silent fun _ => .advance

theorem observed_dispatch (i : Instruction) : Observed (dispatch i) := by
  rcases dispatch_cases i with quiet | ⟨source, rfl⟩ | ⟨index, rfl⟩ | ⟨function, rfl⟩ | rfl
  · exact quiet.observed
  · exact (observed_print source).bind_silent fun _ => .pure _
  · exact (observed_printLiteral index).bind_silent fun _ => .pure _
  · exact (observed_beginFunction function).bind_silent fun _ => .pure _
  · exact observed_endFunction.bind_silent fun _ => .pure _

theorem Mirrors.congr {b : Action α} (mirrored : Mirrors lines text b plain traced)
    (same : a plain = b plain) (also : a traced = b traced) : Mirrors lines text a plain traced := by
  obtain ⟨outcome, twins, plain_output, traced_output⟩ := mirrored
  rw [← outcome_congr same, ← outcome_congr also] at outcome
  rw [← after_congr same] at plain_output
  rw [← after_congr also] at traced_output
  rw [← after_congr same, ← after_congr also] at twins
  exact ⟨outcome, twins, plain_output, traced_output⟩

theorem observed_execute (i : Instruction) : Observed (execute i) := by
  intro plain traced twins
  rcases skipped_or_carried plain i with ⟨inside, unmarked⟩ | carried
  · have quiet : Quiet true (advance >>= fun _ => pure Signal.next) :=
      .bind .advance fun _ => .pure _
    obtain ⟨lines, text, form, mirrored⟩ := quiet.observed plain traced twins
    exact ⟨lines, text, form, mirrored.congr (execute_skipped inside unmarked)
      (execute_skipped (twins.inBody.trans inside) unmarked)⟩
  · have also : traced.inBody = false ∨ i.marksBody = true := by rwa [twins.inBody]
    obtain ⟨lines, text, form, mirrored⟩ := observed_dispatch i plain traced twins
    exact ⟨lines, text, form, mirrored.congr (execute_dispatched carried) (execute_dispatched also)⟩

/-- A fetch adds the line of the instruction, and nothing if there is none. -/
theorem mirrors_fetch (twins : Twins plain traced) :
    (∃ fault, fetch.outcome plain = .error fault ∧ Mirrors [] "" fetch plain traced) ∨
      ∃ i, fetch.outcome plain = .ok i ∧
        Mirrors [Trace.fetched (plain.register .ip) i.opcode plain.current] "" fetch plain traced := by
  -- That twins stay twins is known already; what is left are the exact lines.
  obtain ⟨lines, _, _, mirrored⟩ := Quiet.fetch.mirrors twins
  rcases fetch_cases plain with ⟨fault, failed, unmoved⟩ | ⟨i, _, decoded, fetched, logged⟩
  · rcases fetch_cases traced with ⟨_, _, alsoUnmoved⟩ | ⟨i, _, _, success, _⟩
    · left
      refine ⟨fault, failed, .of_silent mirrored.outcome mirrored.twins ?_ ?_⟩
      · rw [unmoved]
      · rw [alsoUnmoved]
    · rw [mirrored.outcome, failed] at success
      cases success
  · rcases fetch_cases traced with ⟨_, failed, _⟩ | ⟨j, _, success, _, alsoLogged⟩
    · rw [mirrored.outcome, fetched] at failed
      cases failed
    · rw [twins.current, decoded] at success
      injection success with same
      have line := mirrors_traceLine twins fun _ =>
        Trace.fetched (plain.register .ip) i.opcode plain.current
      rw [← same, twins.register, twins.current] at alsoLogged
      right
      refine ⟨i, fetched, mirrored.outcome, mirrored.twins, ?_, ?_⟩
      · rw [logged, ← line.plain, after_traceLine]
      · rw [alsoLogged, ← line.traced, after_traceLine]

/-- A step adds nothing for twins if the fetch fails. Else the traced one adds the line of the
instruction and further lines of trace before what the step prints. -/
theorem mirrors_step (twins : Twins plain traced) :
    (∃ fault, fetch.outcome plain = .error fault ∧ Mirrors [] "" step plain traced) ∨
      ∃ i further text, fetch.outcome plain = .ok i ∧
        (∀ line ∈ further, Trace.IsTraceLine line) ∧
        Mirrors (Trace.fetched (plain.register .ip) i.opcode plain.current :: further) text step
          plain traced := by
  rcases mirrors_fetch twins with ⟨fault, failed, mirrored⟩ | ⟨i, fetched, mirrored⟩
  · left
    exact ⟨fault, failed, mirrored.bind_error failed execute⟩
  · obtain ⟨further, text, form, rest⟩ := observed_execute i _ _ mirrored.twins
    right
    exact ⟨i, further, "" ++ text, fetched, form, mirrored.bind_ok fetched rest (Or.inl rfl)⟩

end Action

namespace Twins

theorem outcome_step (twins : Twins plain traced) :
    Action.step.outcome traced = Action.step.outcome plain := by
  rcases Action.mirrors_step twins with ⟨_, _, mirrored⟩ | ⟨_, _, _, _, _, mirrored⟩
  · exact mirrored.outcome
  · exact mirrored.outcome

theorem step (twins : Twins plain traced) :
    Twins (Action.step.after plain) (Action.step.after traced) := by
  rcases Action.mirrors_step twins with ⟨_, _, mirrored⟩ | ⟨_, _, _, _, _, mirrored⟩
  · exact mirrored.twins
  · exact mirrored.twins

theorem afterSteps (twins : Twins plain traced) (n : Nat) :
    Twins (plain.afterSteps n) (traced.afterSteps n) := by
  induction n with
  | zero => exact twins
  | succ n ih => exact ih.step

theorem runFrom (twins : Twins plain traced) (done limit : Nat) :
    (Machine.runFrom done limit traced).ending = (Machine.runFrom done limit plain).ending ∧
      (Machine.runFrom done limit traced).steps = (Machine.runFrom done limit plain).steps ∧
      Twins (Machine.runFrom done limit plain).machine (Machine.runFrom done limit traced).machine := by
  induction limit generalizing done plain traced with
  | zero => exact ⟨rfl, rfl, twins⟩
  | succ limit ih =>
      rw [Machine.runFrom_succ, Machine.runFrom_succ, twins.outcome_step]
      have next := twins.step
      split
      · exact ih next (done + 1)
      · exact ⟨rfl, rfl, next⟩
      · exact ⟨rfl, rfl, next⟩

end Twins

namespace Machine

/-- Twins may be made of any machine by turning the trace off and on. -/
theorem twins_of_flag (m : Machine) : Twins { m with trace := false } { m with trace := true } :=
  ⟨rfl, rfl, rfl, rfl, rfl, rfl, rfl, rfl⟩

/-- A machine is untraced, or else it is the traced twin of itself without its trace. -/
theorem untraced_or_twins (m : Machine) :
    { m with trace := false } = m ∨ Twins { m with trace := false } m := by
  cases traced : m.trace with
  | false => exact Or.inl (by rw [← traced])
  | true => exact Or.inr ⟨rfl, rfl, rfl, rfl, rfl, rfl, rfl, traced⟩

/-- A trace has no part in what is fetched. -/
theorem fetch_untraced (m : Machine) :
    Action.fetch.outcome { m with trace := false } = Action.fetch.outcome m := by
  rcases untraced_or_twins m with same | twins
  · rw [same]
  · obtain ⟨_, _, _, mirrored⟩ := Action.Quiet.fetch.mirrors twins
    exact mirrored.outcome.symm

/-- Steps lead a machine where they lead it without its trace, apart from the output. -/
theorem afterSteps_untraced (m : Machine) (n : Nat) :
    Action.step.outcome (m.afterSteps n) =
        Action.step.outcome (({ m with trace := false } : Machine).afterSteps n) ∧
      ∃ output, ({ m with trace := false } : Machine).afterSteps n =
          { m.afterSteps n with trace := false, output } ∧
        (m.trace = false → output = (m.afterSteps n).output) := by
  have off := ((twins_of_flag m).afterSteps n).off
  rcases untraced_or_twins m with same | twins
  · rw [same] at off ⊢
    refine ⟨rfl, (m.afterSteps n).output, ?_, fun _ => rfl⟩
    rw [← off]
  · refine ⟨(twins.afterSteps n).outcome_step, _, (twins.afterSteps n).plain_eq, ?_⟩
    intro untraced
    rw [twins.on] at untraced
    cases untraced

/-- A machine stays traced or untraced. -/
theorem trace_afterSteps (m : Machine) (n : Nat) : (m.afterSteps n).trace = m.trace := by
  rcases untraced_or_twins m with same | twins
  · have off := ((twins_of_flag m).afterSteps n).off
    rw [same] at off
    rw [off]
    exact congrArg Machine.trace same
  · rw [(twins.afterSteps n).on, twins.on]

/-- A load gives twins the same, and if it succeeds the traced one adds one line. -/
theorem twins_load (twins : Twins plain traced) (image : Image) :
    Twins ((Action.load image).after plain) ((Action.load image).after traced) ∧
      ((Action.load image).after plain).output = plain.output ∧
      ((∃ fault, (Action.load image).outcome plain = .error fault ∧
          (Action.load image).outcome traced = .error fault ∧
          ((Action.load image).after traced).output = traced.output) ∨
        ((Action.load image).outcome plain = .ok () ∧ (Action.load image).outcome traced = .ok () ∧
          ((Action.load image).after traced).output =
            traced.output ++ Trace.loaded image.code.length ++ "\n")) := by
  obtain ⟨memory, _, ⟨fault, failed⟩ | ⟨_, success⟩⟩ := Action.load_cases image plain.memory.size
  · obtain ⟨gives, leaves⟩ := failed plain rfl
    obtain ⟨alsoGives, alsoLeaves⟩ := failed traced (congrArg Memory.size twins.memory)
    rw [leaves, alsoLeaves]
    exact ⟨{ twins with memory := rfl, functions := rfl, inBody := rfl }, rfl,
      Or.inl ⟨fault, gives, alsoGives, rfl⟩⟩
  · obtain ⟨gives, leaves⟩ := success plain rfl
    obtain ⟨alsoGives, alsoLeaves⟩ := success traced (congrArg Memory.size twins.memory)
    have off : ({ plain with
        memory, functions := .empty, inBody := false,
        staticBase := Register.count + image.code.length,
        instructionCount := image.code.length } : Machine).trace = false := twins.off
    have on : ({ traced with
        memory, functions := .empty, inBody := false,
        staticBase := Register.count + image.code.length,
        instructionCount := image.code.length } : Machine).trace = true := twins.on
    rw [leaves, alsoLeaves, logged_of_off off, logged_of_on on]
    refine ⟨?_, rfl, Or.inr ⟨gives, alsoGives, rfl⟩⟩
    exact { twins with
      memory := rfl, functions := rfl, inBody := rfl, staticBase := rfl, instructionCount := rfl }

/-- Twins run alike, and the traced one adds its summary if it halts. -/
theorem twins_run (twins : Twins plain traced) (draw : Table → String) (limit : Nat) :
    (traced.run draw limit).ending = (plain.run draw limit).ending ∧
      (traced.run draw limit).steps = (plain.run draw limit).steps ∧
      Twins (plain.run draw limit).machine (traced.run draw limit).machine ∧
      (plain.run draw limit).machine.output = (plain.afterSteps (plain.run draw limit).steps).output ∧
      (traced.run draw limit).machine.output = (traced.afterSteps (traced.run draw limit).steps).output ++
        if (traced.run draw limit).ending = .halted then (traced.run draw limit).machine.summary draw ++ "\n"
        else "" := by
  obtain ⟨plainEnding, plainSteps, plainMachine⟩ := run_cases draw limit plain
  obtain ⟨tracedEnding, tracedSteps, tracedMachine⟩ := run_cases draw limit traced
  obtain ⟨sameEnding, sameSteps, _⟩ := twins.runFrom 0 limit
  have ending : (traced.run draw limit).ending = (plain.run draw limit).ending := by
    rw [tracedEnding, sameEnding, plainEnding]
  have steps : (traced.run draw limit).steps = (plain.run draw limit).steps := by
    rw [tracedSteps, sameSteps, plainSteps]
  have reached := twins.afterSteps (plain.run draw limit).steps
  rw [ending] at tracedMachine
  rw [steps] at tracedMachine
  rw [plainMachine, tracedMachine, ending, steps, close_eq, close_eq,
    logged_of_off reached.off, logged_of_on reached.on]
  refine ⟨rfl, rfl, ?_⟩
  by_cases halted : (plain.run draw limit).ending = .halted
  · simp only [if_pos halted]
    exact ⟨{ reached with }, trivial, String.append_assoc⟩
  · simp only [if_neg halted, String.append_empty]
    exact ⟨reached, trivial, trivial⟩

/-- A trace shows what happens and has no part in it. Loaded with the same image, a traced machine and an
untraced one stay twins through all steps, faults and halts included. A load that succeeds adds one line;
a step adds the line of its instruction, if there is one, and further lines of trace, all of them before
what the program prints; a run that halts adds the summary. -/
theorem tracing_observes (m : Machine) (image : Image) :
    let plain := (Action.load image).after { m with trace := false }
    let traced := (Action.load image).after { m with trace := true }
    -- The load.
    (Twins plain traced ∧ plain.output = m.output ∧
      ((∃ fault, (Action.load image).outcome { m with trace := false } = .error fault ∧
          (Action.load image).outcome { m with trace := true } = .error fault ∧
          traced.output = m.output) ∨
        ((Action.load image).outcome { m with trace := false } = .ok () ∧
          (Action.load image).outcome { m with trace := true } = .ok () ∧
          traced.output = m.output ++ Trace.loaded image.code.length ++ "\n"))) ∧
    -- Every step.
    (∀ n,
      let p := plain.afterSteps n
      let t := traced.afterSteps n
      Twins p t ∧ Action.step.outcome t = Action.step.outcome p ∧
        ∃ lines text,
          (Action.step.after p).output = p.output ++ text ∧
          (Action.step.after t).output = t.output ++ (Lines.join lines ++ text) ∧
          match Action.fetch.outcome p with
          | .error _ => lines = []
          | .ok i => ∃ further,
            lines = Trace.fetched (p.register .ip) i.opcode p.current :: further ∧
              ∀ line ∈ further, Trace.IsTraceLine line) ∧
    -- A run.
    ∀ draw limit,
      let p := plain.run draw limit
      let t := traced.run draw limit
      t.ending = p.ending ∧ t.steps = p.steps ∧ Twins p.machine t.machine ∧
        p.machine.output = (plain.afterSteps p.steps).output ∧
        t.machine.output = (traced.afterSteps t.steps).output ++
          if t.ending = .halted then t.machine.summary draw ++ "\n" else "" := by
  intro plain traced
  obtain ⟨twins, unchanged, loaded⟩ := twins_load (twins_of_flag m) image
  refine ⟨⟨twins, unchanged, loaded⟩, ?_, ?_⟩
  · intro n p t
    have same := twins.afterSteps n
    refine ⟨same, same.outcome_step, ?_⟩
    rcases Action.mirrors_step same with
      ⟨fault, failed, mirrored⟩ | ⟨i, further, text, fetched, form, mirrored⟩
    · refine ⟨[], "", mirrored.plain, mirrored.traced, ?_⟩
      rw [failed]
    · refine ⟨_, text, mirrored.plain, mirrored.traced, ?_⟩
      rw [fetched]
      exact ⟨further, rfl, form⟩
  · exact fun draw limit => twins_run twins draw limit

end Machine
end StoredProgram
