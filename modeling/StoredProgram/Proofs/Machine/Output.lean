import StoredProgram.Proofs.Machine.Run
import StoredProgram.Proofs.Machine.Step

set_option autoImplicit false

namespace StoredProgram

namespace Machine

/-- The machine as it would be with `earlier` in front of its output. -/
def behind (m : Machine) (earlier : String) : Machine := { m with output := earlier ++ m.output }

theorem logged_behind (m : Machine) (line earlier : String) :
    (m.behind earlier).logged line = (m.logged line).behind earlier := by
  cases traced : m.trace with
  | false =>
      have also : (m.behind earlier).trace = false := traced
      rw [logged_of_off traced, logged_of_off also]
  | true =>
      have also : (m.behind earlier).trace = true := traced
      rw [logged_of_on traced, logged_of_on also]
      simp only [behind, String.append_assoc]

theorem close_behind (draw : Table → String) (m : Machine) (earlier : String) :
    (m.behind earlier).close draw = (m.close draw).behind earlier := by
  have same : (m.behind earlier).summary draw = m.summary draw := rfl
  rw [close_eq, close_eq, same, logged_behind]

end Machine

namespace Action

variable {α β : Type}

/-- Actions that add to the output at most: with other output before it, they give the same, and add the
same. -/
def Appends (a : Action α) : Prop :=
  ∀ (m : Machine) (earlier : String),
    a.outcome (m.behind earlier) = a.outcome m ∧
      a.after (m.behind earlier) = (a.after m).behind earlier

theorem Appends.bind {a : Action α} {f : α → Action β} (first : Appends a)
    (rest : ∀ x, Appends (f x)) : Appends (a >>= f) := by
  intro m earlier
  obtain ⟨gives, leaves⟩ := first m earlier
  cases run : a.outcome m with
  | ok x =>
      rw [run] at gives
      rw [outcome_bind_ok f run, outcome_bind_ok f gives, after_bind_ok f run, after_bind_ok f gives,
        leaves]
      exact rest x _ earlier
  | error fault =>
      rw [run] at gives
      rw [outcome_bind_error f run, outcome_bind_error f gives, after_bind_error f run,
        after_bind_error f gives]
      exact ⟨rfl, leaves⟩

/-- What an action does to the whole machine decides. -/
theorem Appends.congr {a b : Action α} (appends : Appends b) {m : Machine} {earlier : String}
    (same : a m = b m) (also : a (m.behind earlier) = b (m.behind earlier)) :
    a.outcome (m.behind earlier) = a.outcome m ∧
      a.after (m.behind earlier) = (a.after m).behind earlier := by
  rw [outcome_congr same, outcome_congr also, after_congr same, after_congr also]
  exact appends m earlier

theorem Quiet.appends {a : Action α} (quiet : Quiet true a) : Appends a := by
  induction quiet with
  | pure x => exact fun _ _ => ⟨rfl, rfl⟩
  | throw fault => exact fun _ _ => ⟨rfl, rfl⟩
  | query f unseen =>
      intro m earlier
      rw [outcome_query, outcome_query, after_query, after_query]
      exact ⟨unseen m m.trace _, rfl⟩
  | change f sized =>
      intro m earlier
      cases run : f m.memory with
      | ok memory =>
          have also : f (m.behind earlier).memory = .ok memory := run
          rw [outcome_change_ok run, outcome_change_ok also, after_change_ok run, after_change_ok also]
          exact ⟨rfl, rfl⟩
      | error fault =>
          have also : f (m.behind earlier).memory = .error fault := run
          rw [outcome_change_error run, outcome_change_error also, after_change_error run,
            after_change_error also]
          exact ⟨rfl, rfl⟩
  | inputValue =>
      intro m earlier
      rw [outcome_inputValue, outcome_inputValue, after_inputValue, after_inputValue]
      refine ⟨rfl, ?_⟩
      change (if m.input = [] then _ else _) = Machine.behind (if m.input = [] then _ else _) earlier
      split <;> rfl
  | traceLine line form allowed =>
      -- The only quiet action that touches the output; it adds its line at the end.
      intro m earlier
      rw [outcome_traceLine, outcome_traceLine, after_traceLine, after_traceLine,
        Machine.logged_behind]
      exact ⟨rfl, rfl⟩
  | bind _ _ ihFirst ihRest => exact ihFirst.bind ihRest

theorem appends_printLine (line : String) : Appends (printLine line) := by
  intro m earlier
  refine ⟨rfl, ?_⟩
  change ({ m with output := earlier ++ m.output ++ line ++ "\n" } : Machine) =
    { m with output := earlier ++ (m.output ++ line ++ "\n") }
  simp only [String.append_assoc]

theorem appends_print (source : Reference) : Appends (print source) := by
  apply (Quiet.resolve source).appends.bind
  intro value
  apply (Quiet.traceEffect _ (by simp only [List.map]; decide)).appends.bind
  intro _
  exact (appends_printLine _).bind fun _ => Quiet.advance.appends

theorem appends_printLiteral (index : Word) : Appends (printLiteral index) := by
  apply (Quiet.query _ fun _ _ _ => rfl).appends.bind
  intro literal
  exact (appends_printLine literal).bind fun _ => Quiet.advance.appends

theorem appends_openBody (function address : Word) : Appends (openBody function address) := by
  intro m earlier
  cases inside : m.inBody with
  | true =>
      have run := openBody_nested inside function address
      have also := openBody_nested (m := m.behind earlier) inside function address
      rw [outcome_of_error run, outcome_of_error also, after_of_error run, after_of_error also]
      exact ⟨rfl, rfl⟩
  | false =>
      have run := openBody_outside inside function address
      have also := openBody_outside (m := m.behind earlier) inside function address
      rw [outcome_of_ok run, outcome_of_ok also, after_of_ok run, after_of_ok also]
      exact ⟨rfl, rfl⟩

theorem appends_closeBody : Appends closeBody := fun _ _ => ⟨rfl, rfl⟩

theorem appends_beginFunction (function : Word) : Appends (beginFunction function) := by
  rw [beginFunction_eq]
  apply (Quiet.register .ip).appends.bind
  intro address
  exact (appends_openBody function address).bind fun _ => Quiet.advance.appends

theorem appends_endFunction : Appends endFunction :=
  appends_closeBody.bind fun _ => Quiet.advance.appends

theorem appends_dispatch (i : Instruction) : Appends (dispatch i) := by
  rcases dispatch_cases i with quiet | ⟨source, rfl⟩ | ⟨index, rfl⟩ | ⟨function, rfl⟩ | rfl
  · exact quiet.appends
  · exact (appends_print source).bind fun _ => (Quiet.pure _).appends
  · exact (appends_printLiteral index).bind fun _ => (Quiet.pure _).appends
  · exact (appends_beginFunction function).bind fun _ => (Quiet.pure _).appends
  · exact appends_endFunction.bind fun _ => (Quiet.pure _).appends

theorem appends_execute (i : Instruction) : Appends (execute i) := by
  intro m earlier
  rcases skipped_or_carried m i with ⟨inside, unmarked⟩ | carried
  · have quiet : Quiet true (advance >>= fun _ => pure Signal.next) :=
      .bind .advance fun _ => .pure _
    exact quiet.appends.congr (execute_skipped inside unmarked)
      (execute_skipped (m := m.behind earlier) inside unmarked)
  · exact (appends_dispatch i).congr (execute_dispatched carried)
      (execute_dispatched (m := m.behind earlier) carried)

theorem appends_step : Appends step := Quiet.fetch.appends.bind appends_execute

end Action

namespace Machine

variable (m : Machine) (earlier : String)

theorem afterSteps_behind (n : Nat) :
    (m.behind earlier).afterSteps n = (m.afterSteps n).behind earlier := by
  induction n with
  | zero => rfl
  | succ n ih => rw [afterSteps, ih, (Action.appends_step _ earlier).2, afterSteps]

/-- A run goes the same way whatever was printed before it. -/
theorem runFrom_behind (done limit : Nat) : runFrom done limit (m.behind earlier) =
    { runFrom done limit m with machine := (runFrom done limit m).machine.behind earlier } := by
  induction limit generalizing done m with
  | zero => rfl
  | succ limit ih =>
      obtain ⟨gives, leaves⟩ := Action.appends_step m earlier
      rw [runFrom_succ, runFrom_succ, gives, leaves]
      split
      · exact ih _ (done + 1)
      · rfl
      · rfl

theorem run_behind (draw : Table → String) (limit : Nat) : (m.behind earlier).run draw limit =
    { m.run draw limit with machine := (m.run draw limit).machine.behind earlier } := by
  unfold run
  rw [runFrom_behind]
  cases runFrom 0 limit m with
  | mk ending last steps =>
      cases ending with
      | halted =>
          -- The summary that closes a traced run shows registers and counts, and no output.
          change Outcome.mk .halted ((last.behind earlier).close draw) steps =
            ⟨.halted, (last.close draw).behind earlier, steps⟩
          rw [close_behind]
      | failed fault => rfl
      | unfinished => rfl

end Machine
end StoredProgram
