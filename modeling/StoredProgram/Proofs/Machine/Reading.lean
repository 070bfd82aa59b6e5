import StoredProgram.Proofs.Input
import StoredProgram.Proofs.Machine.Load
import StoredProgram.Proofs.Machine.Perform

set_option autoImplicit false

namespace StoredProgram

namespace Machine

def withInput (m : Machine) (input : List UInt8) : Machine := { m with input }

theorem logged_withInput (m : Machine) (input : List UInt8) (line : String) :
    (m.withInput input).logged line = (m.logged line).withInput input := by
  unfold logged withInput
  split <;> rfl

end Machine

namespace Action

open Machine (withInput)

variable {α β : Type} {a : Action α} {f : α → Action β} {m : Machine}

/-- The action does not look at the input, and leaves it alone. -/
structure Deaf (a : Action α) (m : Machine) : Prop where
  outcome : ∀ input, a.outcome (m.withInput input) = a.outcome m
  after : ∀ input, a.after (m.withInput input) = (a.after m).withInput input

namespace Deaf

theorem input (deaf : Deaf a m) : (a.after m).input = m.input := by
  have same : a.after m = (a.after m).withInput m.input := deaf.after m.input
  rw [same]
  rfl

theorem bind (first : Deaf a m) (rest : ∀ x, a.outcome m = .ok x → Deaf (f x) (a.after m)) :
    Deaf (a >>= f) m := by
  cases run : a.outcome m with
  | ok x =>
      have next := rest x run
      constructor
      · intro input
        rw [outcome_bind_ok f run, outcome_bind_ok f ((first.outcome input).trans run), first.after,
          next.outcome]
      · intro input
        rw [after_bind_ok f run, after_bind_ok f ((first.outcome input).trans run), first.after,
          next.after]
  | error fault =>
      constructor
      · intro input
        rw [outcome_bind_error f run, outcome_bind_error f ((first.outcome input).trans run)]
      · intro input
        rw [after_bind_error f run, after_bind_error f ((first.outcome input).trans run), first.after]

theorem pure (x : α) : Deaf (pure x) m := ⟨fun _ => rfl, fun _ => rfl⟩

theorem throw (fault : Fault) : Deaf (throw fault : Action α) m := ⟨fun _ => rfl, fun _ => rfl⟩

theorem query {g : Machine → Except Fault α} (unheard : ∀ input, g (m.withInput input) = g m) :
    Deaf (query g) m := by
  constructor
  · intro input
    rw [outcome_query, outcome_query, unheard]
  · intro input
    rw [after_query, after_query]

theorem modify {g : Machine → Machine}
    (unheard : ∀ input, g (m.withInput input) = (g m).withInput input) : Deaf (modify g) m :=
  ⟨fun _ => rfl, unheard⟩

theorem change (g : Memory → Except Fault Memory) : Deaf (change g) m := by
  cases run : g m.memory with
  | ok memory =>
      constructor
      · intro input
        rw [outcome_change_ok run]
        exact outcome_change_ok run
      · intro input
        rw [after_change_ok run]
        exact after_change_ok run
  | error fault =>
      constructor
      · intro input
        rw [outcome_change_error run]
        exact outcome_change_error run
      · intro input
        rw [after_change_error run]
        exact after_change_error run

theorem resolve (r : Reference) : Deaf (resolve r) m := .query fun _ => rfl

theorem read (address : Word) : Deaf (read address) m := .query fun _ => rfl

theorem write (address value : Word) : Deaf (write address value) m := .change _

theorem register (r : Register) : Deaf (register r) m := .read _

theorem setRegister (r : Register) (value : Word) : Deaf (setRegister r value) m := .write _ value

theorem printLine (line : String) : Deaf (printLine line) m := .modify fun _ => rfl

theorem traceLine (line : Unit → String) : Deaf (traceLine line) m := by
  constructor
  · intro input
    rw [outcome_traceLine, outcome_traceLine]
  · intro input
    rw [after_traceLine, after_traceLine, Machine.logged_withInput]

theorem traceEffect (op : Opcode) (fields : List (String × Int)) : Deaf (traceEffect op fields) m :=
  .traceLine _

theorem advance : Deaf advance m := (register .ip).bind fun _ _ => setRegister .ip _

theorem growStack : Deaf growStack m := by
  apply (register .sp).bind
  intro top _
  exact (setRegister .sp (top - 1)).bind fun _ _ => ⟨fun _ => rfl, fun _ => rfl⟩

theorem write_advance (address value : Word) {op : Opcode} {fields : List (String × Int)} :
    Deaf (Action.write address value >>= fun _ => Action.traceEffect op fields >>= fun _ => Action.advance)
      m := by
  apply (write address value).bind
  intro _ _
  exact (traceEffect op fields).bind fun _ _ => advance

theorem move (destination source : Reference) : Deaf (move destination source) m := by
  apply (resolve destination).bind
  intro address _
  apply (resolve source).bind
  intro value _
  apply (traceEffect _ _).bind
  intro _ _
  exact (write address value).bind fun _ _ => advance

theorem add (destination source : Reference) : Deaf (add destination source) m := by
  apply (resolve destination).bind
  intro address _
  apply (resolve source).bind
  intro term _
  apply (register destination.register).bind
  intro left _
  apply (traceEffect _ _).bind
  intro _ _
  exact (write address (left + term)).bind fun _ _ => advance

theorem sub (destination source : Reference) : Deaf (sub destination source) m := by
  apply (resolve destination).bind
  intro address _
  apply (resolve source).bind
  intro term _
  apply (register destination.register).bind
  intro left _
  exact write_advance address (left - term)

theorem addTo (destination : Reference) (immediate : Word) : Deaf (addTo destination immediate) m := by
  apply (resolve destination).bind
  intro address _
  apply (register destination.register).bind
  intro left _
  apply (traceEffect _ _).bind
  intro _ _
  exact write address (left + immediate)

theorem addImm (destination : Reference) (immediate : Word) : Deaf (addImm destination immediate) m :=
  (addTo destination immediate).bind fun _ _ => advance

theorem subImm (destination : Reference) (immediate : Word) : Deaf (subImm destination immediate) m := by
  apply (resolve destination).bind
  intro address _
  apply (register destination.register).bind
  intro left _
  apply (traceEffect _ _).bind
  intro _ _
  exact (write address (left - immediate)).bind fun _ _ => advance

theorem loadHalf (op : RefImmOp) (join : Word → BitVec 16 → Word) (destination : Reference)
    (immediate : Word) : Deaf (loadHalf op join destination immediate) m := by
  unfold Action.loadHalf
  dsimp only
  split
  · exact ⟨fun _ => rfl, fun _ => rfl⟩
  · apply (resolve destination).bind
    intro address _
    apply (read address).bind
    intro old _
    exact write_advance address (join old (immediate.setWidth 16))

theorem push (source : Reference) : Deaf (push source) m := by
  apply growStack.bind
  intro top _
  apply (resolve source).bind
  intro value _
  exact write_advance top value

theorem jump (target : Reference) : Deaf (jump target) m := by
  apply (resolve target).bind
  intro address _
  exact (traceEffect _ _).bind fun _ _ => setRegister .ip address

theorem jumpIfPositive (condition : Reference) (offset : Word) :
    Deaf (jumpIfPositive condition offset) m := by
  apply (resolve condition).bind
  intro value _
  apply (traceEffect _ _).bind
  intro _ _
  split
  · exact addTo (.direct .ip) offset
  · exact advance

theorem enter (function : Word) : Deaf (enter function) m := by
  apply Deaf.bind (.query fun _ => rfl)
  intro entry _
  apply (register .ip).bind
  intro back _
  apply growStack.bind
  intro top _
  apply (write top (back + 1)).bind
  intro _ _
  exact (traceEffect _ _).bind fun _ _ => setRegister .ip entry

theorem callIndirect (source : Reference) : Deaf (callIndirect source) m :=
  (resolve source).bind fun function _ => enter function

theorem openBody (function address : Word) : Deaf (openBody function address) m := by
  cases inside : m.inBody with
  | true =>
      have run := openBody_nested inside function address
      have also (input : List UInt8) := openBody_nested (m := m.withInput input) inside function address
      constructor
      · intro input
        rw [outcome_of_error run, outcome_of_error (also input)]
      · intro input
        rw [after_of_error run, after_of_error (also input)]
  | false =>
      have run := openBody_outside inside function address
      have also (input : List UInt8) := openBody_outside (m := m.withInput input) inside function address
      constructor
      · intro input
        rw [outcome_of_ok run, outcome_of_ok (also input)]
      · intro input
        rw [after_of_ok run, after_of_ok (also input)]
        rfl

theorem beginFunction (function : Word) : Deaf (beginFunction function) m := by
  rw [beginFunction_eq]
  apply (register .ip).bind
  intro address _
  exact (openBody function address).bind fun _ _ => advance

theorem endFunction : Deaf endFunction m :=
  Deaf.bind (.modify fun _ => rfl) fun _ _ => advance

theorem print (source : Reference) : Deaf (print source) m := by
  apply (resolve source).bind
  intro value _
  apply (traceEffect _ _).bind
  intro _ _
  exact (printLine _).bind fun _ _ => advance

theorem printLiteral (index : Word) : Deaf (printLiteral index) m := by
  apply Deaf.bind (.query fun _ => rfl)
  intro literal _
  exact (printLine literal).bind fun _ _ => advance

theorem load (image : Image) : Deaf (load image) m := by
  by_cases large : 1 < m.memory.size
  · have filled : Deaf (fill image) (started m) := by
      apply (change _).bind
      intro _ _
      apply (change _).bind
      intro _ _
      apply Deaf.bind (.modify fun _ => rfl)
      intro _ _
      exact traceLine _
    constructor
    · intro input
      rw [outcome_load image large, outcome_load (m := m.withInput input) image large]
      exact filled.outcome input
    · intro input
      rw [after_load image large, after_load (m := m.withInput input) image large]
      exact filled.after input
  · obtain ⟨memory, _, fault, failed⟩ := run_load_small image (Nat.not_lt.mp large)
    constructor
    · intro input
      rw [outcome_of_error (failed m rfl), outcome_of_error (failed (m.withInput input) rfl)]
    · intro input
      rw [after_of_error (failed m rfl), after_of_error (failed (m.withInput input) rfl)]
      rfl

theorem fetch : Deaf fetch m := by
  apply (register .ip).bind
  intro ip _
  apply (read ip).bind
  intro word _
  split
  · exact throw _
  · exact (traceLine _).bind fun _ _ => pure _

/-- All instructions are deaf but one. -/
theorem dispatch {i : Instruction} (other : ∀ destination, i ≠ .ref .read destination) :
    Deaf (dispatch i) m := by
  cases i with
  | twoRef op first second =>
      cases op with
      | mov => exact (move first second).bind fun _ _ => pure _
      | add => exact (add first second).bind fun _ _ => pure _
      | sub => exact (sub first second).bind fun _ _ => pure _
  | refImm op first immediate =>
      cases op with
      | jumpIfPositive => exact (jumpIfPositive first immediate).bind fun _ _ => pure _
      | loadLow => exact (loadHalf _ _ first immediate).bind fun _ _ => pure _
      | loadHigh => exact (loadHalf _ _ first immediate).bind fun _ _ => pure _
      | addImm => exact (addImm first immediate).bind fun _ _ => pure _
      | subImm => exact (subImm first immediate).bind fun _ _ => pure _
  | ref op first =>
      cases op with
      | push => exact (push first).bind fun _ _ => pure _
      | jump => exact (jump first).bind fun _ _ => pure _
      | print => exact (print first).bind fun _ _ => pure _
      | read => exact absurd rfl (other first)
      | callIndirect => exact (callIndirect first).bind fun _ _ => pure _
  | imm op immediate =>
      cases op with
      | call => exact (enter immediate).bind fun _ _ => pure _
      | beginFunction => exact (beginFunction immediate).bind fun _ _ => pure _
      | printLiteral => exact (printLiteral immediate).bind fun _ _ => pure _
  | bare op =>
      cases op with
      | pop => exact (addImm (.direct .sp) 1).bind fun _ _ => pure _
      | endFunction => exact endFunction.bind fun _ _ => pure _
      | halt => exact pure _

theorem congr {b : Action α} (same : ∀ input, a (m.withInput input) = b (m.withInput input))
    (deaf : Deaf b m) : Deaf a m := by
  have here : a m = b m := same m.input
  constructor
  · intro input
    rw [outcome_congr (same input), outcome_congr here, deaf.outcome]
  · intro input
    rw [after_congr (same input), after_congr here, deaf.after]

end Deaf

/-- What a read does once it has taken its line. -/
def place (address : Word) : Except Fault Word → Action Unit
  | .ok value => do
    write address value
    traceEffect (.ref .read) [("res_addr", address.toInt), ("value", value.toInt)]
    advance
  | .error fault => throw fault

section
variable {destination : Reference} {address : Word}
variable (outside : m.inBody = false) (fetched : fetch.outcome m = .ok (.ref .read destination))
  (resolved : m.resolve destination = .ok address)
include outside fetched resolved

end

end Action

namespace Machine

variable {m : Machine}

end Machine
end StoredProgram
