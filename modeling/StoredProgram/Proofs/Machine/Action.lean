import StoredProgram.Machine.Step
import StoredProgram.Proofs.Memory
import StoredProgram.Proofs.Trace

set_option autoImplicit false

namespace StoredProgram

/-- A register's number is the address of its cell. -/
theorem Register.toInt_address (r : Register) : (BitVec.ofNat 32 r.val : Word).toInt = r.val := by
  revert r
  decide

theorem Register.toNat_address (r : Register) : (BitVec.ofNat 32 r.val : Word).toNat = r.val := by
  revert r
  decide

theorem Register.inBounds_iff {memory : Memory} {r : Register} :
    memory.InBounds (BitVec.ofNat 32 r.val) ↔ r.val < memory.size := by
  rw [Memory.InBounds, toInt_address]
  omega

/-- The machine with a line of trace added, if it is traced. -/
def Machine.logged (m : Machine) (line : String) : Machine :=
  if m.trace then { m with output := m.output ++ line ++ "\n" } else m

theorem Machine.logged_of_off {m : Machine} (off : m.trace = false) (line : String) :
    m.logged line = m := by
  rw [logged, off, if_neg Bool.false_ne_true]

theorem Machine.logged_of_on {m : Machine} (on : m.trace = true) (line : String) :
    m.logged line = { m with output := m.output ++ line ++ "\n" } := by
  rw [logged, if_pos on]

namespace Machine

def setRegister (m : Machine) (r : Register) (value : Word) : Machine :=
  { m with memory := m.memory.put r.val value }

theorem inBounds_register {m : Machine} (lower : Register.count < m.memory.size) (r : Register) :
    m.memory.InBounds (BitVec.ofNat 32 r.val) :=
  Register.inBounds_iff.mpr (Nat.lt_trans r.isLt lower)

def advanced (m : Machine) : Machine := m.setRegister .ip (m.register .ip + 1)

/-- The machine with one word more on the stack, as far as the stack pointer goes. -/
def grown (m : Machine) : Machine := m.setRegister .sp (m.register .sp - 1)

end Machine

/-- Whether an instruction adds to the output of an untraced run. -/
def Instruction.prints : Instruction → Bool
  | ref .print _ | imm .printLiteral _ => true
  | _ => false

namespace Action

variable {α β : Type}

/-- What an action gives when it starts in `m`. -/
def outcome (a : Action α) (m : Machine) : Except Fault α :=
  match a m with
  | .ok x _ => .ok x
  | .error fault _ => .error fault

/-- The machine as an action leaves it when it starts in `m`, whether or not it ends in a fault. -/
def after (a : Action α) (m : Machine) : Machine :=
  match a m with
  | .ok _ m => m
  | .error _ m => m

theorem outcome_congr {a b : Action α} {m m' : Machine} (same : a m = b m') :
    a.outcome m = b.outcome m' := by
  simp only [outcome, same]

theorem after_congr {a b : Action α} {m m' : Machine} (same : a m = b m') :
    a.after m = b.after m' := by
  simp only [after, same]

theorem outcome_of_ok {a : Action α} {m m' : Machine} {x : α} (run : a m = .ok x m') :
    a.outcome m = .ok x := by
  simp only [outcome, run]

theorem after_of_ok {a : Action α} {m m' : Machine} {x : α} (run : a m = .ok x m') :
    a.after m = m' := by
  simp only [after, run]

theorem outcome_of_error {a : Action α} {m m' : Machine} {fault : Fault}
    (run : a m = .error fault m') : a.outcome m = .error fault := by
  simp only [outcome, run]

theorem after_of_error {a : Action α} {m m' : Machine} {fault : Fault}
    (run : a m = .error fault m') : a.after m = m' := by
  simp only [after, run]

theorem bind_of_ok {a : Action α} {m m' : Machine} {x : α} (f : α → Action β)
    (run : a m = .ok x m') : (a >>= f) m = f x m' := by
  simp only [bind, EStateM.bind, run]

theorem bind_of_error {a : Action α} {m m' : Machine} {fault : Fault} (f : α → Action β)
    (run : a m = .error fault m') : (a >>= f) m = .error fault m' := by
  simp only [bind, EStateM.bind, run]

theorem bind_congr_left {a b : Action α} {m : Machine} (f : α → Action β) (same : a m = b m) :
    (a >>= f) m = (b >>= f) m := by
  simp only [bind, EStateM.bind, same]

theorem outcome_bind_ok {a : Action α} {m : Machine} {x : α} (f : α → Action β)
    (success : a.outcome m = .ok x) : (a >>= f).outcome m = (f x).outcome (a.after m) := by
  simp only [outcome, after, bind, EStateM.bind] at success ⊢
  cases run : a m with
  | ok y m' =>
      rw [run] at success
      injection success with same
      rw [same]
  | error fault m' => simp only [run, reduceCtorEq] at success

theorem after_bind_ok {a : Action α} {m : Machine} {x : α} (f : α → Action β)
    (success : a.outcome m = .ok x) : (a >>= f).after m = (f x).after (a.after m) := by
  simp only [outcome, after, bind, EStateM.bind] at success ⊢
  cases run : a m with
  | ok y m' =>
      rw [run] at success
      injection success with same
      rw [same]
  | error fault m' => simp only [run, reduceCtorEq] at success

theorem outcome_bind_error {a : Action α} {m : Machine} {fault : Fault} (f : α → Action β)
    (failed : a.outcome m = .error fault) : (a >>= f).outcome m = .error fault := by
  simp only [outcome, bind, EStateM.bind] at failed ⊢
  cases run : a m with
  | ok y m' => simp only [run, reduceCtorEq] at failed
  | error other m' =>
      rw [run] at failed
      injection failed with same
      rw [same]

theorem after_bind_error {a : Action α} {m : Machine} {fault : Fault} (f : α → Action β)
    (failed : a.outcome m = .error fault) : (a >>= f).after m = a.after m := by
  simp only [outcome, after, bind, EStateM.bind] at failed ⊢
  cases run : a m with
  | ok y m' => simp only [run, reduceCtorEq] at failed
  | error other m' => rfl

@[simp] theorem outcome_modify (f : Machine → Machine) (m : Machine) :
    outcome (modify f) m = .ok () := rfl

theorem run_query {f : Machine → Except Fault α} {m : Machine} {x : α} (found : f m = .ok x) :
    query f m = .ok x m := by
  rw [query, found]

theorem run_query_error {f : Machine → Except Fault α} {m : Machine} {fault : Fault}
    (failed : f m = .error fault) : query f m = .error fault m := by
  rw [query, failed]

@[simp] theorem outcome_query (f : Machine → Except Fault α) (m : Machine) :
    outcome (query f) m = f m := by
  cases result : f m with
  | ok x => exact outcome_of_ok (run_query result)
  | error fault => exact outcome_of_error (run_query_error result)

@[simp] theorem after_query (f : Machine → Except Fault α) (m : Machine) :
    after (query f) m = m := by
  cases result : f m with
  | ok x => exact after_of_ok (run_query result)
  | error fault => exact after_of_error (run_query_error result)

theorem outcome_change_ok {f : Memory → Except Fault Memory} {m : Machine} {memory : Memory}
    (changed : f m.memory = .ok memory) : (change f).outcome m = .ok () := by
  simp only [outcome, change, changed]

theorem after_change_ok {f : Memory → Except Fault Memory} {m : Machine} {memory : Memory}
    (changed : f m.memory = .ok memory) : (change f).after m = { m with memory } := by
  simp only [after, change, changed]

theorem outcome_change_error {f : Memory → Except Fault Memory} {m : Machine} {fault : Fault}
    (failed : f m.memory = .error fault) : (change f).outcome m = .error fault := by
  simp only [outcome, change, failed]

theorem after_change_error {f : Memory → Except Fault Memory} {m : Machine} {fault : Fault}
    (failed : f m.memory = .error fault) : (change f).after m = m := by
  simp only [after, change, failed]

theorem run_traceLine (line : Unit → String) (m : Machine) :
    traceLine line m = .ok () (m.logged (line ())) := by
  rw [traceLine, Machine.logged]
  split <;> rfl

@[simp] theorem outcome_traceLine (line : Unit → String) (m : Machine) :
    (traceLine line).outcome m = .ok () := outcome_of_ok (run_traceLine line m)

@[simp] theorem after_traceLine (line : Unit → String) (m : Machine) :
    (traceLine line).after m = m.logged (line ()) := after_of_ok (run_traceLine line m)

theorem outcome_inputValue (m : Machine) : inputValue.outcome m =
    if m.input = [] then .error .endOfInput else Input.value (Input.line m.input) := by
  unfold inputValue outcome
  by_cases none : m.input = []
  · simp only [none, if_true]
  · simp only [none, if_false]
    exact outcome_query _ _

theorem after_inputValue (m : Machine) : inputValue.after m =
    if m.input = [] then m else { m with input := Input.afterLine m.input } := by
  unfold inputValue after
  by_cases none : m.input = []
  · simp only [none, if_true]
  · simp only [none, if_false]
    exact after_query _ _

section
variable {m : Machine} {r : Register} {address w value : Word} {fault : Fault}

theorem run_read (present : m.memory.read address = .ok w) : read address m = .ok w m :=
  run_query (f := fun m => m.memory.read address) present

theorem run_read_missing (missing : m.memory.read address = .error fault) :
    read address m = .error fault m :=
  run_query_error (f := fun m => m.memory.read address) missing

theorem run_resolve {source : Reference} (resolved : m.resolve source = .ok w) :
    resolve source m = .ok w m :=
  run_query (f := fun m => m.resolve source) resolved

theorem run_resolve_missing {source : Reference} (missing : m.resolve source = .error fault) :
    resolve source m = .error fault m :=
  run_query_error (f := fun m => m.resolve source) missing

theorem run_write (within : m.memory.InBounds address) :
    write address value m = .ok () { m with memory := m.memory.put address.toNat value } := by
  rw [write, change, Memory.write, if_pos within]

theorem run_write_outside (outside : ¬ m.memory.InBounds address) :
    write address value m = .error (.addressOutOfBounds address) m := by
  rw [write, change, Memory.write, if_neg outside]

/-- A register whose cell is in memory can be read and written. -/
theorem run_register (within : r.val < m.memory.size) : register r m = .ok (m.register r) m := by
  have few := r.isLt
  exact run_read (Memory.read_ofNat (by omega) within)

theorem run_setRegister (within : r.val < m.memory.size) (value : Word) :
    setRegister r value m = .ok () (m.setRegister r value) := by
  rw [setRegister, run_write (Register.inBounds_iff.mpr within), Register.toNat_address,
    Machine.setRegister]

theorem run_advance (positive : 0 < m.memory.size) : advance m = .ok () m.advanced :=
  (bind_of_ok _ (run_register (r := .ip) positive)).trans (run_setRegister (r := .ip) positive _)

theorem run_growStack (large : 1 < m.memory.size) :
    growStack m = .ok (m.register .sp - 1) m.grown :=
  (bind_of_ok _ (run_register (r := .sp) large)).trans
    (bind_of_ok _ (run_setRegister (r := .sp) large (m.register .sp - 1)))

theorem not_inBounds_register (outside : m.memory.size ≤ r.val) :
    ¬ m.memory.InBounds (BitVec.ofNat 32 r.val) := by
  rw [Register.inBounds_iff]
  omega

theorem run_register_outside (outside : m.memory.size ≤ r.val) :
    register r m = .error (.addressOutOfBounds (BitVec.ofNat 32 r.val)) m :=
  run_read_missing (Memory.read_outside (not_inBounds_register outside))

theorem run_setRegister_outside (outside : m.memory.size ≤ r.val) (value : Word) :
    setRegister r value m = .error (.addressOutOfBounds (BitVec.ofNat 32 r.val)) m :=
  run_write_outside (not_inBounds_register outside)

end

/-- Actions that neither print nor touch the function table or the body flag. Only where `traces` is
set may they add lines to a trace. -/
inductive Quiet (traces : Bool) : {α : Type} → Action α → Prop where
  | pure {α : Type} (x : α) : Quiet traces (pure x)
  | throw {α : Type} (fault : Fault) : Quiet traces (throw fault : Action α)
  | query {α : Type} (f : Machine → Except Fault α)
      (unseen : ∀ m trace output, f { m with trace, output } = f m) : Quiet traces (query f)
  | change (f : Memory → Except Fault Memory)
      (sized : ∀ memory memory', f memory = .ok memory' → memory'.size = memory.size) :
      Quiet traces (change f)
  | inputValue : Quiet traces inputValue
  | traceLine (line : Unit → String) (form : Trace.IsTraceLine (line ())) (allowed : traces = true) :
      Quiet traces (traceLine line)
  | bind {α β : Type} {a : Action α} {f : α → Action β} (first : Quiet traces a)
      (rest : ∀ x, Quiet traces (f x)) : Quiet traces (a >>= f)

namespace Quiet

variable {traces : Bool}

theorem resolve (r : Reference) : Quiet traces (resolve r) :=
  .query _ fun _ _ _ => rfl

theorem read (address : Word) : Quiet traces (read address) :=
  .query _ fun _ _ _ => rfl

theorem write (address value : Word) : Quiet traces (write address value) := by
  apply Quiet.change
  intro memory memory' written
  unfold Memory.write at written
  split at written
  · injection written with same
    rw [← same, Memory.size_put]
  · injection written

theorem register (r : Register) : Quiet traces (register r) := .read _

theorem setRegister (r : Register) (value : Word) : Quiet traces (setRegister r value) := .write _ value

theorem advance : Quiet traces advance :=
  .bind (.register _) fun _ => .setRegister _ _

theorem traceEffect (op : Opcode) {fields : List (String × Int)}
    (plain : ∀ name ∈ fields.map Prod.fst, Lines.IsLine name) : Quiet true (traceEffect op fields) :=
  .traceLine _ (Trace.isTraceLine_effect op plain) rfl

theorem growStack : Quiet traces growStack :=
  .bind (.register _) fun _ => .bind (.setRegister _ _) fun _ => .pure _

theorem move (destination source : Reference) : Quiet true (move destination source) := by
  apply Quiet.bind (.resolve destination)
  intro address
  apply Quiet.bind (.resolve source)
  intro value
  apply Quiet.bind (.traceEffect _ (by simp only [List.map]; decide))
  intro _
  exact .bind (.write address value) fun _ => .advance

theorem add (destination source : Reference) : Quiet true (add destination source) := by
  apply Quiet.bind (.resolve destination)
  intro address
  apply Quiet.bind (.resolve source)
  intro term
  apply Quiet.bind (.register destination.register)
  intro left
  apply Quiet.bind (.traceEffect _ (by simp only [List.map]; decide))
  intro _
  exact .bind (.write address (left + term)) fun _ => .advance

theorem sub (destination source : Reference) : Quiet true (sub destination source) := by
  apply Quiet.bind (.resolve destination)
  intro address
  apply Quiet.bind (.resolve source)
  intro term
  apply Quiet.bind (.register destination.register)
  intro left
  apply Quiet.bind (.write address (left - term))
  intro _
  exact .bind (.traceEffect _ (by simp only [List.map]; decide)) fun _ => .advance

theorem addTo (destination : Reference) (immediate : Word) :
    Quiet true (addTo destination immediate) := by
  apply Quiet.bind (.resolve destination)
  intro address
  apply Quiet.bind (.register destination.register)
  intro left
  apply Quiet.bind (.traceEffect _ (by simp only [List.map]; decide))
  intro _
  exact .write address (left + immediate)

theorem addImm (destination : Reference) (immediate : Word) :
    Quiet true (addImm destination immediate) :=
  .bind (.addTo destination immediate) fun _ => .advance

theorem subImm (destination : Reference) (immediate : Word) :
    Quiet true (subImm destination immediate) := by
  apply Quiet.bind (.resolve destination)
  intro address
  apply Quiet.bind (.register destination.register)
  intro left
  apply Quiet.bind (.traceEffect _ (by simp only [List.map]; decide))
  intro _
  exact .bind (.write address (left - immediate)) fun _ => .advance

theorem loadHalf (op : RefImmOp) (join : Word → BitVec 16 → Word) (destination : Reference)
    (immediate : Word) : Quiet true (loadHalf op join destination immediate) := by
  have rest : Quiet true (do
      let address ← Action.resolve destination
      let word := join (← Action.read address) (immediate.setWidth 16)
      Action.write address word
      Action.traceEffect (.refImm op)
        [("res_addr", address.toInt), ("value", immediate.toNat), ("result", word.toNat)]
      Action.advance) := by
    apply Quiet.bind (.resolve destination)
    intro address
    apply Quiet.bind (.read address)
    intro old
    apply Quiet.bind (.write address (join old (immediate.setWidth 16)))
    intro _
    exact .bind (.traceEffect _ (by simp only [List.map]; decide)) fun _ => .advance
  unfold Action.loadHalf
  dsimp only
  split
  · exact .bind (.throw _) fun _ => rest
  · exact rest

theorem push (source : Reference) : Quiet true (push source) := by
  apply Quiet.bind .growStack
  intro top
  apply Quiet.bind (.resolve source)
  intro value
  apply Quiet.bind (.write top value)
  intro _
  exact .bind (.traceEffect _ (by simp only [List.map]; decide)) fun _ => .advance

theorem pop : Quiet true pop := .addImm (.direct .sp) 1

theorem jump (target : Reference) : Quiet true (jump target) := by
  apply Quiet.bind (.resolve target)
  intro address
  apply Quiet.bind (.traceEffect _ (by simp only [List.map]; decide))
  intro _
  exact .setRegister .ip address

theorem jumpIfPositive (condition : Reference) (offset : Word) :
    Quiet true (jumpIfPositive condition offset) := by
  apply Quiet.bind (.resolve condition)
  intro value
  apply Quiet.bind (.traceEffect _ (by simp only [List.map]; decide))
  intro _
  split
  · exact .addTo (.direct .ip) offset
  · exact .advance

theorem enter (function : Word) : Quiet true (enter function) := by
  apply Quiet.bind (.query _ fun _ _ _ => rfl)
  intro entry
  apply Quiet.bind (.register .ip)
  intro back
  apply Quiet.bind .growStack
  intro top
  apply Quiet.bind (.write top (back + 1))
  intro _
  apply Quiet.bind (.traceEffect _ (by simp only [List.map]; decide))
  intro _
  exact .setRegister .ip entry

theorem callIndirect (source : Reference) : Quiet true (callIndirect source) :=
  .bind (.resolve source) fun function => .enter function

theorem readValue (destination : Reference) : Quiet true (readValue destination) := by
  apply Quiet.bind (.resolve destination)
  intro address
  apply Quiet.bind .inputValue
  intro value
  apply Quiet.bind (.write address value)
  intro _
  exact .bind (.traceEffect _ (by simp only [List.map]; decide)) fun _ => .advance

theorem dispatch {i : Instruction} (unmarked : i.marksBody = false) (silent : i.prints = false) :
    Quiet true (dispatch i) := by
  cases i with
  | twoRef op first second =>
      cases op
      · exact .bind (.move first second) fun _ => .pure _
      · exact .bind (.add first second) fun _ => .pure _
      · exact .bind (.sub first second) fun _ => .pure _
  | refImm op first immediate =>
      cases op
      · exact .bind (.jumpIfPositive first immediate) fun _ => .pure _
      · exact .bind (.loadHalf _ _ first immediate) fun _ => .pure _
      · exact .bind (.loadHalf _ _ first immediate) fun _ => .pure _
      · exact .bind (.addImm first immediate) fun _ => .pure _
      · exact .bind (.subImm first immediate) fun _ => .pure _
  | ref op first =>
      cases op with
      | push => exact .bind (.push first) fun _ => .pure _
      | jump => exact .bind (.jump first) fun _ => .pure _
      | read => exact .bind (.readValue first) fun _ => .pure _
      | callIndirect => exact .bind (.callIndirect first) fun _ => .pure _
      | print => cases silent
  | imm op immediate =>
      cases op with
      | call => exact .bind (.enter immediate) fun _ => .pure _
      | beginFunction => cases unmarked
      | printLiteral => cases silent
  | bare op =>
      cases op with
      | pop => exact .bind .pop fun _ => .pure _
      | endFunction => cases unmarked
      | halt => exact .pure _

theorem fetch : Quiet true fetch := by
  apply Quiet.bind (.register .ip)
  intro ip
  apply Quiet.bind (.read ip)
  intro word
  split
  · exact .throw _
  · exact .bind (.traceLine _ (Trace.isTraceLine_fetched ip _ word) rfl) fun _ => .pure _

end Quiet

/-- All instructions are quiet but four. -/
theorem dispatch_cases (i : Instruction) :
    Quiet true (dispatch i) ∨ (∃ source, i = .ref .print source) ∨
      (∃ index, i = .imm .printLiteral index) ∨ (∃ function, i = .imm .beginFunction function) ∨
      i = .bare .endFunction := by
  cases unmarked : i.marksBody with
  | false =>
      cases silent : i.prints with
      | false => exact Or.inl (Quiet.dispatch unmarked silent)
      | true =>
          cases i with
          | ref op source =>
              cases op with
              | print => exact Or.inr (Or.inl ⟨source, rfl⟩)
              | _ => cases silent
          | imm op index =>
              cases op with
              | printLiteral => exact Or.inr (Or.inr (Or.inl ⟨index, rfl⟩))
              | _ => cases silent
          | _ => cases silent
  | true =>
      cases i with
      | imm op function =>
          cases op with
          | beginFunction => exact Or.inr (Or.inr (Or.inr (Or.inl ⟨function, rfl⟩)))
          | _ => cases unmarked
      | bare op =>
          cases op with
          | endFunction => exact Or.inr (Or.inr (Or.inr (Or.inr rfl)))
          | _ => cases unmarked
      | _ => cases unmarked

end Action
end StoredProgram
