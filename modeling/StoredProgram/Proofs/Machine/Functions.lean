import StoredProgram.Proofs.Machine.Call
import StoredProgram.Proofs.Machine.Reachable
import StoredProgram.Proofs.Machine.Run

set_option autoImplicit false

namespace StoredProgram

namespace Machine

variable {config : Config} {m : Machine}

/-- A machine that was just made or loaded, whether or not the load succeeded. -/
inductive Starting (config : Config) : Machine → Prop where
  | created {m : Machine} {input : List UInt8} (success : create config input = .ok m) :
      Starting config m
  | loaded {m : Machine} (earlier : Reachable config m) (image : Image) :
      Starting config ((Action.load image).after m)

/-- The mark that step `k` of the run from `m` carries out. -/
def markAt (m : Machine) (k : Nat) : Option Mark := (m.afterSteps k).mark?

/-- Step `k` of the run from `m` carries out the opening mark of a function. -/
def Opens (m : Machine) (function : Word) (k : Nat) : Prop :=
  ∃ address, m.markAt k = some (.opened function address)

def Marks (m : Machine) (k : Nat) : Prop := m.markAt k ≠ none

theorem Starting.reachable (start : m.Starting config) : m.Reachable config := by
  cases start with
  | created success => exact .created success
  | loaded earlier image => exact .loaded earlier image

theorem Reachable.afterSteps (reachable : m.Reachable config) (n : Nat) :
    (m.afterSteps n).Reachable config := by
  induction n with
  | zero => exact reachable
  | succ n ih => exact ih.stepped

theorem Starting.control (start : m.Starting config) :
    m.functions = .empty ∧ m.inBody = false := by
  cases start with
  | created success =>
      rw [(eq_of_create success).2.2]
      exact ⟨rfl, rfl⟩
  | @loaded earlier _ image =>
      obtain ⟨_, _, loaded, _⟩ := control_load image earlier
      exact ⟨congrArg Control.functions loaded, congrArg Control.inBody loaded⟩

theorem control_afterSteps (m : Machine) (n : Nat) :
    (m.afterSteps (n + 1)).control = (m.afterSteps n).control.record (m.markAt n) :=
  control_step _

theorem Control.find?_record_opened (c : Control) (function address : Word) :
    (c.record (some (.opened function address))).functions.find? function = some (address + 1) :=
  FunctionTable.find?_define_same _ _ _

theorem Control.find?_record_other (c : Control) {mark : Option Mark} {function : Word}
    (other : ∀ address, mark ≠ some (.opened function address)) :
    (c.record mark).functions.find? function = c.functions.find? function := by
  cases mark with
  | none => rfl
  | some mark =>
      cases mark with
      | closed => rfl
      | opened defined address =>
          apply FunctionTable.find?_define_other
          intro same
          rw [same] at other
          exact other address rfl

/-- The table follows the marks: every step that opens a body of the function replaces its entry. -/
theorem find?_afterSteps (empty : m.functions = .empty) (n : Nat) (function entry : Word) :
    (m.afterSteps n).functions.find? function = some entry ↔
      ∃ k address, IsLatest (m.Opens function) n k ∧
        m.markAt k = some (.opened function address) ∧ entry = address + 1 := by
  -- The last step opens the function, and then it is the latest to do so, or it leaves the entry alone.
  induction n with
  | zero =>
      rw [afterSteps, empty, FunctionTable.find?_empty]
      constructor
      · intro found
        cases found
      · rintro ⟨k, _, ⟨before, _⟩, _⟩
        omega
  | succ n ih =>
      have table : (m.afterSteps (n + 1)).functions =
          ((m.afterSteps n).control.record (m.markAt n)).functions :=
        congrArg Control.functions (control_afterSteps m n)
      by_cases happens : m.Opens function n
      · simp only [IsLatest.succ_iff happens]
        obtain ⟨address, met⟩ := happens
        rw [table, met, Control.find?_record_opened]
        constructor
        · intro found
          injection found with found
          exact ⟨n, address, rfl, met, found.symm⟩
        · rintro ⟨k, other, last, opens, found⟩
          rw [last, met] at opens
          injection opens with opens
          injection opens with _ opens
          rw [found, opens]
      · simp only [IsLatest.succ_iff_of_not happens]
        have other : ∀ address, m.markAt n ≠ some (.opened function address) :=
          fun address opens => happens ⟨address, opens⟩
        rw [table, Control.find?_record_other _ other]
        exact ih

theorem find?_afterSteps_eq_none (empty : m.functions = .empty) (n : Nat) (function : Word) :
    (m.afterSteps n).functions.find? function = none ↔ ∀ k < n, ¬ m.Opens function k := by
  constructor
  · intro absent k before happens
    obtain ⟨j, _, latest⟩ := IsLatest.exists_from before happens
    obtain ⟨address, met⟩ := latest.2.1
    have found := (find?_afterSteps empty n function _).mpr ⟨j, address, latest, met, rfl⟩
    rw [absent] at found
    cases found
  · intro never
    cases found : (m.afterSteps n).functions.find? function with
    | none => rfl
    | some entry =>
        obtain ⟨k, _, ⟨before, happens, _⟩, _⟩ := (find?_afterSteps empty n function entry).mp found
        exact absurd happens (never k before)

/-- The body flag is that of the latest mark. -/
theorem inBody_afterSteps (outside : m.inBody = false) (n : Nat) :
    (m.afterSteps n).inBody = true ↔
      ∃ k function address, IsLatest m.Marks n k ∧
        m.markAt k = some (.opened function address) := by
  -- The last step carries out a mark, which decides, or it leaves the flag alone.
  induction n with
  | zero =>
      rw [afterSteps, outside]
      constructor
      · intro inside
        cases inside
      · rintro ⟨k, _, _, ⟨before, _⟩, _⟩
        omega
  | succ n ih =>
      have flag : (m.afterSteps (n + 1)).inBody =
          ((m.afterSteps n).control.record (m.markAt n)).inBody :=
        congrArg Control.inBody (control_afterSteps m n)
      rw [flag]
      cases met : m.markAt n with
      | none =>
          have missing : ¬ m.Marks n := fun happens => happens met
          simp only [IsLatest.succ_iff_of_not missing]
          exact ih
      | some mark =>
          have happens : m.Marks n := by
            rw [Marks, met]
            exact Option.some_ne_none mark
          simp only [IsLatest.succ_iff happens]
          cases mark with
          | closed =>
              constructor
              · intro inside
                cases inside
              · rintro ⟨k, function, address, last, opens⟩
                rw [last, met] at opens
                injection opens with opens
                cases opens
          | opened function address =>
              constructor
              · intro _
                exact ⟨n, function, address, rfl, met⟩
              · intro _
                rfl

/-- A body is opened outside of bodies only, so the mark before it is a closing one. -/
theorem exists_closed_between (outside : m.inBody = false) {i j : Nat} {f g p q : Word}
    (before : i < j) (first : m.markAt i = some (.opened f p))
    (second : m.markAt j = some (.opened g q)) :
    ∃ k, i < k ∧ k < j ∧ m.markAt k = some .closed := by
  -- The latest mark before step `j` is the one that is looked for: were it an opening one, step `j`
  -- would stand in a body.
  have free : (m.afterSteps j).inBody = false := (bounds_of_opened second).2.2.1
  have happens : m.Marks i := by
    rw [Marks, first]
    exact Option.some_ne_none _
  obtain ⟨k, later, latest⟩ := IsLatest.exists_from before happens
  have unopened : ∀ function address, m.markAt k ≠ some (.opened function address) := by
    intro function address opens
    have inside := (inBody_afterSteps outside j).mpr ⟨k, function, address, latest, opens⟩
    rw [free] at inside
    cases inside
  have different : i ≠ k := by
    intro same
    rw [← same] at unopened
    exact unopened f p first
  refine ⟨k, by omega, latest.1, ?_⟩
  cases met : m.markAt k with
  | none => exact absurd met latest.2.1
  | some mark =>
      cases mark with
      | closed => rfl
      | opened function address => exact absurd met (unopened function address)

/-- The entry that a mark gives is the integer after its address: it does not wrap around. -/
theorem entry_toInt (upper : m.memory.size < 2147483648) {function address : Word}
    (met : m.mark? = some (.opened function address)) :
    (address + 1).toInt = address.toInt + 1 := by
  obtain ⟨signed, within, next⟩ := toNat_of_opened met
  rw [Word.toInt_of_small (w := address + 1) (by omega), signed, next]
  rfl

/-- From a machine that was just made or loaded, `n` steps lead to a function table and a body flag that
say which marks were carried out on the way; bodies are never opened in bodies; and a call fails as
unknown exactly if its function was not opened on the way, or else can only go behind the latest mark
that opened it. -/
theorem functions_of_run (start : m.Starting config) (n : Nat) :
    let now := m.afterSteps n
    (∀ function entry, now.functions.find? function = some entry ↔
      ∃ k address, IsLatest (m.Opens function) n k ∧
        m.markAt k = some (.opened function address) ∧ entry.toInt = address.toInt + 1) ∧
    (now.inBody = true ↔ ∃ k function address, IsLatest m.Marks n k ∧
      m.markAt k = some (.opened function address)) ∧
    (∀ i j f g p q, i < j → m.markAt i = some (.opened f p) → m.markAt j = some (.opened g q) →
      ∃ k, i < k ∧ k < j ∧ m.markAt k = some .closed) ∧
    (∀ function, now.Calls function →
      (Action.step.outcome now = .error (.unknownFunction function) ↔
        ∀ k < n, ¬ m.Opens function k) ∧
      (function.toInt < 0 ∨ 134217728 ≤ function.toInt →
        Action.step.outcome now = .error (.unknownFunction function)) ∧
      ∀ signal, Action.step.outcome now = .ok signal →
        ∃ k address, IsLatest (m.Opens function) n k ∧
          m.markAt k = some (.opened function address) ∧
          ((Action.step.after now).register .ip).toInt = address.toInt + 1) := by
  intro now
  obtain ⟨empty, outside⟩ := start.control
  have bounded (k : Nat) := (start.reachable.afterSteps k).bounded
  -- The table in terms of integers.
  have table : ∀ function entry, now.functions.find? function = some entry ↔
      ∃ k address, IsLatest (m.Opens function) n k ∧
        m.markAt k = some (.opened function address) ∧ entry.toInt = address.toInt + 1 := by
    intro function entry
    rw [find?_afterSteps empty n]
    constructor
    · rintro ⟨k, address, latest, met, same⟩
      rw [same]
      exact ⟨k, address, latest, met, entry_toInt (bounded k).upper met⟩
    · rintro ⟨k, address, latest, met, same⟩
      rw [← entry_toInt (bounded k).upper met] at same
      exact ⟨k, address, latest, met, BitVec.eq_of_toInt_eq same⟩
  refine ⟨table, inBody_afterSteps outside n, ?_, ?_⟩
  · intro i j f g p q before first second
    exact exists_closed_between outside before first second
  · intro function calls
    have positive : 0 < now.memory.size := Nat.lt_trans (by decide) (bounded n).lower
    have fails : Action.step.outcome now = .error (.unknownFunction function) ↔
        ∀ k < n, ¬ m.Opens function k :=
      (Action.unknown_of_call_iff positive calls).trans (find?_afterSteps_eq_none empty n function)
    refine ⟨fails, ?_, ?_⟩
    · intro far
      apply fails.mpr
      rintro k _ ⟨address, met⟩
      obtain ⟨_, _, _, _, narrow⟩ := bounds_of_opened met
      have signed := Word.toInt_of_small (w := function) (by omega)
      omega
    · intro signal success
      obtain ⟨entry, found, there⟩ := Action.entry_of_call positive calls success
      obtain ⟨k, address, latest, met, same⟩ := (table function entry).mp found
      rw [there]
      exact ⟨k, address, latest, met, same⟩

/-- A function is opened and closed, opened again at another address, and called. -/
theorem functions_of_run_of_redefinition :
    let program : List Instruction :=
      [.imm .beginFunction 3, .bare .endFunction, .imm .beginFunction 3, .bare .endFunction,
        .imm .call 3]
    let fresh : Machine := { memory := .zero 40, trace := false, input := [] }
    let m := (Action.load ⟨program.map Instruction.encode, []⟩).after fresh
    let now := m.afterSteps 4
    m.Starting ⟨40, false⟩ ∧ now.Calls 3 ∧ Action.step.outcome now = .ok .next ∧
      ((Action.step.after now).register .ip).toInt = 19 ∧
      ∃ k address, IsLatest (m.Opens 3) 4 k ∧ m.markAt k = some (.opened 3 address) ∧
        ((Action.step.after now).register .ip).toInt = address.toInt + 1 := by
  intro program fresh m now
  have start : m.Starting ⟨40, false⟩ := .loaded (.created rfl) _
  have calls : now.Calls 3 :=
    ⟨by decide +kernel, Or.inl (eq_ok_of_toOption (by decide +kernel))⟩
  have success : Action.step.outcome now = .ok .next := eq_ok_of_toOption (by decide +kernel)
  obtain ⟨_, _, _, entered⟩ := functions_of_run start 4
  exact ⟨start, calls, success, by decide +kernel, (entered 3 calls).2.2 .next success⟩

end Machine
end StoredProgram
