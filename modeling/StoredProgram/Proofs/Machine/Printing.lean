import StoredProgram.Proofs.Machine.Functions
import StoredProgram.Proofs.Memory.Literal

set_option autoImplicit false

namespace StoredProgram

namespace Machine

def printed (m : Machine) (line : String) : Machine :=
  { m with output := m.output ++ line ++ "\n" }.setRegister .ip (m.register .ip + 1)

theorem register_ip_printed {m : Machine} (line : String) (within : Register.ip.val < m.memory.size) :
    (m.printed line).register .ip = m.register .ip + 1 :=
  register_setRegister _ _ _ within

end Machine

namespace Action

variable {m : Machine} {index : Word}

theorem printLiteral_of_ok {literal : String} (positive : 0 < m.memory.size)
    (found : m.memory.literal (BitVec.ofNat 32 m.staticBase) index = .ok literal) :
    printLiteral index m = .ok () (m.printed literal) := by
  have read : query (fun m => m.memory.literal (BitVec.ofNat 32 m.staticBase) index) m =
      .ok literal m := by
    simp only [query, found]
  rw [printLiteral, bind_of_ok _ read]
  exact run_advance (m := { m with output := m.output ++ literal ++ "\n" }) positive

theorem printLiteral_of_error {fault : Fault}
    (missing : m.memory.literal (BitVec.ofNat 32 m.staticBase) index = .error fault) :
    printLiteral index m = .error fault m := by
  have stopped : query (fun m => m.memory.literal (BitVec.ofNat 32 m.staticBase) index) m =
      .error fault m := by
    simp only [query, missing]
  simp only [printLiteral, bind, EStateM.bind, stopped]

/-- From `m` on, the action prints what was read onto `before` and goes on to the next instruction, or it
stops at the fault of the reading, with `before` as it was. -/
structure Prints (a : Action Signal) (m before : Machine) (read : Except Fault String) : Prop where
  printed : ∀ text, read = .ok text → a.outcome m = .ok .next ∧ a.after m = before.printed text
  stopped : ∀ fault, read = .error fault → a.outcome m = .error fault ∧ a.after m = before

/-- The faults of an action that prints are those of the reading. -/
theorem Prints.read_eq_error {a : Action Signal} {before : Machine} {read : Except Fault String}
    {fault : Fault} (prints : Prints a m before read) (failed : a.outcome m = .error fault) :
    read = .error fault := by
  cases found : read with
  | ok text =>
      rw [(prints.printed text found).1] at failed
      cases failed
  | error other =>
      rw [(prints.stopped other found).1] at failed
      exact congrArg Except.error (Except.error.inj failed)

theorem dispatch_prints (positive : 0 < m.memory.size) (index : Word) :
    Prints (dispatch (.imm .printLiteral index)) m m
      (m.memory.literal (BitVec.ofNat 32 m.staticBase) index) where
  printed text found := by
    have run := printLiteral_of_ok positive found
    refine ⟨outcome_bind_ok _ (outcome_of_ok run), ?_⟩
    rw [dispatch, after_bind_ok _ (outcome_of_ok run), after_of_ok run]
    rfl
  stopped fault missing := by
    have run := printLiteral_of_error missing
    refine ⟨outcome_bind_error _ (outcome_of_error run), ?_⟩
    rw [dispatch, after_bind_error _ (outcome_of_error run), after_of_error run]

section
variable (outside : m.inBody = false) (fetched : fetch.outcome m = .ok (.imm .printLiteral index))
include outside fetched

/-- A fetch adds at most a line to the output, and so a step prints what its instruction prints. -/
theorem step_prints :
    Prints step m (fetch.after m) (m.memory.literal (BitVec.ofNat 32 m.staticBase) index) := by
  obtain ⟨gives, leaves⟩ := step_of_dispatched fetched (Or.inl outside)
  have base : (fetch.after m).staticBase = m.staticBase :=
    congrArg Machine.Control.staticBase (Quiet.fetch.steady m)
  have prints := dispatch_prints (positive_after_fetch fetched) index
  rw [memory_fetch, base] at prints
  constructor
  · rw [gives, leaves]
    exact prints.printed
  · rw [gives, leaves]
    exact prints.stopped

variable (untraced : m.trace = false)
include untraced

theorem step_of_literal {literal : String}
    (found : m.memory.literal (BitVec.ofNat 32 m.staticBase) index = .ok literal) :
    step.outcome m = .ok .next ∧ step.after m = m.printed literal := by
  have prints := step_prints outside fetched
  rw [after_fetch_of_off untraced] at prints
  exact prints.printed literal found

theorem step_of_no_literal {fault : Fault}
    (missing : m.memory.literal (BitVec.ofNat 32 m.staticBase) index = .error fault) :
    step.outcome m = .error fault ∧ step.after m = m := by
  have prints := step_prints outside fetched
  rw [after_fetch_of_off untraced] at prints
  exact prints.stopped fault missing

end
end Action

namespace Machine

variable {config : Config} {m : Machine} {image : Image}

/-- Steps leave the size of memory and the place of the literal pool as a load set them. -/
theorem place_after_load (success : (Action.load image).outcome m = .ok ()) (n : Nat) :
    (((Action.load image).after m).afterSteps n).memory.size = m.memory.size ∧
      (((Action.load image).after m).afterSteps n).staticBase =
        Register.count + image.code.length := by
  induction n with
  | zero =>
      rw [afterSteps, (Action.load_of_fits (Action.load_ok_iff.mp success)).2]
      have control := control_logged (Action.loaded image m) (Trace.loaded image.code.length)
      refine ⟨(congrArg Control.size control).trans (Action.size_loadedMemory _ _), ?_⟩
      exact congrArg Control.staticBase control
  | succ n ih =>
      have control := control_afterSteps ((Action.load image).after m) n
      have kept (c : Control) (mark : Option Mark) :
          (c.record mark).size = c.size ∧ (c.record mark).staticBase = c.staticBase := by
        rcases mark with _ | _ | _ <;> exact ⟨rfl, rfl⟩
      obtain ⟨size, base⟩ := kept (((Action.load image).after m).afterSteps n).control
        (((Action.load image).after m).markAt n)
      exact ⟨((congrArg Control.size control).trans size).trans ih.1,
        ((congrArg Control.staticBase control).trans base).trans ih.2⟩

/-- After an image was loaded, and as long as its static data is in place, printing a literal agrees with a
look-up in the static data. A literal that is found is printed with a newline, and the next instruction
follows. A word that is no character stops both. An index that is not one of the offsets, and an offset
that points back among the offsets, are out of range for both. -/
theorem printing_agrees_with_lookup (reachable : m.Reachable config)
    (success : (Action.load image).outcome m = .ok ()) {n : Nat} {now : Machine}
    (later : now = ((Action.load image).after m).afterSteps n)
    (held : ∀ k word, image.static[k]? = some word → now.memory.cell (now.staticBase + k) = word)
    (outside : now.inBody = false) (untraced : now.trace = false) {index : Word}
    (fetched : Action.fetch.outcome now = .ok (.imm .printLiteral index)) :
    (∀ literal, LiteralPool.lookup image.static index = .ok literal →
      Action.step.outcome now = .ok .next ∧
        (Action.step.after now).output = now.output ++ literal ++ "\n" ∧
        (Action.step.after now).register .ip = now.register .ip + 1 ∧
        Action.step.after now = now.printed literal) ∧
    (∀ word, LiteralPool.lookup image.static index = .error (.invalidCodePoint word) →
      Action.step.outcome now = .error (.literal (.invalidCodePoint word)) ∧
        Action.step.after now = now) ∧
    ∀ count, image.static[0]? = some count →
      (count.toNat ≤ index.toNat ∨
        ∃ offset, image.static[index.toNat]? = some offset ∧ offset.toNat < count.toNat) →
      Action.step.outcome now = .error (.literal (.outOfRange index)) ∧
        Action.step.after now = now := by
  have bounded := reachable.bounded
  have fits := Action.load_ok_iff.mp success
  obtain ⟨size, base⟩ : now.memory.size = m.memory.size ∧
      now.staticBase = Register.count + image.code.length := by
    rw [later]
    exact place_after_load success n
  have few : now.memory.size < 2147483648 := by
    rw [size]
    exact bounded.upper
  have holds : now.memory.Holds now.staticBase image.static := by
    refine ⟨?_, held⟩
    rwa [size, base]
  refine ⟨?_, ?_, ?_⟩
  · intro literal found
    have inRange : LiteralPool.lookup image.static index ≠ .error (.outOfRange index) := by
      simp [found]
    have read := Memory.literal_of_lookup holds few inRange
    rw [found] at read
    obtain ⟨gives, leaves⟩ := Action.step_of_literal outside fetched untraced read
    have within : Register.ip.val < now.memory.size := by
      rw [size]
      exact Nat.lt_trans (by decide) bounded.lower
    refine ⟨gives, ?_, ?_, leaves⟩
    · rw [leaves]
      rfl
    · rw [leaves]
      exact register_ip_printed literal within
  · intro word invalid
    have inRange : LiteralPool.lookup image.static index ≠ .error (.outOfRange index) := by
      simp [invalid]
    have read := Memory.literal_of_lookup holds few inRange
    rw [invalid] at read
    exact Action.step_of_no_literal outside fetched untraced read
  · intro count first far
    have read := Memory.literal_outOfRange holds few first far
    exact Action.step_of_no_literal outside fetched untraced read

/-- A pool with three offsets: behind the first one are two characters, behind the second one is half of a
surrogate pair, and the third one points back among the offsets. -/
theorem printing_agrees_with_lookup_in_odd_pool :
    let static : List Word := [3, 6, 1, 2, 0xE9, 0x1F600, 1, 0xD800]
    let fresh : Machine := { memory := .zero 40, trace := false, input := [] }
    let start (index : Word) : Machine :=
      (Action.load ⟨[0x68000000, 0x68000000 + index], static⟩).after fresh
    (LiteralPool.lookup static 0 = .ok "é😀" ∧
      LiteralPool.lookup static 1 = .error (.invalidCodePoint 0xD800) ∧
      LiteralPool.lookup static 2 = .error (.outOfRange 2)) ∧
    (Action.fetch.outcome ((start 1).afterSteps 0) = .ok (.imm .printLiteral 0) ∧
      Action.step.outcome (start 1) = .ok .next ∧ (Action.step.after (start 1)).output = "é😀\n" ∧
      (Action.step.after (start 1)).register .ip = 17) ∧
    (Action.fetch.outcome ((start 1).afterSteps 1) = .ok (.imm .printLiteral 1) ∧
      Action.step.outcome ((start 1).afterSteps 1) = .error (.literal (.invalidCodePoint 0xD800)) ∧
      (start 1).afterSteps 2 = (start 1).afterSteps 1) ∧
    Action.fetch.outcome ((start 2).afterSteps 1) = .ok (.imm .printLiteral 2) ∧
      Action.step.outcome ((start 2).afterSteps 1) = .error (.literal (.outOfRange 2)) ∧
      (start 2).afterSteps 2 = (start 2).afterSteps 1 := by
  intro static fresh start
  have reachable : fresh.Reachable ⟨40, false⟩ := .created rfl
  have success (index : Word) :
      (Action.load ⟨[0x68000000, 0x68000000 + index], static⟩).outcome fresh = .ok () := by
    apply Action.load_ok_iff.mpr
    change 16 + 2 + 8 ≤ 40
    decide
  have listed {now : Machine}
      (each : ∀ k : Fin 8, now.memory.cell (now.staticBase + k.val) = static[k]) :
      ∀ k word, static[k]? = some word → now.memory.cell (now.staticBase + k) = word := by
    intro k word found
    obtain ⟨within, rfl⟩ := List.getElem?_eq_some_iff.mp found
    exact each ⟨k, within⟩
  have found : LiteralPool.lookup static 0 = .ok "é😀" := eq_ok_of_toOption (by decide +kernel)
  have invalid : LiteralPool.lookup static 1 = .error (.invalidCodePoint 0xD800) :=
    eq_error_of_match (by decide +kernel)
  have beyond : LiteralPool.lookup static 2 = .error (.outOfRange 2) :=
    eq_error_of_match (by decide +kernel)
  have first : Action.fetch.outcome ((start 1).afterSteps 0) = .ok (.imm .printLiteral 0) :=
    eq_ok_of_toOption (by decide +kernel)
  have second : Action.fetch.outcome ((start 1).afterSteps 1) = .ok (.imm .printLiteral 1) :=
    eq_ok_of_toOption (by decide +kernel)
  have other : Action.fetch.outcome ((start 2).afterSteps 1) = .ok (.imm .printLiteral 2) :=
    eq_ok_of_toOption (by decide +kernel)
  obtain ⟨prints, _⟩ := printing_agrees_with_lookup reachable (success 1) rfl
    (listed (by decide +kernel)) (by decide +kernel) (by decide +kernel) first
  obtain ⟨_, stops, _⟩ := printing_agrees_with_lookup reachable (success 1) rfl
    (listed (by decide +kernel)) (by decide +kernel) (by decide +kernel) second
  obtain ⟨_, _, misses⟩ := printing_agrees_with_lookup reachable (success 2) rfl
    (listed (by decide +kernel)) (by decide +kernel) (by decide +kernel) other
  obtain ⟨gives, shows, goes, _⟩ := prints "é😀" found
  have start : ((start 1).afterSteps 0).register .ip = 16 := by decide +kernel
  rw [start] at goes
  obtain ⟨stopped, stays⟩ := stops 0xD800 invalid
  obtain ⟨missed, remains⟩ := misses 3 rfl (Or.inr ⟨1, rfl, by decide⟩)
  exact ⟨⟨found, invalid, beyond⟩, ⟨first, gives, shows, goes⟩, ⟨second, stopped, stays⟩, other, missed,
    remains⟩

end Machine
end StoredProgram
