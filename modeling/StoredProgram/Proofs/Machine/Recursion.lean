import StoredProgram.Main.Table
import StoredProgram.Proofs.Assembly.Program
import StoredProgram.Proofs.Machine.Bodies
import StoredProgram.Proofs.Machine.Calling

set_option autoImplicit false

namespace StoredProgram.Recursion

def r1 : Register := (3#4).toFin

def r12 : Register := (14#4).toFin

def r13 : Register := (15#4).toFin

/-- The body of the function. Its argument is `r1`, and `r12` is positive throughout. -/
def body : List Instruction :=
  [.twoRef .mov (.direct r13) (.twice .sp), .bare .pop, .ref .print (.once r1),
    .refImm .subImm (.direct r1) 1, .ref .push (.once r13), .refImm .jumpIfPositive (.once r1) 2,
    .refImm .jumpIfPositive (.once r12) 2, .imm .call 1, .twoRef .mov (.direct r13) (.twice .sp),
    .bare .pop, .ref .jump (.once r13)]

/-- The program that calls the function with `n`. -/
def code (n : Nat) : List Instruction :=
  .imm .beginFunction 1 :: body ++ [.bare .endFunction, .refImm .loadLow (.direct r12) 1,
    .refImm .loadLow (.direct r1) (BitVec.ofNat 32 n), .imm .call 1, .imm .printLiteral 0, .bare .halt]

def source (n : Nat) : List String :=
  ["FBEGIN 1", "MOV r13 **sp", "POP", "PRINT *r1", "SUBI r1 1", "PUSH *r13", "JUMP_IF_GZ *r1 2",
    "JUMP_IF_GZ *r12 2", "CALL 1", "MOV r13 **sp", "POP", "JUMP *r13", "FEND", "LOADL r12 1",
    "LOADL r1 " ++ Nat.repr n, "CALL 1", "PRINTSTR done", "TERM"]

def statements (n : Nat) : List Statement :=
  ((code n).take 16).map .instruction ++ [.printLiteral "done", .instruction (.bare .halt)]

def pool : List Word := [1, 4, 100, 111, 110, 101]

def image (n : Nat) : Image := ⟨(code n).map Instruction.encode, pool⟩

variable {n size k l : Nat} {m : Machine} {i : Instruction}

theorem fits_code (narrow : n ≤ 65535) : ∀ i ∈ code n, i.Fits := by
  simp [code, body, Instruction.Fits]
  omega

theorem wellFormed_statements (narrow : n ≤ 65535) : ∀ s ∈ statements n, s.WellFormed := by
  have ordinary : ∀ i ∈ (code n).take 16, i.opcode ≠ .imm .printLiteral := by
    simp [code, body, Instruction.opcode]
  intro s member
  rcases List.mem_append.mp member with listed | listed
  · obtain ⟨i, among, rfl⟩ := List.mem_map.mp listed
    exact ⟨fits_code narrow i (List.mem_of_mem_take among), ordinary i among⟩
  · simp only [List.mem_cons, List.not_mem_nil, or_false] at listed
    rcases listed with rfl | rfl
    · exact ⟨by decide, by decide⟩
    · exact ⟨trivial, by decide⟩

theorem map_text_statements (narrow : n ≤ 65535) : (statements n).map Statement.text = source n := by
  have argument : Statement.text (.instruction (.refImm .loadLow (.direct r1) (BitVec.ofNat 32 n))) =
      "LOADL r1 " ++ Nat.repr n := by
    show "LOADL" ++ " " ++ "r1" ++ " " ++ Nat.repr (BitVec.ofNat 32 n).toNat = _
    rw [Word.toNat_ofNat_of_small (by omega)]
    rfl
  rw [source, ← argument]
  rfl

theorem assemble_source (narrow : n ≤ 65535) : assemble (Lines.join (source n)) = .ok (image n) := by
  have one : (statements n).flatMap Statement.literals = ["done"] := rfl
  have same : Image.ofStatements (statements n) = image n := rfl
  rw [← map_text_statements narrow, ← same]
  exact assemble_texts (wellFormed_statements narrow) (by rw [one]; decide)

/-- How far the program has got. -/
structure State where
  ip : Nat
  /-- The number of words on the stack. -/
  height : Nat
  /-- What is left to count down, in `r1`. -/
  argument : Nat
  /-- The contents of `r12`. -/
  flag : Nat
  /-- The address to return to, while it is in `r13`. -/
  link : Nat
  /-- The number of words that the stack has taken so far. -/
  used : Nat
  /-- What has been printed. -/
  lines : List String

/-- The address to return to that stands `j` words below the top of memory. The first call is that of the
program, and the others are those of the function. -/
def back : Nat → Nat
  | 0 => 32
  | _ + 1 => 25

/-- A machine has got as far as `s`. What the stack has not taken is as it was loaded, and what it has taken
are addresses to return to, whether or not they are still in use. -/
structure Shows (n size : Nat) (s : State) (m : Machine) : Prop where
  narrow : n ≤ 65535
  room : 40 + n ≤ size
  small : size < 2147483648
  few : s.used ≤ n
  sized : m.memory.size = size
  ip : m.register .ip = BitVec.ofNat 32 s.ip
  sp : m.register .sp = BitVec.ofNat 32 (size - s.height)
  argument : m.register r1 = BitVec.ofNat 32 s.argument
  flag : m.register r12 = BitVec.ofNat 32 s.flag
  link : m.register r13 = BitVec.ofNat 32 s.link
  stack : ∀ j < s.used, m.memory.cell (size - 1 - j) = BitVec.ofNat 32 (back j)
  kept : ∀ k, 16 ≤ k → k < size - s.used →
    m.memory.cell k = (Action.loadedMemory (image n) size).cell k
  entry : m.functions.find? 1 = some 17
  outside : m.inBody = false
  untraced : m.trace = false
  base : m.staticBase = 34
  output : m.output = Lines.join s.lines

variable {s s' s'' : State}

theorem fits_image (room : 40 + n ≤ size) :
    Register.count + (image n).code.length + (image n).static.length ≤ size := by
  show 16 + 18 + 6 ≤ size
  omega

namespace Shows

theorem lower (shows : Shows n size s m) : Register.count < m.memory.size := by
  have room := shows.room
  have sized := shows.sized
  show 16 < m.memory.size
  omega

/-- The program and its pool stay in place. -/
theorem holds (shows : Shows n size s m) :
    m.memory.Holds 16 ((code n).map Instruction.encode ++ pool) := by
  have room := shows.room
  have few := shows.few
  have loaded : (Action.loadedMemory (image n) size).Holds 16 ((code n).map Instruction.encode ++ pool) :=
    Action.holds_loadedMemory (fits_image room)
  apply loaded.congr (shows.sized.trans (Action.size_loadedMemory _ _).symm)
  intro k after before
  have length : ((code n).map Instruction.encode ++ pool).length = 24 := rfl
  exact shows.kept k after (by omega)

theorem fetched (shows : Shows n size s m) (there : s.ip = 16 + k) (listed : (code n)[k]? = some i) :
    Action.fetch.outcome m = .ok i := by
  have small := shows.small
  have sized := shows.sized
  have front : m.memory.Holds 16 ((code n).map Instruction.encode) := by
    have part := shows.holds.part 0 18 (Nat.le_add_right 18 6)
    exact part
  exact Machine.fetch_of_holds (by omega) front (there ▸ shows.ip) listed
    (fits_code shows.narrow i (List.mem_of_getElem? listed))

/-- Only the registers and the lines printed are different. -/
theorem rewritten (shows : Shows n size s m) {memory : Memory} (size_eq : memory.size = m.memory.size)
    (above : ∀ k, 16 ≤ k → memory.cell k = m.memory.cell k) (used : s'.used = s.used)
    (lines : s'.lines = s.lines) (ip : memory.cell 0 = BitVec.ofNat 32 s'.ip)
    (sp : memory.cell 1 = BitVec.ofNat 32 (size - s'.height))
    (argument : memory.cell 3 = BitVec.ofNat 32 s'.argument)
    (flag : memory.cell 14 = BitVec.ofNat 32 s'.flag) (link : memory.cell 15 = BitVec.ofNat 32 s'.link) :
    Shows n size s' { m with memory } := by
  have room := shows.room
  have few := shows.few
  refine { shows with
    few := by omega, sized := size_eq.trans shows.sized, ip, sp, argument, flag, link, stack := ?_,
    kept := ?_, output := by rw [lines]; exact shows.output }
  · intro j before
    rw [used] at before
    exact (above _ (by omega)).trans (shows.stack j before)
  · intro k after before
    rw [used] at before
    exact (above k after).trans (shows.kept k after before)

/-- An instruction that sets a register, other than the instruction pointer. -/
theorem goes_set (shows : Shows n size s m) (fetched : Action.fetch.outcome m = .ok i)
    (next : i.signal = .next) {r : Register} (apart : r ≠ .ip) {value : Word}
    (done : m.perform i = .ok (m.setRegister r value).advanced)
    (same : s'.ip = s.ip + 1 ∧ s'.used = s.used ∧ s'.lines = s.lines)
    (sp : BitVec.ofNat 32 (size - s'.height) =
      if 1 = r.val then value else BitVec.ofNat 32 (size - s.height))
    (argument : BitVec.ofNat 32 s'.argument = if 3 = r.val then value else BitVec.ofNat 32 s.argument)
    (flag : BitVec.ofNat 32 s'.flag = if 14 = r.val then value else BitVec.ofNat 32 s.flag)
    (link : BitVec.ofNat 32 s'.link = if 15 = r.val then value else BitVec.ofNat 32 s.link) :
    ∃ m', m.Goes 1 m' ∧ Shows n size s' m' := by
  have few := r.isLt
  obtain ⟨memory, goes, size_eq, cell⟩ :=
    Machine.rewrites_set shows.lower shows.untraced shows.outside fetched next apart done
  refine ⟨_, goes, shows.rewritten size_eq ?_ same.2.1 same.2.2 ?_ ?_ ?_ ?_ ?_⟩
  · intro k above
    simp only [cell, if_neg (show k ≠ 0 by omega), if_neg (show k ≠ r.val by omega)]
  · rw [same.1, ← Word.ofNat_add_one, ← shows.ip]
    exact cell 0
  · rw [sp, ← shows.sp]
    exact cell 1
  · rw [argument, ← shows.argument]
    exact cell 3
  · rw [flag, ← shows.flag]
    exact cell 14
  · rw [link, ← shows.link]
    exact cell 15

/-- Only the instruction pointer is different. -/
theorem moved (shows : Shows n size s m) {memory : Memory} (size_eq : memory.size = m.memory.size) {p : Nat}
    (cell : ∀ k, memory.cell k = if k = 0 then BitVec.ofNat 32 p else m.memory.cell k) :
    Shows n size { s with ip := p } { m with memory } := by
  have other (k : Nat) (apart : k ≠ 0) : memory.cell k = m.memory.cell k := (cell k).trans (if_neg apart)
  refine shows.rewritten size_eq ?_ rfl rfl (cell 0) ?_ ?_ ?_ ?_
  · exact fun k above => other k (by omega)
  · exact (other 1 (by decide)).trans shows.sp
  · exact (other 3 (by decide)).trans shows.argument
  · exact (other 14 (by decide)).trans shows.flag
  · exact (other 15 (by decide)).trans shows.link

/-- An instruction that goes to an address. -/
theorem goes_to (shows : Shows n size s m) (fetched : Action.fetch.outcome m = .ok i)
    (next : i.signal = .next) {p : Nat} (done : m.perform i = .ok (m.setRegister .ip (BitVec.ofNat 32 p))) :
    ∃ m', m.Goes 1 m' ∧ Shows n size { s with ip := p } m' := by
  obtain ⟨memory, goes, size_eq, cell⟩ :=
    Machine.rewrites_go shows.lower shows.untraced shows.outside fetched next done
  exact ⟨_, goes, shows.moved size_eq cell⟩

/-- An instruction that prints a line. -/
theorem goes_printed (shows : Shows n size s m) (fetched : Action.fetch.outcome m = .ok i)
    (next : i.signal = .next) {line : String} (done : m.perform i = .ok (m.printed line)) :
    ∃ m', m.Goes 1 m' ∧ Shows n size { s with ip := s.ip + 1, lines := s.lines ++ [line] } m' := by
  have positive : 0 < m.memory.size := Nat.lt_of_le_of_lt (Nat.zero_le _) shows.lower
  have printed : m.output ++ line ++ "\n" = Lines.join (s.lines ++ [line]) := by
    rw [shows.output, Lines.join_append]
    simp [Lines.join_cons, String.append_assoc]
  have longer : Shows n size { s with lines := s.lines ++ [line] }
      { m with output := m.output ++ line ++ "\n" } := { shows with output := printed }
  have cell (k : Nat) : (m.printed line).memory.cell k =
      if k = 0 then BitVec.ofNat 32 (s.ip + 1) else m.memory.cell k := by
    rw [← Word.ofNat_add_one, ← shows.ip]
    exact Memory.cell_put positive _ k
  have size_eq : (m.printed line).memory.size = m.memory.size := Memory.size_put _ _ _
  have goes := Machine.goes_of_perform shows.untraced shows.outside fetched next done
  exact ⟨_, goes, longer.moved size_eq cell⟩

/-- A jump over the next instruction, if the number in a register is positive. -/
theorem goes_branch (shows : Shows n size s m) {r : Register}
    (fetched : Action.fetch.outcome m = .ok (.refImm .jumpIfPositive (.once r) 2)) {number : Nat}
    (value : m.register r = BitVec.ofNat 32 number) (short : number < 2147483648) :
    ∃ m', m.Goes 1 m' ∧ Shows n size { s with ip := if 0 < number then s.ip + 2 else s.ip + 1 } m' := by
  have signed : (m.register r).toInt = number := by
    rw [value, Word.toInt_of_small] <;> rw [Word.toNat_ofNat_of_small (by omega)]
    exact short
  have done := Machine.perform_jumpIfPositive shows.lower 2 (Machine.resolve_once shows.lower r)
  apply shows.goes_to fetched rfl
  rw [done, signed, shows.ip]
  by_cases positive : 0 < number
  · rw [if_pos positive, if_pos (by omega), Word.ofNat_add_word]
    rfl
  · rw [if_neg positive, if_neg (by omega), Machine.advanced, shows.ip, Word.ofNat_add_one]

/-- The stack pointer moves down by one word. -/
theorem below (shows : Shows n size s m) (room : s.height < n) :
    m.register .sp - 1 = BitVec.ofNat 32 (size - (s.height + 1)) := by
  have large := shows.room
  rw [shows.sp, show size - s.height = size - (s.height + 1) + 1 by omega, ← Word.ofNat_add_one,
    BitVec.add_sub_cancel]

/-- A word more on the stack is still clear of the program. -/
theorem stack_room (shows : Shows n size s m) (room : s.height < n) :
    m.memory.InBounds (m.register .sp - 1) ∧ 16 ≤ (m.register .sp - 1).toNat := by
  have large := shows.room
  have small := shows.small
  have sized := shows.sized
  rw [shows.below room, Word.toNat_ofNat_of_small (by omega)]
  exact ⟨Memory.inBounds_ofNat (by omega) (by omega), by omega⟩

/-- An instruction that puts an address to return to on the stack. -/
theorem goes_stacked (shows : Shows n size s m) {memory : Memory} (size_eq : memory.size = m.memory.size)
    {p : Nat} (height : s.height ≤ s.used) (room : s.height < n)
    (cell : ∀ k, memory.cell k =
      if k = 0 then BitVec.ofNat 32 p
      else if k = (m.register .sp - 1).toNat then BitVec.ofNat 32 (back s.height)
      else if k = 1 then m.register .sp - 1 else m.memory.cell k) :
    Shows n size { s with ip := p, height := s.height + 1, used := max s.used (s.height + 1) }
      { m with memory } := by
  have large := shows.room
  have small := shows.small
  have few := shows.few
  rw [shows.below room, Word.toNat_ofNat_of_small (by omega)] at cell
  have low (k : Nat) (register : 1 < k ∧ k < 16) : memory.cell k = m.memory.cell k := by
    rw [cell, if_neg (by omega), if_neg (by omega), if_neg (by omega)]
  have other (k : Nat) (above : 16 ≤ k) (apart : k ≠ size - (s.height + 1)) :
      memory.cell k = m.memory.cell k := by
    rw [cell, if_neg (by omega), if_neg apart, if_neg (by omega)]
  refine { shows with
    few := ?_, sized := size_eq.trans shows.sized, ip := cell 0, sp := ?_
    argument := (low 3 (by decide)).trans shows.argument, flag := (low 14 (by decide)).trans shows.flag
    link := (low 15 (by decide)).trans shows.link, stack := ?_, kept := ?_ }
  · show max s.used (s.height + 1) ≤ n
    omega
  · exact (cell 1).trans (by rw [if_neg (by omega), if_neg (by omega), if_pos rfl])
  · intro j before
    by_cases here : j = s.height
    · rw [here, cell, if_neg (by omega), if_pos (by omega)]
    · have earlier : j < s.used := by
        change j < max s.used (s.height + 1) at before
        omega
      rw [other _ (by omega) (by omega)]
      exact shows.stack j earlier
  · intro k above before
    change k < size - max s.used (s.height + 1) at before
    rw [other k above (by omega)]
    exact shows.kept k above (by omega)

end Shows

/-- The next `k` steps lead from `s` to `s'`. -/
def Leads (n size : Nat) (s : State) (k : Nat) (s' : State) : Prop :=
  ∀ m, Shows n size s m → ∃ m', m.Goes k m' ∧ Shows n size s' m'

theorem Leads.refl (s : State) : Leads n size s 0 s :=
  fun m shows => ⟨m, ⟨by simp, rfl⟩, shows⟩

theorem Leads.trans (first : Leads n size s k s') (second : Leads n size s' l s'') :
    Leads n size s (k + l) s'' := by
  intro m shows
  obtain ⟨m', goes, shows'⟩ := first m shows
  obtain ⟨m'', goes', shows''⟩ := second m' shows'
  exact ⟨m'', goes.trans goes', shows''⟩

/-- The address to return to is taken from the top of the stack. -/
theorem leads_move (there : s.ip = 16 + k)
    (listed : (code n)[k]? = some (.twoRef .mov (.direct r13) (.twice .sp))) {j : Nat}
    (height : s.height = j + 1) (before : j < s.used) :
    Leads n size s 1 { s with ip := s.ip + 1, link := back j } := by
  intro m shows
  have room := shows.room
  have small := shows.small
  have few := shows.few
  have sized := shows.sized
  have top : m.memory.read (m.register .sp) = .ok (BitVec.ofNat 32 (back j)) := by
    rw [shows.sp, height, Memory.read_ofNat (by omega) (by omega), Nat.add_comm, Nat.sub_add_eq,
      shows.stack j before]
  have done := Machine.perform_move shows.lower r13 ((Machine.resolve_twice shows.lower .sp).trans top)
  exact shows.goes_set (shows.fetched there listed) rfl (by decide) done ⟨rfl, rfl, rfl⟩ rfl rfl rfl rfl

theorem leads_pop (there : s.ip = 16 + k) (listed : (code n)[k]? = some (.bare .pop)) {j : Nat}
    (height : s.height = j + 1) (before : j < s.used) :
    Leads n size s 1 { s with ip := s.ip + 1, height := j } := by
  intro m shows
  have room := shows.room
  have few := shows.few
  have shrunk : BitVec.ofNat 32 (size - j) = m.register .sp + 1 := by
    rw [shows.sp, height, Word.ofNat_add_one, show size - (j + 1) + 1 = size - j by omega]
  exact shows.goes_set (shows.fetched there listed) rfl (by decide) (Machine.perform_pop shows.lower)
    ⟨rfl, rfl, rfl⟩ shrunk rfl rfl rfl

/-- The argument is printed. -/
theorem leads_print (there : s.ip = 16 + k) (listed : (code n)[k]? = some (.ref .print (.once r1)))
    (short : s.argument < 2147483648) :
    Leads n size s 1 { s with ip := s.ip + 1, lines := s.lines ++ [Nat.repr s.argument] } := by
  intro m shows
  have number := Word.toNat_ofNat_of_small (n := s.argument) (by omega)
  have text : Word.signedText (BitVec.ofNat 32 s.argument) = Nat.repr s.argument := by
    rw [Word.signedText, Word.toInt_of_small (by omega), number]
    rfl
  have found := Machine.resolve_once shows.lower r1
  rw [shows.argument] at found
  have done := Machine.perform_print found
  rw [text] at done
  exact shows.goes_printed (shows.fetched there listed) rfl done

theorem leads_countDown (there : s.ip = 16 + k)
    (listed : (code n)[k]? = some (.refImm .subImm (.direct r1) 1)) {left : Nat}
    (argument : s.argument = left + 1) :
    Leads n size s 1 { s with ip := s.ip + 1, argument := left } := by
  intro m shows
  have counted : BitVec.ofNat 32 left = m.register r1 - 1 := by
    rw [shows.argument, argument, ← Word.ofNat_add_one, BitVec.add_sub_cancel]
  exact shows.goes_set (shows.fetched there listed) rfl (by decide)
    (Machine.perform_subImm shows.lower r1 1) ⟨rfl, rfl, rfl⟩ rfl counted rfl rfl

/-- The address to return to is put back where it was. -/
theorem leads_push (there : s.ip = 16 + k) (listed : (code n)[k]? = some (.ref .push (.once r13)))
    (height : s.height < s.used) (link : s.link = back s.height) :
    Leads n size s 1 { s with ip := s.ip + 1, height := s.height + 1 } := by
  intro m shows
  have few := shows.few
  obtain ⟨room, above⟩ := shows.stack_room (by omega)
  have found : m.grown.resolve (.once r13) = .ok (BitVec.ofNat 32 (back s.height)) := by
    have same : m.grown.register r13 = m.register r13 := Memory.cell_put_other _ _ (by decide)
    rw [Machine.resolve_once (m := m.grown) shows.lower, same, shows.link, link]
  obtain ⟨memory, goes, size_eq, cell⟩ := Machine.rewrites_push shows.lower shows.untraced shows.outside
    (shows.fetched there listed) room above found
  have same : max s.used (s.height + 1) = s.used := by omega
  have stacked := shows.goes_stacked (p := s.ip + 1) size_eq (by omega) (by omega) (by
    rw [← Word.ofNat_add_one, ← shows.ip]
    exact cell)
  rw [same] at stacked
  exact ⟨_, goes, stacked⟩

/-- A call adds a word to the stack, which has not been higher. -/
theorem leads_call (there : s.ip = 16 + k) (listed : (code n)[k]? = some (.imm .call 1))
    (height : s.height = s.used) (room : s.used < n) (link : s.ip + 1 = back s.used) :
    Leads n size s 1 { s with ip := 17, height := s.used + 1, used := s.used + 1 } := by
  intro m shows
  have few := shows.few
  obtain ⟨within, above⟩ := shows.stack_room (by omega)
  obtain ⟨memory, goes, size_eq, cell⟩ := Machine.rewrites_call shows.lower shows.untraced
    ⟨shows.outside, Or.inl (shows.fetched there listed)⟩ shows.entry within
  have same : max s.used (s.used + 1) = s.used + 1 := by omega
  have behind : m.register .ip + 1 = BitVec.ofNat 32 (back s.height) := by
    rw [shows.ip, Word.ofNat_add_one, link, height]
  rw [behind] at cell
  have stacked := shows.goes_stacked (p := 17) size_eq (by omega) (by omega) cell
  rw [height, same] at stacked
  exact ⟨_, goes, stacked⟩

theorem leads_jump (there : s.ip = 16 + k) (listed : (code n)[k]? = some (.ref .jump (.once r13))) :
    Leads n size s 1 { s with ip := s.link } := by
  intro m shows
  have found := Machine.resolve_once shows.lower r13
  rw [shows.link] at found
  exact shows.goes_to (shows.fetched there listed) rfl (Machine.perform_jump found)

/-- Loading a number into a register that was zero. -/
theorem withLow_zero (narrow : n ≤ 65535) :
    Word.withLow 0 ((BitVec.ofNat 32 n).setWidth 16) = BitVec.ofNat 32 n := by
  have zero : (0 : Word).toNat = 0 := rfl
  apply BitVec.eq_of_toNat_eq
  rw [Word.toNat_withLow, zero, BitVec.toNat_setWidth, Word.toNat_ofNat_of_small (by omega)]
  omega

theorem leads_loadFlag (there : s.ip = 16 + k)
    (listed : (code n)[k]? = some (.refImm .loadLow (.direct r12) 1)) (zero : s.flag = 0) :
    Leads n size s 1 { s with ip := s.ip + 1, flag := 1 } := by
  intro m shows
  have value : BitVec.ofNat 32 1 = (m.register r12).withLow ((1 : Word).setWidth 16) := by
    rw [shows.flag, zero]
    decide
  exact shows.goes_set (shows.fetched there listed) rfl (by decide)
    (Machine.perform_loadLow_direct shows.lower r12 (by decide)) ⟨rfl, rfl, rfl⟩ rfl rfl value rfl

theorem leads_loadArgument (there : s.ip = 16 + k)
    (listed : (code n)[k]? = some (.refImm .loadLow (.direct r1) (BitVec.ofNat 32 n)))
    (zero : s.argument = 0) :
    Leads n size s 1 { s with ip := s.ip + 1, argument := n } := by
  intro m shows
  have narrow := shows.narrow
  have number := Word.toNat_ofNat_of_small (n := n) (by omega)
  have value : BitVec.ofNat 32 n = (m.register r1).withLow ((BitVec.ofNat 32 n).setWidth 16) := by
    rw [shows.argument, zero]
    exact (withLow_zero narrow).symm
  exact shows.goes_set (shows.fetched there listed) rfl (by decide)
    (Machine.perform_loadLow_direct shows.lower r1 (by omega)) ⟨rfl, rfl, rfl⟩ rfl value rfl rfl

theorem leads_branch_argument (there : s.ip = 16 + k)
    (listed : (code n)[k]? = some (.refImm .jumpIfPositive (.once r1) 2)) (short : s.argument < 2147483648) :
    Leads n size s 1 { s with ip := if 0 < s.argument then s.ip + 2 else s.ip + 1 } :=
  fun _ shows => shows.goes_branch (shows.fetched there listed) shows.argument short

theorem leads_branch_flag (there : s.ip = 16 + k)
    (listed : (code n)[k]? = some (.refImm .jumpIfPositive (.once r12) 2)) (flag : s.flag = 1) :
    Leads n size s 1 { s with ip := s.ip + 2 } := by
  intro m shows
  have jumped := shows.goes_branch (shows.fetched there listed) shows.flag (by omega)
  rwa [if_pos (show 0 < s.flag by omega)] at jumped

/-- The numbers that are printed in the first `d` calls. -/
def countdown (n d : Nat) : List String := (List.range d).map fun k => Nat.repr (n - k)

theorem countdown_succ (n d : Nat) : countdown n (d + 1) = countdown n d ++ [Nat.repr (n - d)] := by
  rw [countdown, List.range_succ, List.map_append]
  rfl

/-- The function is entered for the first time after `d` calls of itself. -/
def entering (n d link : Nat) : State :=
  { ip := 17, height := d + 1, argument := n - d, flag := 1, link, used := d + 1, lines := countdown n d }

/-- Everything is printed, and `h` calls are still to return. -/
def unwinding (n h link : Nat) : State :=
  { ip := back h, height := h, argument := 0, flag := 1, link, used := n, lines := countdown n n }

variable {d h w : Nat}

/-- The function prints its argument and counts it down. -/
theorem leads_count (narrow : n ≤ 65535) (before : d < n) :
    Leads n size (entering n d w) 5
      { ip := 22, height := d + 1, argument := n - (d + 1), flag := 1, link := back d, used := d + 1,
        lines := countdown n (d + 1) } := by
  have short : n - d < 2147483648 := by omega
  have counted : n - d = n - (d + 1) + 1 := by omega
  have taken : Leads n size (entering n d w) 1 _ :=
    leads_move (k := 1) (j := d) rfl rfl rfl (Nat.lt_succ_self d)
  have dropped := taken.trans (leads_pop (k := 2) (j := d) rfl rfl rfl (Nat.lt_succ_self d))
  have printed := dropped.trans (leads_print (k := 3) rfl rfl short)
  have less := printed.trans (leads_countDown (k := 4) rfl rfl counted)
  have saved := less.trans (leads_push (k := 5) rfl rfl (Nat.lt_succ_self d) rfl)
  rw [countdown_succ]
  exact saved

/-- As long as something is left, the function calls itself. -/
theorem leads_deeper (narrow : n ≤ 65535) (more : d + 1 < n) :
    Leads n size (entering n d w) 7 (entering n (d + 1) (back d)) := by
  have left : 0 < n - (d + 1) := by omega
  have counted : Leads n size (entering n d w) 5 _ := leads_count narrow (by omega)
  have jumped := counted.trans
    (leads_branch_argument (k := 6) rfl rfl (show n - (d + 1) < 2147483648 by omega))
  rw [if_pos left] at jumped
  exact jumped.trans (leads_call (k := 8) rfl rfl rfl more rfl)

/-- At last nothing is left, and the function gets to its way back. -/
theorem leads_bottom (narrow : n ≤ 65535) (last : d + 1 = n) :
    Leads n size (entering n d w) 7 (unwinding n n (back d)) := by
  subst last
  have none : ¬ 0 < d + 1 - (d + 1) := by omega
  have counted : Leads (d + 1) size (entering (d + 1) d w) 5 _ := leads_count narrow (by omega)
  have passed := counted.trans
    (leads_branch_argument (k := 6) rfl rfl (show d + 1 - (d + 1) < 2147483648 by omega))
  rw [if_neg none] at passed
  have jumped := passed.trans (leads_branch_flag (k := 7) rfl rfl rfl)
  rw [Nat.sub_self] at jumped
  exact jumped

/-- The way back from one call. -/
theorem leads_return (within : h + 1 ≤ n) :
    Leads n size (unwinding n (h + 1) w) 3 (unwinding n h (back h)) := by
  have taken : Leads n size (unwinding n (h + 1) w) 1 _ := leads_move (k := 9) (j := h) rfl rfl rfl within
  have dropped := taken.trans (leads_pop (k := 10) (j := h) rfl rfl rfl within)
  exact dropped.trans (leads_jump (k := 11) rfl rfl)

/-- The calls go deeper one by one, by induction on their number. -/
theorem leads_down (narrow : n ≤ 65535) (before : d < n) :
    ∃ w', Leads n size (entering n 0 w) (7 * d) (entering n d w') := by
  induction d with
  | zero => exact ⟨w, .refl _⟩
  | succ d ih =>
      obtain ⟨w', earlier⟩ := ih (by omega)
      exact ⟨back d, earlier.trans (leads_deeper narrow before)⟩

/-- They return one by one, by induction on how many are still to return. -/
theorem leads_up (within : h ≤ n) : ∃ w', Leads n size (unwinding n h w) (3 * h) (unwinding n 0 w') := by
  induction h generalizing w with
  | zero => exact ⟨w, .refl _⟩
  | succ h ih =>
      obtain ⟨w', later⟩ := ih (w := back h) (by omega)
      refine ⟨w', ?_⟩
      have whole := (leads_return (w := w) within).trans later
      rwa [show 3 + 3 * h = 3 * (h + 1) by omega] at whole

/-- The call of the program, with all that it brings about. -/
theorem leads_through (some_call : 1 ≤ n) (narrow : n ≤ 65535) :
    ∃ w', Leads n size (entering n 0 w) (10 * n) (unwinding n 0 w') := by
  obtain ⟨w₁, down⟩ : ∃ w₁, Leads n size (entering n 0 w) (7 * (n - 1)) (entering n (n - 1) w₁) :=
    leads_down narrow (by omega)
  obtain ⟨w₂, up⟩ : ∃ w₂, Leads n size (unwinding n n (back (n - 1))) (3 * n) (unwinding n 0 w₂) :=
    leads_up (Nat.le_refl n)
  have whole := (down.trans (leads_bottom narrow (by omega))).trans up
  rw [show 7 * (n - 1) + 7 + 3 * n = 10 * n by omega] at whole
  exact ⟨w₂, whole⟩

def started (n size : Nat) (input : List UInt8) : Machine :=
  Action.loaded (image n) { memory := .zero size, trace := false, input }

/-- Each instruction is decoded where it was loaded. -/
theorem decode_loaded (narrow : n ≤ 65535) (room : 40 + n ≤ size) (listed : (code n)[k]? = some i) :
    Instruction.decode ((Action.loadedMemory (image n) size).cell (16 + k)) = .ok i := by
  obtain ⟨within, _⟩ := List.getElem?_eq_some_iff.mp listed
  have word : ((image n).code ++ (image n).static)[k]? = some i.encode := by
    rw [List.getElem?_append_left (by rw [image, List.length_map]; exact within), image, List.getElem?_map,
      listed]
    rfl
  have holds := Action.holds_loadedMemory (fits_image (n := n) room)
  rw [show (16 : Nat) = Register.count from rfl, holds.cell k _ word]
  exact Instruction.decode_encode_of_fits (fits_code narrow i (List.mem_of_getElem? listed))

/-- The program defines its function, which takes 13 steps. -/
theorem starts (narrow : n ≤ 65535) (room : 40 + n ≤ size) (small : size < 2147483648)
    (input : List UInt8) :
    ∃ m, (started n size input).Goes 13 m ∧
      Shows n size
        { ip := 29, height := 0, argument := 0, flag := 0, link := 0, used := 0, lines := [] } m := by
  have lower : Register.count < size := by show 16 < size; omega
  have sized : (started n size input).memory.size = size := Action.size_loadedMemory _ _
  obtain ⟨first, second⟩ := Action.cell_loadedMemory (image n) lower
  have inner (k : Nat) (before : k < 11) :
      ∃ i, Instruction.decode ((started n size input).memory.cell (16 + 1 + k)) = .ok i ∧
        i.marksBody = false := by
    have unmarked : ∀ i ∈ body, i.marksBody = false := by decide
    have within : k < body.length := before
    refine ⟨body[k], ?_, unmarked _ (List.getElem_mem within)⟩
    rw [show 16 + 1 + k = 16 + (k + 1) by omega]
    apply decode_loaded narrow room
    rw [code, List.cons_append, List.getElem?_cons_succ, List.getElem?_append_left within,
      List.getElem?_eq_getElem within]
  have opens := decode_loaded narrow room (i := .imm .beginFunction 1) (k := 0) rfl
  have closes := decode_loaded narrow room (i := .bare .endFunction) (k := 12) rfl
  have goes := Machine.goes_past_body (m := started n size input) (p := 16) (n := 11) rfl (by rwa [sized])
    rfl first (by rw [sized]; omega) opens inner closes
  refine ⟨_, goes, ?_⟩
  have cell (k : Nat) (other : k ≠ 0) : ((started n size input).memory.put 0 29).cell k =
      (Action.loadedMemory (image n) size).cell k := Memory.cell_put_other _ _ (Ne.symm other)
  have zero (k : Nat) (register : 2 ≤ k ∧ k < 16) : ((started n size input).memory.put 0 29).cell k = 0 :=
    (cell k (by omega)).trans (Action.cell_loadedMemory_free _ lower register.1 (Or.inl register.2))
  exact {
    narrow, room, small
    few := Nat.zero_le n
    sized := (Memory.size_put _ _ _).trans sized
    ip := Memory.cell_put_same _ _ (by rw [sized]; omega)
    sp := (cell 1 (by decide)).trans second
    argument := zero 3 (by decide)
    flag := zero 14 (by decide)
    link := zero 15 (by decide)
    stack := fun j none => absurd none (Nat.not_lt_zero j)
    kept := fun k after _ => cell k (by omega)
    entry := FunctionTable.find?_define_same _ _ _
    outside := rfl
    untraced := rfl
    base := rfl
    output := rfl }

/-- Behind the call the literal is printed. -/
theorem leads_done : Leads n size (unwinding n 0 w) 1
    { unwinding n 0 w with ip := 33, lines := countdown n n ++ ["done"] } := by
  intro m shows
  have few : m.memory.size < 2147483648 := shows.sized ▸ shows.small
  have base := shows.base
  have found : LiteralPool.lookup pool 0 = .ok "done" := eq_ok_of_toOption (by decide)
  have static : m.memory.Holds 34 pool := shows.holds.back
  have read : m.memory.literal (BitVec.ofNat 32 m.staticBase) 0 = .ok "done" := by
    rw [base, Memory.literal_of_lookup static few (by rw [found]; decide), found]
    rfl
  have done : m.perform (.imm .printLiteral 0) = .ok (m.printed "done") := by
    rw [Machine.perform, read]
    rfl
  exact shows.goes_printed (shows.fetched (k := 16) rfl rfl) rfl done

/-- Then the program halts. -/
theorem halts (shows : Shows n size s m) (there : s.ip = 33) :
    Action.step.outcome m = .ok .halt ∧ Action.step.after m = m := by
  have fetched := shows.fetched (k := 17) there rfl
  obtain ⟨gives, leaves⟩ := Action.step_of_perform shows.untraced fetched (Or.inl shows.outside)
  exact ⟨gives, leaves m rfl⟩

/-- The whole program, up to its halt. -/
theorem goes_through (some_call : 1 ≤ n) (narrow : n ≤ 65535) (room : 40 + n ≤ size)
    (small : size < 2147483648) (input : List UInt8) :
    ∃ m w, (started n size input).Goes (10 * n + 17) m ∧
      Shows n size { unwinding n 0 w with ip := 33, lines := countdown n n ++ ["done"] } m := by
  obtain ⟨m₁, goes, shows⟩ := starts narrow room small input
  have flagged : Leads n size
      { ip := 29, height := 0, argument := 0, flag := 0, link := 0, used := 0, lines := [] } 1 _ :=
    leads_loadFlag (k := 13) rfl rfl rfl
  have loaded := flagged.trans (leads_loadArgument (k := 14) rfl rfl rfl)
  have called : Leads n size _ (1 + 1 + 1) (entering n 0 0) :=
    loaded.trans (leads_call (k := 15) rfl rfl rfl some_call rfl)
  obtain ⟨w, through⟩ : ∃ w, Leads n size (entering n 0 0) (10 * n) (unwinding n 0 w) :=
    leads_through some_call narrow
  obtain ⟨m₂, goes₂, shows₂⟩ := ((called.trans through).trans leads_done) m₁ shows
  refine ⟨m₂, w, ?_, shows₂⟩
  have all := goes.trans goes₂
  rwa [show 13 + (1 + 1 + 1 + 10 * n + 1) = 10 * n + 17 by omega] at all

/-- Its run is over when it halts. -/
theorem run_started (some_call : 1 ≤ n) (narrow : n ≤ 65535) (room : 40 + n ≤ size)
    (small : size < 2147483648) (input : List UInt8) (draw : Table → String) {limit : Nat}
    (enough : 10 * n + 18 ≤ limit) :
    ∃ m w, (started n size input).run draw limit = ⟨.halted, m, 10 * n + 18⟩ ∧
      Shows n size { unwinding n 0 w with ip := 33, lines := countdown n n ++ ["done"] } m := by
  obtain ⟨m, w, goes, shows⟩ := goes_through some_call narrow room small input
  obtain ⟨gives, leaves⟩ := halts shows rfl
  obtain ⟨more, rfl⟩ := Nat.exists_eq_add_of_le enough
  have ends : Machine.runFrom 0 (10 * n + 18 + more) (started n size input) = ⟨.halted, m, 10 * n + 18⟩ := by
    rw [show 10 * n + 18 + more = 10 * n + 17 + (more + 1) by omega, goes.runFrom, Machine.runFrom_succ,
      gives, leaves, Nat.zero_add]
  refine ⟨m, w, ?_, shows⟩
  rw [Machine.run, ends]
  dsimp only
  rw [Machine.close, shows.untraced, if_neg Bool.false_ne_true]

theorem withImage_eq {config : Config} (room : 40 + n ≤ config.memorySize)
    (small : config.memorySize < 2147483648) (untraced : config.trace = false) (input : List UInt8) :
    Machine.withImage (image n) config input = .ok (started n config.memorySize input) := by
  have lower : Register.count < config.memorySize := by show 16 < config.memorySize; omega
  rw [Machine.withImage_of_fits lower small (fits_image room), Machine.logged_of_off untraced, untraced]
  rfl

/-- The program recurses to any depth that an immediate can ask for and that its stack has room for above the
40 cells of registers, code and pool. It is assembled, loaded and run to its halt, prints the numbers from
`n` down to 1 and then the literal, and leaves an empty stack. The stack takes `n` words, which hold an
address to return to for each call, and nothing else has changed but registers. -/
theorem recursion_of_any_depth (some_call : 1 ≤ n) (narrow : n ≤ 65535) {config : Config}
    (room : 40 + n ≤ config.memorySize) (small : config.memorySize < 2147483648)
    (untraced : config.trace = false) (input : List UInt8) :
    ∃ image m, assemble (Lines.join (source n)) = .ok image ∧ image.loadedSize = 24 ∧
      Machine.withImage image config input = .ok m ∧
      ∀ draw limit, 10 * n + 18 ≤ limit →
        let outcome := m.run draw limit
        outcome.ending = .halted ∧ outcome.steps = 10 * n + 18 ∧
        outcome.machine.output =
          Lines.join ((List.range n).map (fun k => Nat.repr (n - k)) ++ ["done"]) ∧
        (outcome.machine.register .sp).toInt = config.memorySize ∧ outcome.machine.register 3 = 0 ∧
        (∀ j < n, outcome.machine.memory.cell (config.memorySize - 1 - j) = if j = 0 then 32 else 25) ∧
        (∀ k, 16 ≤ k → k < config.memorySize - n →
          outcome.machine.memory.cell k = m.memory.cell k) ∧
        outcome.machine.memory.Holds 16 (image.code ++ image.static) := by
  refine ⟨_, _, assemble_source narrow, rfl, withImage_eq room small untraced input, ?_⟩
  intro draw limit enough outcome
  obtain ⟨last, w, ran, shows⟩ := run_started some_call narrow room small input draw enough
  have same : outcome.machine = last := congrArg Outcome.machine ran
  rw [same]
  refine ⟨congrArg Outcome.ending ran, congrArg Outcome.steps ran, shows.output, ?_, shows.argument, ?_,
    shows.kept, shows.holds⟩
  · have number := Word.toNat_ofNat_of_small (n := config.memorySize) (by omega)
    rw [shows.sp]
    show (BitVec.ofNat 32 config.memorySize).toInt = _
    rw [Word.toInt_of_small (by omega), number]
  · intro j before
    rw [shows.stack j before]
    cases j <;> rfl

/-- The smallest memory for three calls. -/
theorem recursion_of_three_calls :
    let text := "FBEGIN 1\nMOV r13 **sp\nPOP\nPRINT *r1\nSUBI r1 1\nPUSH *r13\nJUMP_IF_GZ *r1 2\n" ++
      "JUMP_IF_GZ *r12 2\nCALL 1\nMOV r13 **sp\nPOP\nJUMP *r13\nFEND\nLOADL r12 1\nLOADL r1 3\n" ++
      "CALL 1\nPRINTSTR done\nTERM\n"
    ∃ image m, assemble text = .ok image ∧ Machine.withImage image ⟨43, false⟩ [] = .ok m ∧
      (m.run Table.text 48).ending = .halted ∧ (m.run Table.text 48).steps = 48 ∧
      (m.run Table.text 48).machine.output = "3\n2\n1\ndone\n" := by
  intro text
  have room : 40 + 3 ≤ (⟨43, false⟩ : Config).memorySize := Nat.le_refl 43
  obtain ⟨image, m, assembled, _, loaded, runs⟩ :=
    recursion_of_any_depth (by decide) (by decide) room (by decide) rfl []
  obtain ⟨halted, steps, output, _⟩ := runs Table.text 48 (by decide)
  have same : Lines.join (source 3) = text := by decide +kernel
  rw [same] at assembled
  exact ⟨image, m, assembled, loaded, halted, steps, output⟩

end StoredProgram.Recursion
