import StoredProgram.LiteralPool

set_option autoImplicit false

namespace StoredProgram

theorem Word.char_ofNat (c : Char) : Word.char (BitVec.ofNat 32 c.toNat) = .ok c := by
  have valid : c.toNat.isValidChar := c.valid
  have small : c.toNat < 4294967296 := c.val.toNat_lt
  have same : (BitVec.ofNat 32 c.toNat).toNat = c.toNat := Nat.mod_eq_of_lt small
  rw [Word.char, same, if_pos valid, Char.ofNat_toNat]

theorem Word.mapM_char (cs : List Char) :
    (cs.map fun c => BitVec.ofNat 32 c.toNat).mapM Word.char = .ok cs := by
  induction cs with
  | nil => rfl
  | cons c cs ih =>
      rw [List.map_cons, List.mapM_cons, ih, Word.char_ofNat]
      rfl

namespace LiteralPool

/-- The conditions under which a literal is found, in numbers that all fit in a word. -/
theorem lookup_of_parts {packed : List Word} {index count offset length : Nat} {chars : List Char}
    (short : packed.length < 4294967296) (listed : index < count) (past : count ≤ offset)
    (room : offset + 1 + length ≤ packed.length)
    (first : packed[0]? = some (BitVec.ofNat 32 count))
    (entry : packed[index]? = some (BitVec.ofNat 32 offset))
    (block : packed[offset]? = some (BitVec.ofNat 32 length))
    (text : ((packed.drop (offset + 1)).take length).mapM Word.char = .ok chars) :
    lookup packed (BitVec.ofNat 32 index) = .ok (String.ofList chars) := by
  have fits : ∀ n ≤ packed.length, (BitVec.ofNat 32 n).toNat = n := by
    intro n bound
    rw [BitVec.toNat_ofNat]
    omega
  have counted : ¬BitVec.ofNat 32 count ≤ BitVec.ofNat 32 index := by
    rw [BitVec.le_def, fits count (by omega), fits index (by omega)]
    omega
  have behind : ¬BitVec.ofNat 32 offset < BitVec.ofNat 32 count := by
    rw [BitVec.lt_def, fits count (by omega), fits offset (by omega)]
    omega
  simp only [lookup, fits index (by omega), fits offset (by omega), fits length (by omega), first,
    entry, block, counted, behind, Nat.not_lt.mpr room, if_false, text]
  rfl

@[simp] theorem length_block (literal : String) : (block literal).length = literal.length + 1 := by
  simp [block, String.length_toList]

@[simp] theorem length_offsets (start : Nat) (blocks : List (List Word)) :
    (offsets start blocks).length = blocks.length := by
  induction blocks generalizing start with
  | nil => rfl
  | cons block blocks ih => simp [offsets, ih]

/-- Each literal takes an offset, its length and its characters. -/
theorem length_pack (literals : List String) :
    (pack ⟨literals.toArray⟩).length = 2 * literals.length + (literals.flatMap String.toList).length := by
  have blocks (literals : List String) : (literals.map block).flatten.length =
      literals.length + (literals.flatMap String.toList).length := by
    induction literals with
    | nil => rfl
    | cons literal literals ih =>
        rw [List.map_cons, List.flatten_cons, List.length_append, ih, length_block, List.length_cons,
          List.flatMap_cons, List.length_append, String.length_toList]
        omega
  change (offsets (literals.map block).length (literals.map block) ++
    (literals.map block).flatten).length = _
  rw [List.length_append, length_offsets, blocks, List.length_map]
  omega

theorem offsets_append (start : Nat) (front back : List (List Word)) :
    offsets start (front ++ back) =
      offsets start front ++ offsets (start + front.flatten.length) back := by
  induction front generalizing start with
  | nil => simp [offsets]
  | cons block front ih =>
      simp only [List.cons_append, offsets, ih, List.flatten_cons, List.length_append, Nat.add_assoc]

/-- What stands in front of a block, after the offsets, is all the blocks in front of it. -/
theorem pack_between (front back : List String) (literal : String) :
    ∃ start : Nat, ∃ before after : List Word,
      (front ++ literal :: back).length ≤ start ∧ before.length = start ∧
      pack ⟨(front ++ literal :: back).toArray⟩ = before ++ block literal ++ after ∧
      before[front.length]? = some (BitVec.ofNat 32 start) ∧
      before[0]? = some (BitVec.ofNat 32 (front ++ literal :: back).length) := by
  let blocks := (front ++ literal :: back).map block
  let before := offsets blocks.length blocks ++ (front.map block).flatten
  refine ⟨blocks.length + (front.map block).flatten.length, before, (back.map block).flatten,
    ?_, ?_, ?_, ?_, ?_⟩
  · simp [blocks]
  · simp [before]
  · simp [pack, before, blocks]
  · have inside : front.length < (offsets blocks.length blocks).length := by simp [blocks]
    have entry : (offsets blocks.length blocks)[front.length]? =
        some (BitVec.ofNat 32 (blocks.length + (front.map block).flatten.length)) := by
      simp only [blocks, List.map_append, List.map_cons, offsets_append, offsets]
      rw [List.getElem?_append_right (by simp)]
      simp
    rw [List.getElem?_append_left inside, entry]
  · cases front with
    | nil => simp [before, blocks, offsets]
    | cons first front => simp [before, blocks, offsets]

/-- A literal is found where it stands between others. -/
theorem lookup_between (front back : List String) (literal : String)
    (short : (pack ⟨(front ++ literal :: back).toArray⟩).length < 4294967296) :
    lookup (pack ⟨(front ++ literal :: back).toArray⟩) (BitVec.ofNat 32 front.length) =
      .ok literal := by
  obtain ⟨start, before, after, past, size, whole, entry, first⟩ := pack_between front back literal
  rw [whole] at short ⊢
  have listed : front.length < (front ++ literal :: back).length := by simp
  have room : start + 1 + literal.length ≤ (before ++ block literal ++ after).length := by
    simp only [List.length_append, length_block, size]
    omega
  have head : ∀ i < start, (before ++ block literal ++ after)[i]? = before[i]? := by
    intro i inside
    rw [List.append_assoc, List.getElem?_append_left (by omega)]
  have length : (before ++ block literal ++ after)[start]? =
      some (BitVec.ofNat 32 literal.length) := by
    rw [List.append_assoc, List.getElem?_append_right (by omega), size]
    simp [block]
  have text : (((before ++ block literal ++ after).drop (start + 1)).take literal.length).mapM
      Word.char = .ok literal.toList := by
    have parts : before ++ block literal ++ after =
        (before ++ [BitVec.ofNat 32 literal.length]) ++
          (literal.toList.map (fun c => BitVec.ofNat 32 c.toNat) ++ after) := by
      simp [block]
    rw [parts, List.drop_left' (by simp [size]), List.take_left' (by simp [String.length_toList]),
      Word.mapM_char]
  have found := lookup_of_parts short listed past room ((head 0 (by omega)).trans first)
    ((head front.length (by omega)).trans entry) length text
  rwa [String.ofList_toList] at found

/-- In a pool that fits in a word's range, each literal is found under its number. -/
theorem lookup_pack {literals : List String} {index : Nat} {literal : String}
    (short : (pack ⟨literals.toArray⟩).length < 4294967296)
    (found : literals[index]? = some literal) :
    lookup (pack ⟨literals.toArray⟩) (BitVec.ofNat 32 index) = .ok literal := by
  obtain ⟨within, rfl⟩ := List.getElem?_eq_some_iff.mp found
  have whole : literals.take index ++ literals[index] :: literals.drop (index + 1) = literals := by
    simp
  have size : (literals.take index).length = index := by
    rw [List.length_take]
    exact Nat.min_eq_left (Nat.le_of_lt within)
  have between := lookup_between (literals.take index) (literals.drop (index + 1)) literals[index]
  rw [whole, size] at between
  exact between short

/-- The first word is the number of literals, as the first block starts behind all of the offsets. -/
theorem first_pack {literals : List String} (some_literal : literals ≠ []) :
    (pack ⟨literals.toArray⟩)[0]? = some (BitVec.ofNat 32 literals.length) := by
  cases literals with
  | nil => exact absurd rfl some_literal
  | cons literal literals => simp [pack, offsets]

theorem length_le_pack (literals : List String) :
    literals.length ≤ (pack ⟨literals.toArray⟩).length := by
  rw [length_pack]
  omega

/-- There are no literals but those that were pushed. -/
theorem lookup_pack_outside {literals : List String} {index : Word}
    (short : (pack ⟨literals.toArray⟩).length < 4294967296) (outside : literals.length ≤ index.toNat) :
    lookup (pack ⟨literals.toArray⟩) index = .error (.outOfRange index) := by
  by_cases none : literals = []
  · subst none
    rfl
  · have count := length_le_pack literals
    have listed : BitVec.ofNat 32 literals.length ≤ index := by
      rw [BitVec.le_def, BitVec.toNat_ofNat]
      omega
    simp only [lookup, first_pack none, listed, if_true]
    rfl

theorem pack_injective {literals others : List String}
    (short : (pack ⟨literals.toArray⟩).length < 4294967296)
    (same : pack ⟨others.toArray⟩ = pack ⟨literals.toArray⟩) : others = literals := by
  have count := length_le_pack literals
  have otherCount := length_le_pack others
  rw [same] at otherCount
  have lengths : others.length = literals.length := by
    by_cases none : literals = []
    · subst none
      exact Nat.eq_zero_of_le_zero otherCount
    · have some_other : others ≠ [] := by
        rintro rfl
        have first := first_pack none
        rw [← same] at first
        cases first
      have first := (first_pack some_other).symm.trans (same ▸ first_pack none)
      have numbers := congrArg BitVec.toNat (Option.some.inj first)
      rw [BitVec.toNat_ofNat, BitVec.toNat_ofNat] at numbers
      omega
  apply List.ext_getElem lengths
  intro i within bound
  have found := lookup_pack short (List.getElem?_eq_getElem bound)
  have other := lookup_pack (same ▸ short) (List.getElem?_eq_getElem within)
  rw [same, found] at other
  exact (Except.ok.inj other).symm

/-- Pushes literals in their order, and gives the number that each of them gets. -/
def pushAll (pool : LiteralPool) : List String → List Word × LiteralPool
  | [] => ([], pool)
  | literal :: literals =>
    let (numbers, last) := (pool.push literal).pushAll literals
    (pool.nextIndex :: numbers, last)

theorem pushAll_eq (pool : LiteralPool) (literals : List String) :
    pool.pushAll literals =
      ((List.range' pool.size literals.length).map (BitVec.ofNat 32),
        ⟨pool.literals ++ literals.toArray⟩) := by
  induction literals generalizing pool with
  | nil => simp [pushAll]
  | cons literal literals ih =>
      have size : (pool.push literal).size = pool.size + 1 := by simp [push, LiteralPool.size]
      rw [pushAll, ih, size, List.length_cons, List.range'_succ, List.map_cons]
      simp [push, nextIndex]

/-- Literals that are pushed one after the other are numbered from 0 on, and the pool keeps all of them, equal
ones and empty ones too, in their order: its words begin with their number, each of them is found under its
own number, no other number has one, and no other literals have the same words. -/
theorem packing_keeps_literals {literals : List String} {numbers : List Word} {pool : LiteralPool}
    (pushed : empty.pushAll literals = (numbers, pool)) (short : pool.pack.length < 4294967296) :
    numbers.map BitVec.toNat = List.range literals.length ∧
      pool.pack.length = 2 * literals.length + (literals.flatMap String.toList).length ∧
      (literals ≠ [] → ∃ first, pool.pack[0]? = some first ∧ first.toNat = literals.length) ∧
      (∀ (index : Word) (literal : String), literals[index.toNat]? = some literal →
        lookup pool.pack index = .ok literal) ∧
      (∀ index : Word, literals.length ≤ index.toNat →
        lookup pool.pack index = .error (.outOfRange index)) ∧
      ∀ others : List String, (empty.pushAll others).2.pack = pool.pack → others = literals := by
  have whole (texts : List String) : (empty.pushAll texts).2 = ⟨texts.toArray⟩ := by
    rw [pushAll_eq]
    exact congrArg LiteralPool.mk Array.empty_append
  have same : pool = ⟨literals.toArray⟩ := (congrArg Prod.snd pushed).symm.trans (whole literals)
  subst same
  have count := length_le_pack literals
  refine ⟨?_, ?_, ?_, ?_, fun index => lookup_pack_outside short, ?_⟩
  · have given : numbers = (List.range literals.length).map (BitVec.ofNat 32) := by
      rw [List.range_eq_range']
      exact (congrArg Prod.fst pushed).symm.trans (congrArg Prod.fst (pushAll_eq empty literals))
    have unwrapped : ∀ i ∈ List.range literals.length,
        (BitVec.toNat ∘ BitVec.ofNat 32) i = id i := by
      intro i member
      have bound := List.mem_range.mp member
      rw [Function.comp_apply, BitVec.toNat_ofNat, id_eq]
      omega
    rw [given, List.map_map, List.map_congr_left unwrapped, List.map_id]
  · exact length_pack literals
  · intro some_literal
    refine ⟨_, first_pack some_literal, ?_⟩
    rw [BitVec.toNat_ofNat]
    omega
  · intro index literal found
    have named := lookup_pack short found
    rwa [BitVec.ofNat_toNat, BitVec.setWidth_eq] at named
  · intro others equal
    rw [whole] at equal
    exact pack_injective short equal

/-- An empty literal, one that takes more bytes than characters, and the empty one again. -/
theorem packing_keeps_literals_with_two_empty :
    empty.pushAll ["", "é😀", ""] = ([0, 1, 2], ⟨#["", "é😀", ""]⟩) ∧
      pack ⟨#["", "é😀", ""]⟩ = [3, 4, 7, 0, 2, 0xE9, 0x1F600, 0] ∧
      lookup [3, 4, 7, 0, 2, 0xE9, 0x1F600, 0] 1 = .ok "é😀" ∧
      lookup [3, 4, 7, 0, 2, 0xE9, 0x1F600, 0] 3 = .error (.outOfRange 3) ∧
      ∀ others : List String, (empty.pushAll others).2.pack = [3, 4, 7, 0, 2, 0xE9, 0x1F600, 0] →
        others = ["", "é😀", ""] := by
  have pushed : empty.pushAll ["", "é😀", ""] = ([0, 1, 2], ⟨#["", "é😀", ""]⟩) := by decide +kernel
  have packed : pack ⟨#["", "é😀", ""]⟩ = [3, 4, 7, 0, 2, 0xE9, 0x1F600, 0] := by decide +kernel
  obtain ⟨_, _, _, found, missed, only⟩ :=
    packing_keeps_literals pushed (by rw [packed]; decide)
  rw [packed] at found missed only
  exact ⟨pushed, packed, found 1 "é😀" rfl, missed 3 (by decide), only⟩

end LiteralPool
end StoredProgram
