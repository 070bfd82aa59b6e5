import StoredProgram.Proofs.Files
import StoredProgram.Proofs.Instruction.Codec
import StoredProgram.Main.Table
import StoredProgram.Proofs.Main.Arguments
import StoredProgram.Proofs.Machine.Run

set_option autoImplicit false

namespace StoredProgram

variable {σ File : Type} {files : Files (StateM σ) File} {view : FileView σ File}

namespace Command

section
variable {α β : Type} {x : ExceptT CommandError (StateM σ) α} {f : α → ExceptT CommandError (StateM σ) β}
  {s s' : σ}

theorem bind_of_ok {a : α} (ok : x.run s = (.ok a, s')) : (x >>= f).run s = (f a).run s' := by
  change ExceptT.bindCont f (x.run s).1 (x.run s).2 = _
  rw [ok]
  rfl

/-- What was done before an error stays done. -/
theorem bind_of_error {e : CommandError} (failed : x.run s = (.error e, s')) :
    (x >>= f).run s = (.error e, s') := by
  change ExceptT.bindCont f (x.run s).1 (x.run s).2 = _
  rw [failed]
  rfl

theorem attempt_of_ok {call : StateM σ (Except String α)} {a : α} (ok : call s = (.ok a, s')) :
    (attempt call).run s = (.ok a, s') := by
  change ((call s).1.mapError CommandError.system, (call s).2) = _
  rw [ok]
  rfl

theorem check_of_ok {result : Except CommandError α} {a : α} (ok : result = .ok a) :
    (check (m := StateM σ) result).run s = (.ok a, s) := by
  rw [ok]
  rfl

theorem check_of_error {result : Except CommandError α} {e : CommandError} (failed : result = .error e) :
    (check (m := StateM σ) result).run s = (.error e, s) := by
  rw [failed]
  rfl

end

/-- In the state `s` the conversion makes a file of these bytes: its source is read and made into them, and
its target is opened. -/
structure Converts (files : Files (StateM σ) File) (f : List UInt8 → Except CommandError (List UInt8))
    (options : Conversion) (s : σ) (file : File) (bytes : List UInt8) : Prop where
  made : ∃ source, (files.read options.source s).1 = .ok source ∧ f source = .ok bytes
  opened : (files.create options.target s).1 = .ok file

section
variable {f : List UInt8 → Except CommandError (List UInt8)} {options : Conversion} {s : σ} {file : File}
  {bytes : List UInt8}

theorem read_eq (lawful : files.Lawful view) {path : String} {result : Except String (List UInt8)}
    (read : (files.read path s).1 = result) : files.read path s = (result, s) :=
  Prod.ext read (lawful.read_state path s)

theorem convert_of_converts (lawful : files.Lawful view) (converts : Converts files f options s file bytes) :
    ∃ s', (convert files f options).run s = (.ok (), s') ∧ view.Puts s s' file bytes ∧
      view.fileAt s' options.target = some file := by
  obtain ⟨⟨source, read, made⟩, opened⟩ := converts
  have created : files.create options.target s = (.ok file, (files.create options.target s).2) :=
    Prod.ext opened rfl
  obtain ⟨emptied, leads⟩ := lawful.create_ok created
  obtain ⟨s', written, puts⟩ := lawful.write_created bytes created
  refine ⟨s', ?_, emptied.trans puts, puts.paths _ _ leads⟩
  rw [convert, bind_of_ok (attempt_of_ok (read_eq lawful read)), bind_of_ok (check_of_ok made),
    bind_of_ok (attempt_of_ok created)]
  exact attempt_of_ok written

end

section
variable {source file : List UInt8}

theorem imageFile_eq_ok_iff : imageFile source = .ok file ↔
    ∃ text image, String.fromUTF8? ⟨source.toArray⟩ = some text ∧
      StoredProgram.assemble text = .ok image ∧ file = image.toBytes := by
  unfold imageFile
  cases String.fromUTF8? ⟨source.toArray⟩ with
  | none => simp
  | some text =>
      cases assembled : StoredProgram.assemble text with
      | error e => simp [assembled]
      | ok image => simp [assembled, eq_comm]

theorem listingFile_eq_ok_iff : listingFile source = .ok file ↔
    ∃ image text, Image.ofBytes source = .ok image ∧ image.listing = .ok text ∧
      file = text.toUTF8.data.toList := by
  unfold listingFile
  cases Image.ofBytes source with
  | error e => simp [Except.mapError, bind, Except.bind]
  | ok image =>
      cases listed : image.listing with
      | error e => simp [Except.mapError, bind, Except.bind, listed]
      | ok text => simp [Except.mapError, bind, Except.bind, pure, Except.pure, listed, eq_comm]

end

/-- In the state `s` the command has what it takes to make the file at a path, with these contents: the image
of a source text, or the listing of an image. -/
def Makes (files : Files (StateM σ) File) (s : σ) : Command → String → File → List UInt8 → Prop
  | assemble options, path, file, bytes =>
    path = options.target ∧ (files.create path s).1 = .ok file ∧
      ∃ source text image, (files.read options.source s).1 = .ok source ∧
        String.fromUTF8? ⟨source.toArray⟩ = some text ∧ StoredProgram.assemble text = .ok image ∧
        bytes = image.toBytes
  | disassemble options, path, file, bytes =>
    path = options.target ∧ (files.create path s).1 = .ok file ∧
      ∃ source image text, (files.read options.source s).1 = .ok source ∧
        Image.ofBytes source = .ok image ∧ image.listing = .ok text ∧ bytes = text.toUTF8.data.toList
  | run _, _, _, _ => False

section
variable {s : σ} {path : String} {file : File} {bytes : List UInt8}

theorem makes_assemble_iff {options : Conversion} : (assemble options).Makes files s path file bytes ↔
    path = options.target ∧ Converts files imageFile options s file bytes := by
  constructor
  · rintro ⟨rfl, opened, source, text, image, read, made⟩
    exact ⟨rfl, ⟨source, read, imageFile_eq_ok_iff.mpr ⟨text, image, made⟩⟩, opened⟩
  · rintro ⟨rfl, ⟨source, read, made⟩, opened⟩
    obtain ⟨text, image, made⟩ := imageFile_eq_ok_iff.mp made
    exact ⟨rfl, opened, source, text, image, read, made⟩

theorem makes_disassemble_iff {options : Conversion} : (disassemble options).Makes files s path file bytes ↔
    path = options.target ∧ Converts files listingFile options s file bytes := by
  constructor
  · rintro ⟨rfl, opened, source, image, text, read, made⟩
    exact ⟨rfl, ⟨source, read, listingFile_eq_ok_iff.mpr ⟨image, text, made⟩⟩, opened⟩
  · rintro ⟨rfl, ⟨source, read, made⟩, opened⟩
    obtain ⟨image, text, made⟩ := listingFile_eq_ok_iff.mp made
    exact ⟨rfl, opened, source, image, text, read, made⟩

def tool : Command → Tool
  | assemble _ => .assembler
  | disassemble _ => .disassembler
  | run _ => .runner

end

/-- Carries out a call, and gives up a run after `limit` steps. -/
def performWithin (files : Files (StateM σ) File) (parser : ArgumentParser) (draw : Table → String)
    (limit : Nat) (call : Invocation) : StateM σ Report :=
  perform files parser (fun m => return m.run draw limit) call

section
variable {parser : ArgumentParser} {draw : Table → String} {limit : Nat} {call : Invocation}
  {command : Command} {s s' : σ} {path : String} {file : File} {bytes : List UInt8}

theorem execute_assemble {finish : Machine → StateM σ Outcome} {options : Conversion}
    {input : List UInt8} {result : Except CommandError Unit}
    (converted : (convert files imageFile options).run s = (result, s')) :
    execute files finish input (assemble options) s = (conversionReport result, s') := by
  change (conversionReport ((convert files imageFile options).run s).1,
    ((convert files imageFile options).run s).2) = _
  rw [converted]

theorem execute_disassemble {finish : Machine → StateM σ Outcome} {options : Conversion}
    {input : List UInt8} {result : Except CommandError Unit}
    (converted : (convert files listingFile options).run s = (result, s')) :
    execute files finish input (disassemble options) s = (conversionReport result, s') := by
  change (conversionReport ((convert files listingFile options).run s).1,
    ((convert files listingFile options).run s).2) = _
  rw [converted]

theorem execute_run {finish : Machine → StateM σ Outcome} {options : RunOptions} {input : List UInt8}
    {result : Except CommandError Outcome}
    (ran : (runImage files finish options input).run s = (result, s')) :
    execute files finish input (run options) s = (runReport result, s') := by
  change (runReport ((runImage files finish options input).run s).1,
    ((runImage files finish options input).run s).2) = _
  rw [ran]

theorem performWithin_of_command (parsed : call.command parser = .ok command) :
    performWithin files parser draw limit call s =
      execute files (fun m => return m.run draw limit) call.input command s := by
  rw [performWithin, perform, parsed]

theorem performWithin_of_makes (lawful : files.Lawful view) (parsed : call.command parser = .ok command)
    (makes : command.Makes files s path file bytes) :
    ∃ s', performWithin files parser draw limit call s = ({}, s') ∧ view.Puts s s' file bytes ∧
      view.fileAt s' path = some file := by
  rw [performWithin_of_command parsed]
  cases command with
  | assemble options =>
      obtain ⟨rfl, converts⟩ := makes_assemble_iff.mp makes
      obtain ⟨s', converted, done⟩ := convert_of_converts lawful converts
      exact ⟨s', execute_assemble converted, done⟩
  | disassemble options =>
      obtain ⟨rfl, converts⟩ := makes_disassemble_iff.mp makes
      obtain ⟨s', converted, done⟩ := convert_of_converts lawful converts
      exact ⟨s', execute_disassemble converted, done⟩
  | run options => cases makes

end

section
variable {parser : ArgumentParser} {draw : Table → String} {limit : Nat} {start : σ}
  {calls : List Invocation} {call : Invocation}
  {k : Nat} {path : String} {file : File} {bytes : List UInt8}

end

end Command
end StoredProgram
