import StoredProgram.Proofs.Assembly.RoundTrip
import StoredProgram.Proofs.Command
import StoredProgram.Proofs.Image.Bytes
import StoredProgram.Proofs.Machine.Load

set_option autoImplicit false

namespace StoredProgram

def Files.Readable {σ File : Type} (files : Files (StateM σ) File) (s : σ) (path : String) : Prop :=
  ∃ bytes, (files.read path s).1 = .ok bytes

def Files.Openable {σ File : Type} (files : Files (StateM σ) File) (s : σ) (path : String) : Prop :=
  ∃ file, (files.create path s).1 = .ok file

theorem fromUTF8?_toUTF8 (text : String) :
    String.fromUTF8? ⟨text.toUTF8.data.toList.toArray⟩ = some text := by
  have valid : (⟨text.toUTF8.data.toList.toArray⟩ : ByteArray).IsValidUTF8 := text.isValidUTF8
  rw [String.fromUTF8?, dif_pos valid]
  rfl

/-- An assembled image has a listing, and the listing is assembled to the same image. -/
theorem exists_listing_of_assemble {text : String} {image : Image} (assembled : assemble text = .ok image)
    (short : image.static.length < 4294967296) :
    ∃ listing, image.listing = .ok listing ∧ assemble listing = .ok image := by
  obtain ⟨statements, valid, few, rfl⟩ := statements_of_assemble assembled
  exact ⟨_, Image.listing_ofStatements valid few short, assemble_texts valid few⟩

namespace Command

open ArgumentParser

variable {σ File : Type} {files : Files (StateM σ) File} {view : FileView σ File} {parser : ArgumentParser}
  {draw : Table → String} {s : σ} {source object target text : String} {bytes : List UInt8} {image : Image}

/-- What is read at a path is what the file there holds. -/
theorem read_of_holds (lawful : files.Lawful view) (holds : view.Holds s source bytes)
    (readable : files.Readable s source) : (files.read source s).1 = .ok bytes := by
  obtain ⟨found, read⟩ := readable
  obtain ⟨file, leads, held⟩ := holds
  obtain ⟨fileToo, leadsToo, heldToo⟩ := lawful.read_ok read
  rw [leads] at leadsToo
  cases leadsToo
  rw [held] at heldToo
  cases heldToo
  exact read

theorem perform_assembler (lawful : files.Lawful view) (documented : parser.Documented)
    (first : IsValue source) (second : IsValue target) (read : (files.read source s).1 = .ok bytes)
    (utf8 : String.fromUTF8? ⟨bytes.toArray⟩ = some text)
    (assembled : StoredProgram.assemble text = .ok image) (openable : files.Openable s target) (limit : Nat)
    (input : List UInt8) :
    ∃ s', performWithin files parser draw limit ⟨.assembler, [source, target], input⟩ s = ({}, s') ∧
      view.Replaced s s' target image.toBytes := by
  obtain ⟨file, opened⟩ := openable
  have parsed : (⟨.assembler, [source, target], input⟩ : Invocation).command parser =
      .ok (assemble ⟨source, target⟩) := by
    rw [Invocation.command, documented.assembler first second]
    rfl
  obtain ⟨s', done, puts, leads⟩ := performWithin_of_makes lawful parsed
    ⟨rfl, opened, bytes, text, image, read, utf8, assembled, rfl⟩
  exact ⟨s', done, file, puts, leads⟩

theorem perform_disassembler (lawful : files.Lawful view) (documented : parser.Documented)
    (first : IsValue object) (second : IsValue target) (read : (files.read object s).1 = .ok image.toBytes)
    (few : image.code.length < 4294967296) (listed : image.listing = .ok text)
    (openable : files.Openable s target) (limit : Nat) (input : List UInt8) :
    ∃ s', performWithin files parser draw limit ⟨.disassembler, [object, target], input⟩ s = ({}, s') ∧
      view.Replaced s s' target text.toUTF8.data.toList := by
  obtain ⟨file, opened⟩ := openable
  have parsed : (⟨.disassembler, [object, target], input⟩ : Invocation).command parser =
      .ok (disassemble ⟨object, target⟩) := by
    rw [Invocation.command, documented.disassembler first second]
    rfl
  obtain ⟨s', done, puts, leads⟩ := performWithin_of_makes lawful parsed
    ⟨rfl, opened, image.toBytes, image, text, read, Image.ofBytes_toBytes few, listed, rfl⟩
  exact ⟨s', done, file, puts, leads⟩

theorem machine_toBytes (few : image.code.length < 4294967296) (config : Config) (input : List UInt8) :
    machine image.toBytes config input = (Machine.withImage image config input).mapError .fault := by
  rw [machine, Image.ofBytes_toBytes few]
  rfl

section
variable {size : Nat}

/-- A run of an image file is a run of the image. -/
theorem perform_runner (lawful : files.Lawful view) (documented : parser.Documented) (value : IsValue object)
    (small : size < sizeLimit) (read : (files.read object s).1 = .ok image.toBytes)
    (few : image.code.length < 4294967296) (draw : Table → String) (limit : Nat) (input : List UInt8) :
    performWithin files parser draw limit ⟨.runner, [object, "--memory-size", Nat.repr size], input⟩ s =
      (runReport (((Machine.withImage image { memorySize := size } input).mapError .fault).map
        (Machine.run draw limit)), s) := by
  have parsed : (⟨.runner, [object, "--memory-size", Nat.repr size], input⟩ : Invocation).command parser =
      .ok (run ⟨object, none, size⟩) := by
    rw [Invocation.command, documented.runner value small]
    rfl
  rw [performWithin_of_command parsed]
  apply execute_run
  have loads : machine image.toBytes (RunOptions.config ⟨object, none, size⟩) input =
      (Machine.withImage image { memorySize := size } input).mapError .fault := machine_toBytes few _ input
  rw [runImage, bind_of_ok (attempt_of_ok (read_eq lawful read))]
  cases loaded : (Machine.withImage image { memorySize := size } input).mapError CommandError.fault with
  | error e => rw [bind_of_error (check_of_error (loads.trans loaded))]; rfl
  | ok m => rw [bind_of_ok (check_of_ok (loads.trans loaded))]; rfl

end

/-- The commands do to files what the library does to texts, images and machines, on any files that keep the
laws and with any parser as it is documented. A source text that is assembled is assembled into the file of
its image. That file is listed, and its listing is assembled into the same file again. A run of it shows the
output of a run of the image, and how that ended, once it is given enough steps to end. -/
theorem commands_agree_with_library (lawful : files.Lawful view) (documented : parser.Documented)
    (draw : Table → String) {listing again : String}
    (values : ∀ path ∈ [source, object, listing, again], IsValue path)
    (assembled : StoredProgram.assemble text = .ok image)
    (short : image.static.length < 4294967296) (few : image.code.length < 4294967296) :
    (∀ s bytes limit input, (files.read source s).1 = .ok bytes →
      String.fromUTF8? ⟨bytes.toArray⟩ = some text → files.Openable s object →
      ∃ s₁, performWithin files parser draw limit ⟨.assembler, [source, object], input⟩ s = ({}, s₁) ∧
        view.Replaced s s₁ object image.toBytes) ∧
    (∃ listed, image.listing = .ok listed ∧ ∀ s₁ limit input, view.Holds s₁ object image.toBytes →
      files.Readable s₁ object → files.Openable s₁ listing →
      ∃ s₂, performWithin files parser draw limit ⟨.disassembler, [object, listing], input⟩ s₁ = ({}, s₂) ∧
        view.Replaced s₁ s₂ listing listed.toUTF8.data.toList ∧
        (files.Readable s₂ listing → files.Openable s₂ again →
          ∃ s₃, performWithin files parser draw limit ⟨.assembler, [listing, again], input⟩ s₂ = ({}, s₃) ∧
            view.Replaced s₂ s₃ again image.toBytes)) ∧
    ∀ s, view.Holds s object image.toBytes → files.Readable s object → ∀ size < sizeLimit, ∀ input,
      let config : Config := { memorySize := size }
      let call : Invocation := ⟨.runner, [object, "--memory-size", Nat.repr size], input⟩
      (∀ fault, Machine.withImage image config input = .error fault → ∀ limit,
        performWithin files parser draw limit call s =
          (⟨some 1, "", "Error: " ++ fault.message ++ "\n"⟩, s)) ∧
      ∀ m, Machine.withImage image config input = .ok m → ∀ limit more, limit ≤ more →
        ((m.run draw limit).ending = .halted →
          performWithin files parser draw more call s =
            (⟨some 0, (m.run draw limit).machine.output, ""⟩, s)) ∧
        ∀ fault, (m.run draw limit).ending = .failed fault →
          performWithin files parser draw more call s =
            (⟨some 1, (m.run draw limit).machine.output, "Error: " ++ fault.message ++ "\n"⟩, s) := by
  have isSource : IsValue source := values source (by simp)
  have isObject : IsValue object := values object (by simp)
  have isListing : IsValue listing := values listing (by simp)
  have isAgain : IsValue again := values again (by simp)
  refine ⟨?_, ?_, ?_⟩
  · intro s bytes limit input read utf8 openable
    exact perform_assembler lawful documented isSource isObject read utf8 assembled openable limit input
  · obtain ⟨listed, listable, same⟩ := exists_listing_of_assemble assembled short
    refine ⟨listed, listable, ?_⟩
    intro s₁ limit input holds readable openable
    obtain ⟨s₂, done, replaced⟩ := perform_disassembler lawful documented isObject isListing
      (read_of_holds lawful holds readable) few listable openable limit input
    refine ⟨s₂, done, replaced, ?_⟩
    intro readableToo openableToo
    exact perform_assembler lawful documented isListing isAgain
      (read_of_holds lawful replaced.holds readableToo) (fromUTF8?_toUTF8 listed) same openableToo limit input
  · intro s holds readable size small input config call
    have performs := fun limit => perform_runner lawful documented isObject small
      (read_of_holds lawful holds readable) few draw limit input
    constructor
    · intro fault failed limit
      rw [performs, failed]
      rfl
    · intro m loaded limit more enough
      have ends (ended : (m.run draw limit).ending ≠ .unfinished) :
          performWithin files parser draw more call s = (runReport (.ok (m.run draw limit)), s) := by
        rw [performs, loaded, ← Machine.run_of_ended ended enough]
        rfl
      constructor
      · intro halted
        rw [ends (by rw [halted]; exact Ending.noConfusion), runReport, halted]
      · intro fault failed
        rw [ends (by rw [failed]; exact Ending.noConfusion), runReport, failed]
        rfl

/-- A program that prints seven, in a memory of 64 words. -/
theorem commands_agree_with_library_on_seven :
    let text := "LOADL r1 7\nPRINT *r1\nTERM\n"
    let start : Files.ByPath := fun path => if path = "source" then some text.toUTF8.data.toList else none
    let perform (tool : Tool) (args : List String) :=
      performWithin Files.ByPath.files Arguments.parser Table.text 5 ⟨tool, args, []⟩
    let s₁ := (perform .assembler ["source", "image"] start).2
    let s₂ := (perform .disassembler ["image", "listing"] s₁).2
    let s₃ := (perform .assembler ["listing", "again"] s₂).2
    (perform .assembler ["source", "image"] start).1 = {} ∧
      s₁ "image" = some [3, 0, 0, 0, 7, 0, 48, 112, 0, 0, 48, 89, 0, 0, 0, 64] ∧
      s₂ "listing" = some text.toUTF8.data.toList ∧ s₃ "again" = s₁ "image" ∧
      perform .runner ["image", "--memory-size", "64"] s₁ = (⟨some 0, "7\n", ""⟩, s₁) := by
  intro text start perform s₁ s₂ s₃
  let image : Image := ⟨[1882193927, 1496317952, 1073741824], []⟩
  have success : StoredProgram.assemble text = .ok image := eq_ok_of_toOption (by decide +kernel)
  have values : ∀ path ∈ ["source", "image", "listing", "again"], IsValue path := by decide
  have openable (s : Files.ByPath) (path : String) : Files.ByPath.files.Openable s path := ⟨path, rfl⟩
  have readable {s : Files.ByPath} {path : String} {bytes : List UInt8} (held : s path = some bytes) :
      Files.ByPath.files.Readable s path := ⟨bytes, by simp only [Files.ByPath.files, held]⟩
  obtain ⟨assembles, ⟨listed, listable, converts⟩, runs⟩ := commands_agree_with_library
    Files.ByPath.lawful Arguments.documented Table.text values success (by decide) (by decide)
  obtain ⟨t₁, done₁, replaced₁⟩ :=
    assembles start text.toUTF8.data.toList 5 [] rfl (fromUTF8?_toUTF8 text) (openable _ _)
  obtain rfl : s₁ = t₁ := congrArg Prod.snd done₁
  have held₁ := Files.ByPath.holds_iff.mp replaced₁.holds
  obtain ⟨t₂, done₂, replaced₂, reassembles⟩ :=
    converts s₁ 5 [] replaced₁.holds (readable held₁) (openable _ _)
  obtain rfl : s₂ = t₂ := congrArg Prod.snd done₂
  have held₂ := Files.ByPath.holds_iff.mp replaced₂.holds
  obtain ⟨t₃, done₃, replaced₃⟩ := reassembles (readable held₂) (openable _ _)
  obtain rfl : s₃ = t₃ := congrArg Prod.snd done₃
  have held₃ := Files.ByPath.holds_iff.mp replaced₃.holds
  obtain ⟨_, shows⟩ := runs s₁ replaced₁.holds (readable held₁) 64 (by decide) []
  have loaded := @Machine.withImage_of_fits { memorySize := 64 } image (by decide) (by decide)
    (by decide) []
  obtain ⟨halts, _⟩ := shows _ loaded 5 5 (Nat.le_refl 5)
  have ran := halts (by decide +kernel)
  have listing : image.listing = .ok text := eq_ok_of_toOption (by decide +kernel)
  rw [listing] at listable
  cases listable
  have bytes : image.toBytes = [3, 0, 0, 0, 7, 0, 48, 112, 0, 0, 48, 89, 0, 0, 0, 64] := by decide +kernel
  have printed : (Machine.run Table.text 5 ((Action.loaded image
      { memory := .zero 64, trace := false, input := [] }).logged
        (Trace.loaded image.code.length))).machine.output = "7\n" := by
    decide +kernel
  have numeral : Nat.repr 64 = "64" := by decide
  refine ⟨congrArg Prod.fst done₁, held₁.trans (congrArg some bytes), held₂, held₃.trans held₁.symm, ?_⟩
  rw [← numeral, ← printed]
  exact ran

end Command
end StoredProgram
