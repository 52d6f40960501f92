import ContractApi.Proofs.FailureReports
import ContractApi.Proofs.ProductLines
/-!
# Products

- The products that are asked for are written in their order, each of them to its file. Without files they are printed
  (`writeProducts_printed`); with files they are written as far as files can be opened (`writeProducts_files`), which
  they can in an empty folder unless a path is too long (`openFault?_askedWrites`, `run_of_long`).
- A command for a document that can be converted does nothing else, apart from notices (`run_of_described`).
- `run_products` says what comes of all settings and documents.
-/

namespace ContractApi

open Abi OpenApi Output

namespace CommandLine

/-! ## Writing products -/

/-- What is printed of products that were asked for: each one that has lines, behind a header if there are several. -/
def printedProducts (settings : Settings) (writer : Writer) (lines : Product → List Text) : Text :=
  settings.asked.flatMap fun p =>
    (if settings.AsksSeveral ∧ lines p ≠ [] then writer.header p.file else []) ++ Text.ofLines (lines p)

/-- Something is printed if the description is asked for. -/
theorem printedProducts_ne_nil {settings : Settings} {writer : Writer} {raw d indent : Value}
    {lines : Product → List Text} (hlines : ProductLines raw settings.contractName d indent lines)
    (h : settings.Asks .description) : printedProducts settings writer lines ≠ [] := by
  intro hnil
  obtain ⟨text, _, hdescription⟩ := hlines.description
  obtain ⟨_, hnothing⟩ := List.append_eq_nil_iff.1 (List.flatMap_eq_nil_iff.1 hnil .description (Settings.mem_asked.2 h))
  rw [hdescription] at hnothing
  cases (List.append_eq_nil_iff.1 (List.append_eq_nil_iff.1 hnothing).1).2

/-- What is written of products that were asked for. -/
def askedWrites (settings : Settings) (lines : Product → List Text) : List Writer.Write :=
  settings.asked.flatMap (Writer.groupOf lines)

theorem printout_askedWrites {settings : Settings} {lines : Product → List Text} {writer : Writer}
    (hs : writer.several = settings.selectsSeveral) :
    writer.printout [] (askedWrites settings lines) = printedProducts settings writer lines := by
  have hnew : ∀ p ∈ settings.asked, p.file ∉ Writer.filesOf [] := fun _ _ => List.not_mem_nil
  rw [Writer.printout, askedWrites, Writer.inTurn_groups lines
    (fun file => if writer.several then writer.header file else []) _ settings.nodup_asked hnew, printedProducts]
  refine List.flatMap_congr fun p _ => ?_
  rw [hs, settings.selectsSeveral_eq]
  by_cases hl : lines p = [] <;> by_cases hm : settings.AsksSeveral <;> simp [hl, hm] <;> rfl

section Writing

variable {settings : Settings} {c : Conversion} {d indent : Value} {lines : Product → List Text}
  (hlines : ∀ p, (linesOf c d indent p).result = .ok (lines p))

include hlines

theorem stepsOf_eq : stepsOf settings c d indent = Writer.stepsFor (askedWrites settings lines) := by
  have hproduct : ∀ p, stepsOfProduct c d indent p = Writer.stepsFor (Writer.groupOf lines p) := by
    intro p
    rw [stepsOfProduct, hlines p, Writer.stepsFor, Writer.groupOf, List.map_map]
    rfl
  have hasked : Product.all.filter settings.selects = settings.asked :=
    List.filter_congr fun p _ => settings.selects_eq p
  rw [stepsOf, hasked, askedWrites, Writer.stepsFor, List.map_flatMap]
  exact List.flatMap_congr fun p _ => hproduct p

variable {name : Value} (hname : c.getContractName.1.result = .ok name)

include hname

/-- Without files, lines without surrogates are printed, if the standard output takes the name of the folder or no headers
are asked for. -/
theorem writeProducts_printed (hf : settings.toFiles = false) (hplain : ∀ p, ∀ line ∈ lines p, line.Plain) {w : World}
    (hfolder : settings.AsksSeveral → w.capacity.Takes (Writer.ofSettings settings name).folder) :
    writeProducts (m := StateM World) settings c d indent w =
      (.ok (), w.printed (printedProducts settings (.ofSettings settings name) lines)) := by
  have hheaded : (Writer.ofSettings settings name).HasHeaded [] := fun _ => rfl
  have hto : (Writer.ofSettings settings name).toFiles = false := hf
  have hprintable : ∀ x ∈ Writer.writes (Writer.stepsFor (askedWrites settings lines) : List (Writer.Step Failure)),
      (Writer.ofSettings settings name).IsPrintable w.capacity x := by
    rw [Writer.writes_stepsFor]
    intro x hx
    obtain ⟨p, _, hx⟩ := List.mem_flatMap.1 hx
    obtain ⟨line, hline, rfl⟩ := List.mem_map.1 hx
    refine ⟨Capacity.takes_of_plain (hplain p line hline), fun hs => Writer.takes_heading_file (hfolder ?_) p⟩
    exact of_decide_eq_true ((settings.selectsSeveral_eq).symm.trans hs)
  obtain ⟨course, hrun, hending, hnotices⟩ := Writer.run_printed hto hheaded
    (Writer.stepsFor (askedWrites settings lines) : List (Writer.Step Failure)) hprintable
  rw [Writer.writes_stepsFor, printout_askedWrites rfl] at hrun
  rw [Writer.raised?_stepsFor] at hending
  rw [writeProducts, hname]
  dsimp only
  rw [stateM_bind, stepsOf_eq hlines, hrun]
  dsimp only
  rw [hnotices, hending]
  rfl

/-- With files, the products are written up to the first file that cannot be opened. -/
theorem writeProducts_files (ht : settings.toFiles = true) (hplain : ∀ p, ∀ line ∈ lines p, line.Plain) {w : World}
    {made : Tree} {folders : List Text}
    (hm : w.tree.makeFolders (Writer.ofSettings settings name).folder = (made, folders, .ok ())) :
    ∃ (course : Writer.Course Failure) (s : World),
      (Writer.ofSettings settings name).WritesFiles made folders (Writer.stepsFor (askedWrites settings lines))
        ((Writer.ofSettings settings name).kept made (askedWrites settings lines)) w course s ∧
      writeProducts (m := StateM World) settings c d indent w =
        (match course.ending with
          | none => .ok ()
          | some ending => .error (.ofEnding ending),
        s.told (shown settings.logLevel w.time [.outputWritten (Writer.ofSettings settings name).folder])) := by
  have hwrites : ∀ x ∈ Writer.writes (Writer.stepsFor (askedWrites settings lines) : List (Writer.Step Failure)),
      Path.IsComponent x.file ∧ x.line.Plain := by
    rw [Writer.writes_stepsFor]
    intro x hx
    obtain ⟨p, _, hx⟩ := List.mem_flatMap.1 hx
    obtain ⟨line, hline, rfl⟩ := List.mem_map.1 hx
    exact ⟨Writer.isComponent_file p, hplain p line hline⟩
  have hto : (Writer.ofSettings settings name).toFiles = true := ht
  obtain ⟨course, s, hrun, hwritten⟩ := Writer.run_files hto
    (Path.endsInSlash_joined _ (isComponent_folderName name)) rfl (fun x hx => (hwrites x hx).1)
    (fun x hx => (hwrites x hx).2) hm
  rw [Writer.writes_stepsFor] at hwritten
  refine ⟨course, s, hwritten, ?_⟩
  rw [writeProducts, hname]
  dsimp only
  rw [stateM_bind, stepsOf_eq hlines, hrun]
  dsimp only
  rw [hwritten.notices, stateM_bind, forM_tell_eq, hwritten.streams.time]
  cases course.ending <;> rfl

end Writing

/-- The writer for the contract that a document describes. -/
def writerOf (settings : Settings) (raw : Value) : Writer :=
  .ofSettings settings (contractNameOf raw settings.contractName)

/-! ## Files of products -/

/-- Whether there is nothing in the folder of a writer, and the paths of the files that go there are not too long. -/
structure IsReady (settings : Settings) (writer : Writer) (made : Tree) (lines : Product → List Text) : Prop where
  empty : ∀ location, made.LeadsToFolder writer.folder location → ∀ name, made.at? (location ++ [name]) = none
  short : ∀ p, settings.Asks p → lines p ≠ [] → Tree.byteCount (writer.path p.file) ≤ Tree.maxPathBytes

/-- What has been done when the products of a document went to files. -/
structure WritesProducts (settings : Settings) (writer : Writer) (made : Tree) (lines : Product → List Text)
    (told : List Notice) (w : World) (ran : Except Stop Nat × World) : Prop where
  code : ran.1 = .ok 0
  /-- Notices are all that is printed. -/
  output : ran.2.output = w.output ++ w.capacity.shownOf (shown settings.logLevel w.time told)
  errors : ran.2.errors = w.capacity.reportedOn (w.errors ++ earlyLines w.capacity settings)
    (shown settings.logLevel w.time told)
  onlyFolders : w.tree.AddsFolders made
  /-- The file of a product that is asked for holds its lines, each with its end. -/
  read : ∀ p, settings.Asks p → lines p ≠ [] → ∃ bytes,
    (Text.ofLines (lines p)).encode = .ok bytes ∧ ran.2.tree.read (writer.path p.file) = .ok bytes
  /-- In the folder there is nothing but these files, and outside of it nothing changes. -/
  inFolder : ∃ location, made.LeadsToFolder writer.folder location ∧
    (∀ name, ran.2.tree.at? (location ++ [name]) ≠ none ↔ ∃ p, settings.Asks p ∧ lines p ≠ [] ∧ p.file = name) ∧
    ∀ l, (∀ name, l ≠ location ++ [name]) → ran.2.tree.at? l = made.at? l

section Files

variable {settings : Settings} {lines : Product → List Text} {name : Value} {made : Tree}

theorem mem_filesOf_askedWrites {file : Text} : file ∈ Writer.filesOf (askedWrites settings lines) ↔
    ∃ p, settings.Asks p ∧ lines p ≠ [] ∧ p.file = file := by
  rw [askedWrites, Writer.mem_filesOf_groups]
  simp only [Settings.mem_asked]

/-- In an empty folder, files can be opened whose paths are not too long. -/
theorem openFault?_askedWrites (hfolder : made.isFolder (Writer.ofSettings settings name).folder = true)
    (hready : IsReady settings (.ofSettings settings name) made lines) :
    ∀ x ∈ askedWrites settings lines, (Writer.ofSettings settings name).openFault? made x.file = none := by
  intro x hx
  obtain ⟨p, hp, hne, hfile⟩ := mem_filesOf_askedWrites.1 (Writer.mem_filesOf.2 ⟨x, hx, rfl⟩)
  obtain ⟨hcheck, location, hleads⟩ := Tree.isFolder_iff.1 hfolder
  have he : Path.endsInSlash (Writer.ofSettings settings name).folder = false :=
    Path.endsInSlash_joined _ (isComponent_folderName name)
  have hcomponent := Writer.isComponent_file p
  have hpath : Tree.checkPath p.file = .ok () := by cases p <;> rfl
  have hname : Tree.byteCount p.file ≤ Tree.maxNameBytes := by cases p <;> decide
  rw [← hfile, Writer.openFault?_eq_none hleads he hcomponent]
  have hfits := Tree.FitsBelow.of_checkPath hcheck (Tree.ne_nil_of_locate hleads.locate) he hcomponent hpath
    (hready.short p hp hne) hname
  refine ⟨hfits, ?_⟩
  rw [hready.empty location hleads]
  exact fun h => by cases h

end Files

/-! ## Conversions that succeed -/

theorem raw_run (c : Conversion) : c.run.2.raw = c.raw := by
  cases he : isEmptyBody c.raw with
  | true => rw [Conversion.run_state_of_empty he]
  | false =>
    cases hv : c.currentValidation.isValid with
    | false =>
      rw [Conversion.run_state_of_invalid he hv]
      rfl
    | true =>
      rw [Conversion.run_state_of_valid he hv, Conversion.getDocument_state]
      rfl

theorem getContractName_of_parsed {raw contractName : Value} {i : Interface}
    (hi : (readInterface raw contractName).result = .ok i) {c : Conversion} (hp : c.parsed = some (.record i)) :
    c.getContractName.1.result = .ok (contractNameOf raw contractName) := by
  obtain ⟨_, _, _, _, _, rfl, _⟩ := readInterface_records hi
  simp [Conversion.getContractName, Conversion.getParsed, hp, Interface.ofRecords]

/-- Of a conversion that succeeds, the products are written, between its notices and the last one. -/
theorem convertDocument_of_success {settings : Settings} {raw d : Value} (indent : Value)
    (hd : (convert raw settings.contractName (.bool settings.strict)).result = .ok (.success d)) : ∃ i c,
      (readInterface raw settings.contractName).result = .ok i ∧ c.raw = raw ∧ c.parsed = some (.record i) ∧
      ∀ w : World, convertDocument (m := StateM World) settings indent raw w =
        match writeProducts (m := StateM World) settings c d indent (w.told (shown settings.logLevel w.time
          (convert raw settings.contractName (.bool settings.strict)).notices)) with
        | (.ok _, s) => (.ok 0, s.told (shown settings.logLevel s.time [.workDone]))
        | (.error stop, s) => (.error stop, s) := by
  obtain ⟨i, document, hi, _, _, hparsed, _⟩ := run_of_success hd
  refine ⟨i, _, hi, raw_run _, hparsed, fun w => ?_⟩
  rw [convert] at hd ⊢
  rw [convertDocument]
  dsimp only
  rw [stateM_bind, forM_tell_eq, hd]
  dsimp only
  rw [stateM_bind]
  generalize writeProducts (m := StateM World) _ _ _ _ _ = written
  obtain ⟨result, s⟩ := written
  cases result with
  | error stop => rfl
  | ok u =>
    dsimp only
    rw [stateM_bind, tell_eq]
    rfl

/-- What the document is does not depend on what was printed before. -/
theorem readDocument_started (settings : Settings) (description source : Text) (w : World) :
    (readDocument (m := StateM World) source (started settings description w)).1 =
      (readDocument (m := StateM World) source w).1 := by
  have hsource : (readSource (m := StateM World) source (started settings description w)).1 =
      (readSource (m := StateM World) source w).1 := by
    unfold readSource
    split
    · rfl
    · have hread : ∀ v : World, (Surroundings.readFile source : StateM World (Except FileFault (List UInt8))) v =
        (v.tree.read source, v) := fun _ => rfl
      have htree : (started settings description w).tree = w.tree := rfl
      rw [stateM_bind, stateM_bind, hread, hread, htree]
      rcases w.tree.read source with ⟨_ | _⟩ | _ <;> rfl
  rw [readDocument_eq, readDocument_eq, hsource]
  rfl

section Runs

variable {arguments : List Text} {source : Text} {settings : Settings}
  (ha : Arguments.parse arguments = .ok ⟨source, settings.options⟩) {indent : Value} (hi : settings.indent = .ok indent)
  {w : World} {raw d : Value} (hr : (readDocument (m := StateM World) source w).1 = .ok raw)
  (hd : (convert raw settings.contractName (.bool settings.strict)).result = .ok (.success d))

/-- The notices that stand in front of the products. -/
def toldBefore (settings : Settings) (description : Text) (raw : Value) : List Notice :=
  .usingSettings description :: (convert raw settings.contractName (.bool settings.strict)).notices

/-- The world in which the products are written: unknown outputs have been named, and the settings and the notices of the
conversion told. -/
def converted (settings : Settings) (description : Text) (raw : Value) (w : World) : World :=
  (w.complained (earlyLines w.capacity settings)).told
    (shown settings.logLevel w.time (toldBefore settings description raw))

include ha hi hr hd

/-- A command for a document that can be converted writes its products. -/
theorem run_of_described : ∃ i c description, (readInterface raw settings.contractName).result = .ok i ∧ c.raw = raw ∧
    c.parsed = some (.record i) ∧ settings.describe = .ok description ∧
    run (m := StateM World) arguments settings.environment w =
      match writeProducts (m := StateM World) settings c d indent (converted settings description raw w) with
      | (.ok _, s) => (.ok 0, s.told (shown settings.logLevel s.time [.workDone]))
      | (.error stop, s) => (.error stop, s) := by
  obtain ⟨i, c, hread, hraw, hparsed, hconvert⟩ := convertDocument_of_success indent hd
  obtain ⟨description, hdescribe, hrun⟩ := runArguments_of_indent (a := ⟨source, settings.options⟩) hi w
  have hdocument : (readDocument (m := StateM World) source (started settings description w)).1 = .ok raw :=
    (readDocument_started ..).trans hr
  refine ⟨i, c, description, hread, hraw, hparsed, hdescribe, ?_⟩
  rw [run, ha]
  dsimp only
  rw [hrun, hdocument]
  dsimp only
  have htold : (started settings description w).told (shown settings.logLevel w.time
      (convert raw settings.contractName (.bool settings.strict)).notices) = converted settings description raw w := by
    rw [started, told_shown]
    rfl
  rw [hconvert, ← htold]
  rfl

end Runs

/-- What was written file by file are the files of the products. -/
theorem writesProducts_of_writesFiles {settings : Settings} {name : Value} {made : Tree} {folders : List Text}
    {lines : Product → List Text} {description : Text} {raw : Value} {course : Writer.Course Failure} {w s : World}
    (h : (Writer.ofSettings settings name).WritesFiles made folders (Writer.stepsFor (askedWrites settings lines))
      (askedWrites settings lines) (converted settings description raw w) course s)
    (hready : IsReady settings (.ofSettings settings name) made lines) :
    WritesProducts settings (.ofSettings settings name) made lines
      (toldBefore settings description raw ++ [.outputWritten (Writer.ofSettings settings name).folder, .workDone]) w
      (.ok 0, (s.told (shown settings.logLevel w.time [.outputWritten (Writer.ofSettings settings name).folder])).told
        (shown settings.logLevel s.time [.workDone])) where
  code := rfl
  output := by
    have houtput : s.output = w.output ++ w.capacity.shownOf (shown settings.logLevel w.time _) := h.streams.output
    have htime : s.time = w.time := h.streams.time
    have hcapacity : s.capacity = w.capacity := h.streams.capacity
    rw [htime, told_shown, World.told, houtput, hcapacity, List.append_assoc, ← Capacity.shownOf_append, ← shown_append]
    rfl
  errors := by
    have herrors : s.errors = w.capacity.reportedOn (w.errors ++ earlyLines w.capacity settings)
      (shown settings.logLevel w.time _) := h.streams.errors
    have htime : s.time = w.time := h.streams.time
    have hcapacity : s.capacity = w.capacity := h.streams.capacity
    rw [htime, told_shown, World.told, herrors, hcapacity, ← Capacity.reportedOn_append, ← shown_append]
    rfl
  onlyFolders := h.onlyFolders
  read := by
    intro p hp hne
    obtain ⟨bytes, hbytes, hread⟩ := h.read p.file (mem_filesOf_askedWrites.2 ⟨p, hp, hne, rfl⟩)
    rw [askedWrites, Writer.textOf_groups lines settings.nodup_asked (Settings.mem_asked.2 hp)] at hbytes
    exact ⟨bytes, hbytes, hread⟩
  inFolder := by
    obtain ⟨location, hleads, hfiles, helse⟩ := h.inFolder
    refine ⟨location, hleads, fun name => ?_, fun l hl => helse l fun file _ => hl file⟩
    rw [← mem_filesOf_askedWrites]
    constructor
    · intro hsome
      by_contra hnot
      refine hsome ((helse _ fun file hf heq => hnot ?_).trans (hready.empty location hleads name))
      exact Writer.below_inj.1 heq ▸ hf
    · intro hmem hnone
      cases (hfiles name hmem).symm.trans hnone

/-! ## A document at the standard input -/

theorem legible_shop : shop.Legible 6 := by
  have hinj : ∀ s s' : String, Text.ofString s = Text.ofString s' ↔ s = s' :=
    fun s s' => ⟨fun h => Value.key_ofString_injective (congrArg Key.text h), congrArg Text.ofString⟩
  simp [shop, Value.Legible, Value.ItemsLegible, Value.EntriesLegible, Text.unsplit_ofString, hinj]

/-- The world in which a shop stands at the standard input, and nothing else is there. -/
def shopWorld : World := { tree := .ofFiles [], input := Json.write .oneLine shop }

theorem readDocument_standardInput (w : World) :
    (readDocument (m := StateM World) standardInput w).1 = parseDocument w.capacity.levels w.input := by
  rw [readDocument_eq, readSource, if_pos rfl]
  rfl

theorem readDocument_shop : (readDocument (m := StateM World) standardInput shopWorld).1 = .ok shop := by
  have hblank : Json.Layout.oneLine.Blank := trivial
  have hroom : 6 ≤ shopWorld.capacity.levels := by decide
  have hread : Json.readWithin shopWorld.capacity.levels shopWorld.input = .ok shop :=
    Json.readWithin_write (legible_shop.mono hroom) hblank
  rw [readDocument_standardInput, parseDocument, hread]

/-- That world with a standard output that takes no surrogates. -/
def narrowWorld : World := { shopWorld with capacity := { refused := fun _ => true } }

/-- The settings that ask for all products as files. -/
def allFiles : Settings := ⟨{ skipsEnvironmentFile := true, toFiles := true, outputs := some ["all"] }, []⟩

theorem shop_named : ∀ i, (readInterface shop .null).result = .ok i → i.events.All fun e => e.inputs.Named := by
  intro i hi
  obtain ⟨fs, es, rs, d, hread, _, hnames⟩ := shop_described
  cases hread.symm.trans hi
  exact Slots.all_records.2 fun e hmem => named_of_wellFormed (hnames.events e hmem)

/-! ## Paths that are too long -/

/-- A file whose path is too long is not made. -/
theorem run_of_long {arguments : List Text} {source : Text} {settings : Settings}
    (ha : Arguments.parse arguments = .ok ⟨source, settings.options⟩) {indent : Value} (hi : settings.indent = .ok indent)
    (hs : Json.IsSpacing indent) {w : World} {raw d : Value}
    (hr : (readDocument (m := StateM World) source w).1 = .ok raw)
    (hd : (convert raw settings.contractName (.bool settings.strict)).result = .ok (.success d)) (hp : raw.Plain)
    {lines : Product → List Text} (hlines : ProductLines raw settings.contractName d indent lines)
    (ht : settings.toFiles = true) {made : Tree} {folders : List Text}
    (hm : w.tree.makeFolders (writerOf settings raw).folder = (made, folders, .ok ())) {p : Product}
    (hlong : Tree.maxPathBytes < Tree.byteCount ((writerOf settings raw).path p.file)) {location : Location}
    (hleads : made.LeadsToFolder (writerOf settings raw).folder location) :
    (run (m := StateM World) arguments settings.environment w).2.tree.at? (location ++ [p.file]) =
      made.at? (location ++ [p.file]) := by
  obtain ⟨i, c, description, hread, hraw, hparsed, _, hrun⟩ := run_of_described ha hi hr hd
  have hof : ∀ p, (linesOf c d indent p).result = .ok (lines p) := hlines.linesOf_eq hraw hread hparsed
  obtain ⟨course, s, hwritten, heq⟩ := writeProducts_files hof (getContractName_of_parsed hread hparsed) ht
    (hlines.plain hs hp) (w := converted settings description raw w) hm
  have htree : (run (m := StateM World) arguments settings.environment w).2.tree = s.tree := by
    rw [hrun, heq]
    cases course.ending <;> rfl
  have hfault : (writerOf settings raw).openFault? made p.file ≠ none := by
    intro hnone
    have he := Path.endsInSlash_joined settings.outputFolder
      (isComponent_folderName (contractNameOf raw settings.contractName))
    exact ((Writer.openFault?_eq_none hleads he (Writer.isComponent_file p)).1 hnone).1.short (.inl hlong)
  obtain ⟨location', hleads', _, helse⟩ := hwritten.inFolder
  cases hleads.locate.symm.trans hleads'.locate
  rw [htree]
  refine helse _ fun file hfile hl => hfault ?_
  obtain ⟨x, hx, rfl⟩ := Writer.mem_filesOf.1 hfile
  rw [Writer.below_inj.1 hl]
  exact Writer.openFault?_of_mem_kept hx

/-- A path that stays where it is. -/
def staying : Nat → Text
  | 0 => "."
  | n + 1 => staying n ++ "/."

theorem exists_staying : ∀ n, ∃ rest, staying n = .ofChar '.' :: rest
  | 0 => ⟨[], rfl⟩
  | n + 1 => by
    obtain ⟨rest, h⟩ := exists_staying n
    exact ⟨rest ++ "/.", by rw [staying, h]; rfl⟩

theorem endsInSlash_staying : ∀ n, Path.endsInSlash (staying n) = false
  | 0 => rfl
  | n + 1 => by
    rw [staying, Path.endsInSlash, List.getLast?_append]
    rfl

theorem byteCount_joined {folder name : Text} (hf : folder ≠ []) (he : Path.endsInSlash folder = false)
    (h : Path.IsComponent name) : Tree.byteCount (Path.joined folder name) =
      Tree.byteCount folder + 1 + Tree.byteCount name := by
  rw [Path.joined_of_component hf he h, Tree.byteCount, List.flatMap_append, List.length_append, List.flatMap_cons,
    List.length_append, ← Nat.add_assoc]
  rfl

theorem byteCount_staying : ∀ n, Tree.byteCount (staying n) = 2 * n + 1
  | 0 => rfl
  | n + 1 => by
    have h : Tree.byteCount (staying (n + 1)) = Tree.byteCount (staying n) + 2 := by
      rw [staying, Tree.byteCount, List.flatMap_append, List.length_append]
      rfl
    rw [h, byteCount_staying n]
    omega

theorem checkPath_staying : ∀ n, Tree.checkPath (staying n) = .ok ()
  | 0 => rfl
  | n + 1 => Tree.checkPath_eq_ok.2 <| List.forall_mem_append.2
    ⟨Tree.checkPath_eq_ok.1 (checkPath_staying n), Tree.checkPath_eq_ok.1 rfl⟩

theorem leadsToFolder_staying {tree : Tree} (h : tree.at? tree.here = some .folder) {n : Nat}
    (hn : Tree.byteCount (staying n) ≤ Tree.maxPathBytes) : tree.LeadsToFolder (staying n) tree.here := by
  have hstep : tree.follow tree.here "." = .ok tree.here := Tree.follow_of_folder h "."
  have hstays : (Path.names (staying n)).foldlM tree.follow tree.here = .ok tree.here := by
    clear hn
    induction n with
    | zero => exact except_bind_eq_ok.2 ⟨_, hstep, rfl⟩
    | succ n ih =>
      have hnames : Path.names (staying (n + 1)) = Path.names (staying n) ++ [("." : Text)] :=
        Path.names_append (staying n) "."
      rw [hnames, List.foldlM_append, ih]
      exact except_bind_eq_ok.2 ⟨_, rfl, except_bind_eq_ok.2 ⟨_, hstep, rfl⟩⟩
  obtain ⟨rest, heq⟩ := exists_staying n
  have hrelative : Path.isAbsolute (staying n) = false := by
    rw [heq]
    rfl
  refine ⟨?_, h⟩
  rw [Tree.locate, if_neg (by simp [heq]), if_neg (Nat.not_lt.2 hn), hrelative]
  exact hstays

/-- The settings that ask for the description as a file in such a folder. -/
def deepFiles : Settings := ⟨{ skipsEnvironmentFile := true, toFiles := true, outputFolder := .text (staying 2039) }, []⟩

theorem parse_deepFiles : Arguments.parse ["-", "--nodotenv", "-f", "--output_dir", staying 2039] =
    .ok ⟨"-", deepFiles.options⟩ := by
  obtain ⟨rest, h⟩ := exists_staying 2039
  rw [deepFiles, h]
  cases rest <;> rfl

theorem folder_deepFiles : (writerOf deepFiles shop).folder = Path.joined (staying 2039) "SmartContract" := by
  obtain ⟨rest, h⟩ := exists_staying 2039
  rw [writerOf, deepFiles, h]
  rfl

/-- In such a folder that of the shop can be made, but none of the files. -/
theorem deep_made : ∃ made folders location,
    shopWorld.tree.makeFolders (writerOf deepFiles shop).folder = (made, folders, .ok ()) ∧
    made.LeadsToFolder (writerOf deepFiles shop).folder location ∧ (∀ name, made.at? (location ++ [name]) = none) ∧
    Tree.maxPathBytes < Tree.byteCount ((writerOf deepFiles shop).path Product.description.file) := by
  have hcount := byteCount_staying 2039
  have he := endsInSlash_staying 2039
  have hcomponent : Path.IsComponent "SmartContract" := by decide
  have hpath : Tree.byteCount (staying 2039) ≤ Tree.maxPathBytes := by
    rw [hcount]
    decide
  have hleads : shopWorld.tree.LeadsToFolder (staying 2039) ["work"] := leadsToFolder_staying rfl hpath
  have hne := Tree.ne_nil_of_locate hleads.locate
  have hjoined : Tree.byteCount (Path.joined (staying 2039) "SmartContract") = 4093 := by
    rw [byteCount_joined hne he hcomponent, hcount]
    decide
  have hfits : Tree.FitsBelow (staying 2039) "SmartContract" := by
    refine .of_checkPath (checkPath_staying 2039) hne he hcomponent rfl ?_ (by decide)
    rw [hjoined]
    decide
  have hnone : shopWorld.tree.at? ((["work"] : Location) ++ [("SmartContract" : Text)]) = none := by rfl
  have hput := hleads.put (Tree.ne_folder_of_none hnone) .folder
  have hmade := Tree.makeFolders_below hleads he hcomponent (checkPath_staying 2039) hfits hnone
  have hfolder : Path.joined (staying 2039) "SmartContract" ≠ [] := by
    intro h
    rw [h] at hjoined
    cases hjoined
  rw [folder_deepFiles]
  refine ⟨_, _, _, hmade, ⟨Tree.locate_of_fits hput he hcomponent hfits, by rfl⟩, fun name => by rfl, ?_⟩
  rw [Writer.path, folder_deepFiles, byteCount_joined hfolder (Path.endsInSlash_joined _ hcomponent)
    (Writer.isComponent_file _), hjoined]
  decide

/-! ## Commands -/

/-- The settings that ask for an indentation beyond 64 bits. -/
def farIndent : Settings := ⟨{ skipsEnvironmentFile := true, indent := .int (-0x8000000000000001) }, []⟩

/-- The settings that ask for all products, and for a folder whose name is a byte that is no text. -/
def surrogateFolder : Settings :=
  ⟨{ skipsEnvironmentFile := true, outputs := some ["all"], outputFolder := .text [.ofNat 0xDC80] }, []⟩

/-- For a document that can be converted there are lines of all products. Without files, those that are asked for are
printed between notices, if the standard output takes the name of the folder or no headers are asked for; with files, the
folder of the contract holds nothing else. -/
theorem run_products {arguments : List Text} {source : Text} {settings : Settings}
    (ha : Arguments.parse arguments = .ok ⟨source, settings.options⟩) {indent : Value}
    (hi : settings.indent = .ok indent) (hs : Json.IsSpacing indent) {w : World} {raw d : Value}
    (hr : (readDocument (m := StateM World) source w).1 = .ok raw)
    (hd : (convert raw settings.contractName (.bool settings.strict)).result = .ok (.success d)) (hp : raw.Plain)
    (he : ∀ i, (readInterface raw settings.contractName).result = .ok i → i.events.All fun e => e.inputs.Named) :
    (∃ lines, ProductLines raw settings.contractName d indent lines) ∧ ∃ description,
      settings.describe = .ok description ∧ ∀ lines, ProductLines raw settings.contractName d indent lines →
        (settings.toFiles = false → (settings.AsksSeveral → w.capacity.Takes (writerOf settings raw).folder) →
          run (m := StateM World) arguments settings.environment w =
            (.ok 0, (((w.complained (earlyLines w.capacity settings)).told
              (shown settings.logLevel w.time (toldBefore settings description raw))).printed
              (printedProducts settings (writerOf settings raw) lines)).told
              (shown settings.logLevel w.time [.workDone]))) ∧
        (settings.toFiles = true → ∀ made folders,
          w.tree.makeFolders (writerOf settings raw).folder = (made, folders, .ok ()) →
          IsReady settings (writerOf settings raw) made lines →
          WritesProducts settings (writerOf settings raw) made lines
            (toldBefore settings description raw ++ [.outputWritten (writerOf settings raw).folder, .workDone]) w
            (run (m := StateM World) arguments settings.environment w)) := by
  obtain ⟨i, c, description, hread, hraw, hparsed, hdescribe, hrun⟩ := run_of_described ha hi hr hd
  have hname := getContractName_of_parsed hread hparsed
  refine ⟨exists_productLines hd hs he, description, hdescribe, fun lines hlines => ?_⟩
  have hof : ∀ p, (linesOf c d indent p).result = .ok (lines p) := hlines.linesOf_eq hraw hread hparsed
  refine ⟨fun hf hfolder => ?_, fun ht made folders hm hready => ?_⟩
  · rw [hrun, writeProducts_printed hof hname hf (hlines.plain hs hp)
      (w := converted settings description raw w) hfolder]
    rfl
  · obtain ⟨course, s, hwritten, heq⟩ := writeProducts_files hof hname ht (hlines.plain hs hp)
      (w := converted settings description raw w) hm
    have hfolder : made.isFolder (writerOf settings raw).folder = true := by
      have h : (w.tree.makeFolders (writerOf settings raw).folder).1.isFolder (writerOf settings raw).folder = true :=
        Tree.isFolder_of_makeFolders (by rw [hm])
      rwa [hm] at h
    have hopen := openFault?_askedWrites hfolder hready
    rw [Writer.kept_eq_self hopen] at hwritten
    rw [hrun, heq, hwritten.ending, Writer.endingIn_eq_none hopen]
    exact writesProducts_of_writesFiles hwritten hready

theorem run_products_shop : ∃ d lines told made,
    (convert shop .null (.bool false)).result = .ok (.success d) ∧ ProductLines shop .null d (.int 4) lines ∧
      IsReady allFiles (writerOf allFiles shop) made lines ∧
      WritesProducts allFiles (writerOf allFiles shop) made lines told shopWorld
        (run (m := StateM World) ["-", "--nodotenv", "-f", "--output", "all"] [] shopWorld) := by
  obtain ⟨_, _, _, d, _, hd, _⟩ := shop_described
  have hspaces : Json.IsSpacing (.int 4) := .inr ⟨4, rfl, by decide, by decide⟩
  have ha : Arguments.parse ["-", "--nodotenv", "-f", "--output", "all"] = .ok ⟨"-", allFiles.options⟩ := rfl
  obtain ⟨⟨lines, hlines⟩, description, _, hproducts⟩ :=
    run_products ha rfl hspaces readDocument_shop hd shop_wellFormed.plain shop_named
  have hmade : (shopWorld.tree.makeFolders (writerOf allFiles shop).folder).2.2 = .ok () := by rfl
  have hready : IsReady allFiles (writerOf allFiles shop) (shopWorld.tree.makeFolders (writerOf allFiles shop).folder).1
      lines := {
    empty := by
      intro location hleads name
      have hlocate : (shopWorld.tree.makeFolders (writerOf allFiles shop).folder).1.locate
        (writerOf allFiles shop).folder = .ok ["work", "abi2openapi-output", "SmartContract"] := by rfl
      cases hlocate.symm.trans hleads.locate
      rfl
    short := fun p _ _ => by cases p <;> decide }
  have hm := Prod.ext rfl (Prod.ext rfl hmade)
  exact ⟨d, lines, _, _, hd, hlines, hready, (hproducts lines hlines).2 rfl _ _ hm hready⟩

/-- Not every integer is an indentation, not every folder that can be made can hold the files, and not every name of a
folder can be printed. -/
theorem not_always_products :
    (¬∀ (arguments : List Text) (source : Text) (settings : Settings) (n : Int) (w : World) (raw d : Value),
      Arguments.parse arguments = .ok ⟨source, settings.options⟩ → settings.indent = .ok (.int n) →
      (readDocument (m := StateM World) source w).1 = .ok raw →
      (convert raw settings.contractName (.bool settings.strict)).result = .ok (.success d) → raw.Plain →
      (∀ i, (readInterface raw settings.contractName).result = .ok i → i.events.All fun e => e.inputs.Named) →
      settings.toFiles = false → (settings.AsksSeveral → w.capacity.Takes (writerOf settings raw).folder) →
      ∃ lines before after, ProductLines raw settings.contractName d (.int n) lines ∧
        (run (m := StateM World) arguments settings.environment w).2.output =
          w.output ++ before ++ printedProducts settings (writerOf settings raw) lines ++ after) ∧
    (¬∀ (arguments : List Text) (source : Text) (settings : Settings) (indent : Value) (w : World) (raw d : Value)
      (made : Tree) (folders : List Text) (location : Location),
      Arguments.parse arguments = .ok ⟨source, settings.options⟩ → settings.indent = .ok indent → Json.IsSpacing indent →
      (readDocument (m := StateM World) source w).1 = .ok raw →
      (convert raw settings.contractName (.bool settings.strict)).result = .ok (.success d) → raw.Plain →
      (∀ i, (readInterface raw settings.contractName).result = .ok i → i.events.All fun e => e.inputs.Named) →
      settings.toFiles = true → w.tree.makeFolders (writerOf settings raw).folder = (made, folders, .ok ()) →
      made.LeadsToFolder (writerOf settings raw).folder location →
      (∀ name, made.at? (location ++ [name]) = none) → settings.Asks .description →
      (run (m := StateM World) arguments settings.environment w).2.tree.at?
        (location ++ [Product.description.file]) ≠ none) ∧
    ¬∀ (arguments : List Text) (source : Text) (settings : Settings) (indent : Value) (w : World) (raw d : Value),
      Arguments.parse arguments = .ok ⟨source, settings.options⟩ → settings.indent = .ok indent → Json.IsSpacing indent →
      (readDocument (m := StateM World) source w).1 = .ok raw →
      (convert raw settings.contractName (.bool settings.strict)).result = .ok (.success d) → raw.Plain →
      (∀ i, (readInterface raw settings.contractName).result = .ok i → i.events.All fun e => e.inputs.Named) →
      settings.toFiles = false → ∃ lines before after, ProductLines raw settings.contractName d indent lines ∧
        (run (m := StateM World) arguments settings.environment w).2.output =
          w.output ++ before ++ printedProducts settings (writerOf settings raw) lines ++ after := by
  obtain ⟨_, _, _, d, _, hd, _⟩ := shop_described
  have hspaces : Json.IsSpacing (.int 4) := .inr ⟨4, rfl, by decide, by decide⟩
  refine ⟨fun h => ?_, fun h => ?_, fun h => ?_⟩
  · obtain ⟨lines, before, after, hlines, houtput⟩ := h
      ["-", "--nodotenv", "--indent", "-9223372036854775809"] "-" farIndent _ shopWorld shop d rfl rfl
      readDocument_shop hd shop_wellFormed.plain shop_named rfl fun _ _ _ => Bool.and_false _
    -- nothing is printed, though the description is asked for
    have hnothing : (run (m := StateM World) ["-", "--nodotenv", "--indent", "-9223372036854775809"]
        farIndent.environment shopWorld).2.output = [] := by decide +kernel
    rw [hnothing] at houtput
    simp [printedProducts_ne_nil hlines (.inl List.mem_cons_self)] at houtput
  · obtain ⟨made, folders, location, hm, hleads, hempty, hlong⟩ := deep_made
    obtain ⟨lines, hlines⟩ := exists_productLines hd hspaces shop_named
    refine h _ _ deepFiles _ shopWorld shop d made folders location parse_deepFiles rfl hspaces readDocument_shop hd
      shop_wellFormed.plain shop_named rfl hm hleads hempty (.inl List.mem_cons_self) ?_
    exact (run_of_long parse_deepFiles rfl hspaces readDocument_shop hd shop_wellFormed.plain hlines rfl hm hlong
      hleads).trans (hempty _)
  · obtain ⟨lines, before, after, hlines, houtput⟩ := h
      ["-", "--nodotenv", "--output", "all", "--output_dir", [.ofNat 0xDC80]] "-" surrogateFolder _ narrowWorld shop d rfl
      rfl hspaces readDocument_shop hd shop_wellFormed.plain shop_named rfl
    have hnothing : (run (m := StateM World) ["-", "--nodotenv", "--output", "all", "--output_dir", [.ofNat 0xDC80]]
        surrogateFolder.environment narrowWorld).2.output = [] := by decide +kernel
    rw [hnothing] at houtput
    simp [printedProducts_ne_nil hlines (.inr List.mem_cons_self)] at houtput

end CommandLine

end ContractApi
