import ContractApi.Proofs.Locations
import ContractApi.Proofs.StandardOutput
import Mathlib.Order.Fin.Basic
/-!
# What becomes of what is written

The writes of a block are taken in turn, each after those before it; only the first one to a file leads to something more
(`inTurn`).

- A block whose lines are printed prints them in order, each file's first one behind its header if there are several
  (`runSteps_printed`).
- A block whose lines go to files holds some files open, each with what was written to it so far (`HoldsOpen`). Opening,
  extending and closing are told apart by what they change in this; a run of steps keeps every line up to the first file
  that cannot be opened (`runSteps_files`), and after closing all files hold what was written to them
  (`run_keeps_writes`).
-/

namespace ContractApi

theorem Text.encode_of_plain {t : Text} (h : t.Plain) : t.encode = .ok (t.flatMap encodePoint) := by
  rw [encode, refusal?_eq_none.2 h]

/-! ## Worlds with open files -/

namespace World

/-- Whether nothing but files and folders may have changed. -/
structure SameStreams (s s' : World) : Prop where
  input : s'.input = s.input
  time : s'.time = s.time
  output : s'.output = s.output
  errors : s'.errors = s.errors
  capacity : s'.capacity = s.capacity

theorem SameStreams.refl (s : World) : s.SameStreams s := ⟨rfl, rfl, rfl, rfl, rfl⟩

theorem SameStreams.trans {s s' s'' : World} (h : s.SameStreams s') (h' : s'.SameStreams s'') : s.SameStreams s'' :=
  ⟨h'.input.trans h.input, h'.time.trans h.time, h'.output.trans h.output, h'.errors.trans h.errors,
    h'.capacity.trans h.capacity⟩

/-- The world after folders were made, which made the tree what it is. -/
def madeFolders (s : World) (tree : Tree) (folders : List Text) : World :=
  { s with tree, acts := s.acts ++ folders.map .madeFolder }

theorem makeFolders_eq {s : World} {path : Text} {tree : Tree} {folders : List Text} {result : Except FileFault Unit}
    (h : s.tree.makeFolders path = (tree, folders, result)) :
    (Surroundings.makeFolders path : StateM World (Except FileFault Unit)) s = (result, s.madeFolders tree folders) := by
  change ((s.tree.makeFolders path).2.2, s.madeFolders (s.tree.makeFolders path).1 (s.tree.makeFolders path).2.1) = _
  rw [h]

/-- The world after a file was opened, which made the tree what it is. -/
def opened (s : World) (path : Text) (tree : Tree) : World :=
  { s with tree, written := Table.insert path [] s.written, acts := s.acts ++ [.opened path] }

theorem openFile_of_ok {s : World} {path : Text} {tree : Tree} (h : s.tree.openFile path = .ok tree) :
    (Surroundings.openFile path : StateM World (Except FileFault Unit)) s = (.ok (), s.opened path tree) := by
  simp only [Surroundings.openFile, h]
  rfl

theorem openFile_of_error {s : World} {path : Text} {fault : FileFault} (h : s.tree.openFile path = .error fault) :
    (Surroundings.openFile path : StateM World (Except FileFault Unit)) s = (.error fault, s) := by
  simp only [Surroundings.openFile, h]

/-- The world after bytes were written to an open file. -/
def extended (s : World) (path : Text) (bytes : List UInt8) : World :=
  { s with written := Table.insert path (s.writtenTo path ++ bytes) s.written, acts := s.acts ++ [.extended path bytes] }

/-- The world after a file was closed. -/
def closed (s : World) (path : Text) : World :=
  { s with tree := s.tree.overwrite path (s.writtenTo path), acts := s.acts ++ [.closed path] }

theorem writtenTo_opened (s : World) (path : Text) (tree : Tree) (path' : Text) :
    (s.opened path tree).writtenTo path' = if path = path' then [] else s.writtenTo path' := by
  unfold writtenTo opened
  rw [Table.get?_insert]
  split <;> rfl

theorem writtenTo_extended (s : World) (path : Text) (bytes : List UInt8) (path' : Text) :
    (s.extended path bytes).writtenTo path' = if path = path' then s.writtenTo path ++ bytes else s.writtenTo path' := by
  rw [writtenTo, extended, Table.get?_insert]
  split <;> rfl

end World

/-- The path of a file that was opened. -/
def Act.opened? : Act → Option Text
  | .opened path => some path
  | _ => none

/-- The path of a file that was closed. -/
def Act.closed? : Act → Option Text
  | .closed path => some path
  | _ => none

namespace Output.Writer

/-! ## Writes in turn -/

/-- A line for a file. -/
structure Write where
  line : Text
  file : Text

namespace Write

/-- The line with its end. -/
def text (x : Write) : Text := x.line ++ "\n"

def bytes (x : Write) : List UInt8 := x.text.flatMap Text.encodePoint

end Write

/-- The files that are written to, in the order in which this begins. -/
def filesOf (ws : List Write) : List Text := Table.firsts (ws.map Write.file)

/-- The lines for a file, each with its end. -/
def textOf (ws : List Write) (file : Text) : Text := (ws.filter (·.file = file)).flatMap Write.text

def bytesOf (ws : List Write) (file : Text) : List UInt8 := (textOf ws file).flatMap Text.encodePoint

theorem mem_filesOf {ws : List Write} {file : Text} : file ∈ filesOf ws ↔ ∃ x ∈ ws, x.file = file := by
  rw [filesOf, Table.mem_firsts, List.mem_map]

theorem nodup_filesOf (ws : List Write) : (filesOf ws).Nodup := Table.nodup_firsts _

theorem filesOf_concat (ws : List Write) (x : Write) :
    filesOf (ws ++ [x]) = if x.file ∈ filesOf ws then filesOf ws else filesOf ws ++ [x.file] := by
  rw [filesOf, List.map_append, List.map_singleton, Table.firsts_concat]
  by_cases h : x.file ∈ ws.map Write.file <;> simp [filesOf, Table.mem_firsts, h]

theorem bytesOf_concat (ws : List Write) (x : Write) (file : Text) :
    bytesOf (ws ++ [x]) file = if file = x.file then bytesOf ws file ++ x.bytes else bytesOf ws file := by
  by_cases h : file = x.file
  · simp [bytesOf, textOf, Write.bytes, h]
  · simp [bytesOf, textOf, h, Ne.symm h]

theorem bytesOf_of_not_mem {ws : List Write} {file : Text} (h : file ∉ filesOf ws) : bytesOf ws file = [] := by
  have hnone : ws.filter (·.file = file) = [] := by
    refine List.filter_eq_nil_iff.2 fun x hx => ?_
    simpa using fun heq => h (mem_filesOf.2 ⟨x, hx, heq⟩)
  rw [bytesOf, textOf, hnone]
  rfl

/-- What comes of writes that follow others: of each one `each`, and before it `first` if it is the first one to its
file. -/
def inTurn {α : Type} (first each : Write → List α) : (before ws : List Write) → List α
  | _, [] => []
  | before, x :: rest =>
    (if x.file ∈ filesOf before then [] else first x) ++ each x ++ inTurn first each (before ++ [x]) rest

/-- If only the first write to a file leads to something of a kind, this comes once for each file. -/
theorem filterMap_inTurn {α β : Type} {first each : Write → List α} {kind : α → Option β} {g : Text → β}
    (hfirst : ∀ x, (first x).filterMap kind = [g x.file]) (heach : ∀ x, (each x).filterMap kind = [])
    (before ws : List Write) : (filesOf before).map g ++ (inTurn first each before ws).filterMap kind =
      (filesOf (before ++ ws)).map g := by
  induction ws generalizing before with
  | nil => simp [inTurn]
  | cons x rest ih =>
    have hrest := ih (before ++ [x])
    rw [List.append_assoc, List.singleton_append] at hrest
    rw [← hrest, inTurn, filesOf_concat]
    split <;> simp [hfirst, heach]

variable {ε : Type}

/-- The writes of a block, up to where something is raised. -/
def writes : List (Step ε) → List Write
  | [] => []
  | .write line file :: rest => ⟨line, file⟩ :: writes rest
  | .raise _ :: _ => []

/-- What a block raises. -/
def raised? : List (Step ε) → Option ε
  | [] => none
  | .write _ _ :: rest => raised? rest
  | .raise e :: _ => some e

/-! ## Printing -/

/-- What is printed for writes that follow others. -/
def printout (w : Writer) (before ws : List Write) : Text :=
  inTurn (fun x => if w.several then w.header x.file else []) Write.text before ws

/-- Whether a write can be printed: the standard output takes its line, and the heading of its file if there are
several. -/
def IsPrintable (w : Writer) (capacity : Capacity) (x : Write) : Prop :=
  capacity.Takes x.line ∧ (w.several = true → capacity.Takes (w.heading x.file))

/-- Whether the headers were printed of the files that were written to. -/
def HasHeaded (w : Writer) (before : List Write) : Prop := w.several = true → w.headed = filesOf before

section Printing

variable {w : Writer} (hf : w.toFiles = false) {before : List Write} (hh : w.HasHeaded before)

include hf hh

theorem needsHeader_eq (file : Text) : w.needsHeader file = (w.several && decide (file ∉ filesOf before)) := by
  cases hs : w.several with
  | false => simp [needsHeader, hs]
  | true => simp [needsHeader, hs, hf, hh hs]

theorem printed_eq (x : Write) : w.printed x.line x.file =
    (if x.file ∈ filesOf before then [] else if w.several then w.header x.file else []) ++ x.text := by
  rw [printed, needsHeader_eq hf hh, List.append_assoc]
  by_cases hm : x.file ∈ filesOf before <;> cases w.several <;> simp [hm] <;> rfl

theorem hasHeaded_afterPrinting (x : Write) : (w.afterPrinting x.file).HasHeaded (before ++ [x]) := by
  unfold afterPrinting
  rw [needsHeader_eq hf hh]
  intro hs
  rw [filesOf_concat]
  cases hw : w.several with
  | false =>
    rw [hw] at hs
    cases hw.symm.trans hs
  | true =>
    by_cases hm : x.file ∈ filesOf before
    · simp [hm, hh hw]
    · simp [hm, hh hw]

omit hf hh in
theorem toFiles_afterPrinting (file : Text) : (w.afterPrinting file).toFiles = w.toFiles := by
  unfold afterPrinting
  split <;> rfl

omit hf hh in
theorem printout_afterPrinting (file : Text) (ws : List Write) :
    (w.afterPrinting file).printout before ws = w.printout before ws := by
  unfold afterPrinting
  split <;> rfl

omit hf hh in
theorem isPrintable_afterPrinting (file : Text) {capacity : Capacity} {x : Write} :
    (w.afterPrinting file).IsPrintable capacity x ↔ w.IsPrintable capacity x := by
  unfold afterPrinting
  split <;> rfl

omit hf hh in
/-- A header is needed only if there are several files. -/
theorem takes_heading {capacity : Capacity} {x : Write} (hp : w.IsPrintable capacity x)
    (hn : w.needsHeader x.file = true) : capacity.Takes (w.heading x.file) := by
  refine hp.2 ?_
  rw [needsHeader, Bool.and_eq_true, Bool.and_eq_true] at hn
  exact hn.1.1

end Printing

/-- A block whose lines can be printed prints them in order, and files stay as they are. -/
theorem runSteps_printed {w : Writer} (hf : w.toFiles = false) (steps : List (Step ε)) {before : List Write}
    (hh : w.HasHeaded before) {s : World} (hp : ∀ x ∈ writes steps, w.IsPrintable s.capacity x) : ∃ course : Course ε,
      (runSteps w steps : StateM World (Course ε)) s = (course, s.printed (w.printout before (writes steps))) ∧
        course.ending = (raised? steps).map .raised ∧ course.notices = [] := by
  induction steps generalizing w before s with
  | nil => exact ⟨_, congrArg _ s.printed_nil.symm, rfl, rfl⟩
  | cons step rest ih =>
    cases step with
    | raise e => exact ⟨_, congrArg _ s.printed_nil.symm, rfl, rfl⟩
    | write line file =>
      have hprinted := printed_eq hf hh ⟨line, file⟩
      obtain ⟨hfirst, hrest⟩ := List.forall_mem_cons.1 hp
      obtain ⟨course, hrun, hending, hnotices⟩ := ih ((toFiles_afterPrinting file).trans hf)
        (hasHeaded_afterPrinting hf hh ⟨line, file⟩) (s := s.printed (w.printed line file))
        fun x hx => (isPrintable_afterPrinting file).2 (hrest x hx)
      refine ⟨{ course with trail := w.afterPrinting file :: course.trail }, ?_, hending, hnotices⟩
      rw [runSteps, stateM_bind, write_of_takes (takes_heading hfirst) hf hfirst.1]
      dsimp only
      rw [stateM_bind, hrun, printout_afterPrinting, World.printed_printed, hprinted]
      rfl

/-! ## Files that are held open -/

/-- What keeps a file from being opened. -/
def openFault? (w : Writer) (tree : Tree) (file : Text) : Option FileFault :=
  match tree.openFile (w.path file) with
  | .ok _ => none
  | .error fault => some fault

section

variable {w : Writer} {s : World}

theorem ensureOpen_of_mem {file : Text} (h : file ∈ w.opened) :
    (w.ensureOpen file : StateM World (Except FileFault Writer)) s = (.ok w, s) := by
  rw [ensureOpen, if_pos (by simpa using h)]
  rfl

theorem ensureOpen_of_ok {file : Text} (h : file ∉ w.opened) {tree : Tree}
    (ho : s.tree.openFile (w.path file) = .ok tree) :
    (w.ensureOpen file : StateM World (Except FileFault Writer)) s =
      (.ok { w with opened := w.opened ++ [file] }, s.opened (w.path file) tree) := by
  rw [ensureOpen, if_neg (by simpa using h), stateM_bind, World.openFile_of_ok ho]
  rfl

theorem ensureOpen_of_error {file : Text} (h : file ∉ w.opened) {fault : FileFault}
    (ho : s.tree.openFile (w.path file) = .error fault) :
    (w.ensureOpen file : StateM World (Except FileFault Writer)) s = (.error fault, s) := by
  rw [ensureOpen, if_neg (by simpa using h), stateM_bind, World.openFile_of_error ho]
  rfl

variable (ht : w.toFiles = true) {x : Write}

include ht

/-- Once its file is open, a line is written behind what was written before. -/
theorem write_of_open (hl : x.line.Plain) {w' : Writer} {s' : World}
    (ho : (w.ensureOpen x.file : StateM World (Except FileFault Writer)) s = (.ok w', s')) :
    (w.write x.line x.file : StateM World (Writer × Except FileFault Unit)) s =
      ((w', .ok ()), s'.extended (w'.path x.file) x.bytes) := by
  have hbytes : x.bytes = x.line.flatMap Text.encodePoint ++ [.ofNat 0x0A] := List.flatMap_append
  rw [write, if_pos ht, stateM_bind, ho]
  change (w'.extend x.line x.file >>= fun result => pure (w', result) : StateM World _) s' = _
  rw [stateM_bind, extend, Text.encode_of_plain hl, hbytes]
  rfl

theorem write_of_fault {fault : FileFault}
    (ho : (w.ensureOpen x.file : StateM World (Except FileFault Writer)) s = (.error fault, s)) :
    (w.write x.line x.file : StateM World (Writer × Except FileFault Unit)) s = ((w, .error fault), s) := by
  rw [write, if_pos ht, stateM_bind, ho]
  rfl

end

/-- Whether the files are open that are listed, each with some content so far, and everything else is as in `base`. The
folder of the writer is at `location`. -/
structure HoldsOpen (w : Writer) (base : Tree) (location : Location) (files : List Text) (content : Text → List UInt8)
    (s : World) : Prop where
  leads : s.tree.LeadsToFolder w.folder location
  names : ∀ file ∈ files, Path.IsComponent file ∧ w.openFault? base file = none
  at? : ∀ l, s.tree.at? l = if ∃ file ∈ files, l = location ++ [file] then some (.file []) else base.at? l
  written : ∀ file ∈ files, s.writtenTo (w.path file) = content file

section Files

variable {w : Writer} {base : Tree} {location : Location}

theorem below_inj {file file' : Text} : location ++ [file] = location ++ [file'] ↔ file = file' := by simp

/-- The location of a file is that of a listed one only if the file is listed. -/
theorem exists_below {files : List Text} {file : Text} :
    (∃ file' ∈ files, location ++ [file] = location ++ [file']) ↔ file ∈ files := by simp

section Opening

variable (hbase : base.LeadsToFolder w.folder location) (he : Path.endsInSlash w.folder = false) {file : Text}
  (hn : Path.IsComponent file)

include hbase he hn

theorem openFault?_eq_none : w.openFault? base file = none ↔
    Tree.FitsBelow w.folder file ∧ base.at? (location ++ [file]) ≠ some .folder := by
  have hiff : ∀ tree', base.openFile (Path.joined w.folder file) = .ok tree' ↔ _ :=
    fun _ => Tree.openFile_eq_ok hbase he hn
  unfold openFault? path
  split
  · rename_i tree' ho
    obtain ⟨hf, hat, _⟩ := (hiff tree').1 ho
    exact iff_of_true rfl ⟨hf, hat⟩
  · rename_i fault ho
    refine iff_of_false (by simp) fun ⟨hf, hat⟩ => ?_
    cases ho.symm.trans ((hiff _).2 ⟨hf, hat, rfl⟩)

/-- Whether a file can be opened depends on what is at its own location. -/
theorem openFault?_congr {tree : Tree} (htree : tree.LeadsToFolder w.folder location)
    (hat : tree.at? (location ++ [file]) = base.at? (location ++ [file])) :
    w.openFault? tree file = w.openFault? base file := by
  unfold openFault? path
  rw [Tree.openFile_below hbase he hn, Tree.openFile_below htree he hn, hat]
  unfold Tree.onPath
  cases Tree.checkPath (Path.joined w.folder file) with
  | error fault => rfl
  | ok u => split_ifs <;> rfl

end Opening

section Holding

variable {files : List Text} {content : Text → List UInt8} {s : World}

theorem HoldsOpen.path_ne (h : HoldsOpen w base location files content s) {file file' : Text} (hf : file ∈ files)
    (hn : Path.IsComponent file') (hne : file' ≠ file) : w.path file' ≠ w.path file :=
  fun heq => hne (Path.joined_inj hn (h.names file hf).1 heq)

/-- What is written to an open file is added to its content. -/
theorem HoldsOpen.extended (h : HoldsOpen w base location files content s) {file : Text} (hm : file ∈ files)
    (bytes : List UInt8) : HoldsOpen w base location files
      (fun file' => if file' = file then content file ++ bytes else content file') (s.extended (w.path file) bytes) := by
  refine ⟨h.leads, h.names, h.at?, fun file' hf' => ?_⟩
  rw [World.writtenTo_extended]
  by_cases heq : file' = file
  · cases heq
    rw [if_pos rfl, if_pos rfl, h.written file hm]
  · rw [if_neg (h.path_ne hf' (h.names file hm).1 (Ne.symm heq)), if_neg heq, h.written file' hf']

end Holding

section Steps

variable (hbase : base.LeadsToFolder w.folder location) (he : Path.endsInSlash w.folder = false)
  {files : List Text} {content : Text → List UInt8} {s : World}

include hbase he

theorem HoldsOpen.fits (h : HoldsOpen w base location files content s) {file : Text} (hf : file ∈ files) :
    Path.IsComponent file ∧ Tree.FitsBelow w.folder file :=
  ⟨(h.names file hf).1, ((openFault?_eq_none hbase he (h.names file hf).1).1 (h.names file hf).2).1⟩

/-- A file that was not open is empty when it has been opened. -/
theorem HoldsOpen.opened (h : HoldsOpen w base location files content s) {file : Text} (hn : Path.IsComponent file)
    (ho : w.openFault? base file = none) (hm : file ∉ files) (hc : content file = []) : ∃ tree,
      s.tree.openFile (w.path file) = .ok tree ∧
        HoldsOpen w base location (files ++ [file]) content (s.opened (w.path file) tree) := by
  obtain ⟨hf, hat⟩ := (openFault?_eq_none hbase he hn).1 ho
  have hbelow : s.tree.at? (location ++ [file]) = base.at? (location ++ [file]) := by
    rw [h.at?, if_neg fun hex => hm (exists_below.1 hex)]
  have hnone : s.tree.at? (location ++ [file]) ≠ some .folder := hbelow ▸ hat
  refine ⟨_, (Tree.openFile_eq_ok h.leads he hn).2 ⟨hf, hnone, rfl⟩, h.leads.put hnone _, ?_, fun l => ?_,
    fun file' hf' => ?_⟩
  · exact List.forall_mem_append.2 ⟨h.names, List.forall_mem_singleton.2 ⟨hn, ho⟩⟩
  · change (s.tree.put (location ++ [file]) (.file [])).at? l = _
    rw [Tree.at?_put _ (Tree.ne_nil_of_at? hnone), h.at?]
    by_cases hl : l = location ++ [file] <;> simp [hl, or_and_right, exists_or]
  · rw [World.writtenTo_opened]
    rcases List.mem_append.1 hf' with hf' | hf'
    · rw [if_neg (h.path_ne hf' hn fun heq => hm (heq ▸ hf')), h.written file' hf']
    · cases List.mem_singleton.1 hf'
      rw [if_pos rfl, hc]

end Steps

/-! ## Runs that write files -/

/-- The writer that has the files of writes open. -/
def holding (w : Writer) (before : List Write) : Writer := { w with opened := filesOf before }

/-- Whether the files of writes are open, each with the lines for it. -/
def HoldsWrites (w : Writer) (base : Tree) (location : Location) (before : List Write) (s : World) : Prop :=
  HoldsOpen w base location (filesOf before) (bytesOf before) s

/-- What is done to files in writes that follow others. -/
def actsOf (w : Writer) (before ws : List Write) : List Act :=
  inTurn (fun x => [.opened (w.path x.file)]) (fun x => [.extended (w.path x.file) x.bytes]) before ws

/-- The writes up to the first one whose file cannot be opened. -/
def kept (w : Writer) (tree : Tree) (ws : List Write) : List Write :=
  ws.takeWhile fun x => (w.openFault? tree x.file).isNone

/-- What ends a block in a tree: a file that cannot be opened, or what is raised. -/
def endingIn (w : Writer) (tree : Tree) (steps : List (Step ε)) : Option (Ending ε) :=
  (((writes steps).findSome? fun x => w.openFault? tree x.file).map .fault).or ((raised? steps).map .raised)

section Runs

variable (ht : w.toFiles = true) (hbase : base.LeadsToFolder w.folder location)
  (he : Path.endsInSlash w.folder = false) {before : List Write}

include ht hbase he

/-- A line whose file is or can be opened is added to what the file holds. -/
theorem write_kept {s : World} (h : w.HoldsWrites base location before s) {x : Write} (hn : Path.IsComponent x.file)
    (hl : x.line.Plain) (ho : w.openFault? base x.file = none) : ∃ s',
      ((w.holding before).write x.line x.file : StateM World (Writer × Except FileFault Unit)) s =
        ((w.holding (before ++ [x]), .ok ()), s') ∧
      w.HoldsWrites base location (before ++ [x]) s' ∧ s.SameStreams s' ∧
      s'.acts = s.acts ++ w.actsOf before [x] := by
  have hcontent : bytesOf (before ++ [x]) =
      fun file => if file = x.file then bytesOf before x.file ++ x.bytes else bytesOf before file := by
    funext file
    rw [bytesOf_concat]
    by_cases hf : file = x.file <;> simp [hf]
  have hto : (w.holding before).toFiles = true := ht
  by_cases hm : x.file ∈ filesOf before
  · have hfiles : filesOf (before ++ [x]) = filesOf before := by rw [filesOf_concat, if_pos hm]
    have hopen : x.file ∈ (w.holding before).opened := hm
    refine ⟨s.extended (w.path x.file) x.bytes, ?_, ?_, ⟨rfl, rfl, rfl, rfl, rfl⟩, ?_⟩
    · rw [write_of_open hto hl (ensureOpen_of_mem hopen), holding, holding, hfiles]
      rfl
    · rw [HoldsWrites, hfiles, hcontent]
      exact h.extended hm x.bytes
    · rw [actsOf, inTurn, if_pos hm]
      rfl
  · have hfiles : filesOf (before ++ [x]) = filesOf before ++ [x.file] := by rw [filesOf_concat, if_neg hm]
    have hopen : x.file ∉ (w.holding before).opened := hm
    obtain ⟨tree, htree, hopened⟩ := h.opened hbase he hn ho hm (bytesOf_of_not_mem hm)
    refine ⟨(s.opened (w.path x.file) tree).extended (w.path x.file) x.bytes, ?_, ?_, ⟨rfl, rfl, rfl, rfl, rfl⟩, ?_⟩
    · rw [write_of_open hto hl (ensureOpen_of_ok hopen htree), holding, holding, hfiles]
      rfl
    · rw [HoldsWrites, hfiles, hcontent]
      exact hopened.extended (List.mem_append_right _ List.mem_cons_self) x.bytes
    · rw [actsOf, inTurn, if_neg hm]
      exact List.append_assoc _ _ _

/-- If a file cannot be opened, nothing changes. -/
theorem write_refused {s : World} (h : w.HoldsWrites base location before s) {x : Write} (hn : Path.IsComponent x.file)
    {fault : FileFault} (ho : w.openFault? base x.file = some fault) :
    ((w.holding before).write x.line x.file : StateM World (Writer × Except FileFault Unit)) s =
      ((w.holding before, .error fault), s) := by
  have hm : x.file ∉ filesOf before := by
    intro hm
    cases ho.symm.trans (h.names x.file hm).2
  have hopen : x.file ∉ (w.holding before).opened := hm
  have hto : (w.holding before).toFiles = true := ht
  have hbelow : s.tree.at? (location ++ [x.file]) = base.at? (location ++ [x.file]) := by
    rw [h.at?, if_neg fun hex => hm (exists_below.1 hex)]
  rw [← openFault?_congr hbase he hn h.leads hbelow] at ho
  have herror : s.tree.openFile ((w.holding before).path x.file) = .error fault := by
    unfold openFault? at ho
    split at ho
    · cases ho
    · cases ho
      assumption
  exact write_of_fault hto (ensureOpen_of_error hopen herror)

/-- A block keeps the lines up to the first file that cannot be opened, and leaves the files open. -/
theorem runSteps_files (steps : List (Step ε)) (hn : ∀ x ∈ writes steps, Path.IsComponent x.file)
    (hl : ∀ x ∈ writes steps, x.line.Plain) {s : World} (h : w.HoldsWrites base location before s) :
    ∃ (course : Course ε) (s' : World), (runSteps (w.holding before) steps : StateM World (Course ε)) s = (course, s') ∧
      course.ending = w.endingIn base steps ∧
      course.last = w.holding (before ++ w.kept base (writes steps)) ∧
      w.HoldsWrites base location (before ++ w.kept base (writes steps)) s' ∧ s.SameStreams s' ∧
      s'.acts = s.acts ++ w.actsOf before (w.kept base (writes steps)) := by
  induction steps generalizing before s with
  | nil =>
    refine ⟨_, s, rfl, rfl, ?_, ?_, .refl s, ?_⟩
    · exact congrArg w.holding (List.append_nil before).symm
    · rwa [writes, kept, List.takeWhile_nil, List.append_nil]
    · exact (List.append_nil _).symm
  | cons step rest ih =>
    cases step with
    | raise e =>
      refine ⟨_, s, rfl, rfl, ?_, ?_, .refl s, ?_⟩
      · exact congrArg w.holding (List.append_nil before).symm
      · rwa [writes, kept, List.takeWhile_nil, List.append_nil]
      · exact (List.append_nil _).symm
    | write line file =>
      obtain ⟨hnx, hnrest⟩ := List.forall_mem_cons.1 hn
      obtain ⟨hlx, hlrest⟩ := List.forall_mem_cons.1 hl
      cases ho : w.openFault? base file with
      | some fault =>
        have hkept : w.kept base (writes (.write line file :: rest)) = [] := by simp [writes, kept, ho]
        rw [hkept, List.append_nil]
        refine ⟨{ last := w.holding before, ending := some (.fault fault) }, s, ?_, ?_, rfl, h, .refl s,
          (List.append_nil _).symm⟩
        · rw [runSteps, stateM_bind, write_refused ht hbase he h hnx ho]
          rfl
        · simp [endingIn, writes, ho]
      | none =>
        obtain ⟨s₁, hwrite, hholds, hstreams, hacts⟩ := write_kept ht hbase he h hnx hlx ho
        obtain ⟨course, s', hrun, hending, hlast, hholds', hstreams', hacts'⟩ := ih hnrest hlrest hholds
        have hkept : w.kept base (writes (.write line file :: rest)) = ⟨line, file⟩ :: w.kept base (writes rest) := by
          simp [writes, kept, ho]
        rw [hkept, List.append_cons]
        refine ⟨{ course with trail := w.holding (before ++ [⟨line, file⟩]) :: course.trail }, s', ?_, ?_, hlast, hholds',
          hstreams.trans hstreams', ?_⟩
        · rw [runSteps, stateM_bind, hwrite]
          change (runSteps (w.holding (before ++ [⟨line, file⟩])) rest >>= fun course => _ :
            StateM World (Course ε)) s₁ = _
          rw [stateM_bind, hrun]
          rfl
        · simp only [hending, endingIn, writes, raised?, List.findSome?_cons, ho]
        · rw [hacts', hacts, List.append_assoc]
          simp [actsOf, inTurn]

end Runs

/-! ## Closing -/

/-- Closed files hold what was written to them, and nothing else changes. -/
theorem close_files (files : List Text) (hnodup : files.Nodup) (hn : ∀ file ∈ files, Path.IsComponent file)
    (he : Path.endsInSlash w.folder = false) (hf : ∀ file ∈ files, Tree.FitsBelow w.folder file) {s : World}
    (hleads : s.tree.LeadsToFolder w.folder location)
    (hat : ∀ file ∈ files, s.tree.at? (location ++ [file]) = some (.file [])) : ∃ s',
      (files.forM (fun file => Surroundings.closeFile (w.path file)) : StateM World Unit) s = ((), s') ∧
      s'.tree.LeadsToFolder w.folder location ∧
      (∀ file ∈ files, s'.tree.at? (location ++ [file]) = some (.file (s.writtenTo (w.path file)))) ∧
      (∀ l, (∀ file ∈ files, l ≠ location ++ [file]) → s'.tree.at? l = s.tree.at? l) ∧ s.SameStreams s' ∧
      s'.acts = s.acts ++ files.map fun file => .closed (w.path file) := by
  induction files generalizing s with
  | nil => exact ⟨s, rfl, hleads, List.forall_mem_nil _, fun _ _ => rfl, .refl s, (List.append_nil _).symm⟩
  | cons file rest ih =>
    obtain ⟨hnx, hnrest⟩ := List.forall_mem_cons.1 hn
    obtain ⟨hfx, hfrest⟩ := List.forall_mem_cons.1 hf
    obtain ⟨hatx, hatrest⟩ := List.forall_mem_cons.1 hat
    obtain ⟨hnotin, hnodup⟩ := List.nodup_cons.1 hnodup
    have hfile : s.tree.at? (location ++ [file]) ≠ some .folder := by simp [hatx]
    have hne := Tree.ne_nil_of_at? hfile
    have htree : (s.closed (w.path file)).tree =
        s.tree.put (location ++ [file]) (.file (s.writtenTo (w.path file))) :=
      Tree.overwrite_below hleads he hnx hfx hatx _
    have helse : ∀ l, l ≠ location ++ [file] → (s.closed (w.path file)).tree.at? l = s.tree.at? l := by
      intro l hl
      rw [htree, Tree.at?_put _ hne, if_neg hl]
    have hother : ∀ file' ∈ rest, location ++ [file'] ≠ location ++ [file] := by
      intro file' hf' heq
      exact hnotin (below_inj.1 heq ▸ hf')
    have hleads' : (s.closed (w.path file)).tree.LeadsToFolder w.folder location := htree ▸ hleads.put hfile _
    obtain ⟨s', hrun, hl', hcontents, hsame, hstreams, hacts⟩ := ih hnodup hnrest hfrest hleads'
      fun file' hf' => (helse _ (hother file' hf')).trans (hatrest file' hf')
    refine ⟨s', hrun, hl', List.forall_mem_cons.2 ⟨?_, hcontents⟩, fun l hl => ?_, ?_, ?_⟩
    · rw [hsame _ fun file' hf' => (hother file' hf').symm, htree, Tree.at?_put _ hne, if_pos rfl]
    · obtain ⟨hlx, hlrest⟩ := List.forall_mem_cons.1 hl
      exact (hsame l hlrest).trans (helse l hlx)
    · have hclosed : s.SameStreams (s.closed (w.path file)) := ⟨rfl, rfl, rfl, rfl, rfl⟩
      exact hclosed.trans hstreams
    · rw [hacts]
      exact List.append_assoc _ _ _

end Files

/-! ## Whole runs -/

/-- What becomes of a block whose lines go to files, when the folder for them has been made: `done` are the lines up to
the first file that cannot be opened. -/
structure WritesFiles (w : Writer) (made : Tree) (folders : List Text) (steps : List (Step ε)) (done : List Write)
    (s : World) (course : Course ε) (s' : World) : Prop where
  ending : course.ending = w.endingIn made steps
  notices : course.notices = [.outputWritten w.folder]
  /-- Nothing is printed. -/
  streams : s.SameStreams s'
  /-- Each file holds the lines for it, one after the other, and nothing else. -/
  read : ∀ file ∈ filesOf done, ∃ bytes, (textOf done file).encode = .ok bytes ∧ s'.tree.read (w.path file) = .ok bytes
  /-- The files are in the folder, and no other file is made or changed. -/
  inFolder : ∃ location, made.LeadsToFolder w.folder location ∧
    (∀ file ∈ filesOf done, s'.tree.at? (location ++ [file]) = some (.file (bytesOf done file))) ∧
    ∀ l, (∀ file ∈ filesOf done, l ≠ location ++ [file]) → s'.tree.at? l = made.at? l
  onlyFolders : s.tree.AddsFolders made
  acts : s'.acts = s.acts ++ folders.map .madeFolder ++ w.actsOf [] done ++
    (filesOf done).map fun file => .closed (w.path file)
  /-- Each file is opened once. -/
  opened : (s'.acts.drop s.acts.length).filterMap Act.opened? = (filesOf done).map w.path
  /-- All files that were opened are closed. -/
  closed : (s'.acts.drop s.acts.length).filterMap Act.closed? = (filesOf done).map w.path
  once : ((filesOf done).map w.path).Nodup

theorem plain_textOf {ws : List Write} (h : ∀ x ∈ ws, x.line.Plain) (file : Text) : (textOf ws file).Plain :=
  Text.plain_flatMap fun x hx => (h x (List.mem_of_mem_filter hx)).append (Text.plain_ofString _)

/-- The files that are opened in writes are those written to. -/
theorem opened_actsOf (w : Writer) (ws : List Write) :
    (w.actsOf [] ws).filterMap Act.opened? = (filesOf ws).map w.path :=
  filterMap_inTurn (fun _ => rfl) (fun _ => rfl) [] ws

theorem closed_actsOf (w : Writer) (before ws : List Write) : (w.actsOf before ws).filterMap Act.closed? = [] := by
  induction ws generalizing before with
  | nil => rfl
  | cons x rest ih =>
    have hrest := ih (before ++ [x])
    unfold actsOf at hrest ⊢
    rw [inTurn, List.filterMap_append, List.filterMap_append, hrest]
    split <;> rfl

section Runs

variable {w : Writer} {steps : List (Step ε)}

/-- Without files, what is written is printed. -/
theorem run_printed (hf : w.toFiles = false) (hh : w.HasHeaded []) (steps : List (Step ε)) {s : World}
    (hp : ∀ x ∈ writes steps, w.IsPrintable s.capacity x) : ∃ course,
    (w.run steps : StateM World (Course ε)) s = (course, s.printed (w.printout [] (writes steps))) ∧
      course.ending = (raised? steps).map .raised ∧ course.notices = [] := by
  rw [run, if_neg (by simp [hf])]
  exact runSteps_printed hf steps hh hp

/-- With files, they hold what was written to them, and all of them are closed. -/
theorem run_files (ht : w.toFiles = true) (he : Path.endsInSlash w.folder = false) (hw : w.opened = [])
    (hn : ∀ x ∈ writes steps, Path.IsComponent x.file) (hl : ∀ x ∈ writes steps, x.line.Plain) {s : World} {made : Tree}
    {folders : List Text} (hm : s.tree.makeFolders w.folder = (made, folders, .ok ())) :
    ∃ (course : Course ε) (s' : World), (w.run steps : StateM World (Course ε)) s = (course, s') ∧
      w.WritesFiles made folders steps (w.kept made (writes steps)) s course s' := by
  obtain ⟨location, hbase⟩ : ∃ location, made.LeadsToFolder w.folder location := by
    have hfolder : (s.tree.makeFolders w.folder).1.isFolder w.folder = true := Tree.isFolder_of_makeFolders (by rw [hm])
    rw [hm] at hfolder
    exact (Tree.isFolder_iff.1 hfolder).2
  have hadds : s.tree.AddsFolders made := by
    have h := Tree.addsFolders_makeFolders s.tree w.folder
    rwa [hm] at h
  have hstart : w.HoldsWrites made location [] (s.madeFolders made folders) :=
    ⟨hbase, List.forall_mem_nil _, fun l => by simp [World.madeFolders, filesOf, Table.firsts], List.forall_mem_nil _⟩
  have hholding : w.holding [] = w := by
    cases w
    cases hw
    rfl
  obtain ⟨course, s₁, hrun, hending, hlast, hholds, hstreams, hacts⟩ :=
    runSteps_files ht hbase he steps hn hl hstart
  have hdone : ∀ x ∈ w.kept made (writes steps), x.line.Plain := fun x hx => hl x (List.takeWhile_subset _ hx)
  rw [List.nil_append] at hlast hholds
  rw [hholding] at hrun
  generalize w.kept made (writes steps) = done at *
  have hfits : ∀ file ∈ filesOf done, Path.IsComponent file ∧ Tree.FitsBelow w.folder file :=
    fun file hf => hholds.fits hbase he hf
  obtain ⟨s', hclose, hleads, hcontents, helse, hstreams', hacts'⟩ := close_files (filesOf done) (nodup_filesOf done)
    (fun file hf => (hfits file hf).1) he (fun file hf => (hfits file hf).2) hholds.leads
    (fun file hf => by rw [hholds.at?, if_pos ⟨file, hf, rfl⟩])
  have hcontents : ∀ file ∈ filesOf done, s'.tree.at? (location ++ [file]) = some (.file (bytesOf done file)) :=
    fun file hf => hholds.written file hf ▸ hcontents file hf
  have hall : s'.acts = s.acts ++ (folders.map .madeFolder ++ w.actsOf [] done ++
      (filesOf done).map fun file => .closed (w.path file)) := by
    rw [hacts', hacts]
    simp [World.madeFolders]
  have hmade : s.SameStreams (s.madeFolders made folders) := ⟨rfl, rfl, rfl, rfl, rfl⟩
  have hnone : ∀ kind : Act → Option Text, (∀ path, kind (.madeFolder path) = none) →
      (folders.map Act.madeFolder).filterMap kind = [] := by
    intro kind hkind
    simp [hkind]
  refine ⟨{ course with notices := [.outputWritten w.folder] }, s', ?_, ?_⟩
  · rw [run, if_pos ht, stateM_bind, World.makeFolders_eq hm]
    change (runSteps w steps >>= fun course => closeAll course.last >>= fun _ => _ : StateM World (Course ε)) _ = _
    rw [stateM_bind, hrun, stateM_bind, hlast]
    change (_, ((filesOf done).forM (fun file => Surroundings.closeFile (w.path file)) : StateM World Unit) s₁ |>.2) = _
    rw [hclose]
  · exact {
      ending := hending
      notices := rfl
      streams := (hmade.trans hstreams).trans hstreams'
      read := fun file hf => ⟨_, Text.encode_of_plain (plain_textOf hdone file),
        Tree.read_below hleads he (hfits file hf).1 (hfits file hf).2 (hcontents file hf)⟩
      inFolder := by
        refine ⟨location, hbase, hcontents, fun l hl => ?_⟩
        rw [helse l hl, hholds.at?, if_neg]
        rintro ⟨file, hf, heq⟩
        exact hl file hf heq
      onlyFolders := hadds
      acts := by simp only [hall, List.append_assoc]
      opened := by
        rw [hall, List.drop_left, List.filterMap_append, List.filterMap_append, hnone _ fun _ => rfl, opened_actsOf]
        simp [Act.opened?]
      closed := by
        rw [hall, List.drop_left, List.filterMap_append, List.filterMap_append, hnone _ fun _ => rfl, closed_actsOf,
          List.filterMap_map]
        exact congrFun List.filterMap_eq_map _
      once := by
        refine (nodup_filesOf done).map_on fun file hf file' hf' heq => ?_
        exact Path.joined_inj (hfits file hf).1 (hfits file' hf').1 heq }

end Runs

/-- A block keeps every line, in order. Where lines can be printed, these and the headers are all that is printed, and
what is raised ends the block. Where they go to files, nothing is printed, each file holds the lines for it, and what is
raised or keeps a file from being opened ends the block when all files have been closed. -/
theorem run_keeps_writes (settings : Settings) (identifier : Value) (steps : List (Step ε)) (s : World)
    (hn : ∀ x ∈ writes steps, Path.IsComponent x.file) :
    (settings.toFiles = false → (∀ x ∈ writes steps, (ofSettings settings identifier).IsPrintable s.capacity x) →
      ∃ course : Course ε, ((ofSettings settings identifier).run steps : StateM World (Course ε)) s =
        (course, s.printed ((ofSettings settings identifier).printout [] (writes steps))) ∧
      course.ending = (raised? steps).map .raised) ∧
    (settings.toFiles = true → (∀ x ∈ writes steps, x.line.Plain) → ∀ made folders,
      s.tree.makeFolders (ofSettings settings identifier).folder = (made, folders, .ok ()) →
      ∃ (course : Course ε) (s' : World),
        ((ofSettings settings identifier).run steps : StateM World (Course ε)) s = (course, s') ∧
        (ofSettings settings identifier).WritesFiles made folders steps
          ((ofSettings settings identifier).kept made (writes steps)) s course s') := by
  refine ⟨fun hf hp => ?_, fun ht hl made folders hm => ?_⟩
  · have hheaded : (ofSettings settings identifier).HasHeaded [] := fun _ => rfl
    obtain ⟨course, hrun, hending, _⟩ := run_printed hf hheaded steps hp
    exact ⟨course, hrun, hending⟩
  · exact run_files ht (Path.endsInSlash_joined _ (isComponent_folderName identifier)) rfl hn hl hm

/-- Lines for two files in turn, and something that is raised. -/
def interleaved : List (Step Text) := [.write "a" "f", .write "b" "g", .write "c" "f", .raise "enough"]

/-- The world in which one of the files is there already. -/
def interleavedWorld : World := { tree := .ofFiles [("abi2openapi-output/Token/f", [.ofNat 0x41])] }

theorem run_keeps_writes_interleaved :
    ((∀ x ∈ writes interleaved, Path.IsComponent x.file) ∧ ∀ x ∈ writes interleaved, x.line.Plain) ∧
      ∃ (course : Course Text) (s' : World),
        ((ofSettings ⟨{ toFiles := true }, []⟩ (.text "Token")).run interleaved : StateM World (Course Text))
          interleavedWorld = (course, s') ∧
        course.ending = some (.raised "enough") ∧
        s'.tree.read "abi2openapi-output/Token/f" = .ok [.ofNat 0x61, .ofNat 0x0A, .ofNat 0x63, .ofNat 0x0A] := by
  have hn : ∀ x ∈ writes interleaved, Path.IsComponent x.file := by decide
  have hl : ∀ x ∈ writes interleaved, x.line.Plain := by
    intro x hx
    simp only [interleaved, writes, List.mem_cons, List.not_mem_nil, or_false] at hx
    rcases hx with rfl | rfl | rfl <;> exact Text.plain_ofString _
  have hmade : (interleavedWorld.tree.makeFolders
      (ofSettings ⟨{ toFiles := true }, []⟩ (.text "Token")).folder).2.2 = .ok () := by rfl
  obtain ⟨course, s', hrun, hw⟩ := (run_keeps_writes ⟨{ toFiles := true }, []⟩ (.text "Token") interleaved
    interleavedWorld hn).2 rfl hl _ _ (Prod.ext rfl (Prod.ext rfl hmade))
  refine ⟨⟨hn, hl⟩, course, s', hrun, hw.ending.trans (by rfl), ?_⟩
  obtain ⟨bytes, hbytes, hread⟩ := hw.read "f" (by decide +kernel)
  cases hbytes.symm.trans (by rfl)
  exact hread

end Output.Writer

end ContractApi
