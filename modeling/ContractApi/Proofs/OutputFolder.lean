import ContractApi.Proofs.Products
/-!
# Output stays below its folder

Whatever a contract is called, its folder is a single one below that for all output, and a run of the command touches
nothing but this folder, the files of the products in it, and folders that are missing on the way.

- The name of the folder holds no separator, so its path has one name more than that for all output, and leads right below
  it (`folderBelow_ofSettings`, `Tree.locate_joined`).
- Folders that are made are on the way to the one that is asked for (`Tree.of_mem_missingAbove`). Making folders and
  opening, extending and closing files lose nothing, and change only what allowed paths lead to (`Tree.GrowsWithin`).
- Each step of a writer keeps to its folder (`confined_write`), hence a block does (`confined_run`), and so does a
  command (`run_writesBelow`).
-/

namespace ContractApi

open Abi Output

/-! ## On the way to a path -/

namespace Path

/-- Whether a path is another one up to some slash, or all of it. -/
def IsOnWay (path whole : Text) : Prop :=
  path ≠ [] ∧ ∃ rest, whole = path ++ rest ∧ (rest = [] ∨ isAbsolute rest = true ∨ endsInSlash path = true)

theorem IsOnWay.refl {path : Text} (h : path ≠ []) : IsOnWay path path :=
  ⟨h, [], (List.append_nil path).symm, .inl rfl⟩

theorem IsOnWay.trans {path between whole : Text} (h : IsOnWay path between) (h' : IsOnWay between whole) :
    IsOnWay path whole := by
  obtain ⟨hne, rest, rfl, hrest⟩ := h
  obtain ⟨_, more, rfl, hmore⟩ := h'
  refine ⟨hne, rest ++ more, List.append_assoc _ _ _, ?_⟩
  cases rest with
  | nil => simpa using hmore
  | cons c rest => exact .inr (hrest.resolve_left (List.cons_ne_nil c rest))

/-- The part of a path up to its last slash. -/
def upToSlash (path : Text) : Text := (path.reverse.dropWhile fun c => !isSlash c).reverse

theorem endsInSlash_upToSlash {path : Text} (h : upToSlash path ≠ []) : endsInSlash (upToSlash path) = true := by
  have hlast := List.head?_dropWhile_not (fun c => !isSlash c) path.reverse
  rw [upToSlash, List.reverse_ne_nil_iff] at h
  obtain ⟨c, rest, hc⟩ := List.exists_cons_of_ne_nil h
  rw [hc] at hlast
  rw [upToSlash, hc, endsInSlash]
  simpa using hlast

theorem isOnWay_upToSlash {path : Text} (h : upToSlash path ≠ []) : IsOnWay (upToSlash path) path := by
  refine ⟨h, (path.reverse.takeWhile fun c => !isSlash c).reverse, ?_, .inr (.inr (endsInSlash_upToSlash h))⟩
  rw [upToSlash, ← List.reverse_append, List.takeWhile_append_dropWhile, List.reverse_reverse]

theorem isOnWay_withoutSlashes {path : Text} (h : withoutSlashes path ≠ []) : IsOnWay (withoutSlashes path) path := by
  refine ⟨h, (path.reverse.takeWhile isSlash).reverse, ?_, ?_⟩
  · rw [withoutSlashes, ← List.reverse_append, List.takeWhile_append_dropWhile, List.reverse_reverse]
  · cases hr : (path.reverse.takeWhile isSlash).reverse with
    | nil => exact .inl rfl
    | cons c rest =>
      have hc : c ∈ path.reverse.takeWhile isSlash := List.mem_reverse.1 (hr ▸ List.mem_cons_self)
      have hslash : isSlash c = true := List.mem_takeWhile_imp hc
      exact .inr (.inl hslash)

theorem isOnWay_parent_upToSlash {path : Text} (h : parent path ≠ []) : IsOnWay (parent path) (upToSlash path) := by
  have hparent : parent path =
      if (upToSlash path).all isSlash then upToSlash path else withoutSlashes (upToSlash path) := rfl
  rw [hparent] at h ⊢
  split_ifs at h ⊢ with hall
  · exact .refl h
  · exact isOnWay_withoutSlashes h

theorem IsOnWay.ne_nil {path whole : Text} (h : IsOnWay path whole) : whole ≠ [] := by
  obtain ⟨hne, rest, rfl, _⟩ := h
  exact List.append_ne_nil_of_left_ne_nil hne rest

theorem isOnWay_parent {path : Text} (h : parent path ≠ []) : IsOnWay (parent path) path :=
  have hw := isOnWay_parent_upToSlash h
  hw.trans (isOnWay_upToSlash hw.ne_nil)

theorem parent?_eq_some {path above : Text} (h : parent? path = some above) :
    above ≠ [] ∧ above = parent (if endsInSlash path then parent path else path) := by
  obtain ⟨hstop, h⟩ := Option.ite_none_left_eq_some.1 h
  refine ⟨?_, (Option.some.inj h).symm⟩
  rintro rfl
  exact hstop (by rw [Option.some.inj h]; rfl)

/-- The folder in which the last name of a path is to be found is on the way. -/
theorem isOnWay_of_parent? {path above : Text} (h : parent? path = some above) : IsOnWay above path := by
  obtain ⟨hne, habove⟩ := parent?_eq_some h
  split_ifs at habove with hslash
  · rw [habove] at hne ⊢
    have hw := isOnWay_parent hne
    exact hw.trans (isOnWay_parent hw.ne_nil)
  · rw [habove] at hne ⊢
    exact isOnWay_parent hne

theorem upToSlash_append {folder name : Text} (hf : folder = [] ∨ endsInSlash folder = true)
    (hn : ∀ c ∈ name, isSlash c = false) : upToSlash (folder ++ name) = folder := by
  have hname : ∀ c ∈ name.reverse, (!isSlash c) = true := by
    intro c hc
    rw [hn c (List.mem_reverse.1 hc)]
    rfl
  rw [upToSlash, List.reverse_append, List.dropWhile_append_of_pos hname]
  rcases hf with rfl | hf
  · rfl
  · obtain rfl | ⟨before, last, rfl⟩ := List.eq_nil_or_concat folder
    · rfl
    · have hlast : isSlash last = true := by simpa [endsInSlash] using hf
      simp [hlast]

/-- The folder in which a component is to be found below another one is on the way to this. -/
theorem isOnWay_of_parent?_joined {folder name above : Text} (hn : IsComponent name)
    (h : parent? (joined folder name) = some above) : IsOnWay above folder := by
  by_cases hf : folder = [] ∨ endsInSlash folder = true
  · have hjoined : joined folder name = folder ++ name := by
      rw [joined, isAbsolute_of_noSlash hn.2, if_neg Bool.false_ne_true, if_pos]
      simpa using hf
    obtain ⟨hne, habove⟩ := parent?_eq_some h
    rw [endsInSlash_joined folder hn, if_neg Bool.false_ne_true, hjoined] at habove
    rw [habove] at hne ⊢
    have hw := isOnWay_parent_upToSlash hne
    rwa [upToSlash_append hf hn.2] at hw
  · rw [not_or, Bool.not_eq_true] at hf
    cases (parent?_joined hf.1 hf.2 hn).symm.trans h
    exact .refl hf.1

/-- The names on the way to a component below a folder are those on the way to the folder, and the component. -/
theorem names_joined (folder : Text) {name : Text} (hn : IsComponent name) : ∃ before,
    names (joined folder name) = before ++ [name] ∧ (names folder = before ∨ names folder = before ++ [[]]) := by
  have hname := names_of_noSlash hn.2
  obtain rfl | ⟨before, last, rfl⟩ := List.eq_nil_or_concat folder
  · refine ⟨[], ?_, .inr rfl⟩
    rw [joined, isAbsolute_of_noSlash hn.2]
    exact hname
  · cases he : endsInSlash (before.concat last) with
    | true =>
      have hlast : last = .ofChar '/' := by simpa [endsInSlash, isSlash] using he
      refine ⟨names before, ?_, .inr ?_⟩
      · rw [joined, isAbsolute_of_noSlash hn.2, he, if_neg Bool.false_ne_true, if_pos (Bool.or_true _), hlast,
          List.concat_eq_append, List.append_assoc, List.singleton_append, names_append, hname]
      · rw [hlast, List.concat_eq_append, names_append]
        rfl
    | false =>
      refine ⟨names (before.concat last), ?_, .inl rfl⟩
      rw [joined_of_component (by simp) he hn, names_append, hname]

theorem exists_joined (folder name : Text) (hn : IsComponent name) : ∃ rest, joined folder name = folder ++ rest := by
  rw [joined, isAbsolute_of_noSlash hn.2, if_neg Bool.false_ne_true]
  split
  · exact ⟨name, rfl⟩
  · exact ⟨"/" ++ name, List.append_assoc _ _ _⟩

end Path

/-! ## The folder of a contract -/

namespace Tree

theorem descent_joined (folder : Text) {name : Text} (hn : Path.IsComponent name) :
    descent (Path.joined folder name) = descent folder ++ [name] := by
  obtain ⟨before, hjoined, hfolder⟩ := Path.names_joined folder hn
  obtain ⟨hreserved, _⟩ := hn
  simp only [isReserved, Bool.or_eq_false_iff, decide_eq_false_iff_not] at hreserved
  rw [descent, descent, hjoined, List.filter_append]
  rcases hfolder with h | h <;> simp [h, hreserved]

theorem locate_eq_ok {tree : Tree} {path : Text} {l : Location} : tree.locate path = .ok l ↔
    path ≠ [] ∧ byteCount path ≤ maxPathBytes ∧
      (Path.names path).foldlM tree.follow (if Path.isAbsolute path then [] else tree.here) = .ok l := by
  rw [locate]
  by_cases hempty : path = []
  · simp [hempty]
  · rw [if_neg (by simpa using hempty)]
    by_cases hlong : maxPathBytes < byteCount path
    · simp [hempty, hlong, Nat.not_le.2 hlong]
    · simp [hempty, hlong, Nat.not_lt.1 hlong]

/-- From a folder a component leads right below it. -/
theorem follow_component {tree : Tree} {above l : Location} {name : Text} (hn : Path.IsComponent name)
    (h : tree.follow above name = .ok l) : l = above ++ [name] := by
  obtain ⟨hreserved, _⟩ := hn
  simp only [isReserved, Bool.or_eq_false_iff, decide_eq_false_iff_not] at hreserved
  obtain ⟨⟨hempty, hdot⟩, hdots⟩ := hreserved
  rw [follow_of_folder (folder_of_follow h), if_neg (by simp [hempty, hdot]), if_neg hdots] at h
  split at h
  · cases h
  · exact (Except.ok.inj h).symm

/-- What a component leads to below a folder is right below that of the folder. -/
theorem locate_joined {tree : Tree} {folder name : Text} {l : Location} (hf : folder ≠ []) (hn : Path.IsComponent name)
    (h : tree.locate (Path.joined folder name) = .ok l) :
    ∃ above, tree.LeadsToFolder folder above ∧ l = above ++ [name] := by
  obtain ⟨before, hjoined, hfolder⟩ := Path.names_joined folder hn
  obtain ⟨rest, hrest⟩ := Path.exists_joined folder name hn
  obtain ⟨_, hlong, hleads⟩ := locate_eq_ok.1 h
  have habsolute : Path.isAbsolute (Path.joined folder name) = Path.isAbsolute folder := by
    obtain ⟨c, folder, rfl⟩ := List.exists_cons_of_ne_nil hf
    rw [hrest]
    rfl
  have hshort : byteCount folder ≤ maxPathBytes := by
    refine Nat.le_trans ?_ hlong
    rw [hrest, byteCount, byteCount, List.flatMap_append, List.length_append]
    exact Nat.le_add_right _ _
  rw [hjoined, habsolute, List.foldlM_append] at hleads
  obtain ⟨above, habove, hlast⟩ := except_bind_eq_ok.1 hleads
  change tree.follow above name >>= pure = _ at hlast
  rw [bind_pure] at hlast
  have hat := folder_of_follow hlast
  refine ⟨above, ⟨locate_eq_ok.2 ⟨hf, hshort, ?_⟩, hat⟩, follow_component hn hlast⟩
  rcases hfolder with hfolder | hfolder
  · rw [hfolder, habove]
  · -- behind the slash at the end the way stays where it is
    rw [hfolder, List.foldlM_append, habove]
    exact except_bind_eq_ok.2 ⟨above, rfl, except_bind_eq_ok.2 ⟨above, follow_of_folder hat [], rfl⟩⟩

end Tree

namespace Output

theorem isSeparator_folderName (identifier : Value) : ∀ c ∈ folderName identifier, isSeparator c = false := by
  intro c hc
  unfold folderName at hc
  dsimp only at hc
  split at hc
  · have hnone : defaultContractName.any isSeparator = false := rfl
    exact Bool.eq_false_iff.2 (List.any_eq_false.1 hnone c hc)
  · obtain ⟨d, _, rfl⟩ := List.mem_map.1 hc
    split
    · rfl
    · rename_i hd
      exact Bool.eq_false_iff.2 hd

/-- The name of a folder names itself. -/
theorem folderName_folderName (identifier : Value) :
    folderName (.text (folderName identifier)) = folderName identifier := by
  have hsame : (folderName identifier).replaceEach isSeparator '_' = folderName identifier := by
    refine (List.map_congr_left fun c hc => ?_).trans (List.map_id _)
    rw [isSeparator_folderName identifier c hc]
    rfl
  have hreserved := (isComponent_folderName identifier).1
  rw [folderName, Value.display, hsame, if_neg (Bool.eq_false_iff.1 hreserved)]

/-- Whether the folder is right below that for all output, under a name that is a single one on every system. -/
structure FolderBelow (out name folder : Text) : Prop where
  noSeparator : ∀ c ∈ name, c ≠ .ofChar '/' ∧ c ≠ .ofChar '\\'
  notReserved : name ≠ "" ∧ name ≠ "." ∧ name ≠ ".."
  joined : folder = Path.joined out name
  /-- The path of the folder has the name behind those of the path for all output. -/
  descent : Tree.descent folder = Tree.descent out ++ [name]
  /-- The path of the folder leads right below the place to which the path for all output leads. -/
  leads : out ≠ [] → ∀ (tree : Tree) (l : Location), tree.locate folder = .ok l →
    ∃ above, tree.LeadsToFolder out above ∧ l = above ++ [name]

theorem folderBelow_ofSettings (settings : Settings) (identifier : Value) :
    FolderBelow settings.outputFolder (folderName identifier) (Writer.ofSettings settings identifier).folder where
  noSeparator := by
    intro c hc
    have hnot := isSeparator_folderName identifier c hc
    rw [isSeparator, Bool.or_eq_false_iff, decide_eq_false_iff_not, decide_eq_false_iff_not] at hnot
    exact hnot
  notReserved := by
    have hnot := (isComponent_folderName identifier).1
    simp only [isReserved, Bool.or_eq_false_iff, decide_eq_false_iff_not, List.isEmpty_eq_false_iff] at hnot
    exact ⟨hnot.1.1, hnot.1.2, hnot.2⟩
  joined := rfl
  descent := Tree.descent_joined _ (isComponent_folderName identifier)
  leads := fun hout _ _ h => Tree.locate_joined hout (isComponent_folderName identifier) h

end Output

/-! ## What changes in a tree -/

namespace Tree

theorem isThere_iff {tree : Tree} {path : Text} : tree.isThere path = true ↔
    checkPath path = .ok () ∧ ∃ l, tree.locate path = .ok l ∧ tree.at? l ≠ none := by
  rw [isThere, Bool.and_eq_true, status?]
  refine and_congr ?_ ?_
  · cases checkPath path with
    | ok u => exact iff_of_true rfl rfl
    | error fault => exact iff_of_false (fun h => by cases h) fun h => by cases h
  · cases tree.locate path <;> simp [Except.toOption, Option.isSome_iff_ne_none]

/-- Whether nothing is lost from one tree to another, and only that changes to which allowed paths lead. -/
structure GrowsWithin (allowed : Text → Prop) (tree tree' : Tree) : Prop where
  locate : ∀ path l, tree.locate path = .ok l → tree'.locate path = .ok l
  kept : ∀ l, tree.at? l ≠ none → tree'.at? l ≠ none
  changed : ∀ l, tree'.at? l = tree.at? l ∨ ∃ path, allowed path ∧ tree'.locate path = .ok l

section Growth

variable {allowed : Text → Prop} {tree tree' tree'' : Tree}

theorem GrowsWithin.refl (allowed : Text → Prop) (tree : Tree) : GrowsWithin allowed tree tree :=
  ⟨fun _ _ h => h, fun _ h => h, fun _ => .inl rfl⟩

theorem GrowsWithin.trans (h : GrowsWithin allowed tree tree') (h' : GrowsWithin allowed tree' tree'') :
    GrowsWithin allowed tree tree'' where
  locate := fun path l hl => h'.locate path l (h.locate path l hl)
  kept := fun l hl => h'.kept l (h.kept l hl)
  changed := by
    intro l
    rcases h'.changed l with heq' | hpath
    · rcases h.changed l with heq | ⟨path, hallowed, hl⟩
      · exact .inl (heq'.trans heq)
      · exact .inr ⟨path, hallowed, h'.locate path l hl⟩
    · exact .inr hpath

/-- What is there stays there. -/
theorem GrowsWithin.isThere (h : GrowsWithin allowed tree tree') {path : Text} (ht : tree'.isThere path = false) :
    tree.isThere path = false := by
  refine Bool.eq_false_iff.2 fun hthere => Bool.eq_false_iff.1 ht ?_
  obtain ⟨hc, l, hl, hat⟩ := isThere_iff.1 hthere
  exact isThere_iff.2 ⟨hc, l, h.locate path l hl, h.kept l hat⟩

/-- Something is put where an allowed path leads and no folder is. -/
theorem growsWithin_put {path : Text} {l : Location} (ha : allowed path) (hl : tree.locate path = .ok l)
    (hat : tree.at? l ≠ some .folder) (entry : Entry) : GrowsWithin allowed tree (tree.put l entry) where
  locate := fun _ _ h => locate_put hat entry h
  kept := by
    intro l' h
    rw [at?_put tree (ne_nil_of_at? hat)]
    split
    · exact Option.some_ne_none entry
    · exact h
  changed := by
    intro l'
    rw [at?_put tree (ne_nil_of_at? hat)]
    split
    · rename_i heq
      exact .inr ⟨path, ha, heq ▸ locate_put hat entry hl⟩
    · exact .inl rfl

theorem growsWithin_makeFolder {path : Text} (ha : allowed path) (h : tree.makeFolder path = .ok tree') :
    GrowsWithin allowed tree tree' := by
  obtain ⟨_, l, hl, hnone, rfl⟩ := makeFolder_eq_ok h
  exact growsWithin_put ha hl (ne_folder_of_none hnone) .folder

theorem growsWithin_openFile {path : Text} (ha : allowed path) (h : tree.openFile path = .ok tree') :
    GrowsWithin allowed tree tree' := by
  obtain ⟨_, hs⟩ := onPath_eq_ok.1 h
  obtain ⟨l, hl, hs⟩ := except_bind_eq_ok.1 hs
  split_ifs at hl hs with hslash
  have hat : tree.at? l ≠ some .folder := by
    intro hfolder
    rw [hfolder] at hs
    cases hs
  have heq : tree' = tree.put l (.file []) := by
    split at hs
    · cases hs
    · exact (Except.ok.inj hs).symm
  exact heq ▸ growsWithin_put ha hl hat _

theorem growsWithin_overwrite {path : Text} (ha : allowed path) (bytes : List UInt8) :
    GrowsWithin allowed tree (tree.overwrite path bytes) := by
  unfold overwrite
  split
  · rename_i l hl
    split
    · rename_i content hat
      exact growsWithin_put ha hl (by rw [hat]; exact fun h => by cases h) _
    · exact .refl allowed tree
  · exact .refl allowed tree

theorem growsWithin_makeEach {paths : List Text} (ha : ∀ path ∈ paths, allowed path) :
    GrowsWithin allowed tree (tree.makeEach paths).1 := by
  induction paths generalizing tree with
  | nil => exact .refl allowed tree
  | cons path rest ih =>
    obtain ⟨hpath, hrest⟩ := List.forall_mem_cons.1 ha
    rw [makeEach]
    split
    · rename_i tree' h
      exact (growsWithin_makeFolder hpath h).trans (ih hrest)
    · split
      · exact ih hrest
      · exact .refl allowed tree

/-- Only the folders are made that are asked for. -/
theorem makeEach_subset (tree : Tree) (paths : List Text) : (tree.makeEach paths).2.1 ⊆ paths := by
  induction paths generalizing tree with
  | nil => exact List.Subset.refl []
  | cons path rest ih =>
    rw [makeEach]
    split
    · rename_i tree' h
      exact List.cons_subset_cons path (ih tree')
    · split
      · exact List.subset_cons_of_subset path (ih tree)
      · exact List.nil_subset _

end Growth

/-- Folders above a path that are to be made are on the way, and not there. -/
theorem of_mem_missingAbove {tree : Tree} : ∀ {levels : Nat} {path missing : Text},
    missing ∈ tree.missingAbove levels path → ∃ above, Path.parent? path = some above ∧
      Path.IsOnWay missing above ∧ tree.isThere missing = false
  | 0, _, _, h => absurd h List.not_mem_nil
  | levels + 1, path, missing, h => by
    rw [missingAbove] at h
    split at h
    · exact absurd h List.not_mem_nil
    · rename_i above habove
      split at h
      · exact absurd h List.not_mem_nil
      · rename_i hthere
        refine ⟨above, habove, ?_⟩
        rcases List.mem_cons.1 h with rfl | h
        · exact ⟨.refl (Path.parent?_eq_some habove).1, Bool.eq_false_iff.2 hthere⟩
        · obtain ⟨higher, hhigher, hway, hmissing⟩ := of_mem_missingAbove h
          exact ⟨hway.trans (Path.isOnWay_of_parent? hhigher), hmissing⟩

end Tree

/-! ## What a writer does -/

/-- Whether the path is that of a file of the folder, for some product. -/
def IsProductPath (folder path : Text) : Prop := ∃ p : Product, path = Path.joined folder p.file

/-- Whether the path is on the way to that for all output, or that of the folder below it, or that of a product there. -/
def IsOutputPath (out name path : Text) : Prop :=
  Path.IsOnWay path out ∨ path = Path.joined out name ∨ IsProductPath (Path.joined out name) path

/-- Whether what is done, after everything in the tree was there, keeps to the folder below that for all output: apart
from this folder, only those are made that are missing on the way to the one for all output. -/
def Act.KeepsTo (tree : Tree) (out name : Text) : Act → Prop
  | .madeFolder path => path = Path.joined out name ∨ Path.IsOnWay path out ∧ tree.isThere path = false
  | .opened path | .extended path _ | .closed path => IsProductPath (Path.joined out name) path

namespace World

/-- Whether nothing was done to files and folders from one world to another. -/
structure SameFiles (w s : World) : Prop where
  tree : s.tree = w.tree
  acts : s.acts = w.acts

/-- Whether what was done to files and folders from one world to another keeps to the folder. -/
structure WritesBelow (out name : Text) (w s : World) : Prop where
  tree : Tree.GrowsWithin (IsOutputPath out name) w.tree s.tree
  acts : ∃ acts, s.acts = w.acts ++ acts ∧ ∀ act ∈ acts, act.KeepsTo w.tree out name

section Below

variable {out name : Text} {w s s' : World}

theorem SameFiles.writesBelow (h : SameFiles w s) : WritesBelow out name w s :=
  ⟨h.tree ▸ .refl _ _, [], by rw [h.acts, List.append_nil], List.forall_mem_nil _⟩

theorem sameFiles_print (text : Text) (w : World) :
    w.SameFiles ((Surroundings.print text : StateM World (Except FileFault Unit)) w).2 := by
  by_cases h : w.capacity.Takes text
  · rw [print_of_takes h]
    exact ⟨rfl, rfl⟩
  · obtain ⟨start, stop, hprint⟩ := print_of_refused h
    rw [hprint]
    exact ⟨rfl, rfl⟩

theorem WritesBelow.trans (h : WritesBelow out name w s) (h' : WritesBelow out name s s') :
    WritesBelow out name w s' := by
  obtain ⟨acts, hacts, hall⟩ := h.acts
  obtain ⟨acts', hacts', hall'⟩ := h'.acts
  refine ⟨h.tree.trans h'.tree, acts ++ acts', by rw [hacts', hacts, List.append_assoc], ?_⟩
  refine List.forall_mem_append.2 ⟨hall, fun act hact => ?_⟩
  have hkeeps := hall' act hact
  cases act with
  | madeFolder path => exact hkeeps.imp_right fun hway => ⟨hway.1, h.tree.isThere hway.2⟩
  | opened _ | extended _ _ | closed _ => exact hkeeps

theorem writesBelow_opened {path : Text} {tree : Tree} (hp : IsProductPath (Path.joined out name) path)
    (h : w.tree.openFile path = .ok tree) : WritesBelow out name w (w.opened path tree) :=
  ⟨Tree.growsWithin_openFile (.inr (.inr hp)) h, [.opened path], rfl, List.forall_mem_singleton.2 hp⟩

theorem writesBelow_extended {path : Text} (hp : IsProductPath (Path.joined out name) path) (bytes : List UInt8) :
    WritesBelow out name w (w.extended path bytes) :=
  ⟨.refl _ _, [.extended path bytes], rfl, List.forall_mem_singleton.2 hp⟩

theorem writesBelow_closed {path : Text} (hp : IsProductPath (Path.joined out name) path) :
    WritesBelow out name w (w.closed path) :=
  ⟨Tree.growsWithin_overwrite (.inr (.inr hp)) _, [.closed path], rfl, List.forall_mem_singleton.2 hp⟩

theorem writesBelow_madeFolders (hn : Path.IsComponent name) {tree : Tree} {folders : List Text}
    {result : Except FileFault Unit} (h : w.tree.makeFolders (Path.joined out name) = (tree, folders, result)) :
    WritesBelow out name w (w.madeFolders tree folders) := by
  rw [Tree.makeFolders] at h
  generalize hasked : (Path.joined out name :: w.tree.missingAbove (Path.joined out name).length
    (Path.joined out name)).reverse = asked at h
  have hkeeps : ∀ path ∈ asked, (Act.madeFolder path).KeepsTo w.tree out name := by
    intro path hpath
    rw [← hasked, List.mem_reverse] at hpath
    rcases List.mem_cons.1 hpath with rfl | hmissing
    · exact .inl rfl
    · obtain ⟨above, habove, hway, hthere⟩ := Tree.of_mem_missingAbove hmissing
      exact .inr ⟨hway.trans (Path.isOnWay_of_parent?_joined hn habove), hthere⟩
  have hallowed : ∀ path ∈ asked, IsOutputPath out name path :=
    fun path hpath => (hkeeps path hpath).elim (fun heq => .inr (.inl heq)) fun hway => .inl hway.1
  have hgrows : Tree.GrowsWithin (IsOutputPath out name) w.tree (w.tree.makeEach asked).1 :=
    Tree.growsWithin_makeEach hallowed
  have hmade := w.tree.makeEach_subset asked
  rw [h] at hgrows hmade
  refine ⟨hgrows, folders.map .madeFolder, rfl, fun act hact => ?_⟩
  obtain ⟨path, hpath, rfl⟩ := List.mem_map.1 hact
  exact hkeeps path (hmade hpath)

end Below

end World

namespace Output.Writer

/-- Whether a computation keeps to the folder, and its result is as described. -/
def Confined {α : Type} (out name : Text) (x : StateM World α) (result : α → Prop) : Prop :=
  ∀ w, World.WritesBelow out name w (x w).2 ∧ result (x w).1

section Confined

variable {α β : Type} {out name : Text}

theorem confined_pure {a : α} {result : α → Prop} (h : result a) : Confined out name (pure a) result :=
  fun _ => ⟨World.SameFiles.writesBelow ⟨rfl, rfl⟩, h⟩

theorem Confined.bind {x : StateM World α} {f : α → StateM World β} {result : α → Prop} {result' : β → Prop}
    (hx : Confined out name x result) (hf : ∀ a, result a → Confined out name (f a) result') :
    Confined out name (x >>= f) result' := by
  intro w
  obtain ⟨hbelow, hresult⟩ := hx w
  obtain ⟨hbelow', hresult'⟩ := hf _ hresult (x w).2
  exact ⟨hbelow.trans hbelow', hresult'⟩

theorem confined_printLine (line : Text) : Confined out name (printLine line) fun _ => True := by
  have hprint : ∀ text : Text, Confined out name (Surroundings.print text) fun _ => True :=
    fun text s => ⟨(s.sameFiles_print text).writesBelow, trivial⟩
  refine (hprint line).bind fun printing _ => ?_
  cases printing with
  | error fault => exact confined_pure trivial
  | ok u => exact hprint "\n"

/-- Whether the writer is the one for the folder, and holds open nothing but files of products. -/
structure Serves (out name : Text) (w : Writer) : Prop where
  folder : w.folder = Path.joined out name
  opened : ∀ file ∈ w.opened, ∃ p : Product, p.file = file

theorem Serves.isProductPath {w : Writer} (h : Serves out name w) (p : Product) :
    IsProductPath (Path.joined out name) (w.path p.file) := ⟨p, by rw [path, h.folder]⟩

variable {w : Writer} (h : Serves out name w)

include h

theorem confined_ensureOpen (p : Product) : Confined out name (w.ensureOpen p.file)
    fun opening => ∀ w', opening = .ok w' → Serves out name w' := by
  intro s
  by_cases hm : p.file ∈ w.opened
  · rw [ensureOpen_of_mem hm]
    refine ⟨World.SameFiles.writesBelow ⟨rfl, rfl⟩, fun w' hw' => ?_⟩
    cases hw'
    exact h
  · cases ho : s.tree.openFile (w.path p.file) with
    | error fault =>
      rw [ensureOpen_of_error hm ho]
      exact ⟨World.SameFiles.writesBelow ⟨rfl, rfl⟩, fun w' hw' => by cases hw'⟩
    | ok tree =>
      rw [ensureOpen_of_ok hm ho]
      refine ⟨World.writesBelow_opened (h.isProductPath p) ho, fun w' hw' => ?_⟩
      cases hw'
      exact ⟨h.folder, List.forall_mem_append.2 ⟨h.opened, List.forall_mem_singleton.2 ⟨p, rfl⟩⟩⟩

theorem confined_extend (line : Text) (p : Product) : Confined out name (w.extend line p.file) fun _ => True := by
  unfold extend
  split
  · exact fun s => ⟨World.writesBelow_extended (h.isProductPath p) _, trivial⟩
  · exact confined_pure trivial

theorem confined_ensureHeader (p : Product) : Confined out name (w.ensureHeader p.file)
    fun heading => ∀ w', heading = .ok w' → Serves out name w' := by
  have hprinting : Serves out name (w.afterPrinting p.file) := by
    unfold afterPrinting
    split
    · exact ⟨h.folder, h.opened⟩
    · exact h
  unfold ensureHeader
  split
  · refine (confined_printLine _).bind fun printing _ => ?_
    cases printing with
    | error fault => exact confined_pure fun w' hw' => by cases hw'
    | ok u => exact confined_pure fun w' hw' => Except.ok.inj hw' ▸ hprinting
  · exact confined_pure fun w' hw' => Except.ok.inj hw' ▸ h

/-- A line for a product goes to its file in the folder, or is printed. -/
theorem confined_write (line : Text) (p : Product) :
    Confined out name (w.write line p.file) fun written => Serves out name written.1 := by
  unfold write
  split
  · refine (confined_ensureOpen h p).bind fun opening hopening => ?_
    cases opening with
    | error fault => exact confined_pure h
    | ok w' =>
      have hw' := hopening w' rfl
      exact (confined_extend hw' line p).bind fun _ _ => confined_pure hw'
  · refine (confined_ensureHeader h p).bind fun heading hheading => ?_
    cases heading with
    | error fault => exact confined_pure h
    | ok w' => exact (confined_printLine line).bind fun _ _ => confined_pure (hheading w' rfl)

end Confined

section Blocks

variable {ε : Type} {out name : Text} {steps : List (Step ε)}

theorem mem_writes {x : Write} : ∀ {steps : List (Step ε)}, x ∈ writes steps → .write x.line x.file ∈ steps
  | .write line file :: rest, h => by
    rcases List.mem_cons.1 h with rfl | h
    · exact List.mem_cons_self
    · exact List.mem_cons_of_mem _ (mem_writes h)

/-- Whether all lines of a block are for products. -/
def ForProducts (steps : List (Step ε)) : Prop := ∀ x ∈ writes steps, ∃ p : Product, p.file = x.file

theorem confined_runSteps (hs : ForProducts steps) {w : Writer} (h : Serves out name w) :
    Confined out name (runSteps w steps) fun course => Serves out name course.last := by
  induction steps generalizing w with
  | nil => exact confined_pure h
  | cons step rest ih =>
    cases step with
    | raise e => exact confined_pure h
    | write line file =>
      obtain ⟨⟨p, hp⟩, hrest⟩ := List.forall_mem_cons.1 hs
      have hp : p.file = file := hp
      subst hp
      refine (confined_write h line p).bind fun written hwritten => ?_
      obtain ⟨w', result⟩ := written
      cases result with
      | error fault => exact confined_pure hwritten
      | ok u => exact (ih hrest hwritten).bind fun course hcourse => confined_pure hcourse

theorem confined_closeAll {w : Writer} (h : Serves out name w) : Confined out name w.closeAll fun _ => True := by
  have hfiles : ∀ files : List Text, (∀ file ∈ files, ∃ p : Product, p.file = file) →
      Confined out name (files.forM fun file => Surroundings.closeFile (w.path file)) fun _ => True := by
    intro files hfiles
    induction files with
    | nil => exact confined_pure trivial
    | cons file rest ih =>
      obtain ⟨⟨p, rfl⟩, hrest⟩ := List.forall_mem_cons.1 hfiles
      have hclose : Confined out name (Surroundings.closeFile (w.path p.file)) fun _ => True :=
        fun s => ⟨World.writesBelow_closed (h.isProductPath p), trivial⟩
      exact hclose.bind fun _ _ => ih hrest
  exact hfiles w.opened h.opened

/-- A block whose lines are for products keeps to the folder. -/
theorem confined_run (hn : Path.IsComponent name) (hs : ForProducts steps) {w : Writer} (h : Serves out name w) :
    Confined out name (w.run steps) fun _ => True := by
  unfold run
  split
  · have hmake : Confined out name (Surroundings.makeFolders w.folder) fun _ => True := by
      intro s
      rcases hmade : s.tree.makeFolders w.folder with ⟨tree, folders, result⟩
      rw [World.makeFolders_eq hmade]
      rw [h.folder] at hmade
      exact ⟨World.writesBelow_madeFolders hn hmade, trivial⟩
    refine hmake.bind fun made _ => ?_
    cases made with
    | error fault => exact confined_pure trivial
    | ok u =>
      refine (confined_runSteps hs h).bind fun course hcourse => ?_
      exact (confined_closeAll hcourse).bind fun _ _ => confined_pure trivial
  · exact fun s => ⟨(confined_runSteps hs h s).1, trivial⟩

end Blocks

end Output.Writer

namespace CommandLine

/-! ## Commands -/

/-- Whatever is asked for, each line is for a product. -/
theorem forProducts_stepsOf (settings : Settings) (conversion : Conversion) (document indent : Value) :
    Writer.ForProducts (stepsOf settings conversion document indent) := by
  intro x hx
  obtain ⟨p, _, hstep⟩ := List.mem_flatMap.1 (Writer.mem_writes hx)
  refine ⟨p, ?_⟩
  unfold stepsOfProduct at hstep
  split at hstep
  · obtain ⟨line, _, heq⟩ := List.mem_map.1 hstep
    exact (Writer.Step.write.inj heq).2
  · cases List.mem_singleton.1 hstep

section Commands

variable (settings : Settings) (raw indent : Value)

theorem writesBelow_writeProducts {c : Conversion} {name : Value} (hname : c.getContractName.1.result = .ok name)
    (document : Value) (w : World) : w.WritesBelow settings.outputFolder (folderName name)
      (writeProducts (m := StateM World) settings c document indent w).2 := by
  have hserves : Writer.Serves settings.outputFolder (folderName name) (.ofSettings settings name) :=
    ⟨rfl, List.forall_mem_nil _⟩
  have hrun := Writer.confined_run (isComponent_folderName name) (forProducts_stepsOf settings c document indent) hserves
  obtain ⟨hbelow, -⟩ := hrun w
  rw [writeProducts, hname]
  dsimp only
  rw [stateM_bind]
  generalize (Writer.run _ _ : StateM World _) w = ran at hbelow ⊢
  obtain ⟨course, s⟩ := ran
  rw [stateM_bind, forM_tell_eq]
  refine hbelow.trans ?_
  cases course.ending <;> exact World.SameFiles.writesBelow ⟨rfl, rfl⟩

theorem sameFiles_reportFailure (result : ConversionResult) (w : World) :
    w.SameFiles (reportFailure (m := StateM World) settings indent result w).2 := by
  rw [reportFailure, stateM_bind, tell_eq]
  cases (Json.toJson (.value result.payload) indent).result <;> exact ⟨rfl, rfl⟩

/-- A document that is not converted leads to nothing but notices and reports. -/
theorem sameFiles_of_unsuccessful (w : World)
    (h : ∀ d, (convert raw settings.contractName (.bool settings.strict)).result ≠ .ok (.success d)) :
    w.SameFiles (convertDocument (m := StateM World) settings indent raw w).2 := by
  cases hr : (convert raw settings.contractName (.bool settings.strict)).result with
  | error failure =>
    rw [convert] at hr
    rw [convertDocument]
    dsimp only
    rw [stateM_bind, forM_tell_eq, hr]
    exact ⟨rfl, rfl⟩
  | ok result =>
    have htag : result.tag ≠ .success := by
      cases result with
      | success d => exact absurd hr (h d)
      | invalid _ _ | failed _ _ => exact fun htag => by cases htag
    have hsame := sameFiles_reportFailure settings indent result (w.told
      (shown settings.logLevel w.time (convert raw settings.contractName (.bool settings.strict)).notices))
    rw [convertDocument_of_unsuccessful hr htag]
    exact ⟨hsame.tree, hsame.acts⟩

theorem writesBelow_convertDocument (w : World) :
    w.WritesBelow settings.outputFolder (folderName (contractNameOf raw settings.contractName))
      (convertDocument (m := StateM World) settings indent raw w).2 := by
  by_cases h : ∃ d, (convert raw settings.contractName (.bool settings.strict)).result = .ok (.success d)
  · obtain ⟨d, hd⟩ := h
    obtain ⟨i, c, hi, _, hparsed, hconvert⟩ := convertDocument_of_success indent hd
    have hbelow := writesBelow_writeProducts settings indent (getContractName_of_parsed hi hparsed) d
      (w.told (shown settings.logLevel w.time (convert raw settings.contractName (.bool settings.strict)).notices))
    rw [hconvert]
    generalize writeProducts (m := StateM World) _ _ _ _ _ = written at hbelow ⊢
    obtain ⟨_ | _, s⟩ := written <;> exact ⟨hbelow.tree, hbelow.acts⟩
  · exact (sameFiles_of_unsuccessful settings raw indent w (not_exists.1 h)).writesBelow

end Commands

section Runs

variable {a : Arguments} {environment : Environment} {w : World}

theorem sameFiles_of_noIndent {fault : Fault} (hi : Settings.indent ⟨a.options, environment⟩ = .error fault) :
    w.SameFiles (runArguments (m := StateM World) a environment w).2 := by
  rw [runArguments, stateM_bind, forM_tellEarly, hi]
  exact ⟨rfl, rfl⟩

/-- With arguments, what is done depends on whether there is a document. -/
theorem writesBelow_runArguments (a : Arguments) (environment : Environment) (w : World) :
    let settings : Settings := ⟨a.options, environment⟩
    (∀ raw, (readDocument (m := StateM World) a.input w).1 = .ok raw →
        w.WritesBelow settings.outputFolder (folderName (contractNameOf raw settings.contractName))
          (runArguments (m := StateM World) a environment w).2) ∧
      ((∀ raw, (readDocument (m := StateM World) a.input w).1 ≠ .ok raw) →
        w.SameFiles (runArguments (m := StateM World) a environment w).2) := by
  intro settings
  cases hi : settings.indent with
  | error fault =>
    have hsame := sameFiles_of_noIndent (w := w) hi
    exact ⟨fun _ _ => hsame.writesBelow, fun _ => hsame⟩
  | ok indent =>
    obtain ⟨description, _, hrun⟩ := runArguments_of_indent hi w
    rw [hrun, readDocument_started]
    constructor
    · intro raw hr
      rw [hr]
      have hbelow := writesBelow_convertDocument settings raw indent (started settings description w)
      exact ⟨hbelow.tree, hbelow.acts⟩
    · intro hnone
      cases hr : (readDocument (m := StateM World) a.input w).1 with
      | ok raw => exact absurd hr (hnone raw)
      | error why =>
        cases why with
        | unreadable cause =>
          dsimp only
          rw [stateM_bind, tell_eq]
          exact ⟨rfl, rfl⟩
        | stopped stop => exact ⟨rfl, rfl⟩

end Runs

/-- Whatever a contract is called, its folder is right below that for all output. A command makes no other folder, apart
from those that are missing on the way, and writes to nothing but the files of products there; without a document it does
nothing to files and folders. -/
theorem run_writesBelow (arguments : List Text) (environment : Environment) (w : World) :
    (∀ (settings : Settings) (identifier : Value),
      FolderBelow settings.outputFolder (folderName identifier) (Writer.ofSettings settings identifier).folder ∧
        folderName (.text (folderName identifier)) = folderName identifier) ∧
      (∀ a raw, Arguments.parse arguments = .ok a → (readDocument (m := StateM World) a.input w).1 = .ok raw →
        let settings : Settings := ⟨a.options, environment⟩
        w.WritesBelow settings.outputFolder (folderName (contractNameOf raw settings.contractName))
          (run (m := StateM World) arguments environment w).2) ∧
      ((∀ a raw, Arguments.parse arguments = .ok a → (readDocument (m := StateM World) a.input w).1 ≠ .ok raw) →
        w.SameFiles (run (m := StateM World) arguments environment w).2) := by
  refine ⟨fun settings identifier => ⟨folderBelow_ofSettings settings identifier, folderName_folderName identifier⟩, ?_⟩
  rw [run]
  cases ha : Arguments.parse arguments with
  | error exit =>
    refine ⟨fun a raw h => (by cases h), fun _ => ?_⟩
    have hprint := w.sameFiles_print exit.output
    dsimp only
    rw [stateM_bind]
    generalize (Surroundings.print exit.output : StateM World _) w = printing at hprint ⊢
    obtain ⟨_ | _, s⟩ := printing <;> exact ⟨hprint.tree, hprint.acts⟩
  | ok a =>
    obtain ⟨hread, hnone⟩ := writesBelow_runArguments a environment w
    refine ⟨fun a' raw h hr => ?_, fun h => hnone fun raw => h a raw rfl⟩
    cases h
    exact hread raw hr

/-- A name that seems to lead upwards. -/
theorem run_writesBelow_upwards : shopWorld.WritesBelow "abi2openapi-output" ".._.._etc"
    (run (m := StateM World) ["-", "--nodotenv", "-f", "-n", "../../etc"] [] shopWorld).2 :=
  (run_writesBelow ["-", "--nodotenv", "-f", "-n", "../../etc"] [] shopWorld).2.1
    ⟨"-", { skipsEnvironmentFile := true, toFiles := true, contractName := .text "../../etc" }⟩ shop rfl readDocument_shop

end CommandLine

end ContractApi
