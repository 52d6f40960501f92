import ContractApi.File.Tree
import ContractApi.Output.Folder
import ContractApi.Proofs.Surrogates
/-!
# Where paths lead

- The names of a path that is continued are those of its parts (`names_append`), so a component below a folder leads to
  the location below that of the folder (`locate_below`).
- Where no folder is, something can be put without changing where paths lead (`locate_put`). So what opening a file in a
  folder comes to depends on its path and on what is there, and on nothing else in the tree (`openFile_below`).
- Making folders changes nothing that is there already, and makes the folder that was asked for
  (`addsFolders_makeFolders`, `isFolder_of_makeFolders`).
-/

namespace ContractApi

/-! ## Names -/

namespace Path

/-- Whether a text is a single name on a path, and not one that leads nowhere or upwards. -/
def IsComponent (name : Text) : Prop := Output.isReserved name = false ∧ ∀ c ∈ name, isSlash c = false

theorem isComponent_iff (name : Text) :
    IsComponent name ↔ (!Output.isReserved name && name.all fun c => !isSlash c) = true := by
  simp [IsComponent]

/-- Components can be told by looking at them. -/
instance (name : Text) : Decidable (IsComponent name) := decidable_of_iff' _ (isComponent_iff name)

theorem names_ne_nil : ∀ path : Text, names path ≠ []
  | [] => List.cons_ne_nil _ _
  | c :: rest => by
    unfold names
    split
    · exact List.cons_ne_nil _ _
    · split <;> exact List.cons_ne_nil _ _

theorem names_slash (rest : Text) : names (.ofChar '/' :: rest) = [] :: names rest := by
  rw [names, if_pos (by decide)]

/-- The names on a path with a slash in it are those before the slash and those behind it. -/
theorem names_append : ∀ folder rest : Text, names (folder ++ .ofChar '/' :: rest) = names folder ++ names rest
  | [], rest => names_slash rest
  | c :: folder, rest => by
    have ih := names_append folder rest
    obtain ⟨name, more, hn⟩ := List.exists_cons_of_ne_nil (names_ne_nil folder)
    rw [hn] at ih
    rw [List.cons_append, names, names, hn, ih]
    split <;> rfl

theorem names_of_noSlash : ∀ {name : Text}, (∀ c ∈ name, isSlash c = false) → names name = [name]
  | [], _ => rfl
  | c :: name, h => by
    obtain ⟨hc, hname⟩ := List.forall_mem_cons.1 h
    rw [names, hc, names_of_noSlash hname]
    rfl

theorem IsComponent.ne_nil {name : Text} (h : IsComponent name) : name ≠ [] := by
  rintro rfl
  cases h.1

theorem endsInSlash_append (folder : Text) {name : Text} (hn : name ≠ []) (h : ∀ c ∈ name, isSlash c = false) :
    endsInSlash (folder ++ name) = false := by
  rw [endsInSlash, List.getLast?_append_of_ne_nil _ hn, List.getLast?_eq_some_getLast hn, Option.any_some]
  exact h _ (List.getLast_mem hn)

theorem isAbsolute_of_noSlash {name : Text} (h : ∀ c ∈ name, isSlash c = false) : isAbsolute name = false := by
  cases name with
  | nil => rfl
  | cons c name => exact h c List.mem_cons_self

/-- Below a folder that is named without a slash at its end, a component stands behind a slash. -/
theorem joined_of_component {folder name : Text} (hf : folder ≠ []) (he : endsInSlash folder = false)
    (h : IsComponent name) : joined folder name = folder ++ .ofChar '/' :: name := by
  rw [joined, isAbsolute_of_noSlash h.2, List.isEmpty_eq_false_iff.2 hf, he]
  simp
  rfl

/-- What a component leads to from a folder is not named with a slash at its end. -/
theorem endsInSlash_joined (folder : Text) {name : Text} (h : IsComponent name) :
    endsInSlash (joined folder name) = false := by
  rw [joined, isAbsolute_of_noSlash h.2, if_neg Bool.false_ne_true]
  split
  · exact endsInSlash_append folder h.ne_nil h.2
  · exact endsInSlash_append _ h.ne_nil h.2

theorem joined_inj {folder name name' : Text} (h : IsComponent name) (h' : IsComponent name')
    (heq : joined folder name = joined folder name') : name = name' := by
  rw [joined, joined, isAbsolute_of_noSlash h.2, isAbsolute_of_noSlash h'.2] at heq
  simp only [Bool.false_eq_true, if_false] at heq
  split at heq <;> exact List.append_cancel_left heq

/-- The path of a folder is found by taking away the component it was joined with. -/
theorem parent?_joined {folder name : Text} (hf : folder ≠ []) (he : endsInSlash folder = false)
    (h : IsComponent name) : parent? (joined folder name) = some folder := by
  have hend := endsInSlash_joined folder h
  have hslash : isSlash (.ofChar '/') = true := by decide
  have hname : ∀ c ∈ name.reverse, (!isSlash c) = true := by
    intro c hc
    rw [h.2 c (List.mem_reverse.1 hc)]
    rfl
  have hhead : ((joined folder name).reverse.dropWhile fun c => !isSlash c).reverse = folder ++ [.ofChar '/'] := by
    rw [joined_of_component hf he h, List.reverse_append, List.reverse_cons, List.append_assoc,
      List.dropWhile_append_of_pos hname]
    simp [hslash]
  obtain rfl | ⟨before, last, rfl⟩ := List.eq_nil_or_concat folder
  · exact absurd rfl hf
  · have hlast : isSlash last = false := by simpa [endsInSlash] using he
    have hparent : parent (joined (before.concat last) name) = before.concat last := by
      unfold parent
      dsimp only
      rw [hhead, if_neg (by simp [hlast]), withoutSlashes]
      simp [hlast, hslash]
    rw [parent?, hend, if_neg Bool.false_ne_true, hparent, hend, List.isEmpty_eq_false_iff.2 hf]
    rfl

end Path

namespace Output

/-- The folder of a contract is named by a component, whatever the contract is called. -/
theorem isComponent_folderName (identifier : Value) : Path.IsComponent (folderName identifier) := by
  unfold folderName
  dsimp only
  split
  · decide
  · rename_i h
    refine ⟨Bool.eq_false_iff.2 h, fun c hc => ?_⟩
    obtain ⟨d, _, rfl⟩ := List.mem_map.1 hc
    split
    · decide
    · rename_i hd
      rw [Bool.not_eq_true, isSeparator, Bool.or_eq_false_iff] at hd
      exact hd.1

end Output

/-! ## Locations -/

namespace Tree

theorem at?_put (tree : Tree) {location : Location} (hl : location ≠ []) (entry : Entry) (l : Location) :
    (tree.put location entry).at? l = if l = location then some entry else tree.at? l := by
  unfold at? put
  dsimp only
  rw [Table.get?_insert]
  by_cases h : l = location
  · subst h
    rw [List.isEmpty_eq_false_iff.2 hl, if_pos rfl, if_pos rfl]
    rfl
  · rw [if_neg h, if_neg (Ne.symm h)]

theorem ne_nil_of_at? {tree : Tree} {location : Location} (h : tree.at? location ≠ some .folder) : location ≠ [] := by
  rintro rfl
  exact h rfl

/-- From a folder the way goes on by the name alone. -/
theorem follow_of_folder {tree : Tree} {location : Location} (h : tree.at? location = some .folder) (name : Text) :
    tree.follow location name =
      if name.isEmpty || name = "." then .ok location
      else if name = ".." then .ok location.dropLast
      else if maxNameBytes < byteCount name then .error .nameTooLong
      else .ok (location ++ [name]) := by
  rw [follow, h]

theorem folder_of_follow {tree : Tree} {location found : Location} {name : Text}
    (h : tree.follow location name = .ok found) : tree.at? location = some .folder := by
  unfold follow at h
  split at h
  · cases h
  · cases h
  · assumption

section Put

variable {tree : Tree} {location : Location} (hl : tree.at? location ≠ some .folder) (entry : Entry)

include hl

theorem folder_put {l : Location} (h : tree.at? l = some .folder) :
    (tree.put location entry).at? l = some .folder := by
  rw [at?_put tree (ne_nil_of_at? hl), if_neg]
  · exact h
  · rintro rfl
    exact hl h

theorem follow_put {l found : Location} {name : Text} (h : tree.follow l name = .ok found) :
    (tree.put location entry).follow l name = .ok found := by
  have hf := folder_of_follow h
  rw [follow_of_folder hf] at h
  rw [follow_of_folder (folder_put hl entry hf), h]

theorem foldlM_follow_put : ∀ {names : List Text} {l found : Location}, names.foldlM tree.follow l = .ok found →
    names.foldlM (tree.put location entry).follow l = .ok found
  | [], _, _, h => h
  | _ :: _, _, _, h => by
    rw [List.foldlM_cons] at h ⊢
    obtain ⟨m, hm, h⟩ := except_bind_eq_ok.1 h
    exact except_bind_eq_ok.2 ⟨m, follow_put hl entry hm, foldlM_follow_put h⟩

/-- Where no folder is, something can be put without changing where paths lead. -/
theorem locate_put {path : Text} {found : Location} (h : tree.locate path = .ok found) :
    (tree.put location entry).locate path = .ok found := by
  unfold locate at h ⊢
  split_ifs at h ⊢
  · exact foldlM_follow_put hl entry h
  · exact foldlM_follow_put hl entry h

end Put

/-! ## Files in a folder -/

theorem ne_nil_of_locate {tree : Tree} {path : Text} {found : Location} (h : tree.locate path = .ok found) :
    path ≠ [] := by
  rintro rfl
  cases h

/-- Whether the path is that of a folder at the location. -/
structure LeadsToFolder (tree : Tree) (path : Text) (location : Location) : Prop where
  locate : tree.locate path = .ok location
  at? : tree.at? location = some .folder

theorem LeadsToFolder.put {tree : Tree} {path : Text} {location l : Location} (h : tree.LeadsToFolder path location)
    (hl : tree.at? l ≠ some .folder) (entry : Entry) : (tree.put l entry).LeadsToFolder path location :=
  ⟨locate_put hl entry h.locate, folder_put hl entry h.at?⟩

section Below

variable {tree : Tree} {folder : Text} {location : Location} (h : tree.LeadsToFolder folder location)
  (he : Path.endsInSlash folder = false) {name : Text} (hn : Path.IsComponent name)

include h he hn

/-- A component below a folder leads to the location below that of the folder, unless the name or the path is too long. -/
theorem locate_below : tree.locate (Path.joined folder name) =
    if maxPathBytes < byteCount (Path.joined folder name) ∨ maxNameBytes < byteCount name then .error .nameTooLong
    else .ok (location ++ [name]) := by
  have hf := ne_nil_of_locate h.locate
  have hfound := h.locate
  obtain ⟨c, rest, rfl⟩ := List.exists_cons_of_ne_nil hf
  have hjoined := Path.joined_of_component hf he hn
  have hne : (Path.joined (c :: rest) name).isEmpty = false := by
    rw [hjoined]
    rfl
  have habsolute : Path.isAbsolute (Path.joined (c :: rest) name) = Path.isAbsolute (c :: rest) := by
    rw [hjoined]
    rfl
  unfold locate at hfound ⊢
  rw [hne, habsolute, hjoined, Path.names_append, Path.names_of_noSlash hn.2]
  rw [if_neg (by simp)] at hfound
  by_cases hp : maxPathBytes < byteCount (c :: rest ++ .ofChar '/' :: name)
  · rw [if_neg (by simp), if_pos hp, if_pos (.inl hp)]
  · have hshort : ¬maxPathBytes < byteCount (c :: rest) := by
      intro hlong
      rw [if_pos hlong] at hfound
      cases hfound
    rw [if_neg hshort] at hfound
    rw [if_neg (by simp), if_neg hp]
    obtain ⟨hreserved, _⟩ := hn
    simp only [Output.isReserved, Bool.or_eq_false_iff, decide_eq_false_iff_not] at hreserved
    obtain ⟨⟨hempty, hdot⟩, hdots⟩ := hreserved
    rw [List.foldlM_append, hfound]
    change tree.follow location name >>= pure = _
    rw [bind_pure, follow_of_folder h.at?, if_neg (by simp [hempty, hdot]), if_neg hdots]
    simp only [hp, false_or]

/-- Opening a file in a folder fails for its path or for what is there already. -/
theorem openFile_below : tree.openFile (Path.joined folder name) = onPath (Path.joined folder name)
    (if maxPathBytes < byteCount (Path.joined folder name) ∨ maxNameBytes < byteCount name then .error .nameTooLong
    else if tree.at? (location ++ [name]) = some .folder then .error .isFolder
    else .ok (tree.put (location ++ [name]) (.file []))) := by
  rw [openFile, Path.endsInSlash_joined folder hn, if_neg Bool.false_ne_true, locate_below h he hn]
  congr 1
  by_cases hlong : maxPathBytes < byteCount (Path.joined folder name) ∨ maxNameBytes < byteCount name
  · rw [if_pos hlong, if_pos hlong]
    rfl
  · rw [if_neg hlong, if_neg hlong, except_ok_bind]
    cases hat : tree.at? (location ++ [name]) with
    | none => rfl
    | some entry => cases entry <;> rfl

end Below

/-- Whether a component can be looked for below a folder: it makes a path there, and one that is not too long. -/
structure FitsBelow (folder name : Text) : Prop where
  isPath : checkPath (Path.joined folder name) = .ok ()
  short : ¬(maxPathBytes < byteCount (Path.joined folder name) ∨ maxNameBytes < byteCount name)

/-- A text can be a path if each of its code points can stand in one. -/
theorem checkPath_eq_ok {path : Text} :
    checkPath path = .ok () ↔ ∀ c ∈ path, isUnencodable c = false ∧ c.val ≠ 0 := by
  unfold checkPath
  split
  · rename_i start stop h
    refine iff_of_false (fun h => by cases h) fun hall => ?_
    cases h.symm.trans (Text.refusal?_eq_none.2 fun c hc => (hall c hc).1)
  · rename_i h
    rw [Text.refusal?_eq_none] at h
    split
    · rename_i hzero
      refine iff_of_false (fun h => by cases h) fun hall => ?_
      obtain ⟨c, hc, hz⟩ := List.any_eq_true.1 hzero
      exact (hall c hc).2 (of_decide_eq_true hz)
    · rename_i hzero
      refine iff_of_true rfl fun c hc => ⟨h c hc, fun hz => hzero ?_⟩
      exact List.any_eq_true.2 ⟨c, hc, decide_eq_true hz⟩

theorem FitsBelow.of_checkPath {folder name : Text} (hf : checkPath folder = .ok ()) (hne : folder ≠ [])
    (he : Path.endsInSlash folder = false) (hn : Path.IsComponent name) (hc : checkPath name = .ok ())
    (hpath : byteCount (Path.joined folder name) ≤ maxPathBytes) (hname : byteCount name ≤ maxNameBytes) :
    FitsBelow folder name := by
  refine ⟨?_, not_or.2 ⟨Nat.not_lt.2 hpath, Nat.not_lt.2 hname⟩⟩
  rw [Path.joined_of_component hne he hn, checkPath_eq_ok]
  exact List.forall_mem_append.2 ⟨checkPath_eq_ok.1 hf, List.forall_mem_cons.2 ⟨by decide, checkPath_eq_ok.1 hc⟩⟩

theorem onPath_eq_ok {α : Type} {path : Text} {step : Except FileFault.Cause α} {a : α} :
    onPath path step = .ok a ↔ checkPath path = .ok () ∧ step = .ok a := by
  rw [onPath, except_bind_eq_ok]
  constructor
  · rintro ⟨_, hc, hs⟩
    cases step with
    | ok b =>
      cases hs
      exact ⟨hc, rfl⟩
    | error cause => cases hs
  · rintro ⟨hc, rfl⟩
    exact ⟨(), hc, rfl⟩

section Below

variable {tree : Tree} {folder : Text} {location : Location} (h : tree.LeadsToFolder folder location)
  (he : Path.endsInSlash folder = false) {name : Text} (hn : Path.IsComponent name)

include h he hn

theorem locate_of_fits (hf : FitsBelow folder name) :
    tree.locate (Path.joined folder name) = .ok (location ++ [name]) := by
  rw [locate_below h he hn, if_neg hf.short]

/-- A file is opened if its name fits and is not that of a folder. It is empty then, and nothing else is changed. -/
theorem openFile_eq_ok {tree' : Tree} : tree.openFile (Path.joined folder name) = .ok tree' ↔
    FitsBelow folder name ∧ tree.at? (location ++ [name]) ≠ some .folder ∧
      tree' = tree.put (location ++ [name]) (.file []) := by
  rw [openFile_below h he hn, onPath_eq_ok]
  constructor
  · rintro ⟨hc, hs⟩
    split_ifs at hs with hlong hfolder
    cases hs
    exact ⟨⟨hc, hlong⟩, hfolder, rfl⟩
  · rintro ⟨hf, hfolder, rfl⟩
    exact ⟨hf.isPath, by rw [if_neg hf.short, if_neg hfolder]⟩

/-- What is written to a file that was empty is all that it holds. -/
theorem overwrite_below (hf : FitsBelow folder name) (hat : tree.at? (location ++ [name]) = some (.file []))
    (bytes : List UInt8) :
    tree.overwrite (Path.joined folder name) bytes = tree.put (location ++ [name]) (.file bytes) := by
  rw [overwrite, locate_of_fits h he hn hf]
  simp [hat]

theorem read_below (hf : FitsBelow folder name) {content : List UInt8}
    (hat : tree.at? (location ++ [name]) = some (.file content)) :
    tree.read (Path.joined folder name) = .ok content := by
  rw [read, onPath_eq_ok, locate_of_fits h he hn hf]
  refine ⟨hf.isPath, ?_⟩
  rw [except_ok_bind, hat]

end Below

/-! ## Making folders -/

/-- Whether nothing but folders was added to a tree. -/
structure AddsFolders (tree tree' : Tree) : Prop where
  here : tree'.here = tree.here
  at? : ∀ l, tree'.at? l = tree.at? l ∨ tree.at? l = none ∧ tree'.at? l = some .folder

theorem AddsFolders.refl (tree : Tree) : tree.AddsFolders tree := ⟨rfl, fun _ => .inl rfl⟩

theorem AddsFolders.trans {tree tree' tree'' : Tree} (h : tree.AddsFolders tree') (h' : tree'.AddsFolders tree'') :
    tree.AddsFolders tree'' := by
  refine ⟨h'.here.trans h.here, fun l => ?_⟩
  rcases h.at? l with hl | ⟨hl, hf⟩
  · rcases h'.at? l with hl' | ⟨hl', hf'⟩
    · exact .inl (hl'.trans hl)
    · exact .inr ⟨hl.symm.trans hl', hf'⟩
  · rcases h'.at? l with hl' | ⟨hl', _⟩
    · exact .inr ⟨hl, hl'.trans hf⟩
    · cases hf.symm.trans hl'

theorem makeFolder_eq_ok {tree tree' : Tree} {path : Text} (h : tree.makeFolder path = .ok tree') :
    checkPath path = .ok () ∧ ∃ location, tree.locate path = .ok location ∧ tree.at? location = none ∧
      tree' = tree.put location .folder := by
  obtain ⟨hc, hs⟩ := onPath_eq_ok.1 h
  obtain ⟨location, hl, hs⟩ := except_bind_eq_ok.1 hs
  split at hs
  · cases hs
  · rename_i hnone
    cases hs
    exact ⟨hc, location, hl, hnone, rfl⟩

theorem ne_folder_of_none {tree : Tree} {location : Location} (h : tree.at? location = none) :
    tree.at? location ≠ some .folder := by
  rw [h]
  exact fun h => by cases h

theorem addsFolders_makeFolder {tree tree' : Tree} {path : Text} (h : tree.makeFolder path = .ok tree') :
    tree.AddsFolders tree' := by
  obtain ⟨_, location, _, hnone, rfl⟩ := makeFolder_eq_ok h
  refine ⟨rfl, fun l => ?_⟩
  rw [at?_put tree (ne_nil_of_at? (ne_folder_of_none hnone))]
  split
  · rename_i heq
    exact .inr ⟨heq ▸ hnone, rfl⟩
  · exact .inl rfl

theorem addsFolders_makeEach : ∀ (tree : Tree) (paths : List Text), tree.AddsFolders (tree.makeEach paths).1
  | tree, [] => .refl tree
  | tree, path :: rest => by
    rw [makeEach]
    split
    · rename_i tree' h
      exact (addsFolders_makeFolder h).trans (addsFolders_makeEach tree' rest)
    · split
      · exact addsFolders_makeEach tree rest
      · exact .refl tree

theorem addsFolders_makeFolders (tree : Tree) (path : Text) : tree.AddsFolders (tree.makeFolders path).1 :=
  addsFolders_makeEach tree _

/-- Whether a path leads to a folder. -/
theorem isFolder_iff {tree : Tree} {path : Text} : tree.isFolder path = true ↔
    checkPath path = .ok () ∧ ∃ location, tree.LeadsToFolder path location := by
  rw [isFolder, Bool.and_eq_true, decide_eq_true_iff, status?]
  refine and_congr ?_ ?_
  · cases checkPath path with
    | ok u => exact iff_of_true rfl rfl
    | error fault => exact iff_of_false (fun h => by cases h) fun h => by cases h
  · rw [Option.bind_eq_some_iff]
    simp only [toOption_eq_some]
    exact ⟨fun ⟨l, hl, hat⟩ => ⟨l, hl, hat⟩, fun ⟨l, h⟩ => ⟨l, h.locate, h.at?⟩⟩

theorem isFolder_of_makeFolder {tree tree' : Tree} {path : Text} (h : tree.makeFolder path = .ok tree') :
    tree'.isFolder path = true := by
  obtain ⟨hc, location, hl, hnone, rfl⟩ := makeFolder_eq_ok h
  have hne := ne_folder_of_none hnone
  refine isFolder_iff.2 ⟨hc, location, locate_put hne _ hl, ?_⟩
  rw [at?_put tree (ne_nil_of_at? hne), if_pos rfl]

/-- If all folders can be made, the last one is there. -/
theorem isFolder_of_makeEach (path : Text) : ∀ {tree : Tree} {paths : List Text},
    (tree.makeEach (paths ++ [path])).2.2 = .ok () → (tree.makeEach (paths ++ [path])).1.isFolder path = true
  | tree, [], h => by
    rw [List.nil_append, makeEach] at h ⊢
    split at h
    · rename_i tree' hm
      exact isFolder_of_makeFolder hm
    · rename_i fault hm
      split at h
      · rename_i hf
        rw [if_pos hf]
        exact hf
      · cases h
  | tree, p :: paths, h => by
    rw [List.cons_append, makeEach] at h ⊢
    split at h
    · rename_i tree' hm
      exact isFolder_of_makeEach path h
    · rename_i fault hm
      split at h
      · rename_i hf
        rw [if_pos hf]
        exact isFolder_of_makeEach path h
      · cases h

/-- If a folder can be made, it is there. -/
theorem isFolder_of_makeFolders {tree : Tree} {path : Text} (h : (tree.makeFolders path).2.2 = .ok ()) :
    (tree.makeFolders path).1.isFolder path = true := by
  unfold makeFolders at h ⊢
  rw [List.reverse_cons] at h ⊢
  exact isFolder_of_makeEach path h

section Below

variable {tree : Tree} {folder : Text} {location : Location} (h : tree.LeadsToFolder folder location)
  (he : Path.endsInSlash folder = false) {name : Text} (hn : Path.IsComponent name)

include h he hn

/-- In a folder that is there, one more is made and nothing else. -/
theorem makeFolders_below (hc : checkPath folder = .ok ()) (hf : FitsBelow folder name)
    (hnone : tree.at? (location ++ [name]) = none) : tree.makeFolders (Path.joined folder name) =
      (tree.put (location ++ [name]) .folder, [Path.joined folder name], .ok ()) := by
  have hne := ne_nil_of_locate h.locate
  have hthere : tree.isThere folder = true := by
    rw [isThere, hc, status?, h.locate]
    simp [Except.isOk, Except.toBool, Except.toOption, h.at?]
  have habove : ∀ levels, tree.missingAbove levels (Path.joined folder name) = [] := by
    intro levels
    cases levels with
    | zero => rfl
    | succ levels =>
      rw [missingAbove, Path.parent?_joined hne he hn]
      exact if_pos hthere
  have hmake : tree.makeFolder (Path.joined folder name) = .ok (tree.put (location ++ [name]) .folder) := by
    rw [makeFolder, onPath_eq_ok, locate_of_fits h he hn hf]
    refine ⟨hf.isPath, ?_⟩
    rw [except_ok_bind, hnone]
  rw [makeFolders, habove, List.reverse_singleton, makeEach, hmake]
  rfl

end Below

end Tree

end ContractApi
