import ContractApi.Proofs.Canonical
import ContractApi.Proofs.Names
import Mathlib.Order.Bounds.Defs
/-!
# Names are kept as far as they can be

A name that an earlier member has gets `_` and the index of the member behind it, again and again, until it is free.

- `FreedIn` are the runs of this loop. There is one that ends, after no more rounds than names are taken
  (`exists_freedIn`), and a text ends with the least number of suffixes that makes it free (`FreedIn.text`).
- `Naming` are the runs over the members of a list, each of which leaves the names given before as they are
  (`naming_uniqueNamesFrom`).
- So each member is called as its own name and the names of those before it require (`uniqueNames_minimal`).
-/

namespace ContractApi.Schema

open Abi

/-! ## Suffixes -/

/-- The text with a number of copies of `_` and the index behind it. -/
def numbered (base : Text) (index copies : Nat) : Text :=
  base ++ (List.replicate copies ("_" ++ Text.ofNat index)).flatten

theorem numbered_zero (base : Text) (index : Nat) : numbered base index 0 = base := List.append_nil base

theorem numbered_suffix (base : Text) (index copies : Nat) :
    numbered (base ++ "_" ++ Text.ofNat index) index copies = numbered base index (copies + 1) := by
  simp only [numbered, List.replicate_succ, List.flatten_cons, List.append_assoc]

/-- Runs of the loop that puts the index behind a key while the key is taken: how often it does, and the key that it
ends with. -/
inductive FreedIn (taken : List Key) (index : Nat) : Nat → Key → Key → Prop
  | free {key : Key} (h : isTaken taken key = false) : FreedIn taken index 0 key key
  | suffix {rounds : Nat} {key last : Key} (h : isTaken taken key = true)
      (hr : FreedIn taken index rounds (suffixed key index) last) : FreedIn taken index (rounds + 1) key last

theorem exists_freedIn_of_free {taken : List Key} {index : Nat} : ∀ {attempts : Nat} {key : Key},
    isTaken taken (freeKey taken index attempts key) = false →
      ∃ rounds ≤ attempts, FreedIn taken index rounds key (freeKey taken index attempts key)
  | 0, key, h => ⟨0, Nat.le_refl 0, .free h⟩
  | attempts + 1, key, h => by
    rw [freeKey] at h ⊢
    split at h
    · rename_i ht
      obtain ⟨rounds, hle, hr⟩ := exists_freedIn_of_free h
      rw [if_pos ht]
      exact ⟨rounds + 1, Nat.succ_le_succ hle, .suffix ht hr⟩
    · rename_i ht
      rw [if_neg ht]
      exact ⟨0, Nat.zero_le _, .free h⟩

/-- The loop ends after no more rounds than keys are taken. -/
theorem exists_freedIn (taken : List Key) (index : Nat) (key : Key) :
    ∃ rounds ≤ taken.length, FreedIn taken index rounds key (freeKey taken index taken.length key) :=
  exists_freedIn_of_free (isTaken_freeKey taken index key)

/-- From a text the loop goes through those with fewer suffixes, all of which are taken. -/
theorem FreedIn.text {taken : List Key} {index rounds : Nat} {key last : Key}
    (h : FreedIn taken index rounds key last) : ∀ {base : Text}, key = .text base →
      last = .text (numbered base index rounds) ∧ isTaken taken last = false ∧
        ∀ j < rounds, isTaken taken (.text (numbered base index j)) = true := by
  induction h with
  | free hfree =>
    rintro base rfl
    exact ⟨by rw [numbered_zero], hfree, fun j hj => absurd hj (Nat.not_lt_zero j)⟩
  | @suffix rounds _ _ htaken _ ih =>
    rintro base rfl
    obtain ⟨hlast, hfree, hfewer⟩ := @ih (base ++ "_" ++ Text.ofNat index) rfl
    rw [numbered_suffix] at hlast
    refine ⟨hlast, hfree, fun j hj => ?_⟩
    cases j with
    | zero =>
      rw [numbered_zero]
      exact htaken
    | succ j =>
      rw [← numbered_suffix]
      exact hfewer j (Nat.lt_of_succ_lt_succ hj)

/-! ## What a member is called -/

/-- The name of a member, made from its index if it is empty. -/
def ownText (default : Text) (index : Nat) (own : Text) : Text :=
  if own = [] then default ++ Text.ofNat index else own

theorem ownName_of_hasName {default : Text} {index : Nat} {name : Value} {own : Text} (h : HasName name own) :
    ownName default index name = .ok (.text (ownText default index own)) := by
  cases h with
  | absent => rfl
  | text =>
    cases own with
    | nil => rfl
    | cons => rfl

/-- The keys that are taken once the names were given, the latest first. -/
def takenBy (earlier : List Text) : List Key := (earlier.map Key.text).reverse

theorem length_takenBy (earlier : List Text) : (takenBy earlier).length = earlier.length := by
  rw [takenBy, List.length_reverse, List.length_map]

theorem takenBy_append (earlier : List Text) (name : Text) :
    takenBy (earlier ++ [name]) = .text name :: takenBy earlier := by
  rw [takenBy, List.map_append, List.reverse_append]
  rfl

theorem isTaken_takenBy {earlier : List Text} {t : Text} :
    isTaken (takenBy earlier) (.text t) = true ↔ t ∈ earlier := by
  rw [isTaken_iff]
  constructor
  · rintro ⟨k, hk, hsame⟩
    obtain ⟨u, hu, rfl⟩ := List.mem_map.1 (List.mem_reverse.1 hk)
    exact Key.same_text.1 hsame ▸ hu
  · intro ht
    exact ⟨.text t, List.mem_reverse.2 (List.mem_map_of_mem ht), Key.same_text.2 rfl⟩

/-- Whether a member that comes after those with the names is called by the name: it is its own with the least number
of suffixes for which none of them has it, and the loop ends with it. -/
def IsCalled (default : Text) (earlier : List Text) (index : Nat) (own name : Text) : Prop :=
  ∃ copies ≤ index, name = numbered (ownText default index own) index copies ∧
    IsLeast {j | numbered (ownText default index own) index j ∉ earlier} copies ∧
    FreedIn (takenBy earlier) index copies (.text (ownText default index own)) (.text name)

theorem exists_isCalled (default : Text) (earlier : List Text) (own : Text) :
    ∃ name, freeKey (takenBy earlier) earlier.length (takenBy earlier).length
        (.text (ownText default earlier.length own)) = .text name ∧
      IsCalled default earlier earlier.length own name := by
  obtain ⟨copies, hle, hfreed⟩ := exists_freedIn (takenBy earlier) earlier.length
    (.text (ownText default earlier.length own))
  obtain ⟨hlast, hfree, hfewer⟩ := hfreed.text rfl
  rw [length_takenBy] at hle
  rw [hlast] at hfreed hfree
  refine ⟨_, hlast, copies, hle, rfl, ⟨fun hmem => ?_, fun j hj => ?_⟩, hfreed⟩
  · rw [isTaken_takenBy.2 hmem] at hfree
    exact Bool.noConfusion hfree
  · by_contra hlt
    exact hj (isTaken_takenBy.1 (hfewer j (Nat.lt_of_not_le hlt)))

/-- A name that no earlier member has stays as it is. -/
theorem IsCalled.eq_own {default own name : Text} {earlier : List Text} {index : Nat}
    (h : IsCalled default earlier index own name) (hne : own ≠ []) (hfree : own ∉ earlier) : name = own := by
  obtain ⟨copies, _, rfl, hleast, _⟩ := h
  rw [ownText, if_neg hne] at hleast ⊢
  have hzero : numbered own index 0 ∉ earlier := by rwa [numbered_zero]
  rw [Nat.le_zero.1 (hleast.2 hzero), numbered_zero]

/-! ## Runs over the members -/

/-- Runs over members whose own names are the texts, after those with the names before. -/
inductive Naming (default : Text) : List Text → List Text → List Text → Prop
  | nil {earlier : List Text} : Naming default earlier [] []
  | cons {earlier owns names : List Text} {own name : Text} (h : IsCalled default earlier earlier.length own name)
      (hr : Naming default (earlier ++ [name]) owns names) : Naming default earlier (own :: owns) (name :: names)

theorem naming_uniqueNamesFrom (default : Text) {values : List Value} {owns : List Text}
    (h : List.Forall₂ HasName values owns) : ∀ earlier : List Text, ∃ names : List Text,
      uniqueNamesFrom default earlier.length (takenBy earlier) values = .ok (names.map .text) ∧
        Naming default earlier owns names := by
  induction h with
  | nil => exact fun _ => ⟨[], rfl, .nil⟩
  | cons hname _ ih =>
    rename_i own _ _ _
    intro earlier
    obtain ⟨name, hkey, hcalled⟩ := exists_isCalled default earlier own
    obtain ⟨names, hnames, hr⟩ := ih (earlier ++ [name])
    rw [List.length_append, List.length_singleton, takenBy_append] at hnames
    refine ⟨name :: names, ?_, .cons hcalled hr⟩
    simp only [uniqueNamesFrom, ownName_of_hasName hname, hkey, hnames, bind, Except.bind, pure, Except.pure,
      List.map_cons]

/-- Every member is called as those before it, in this run or earlier, require. -/
theorem Naming.isCalled {default : Text} {earlier owns names : List Text} (h : Naming default earlier owns names) :
    ∀ {i : Nat} {own name : Text}, owns[i]? = some own → names[i]? = some name →
      IsCalled default (earlier ++ names.take i) (earlier.length + i) own name := by
  induction h with
  | nil => exact fun hown => nomatch hown
  | @cons earlier owns names own name hcalled _ ih =>
    intro i own' name' hown hname
    cases i with
    | zero =>
      cases hown
      cases hname
      rw [List.take_zero, List.append_nil]
      exact hcalled
    | succ i =>
      have hrest := ih hown hname
      rwa [List.append_assoc, List.singleton_append, List.length_append, List.length_singleton, Nat.add_assoc,
        Nat.add_comm 1] at hrest

/-- Names that are told apart already stay as they are. -/
theorem Naming.eq_owns {default : Text} {earlier owns names : List Text} (h : Naming default earlier owns names) :
    (∀ own ∈ owns, own ≠ []) → (earlier ++ owns).Nodup → names = owns := by
  induction h with
  | nil => exact fun _ _ => rfl
  | @cons earlier owns names own name hcalled _ ih =>
    intro hne hnodup
    obtain ⟨hown, hrest⟩ := List.forall_mem_cons.1 hne
    have hfree : own ∉ earlier := fun hmem => (List.nodup_append.1 hnodup).2.2 own hmem own List.mem_cons_self rfl
    obtain rfl := hcalled.eq_own hown hfree
    rw [ih hrest (by rwa [List.append_assoc, List.singleton_append])]

/-- What the members that follow are called takes no part in what the first ones are called. -/
theorem uniqueNamesFrom_take {default : Text} : ∀ {values : List Value} {index : Nat} {taken keys : List Key},
    uniqueNamesFrom default index taken values = .ok keys →
      ∀ n, uniqueNamesFrom default index taken (values.take n) = .ok (keys.take n)
  | [], _, _, keys, h, n => by
    cases h
    rw [List.take_nil, List.take_nil]
    rfl
  | value :: values, index, taken, keys, h, 0 => rfl
  | value :: values, index, taken, keys, h, n + 1 => by
    obtain ⟨own, hown, h⟩ := except_bind_eq_ok.1 h
    obtain ⟨rest, hrest, h⟩ := except_bind_eq_ok.1 h
    cases h
    simp only [List.take_succ_cons, uniqueNamesFrom, hown, uniqueNamesFrom_take hrest n, bind, Except.bind, pure,
      Except.pure]

/-- Members whose names are texts, as far as they have one, get names of which no two are the same: each its own name,
or one made from its index, with the index behind it as often as the names given before make it necessary and no more.
The loop for it ends. So the first members of a list are called as they would be without the others, and names that are
told apart already stay as they are. -/
theorem uniqueNames_minimal (default : Text) {members : List Member} {owns : List Text}
    (h : List.Forall₂ (fun m own => HasName m.name own) members owns) : ∃ names : List Text,
      uniqueNames default members = .ok (names.map .text) ∧ names.length = members.length ∧ names.Nodup ∧
      (∀ i own name, owns[i]? = some own → names[i]? = some name → IsCalled default (names.take i) i own name) ∧
      (∀ n, uniqueNames default (members.take n) = .ok ((names.take n).map .text)) ∧
      ((∀ own ∈ owns, own ≠ []) → owns.Nodup → names = owns) := by
  obtain ⟨names, hnames, hnaming⟩ := naming_uniqueNamesFrom default (List.forall₂_map_left_iff.2 h) []
  refine ⟨names, hnames, length_uniqueNames hnames, nodup_uniqueNames hnames, fun i own name hown hname => ?_,
    fun n => ?_, hnaming.eq_owns⟩
  · have hcalled := hnaming.isCalled hown hname
    rwa [List.nil_append, List.length_nil, Nat.zero_add] at hcalled
  · rw [uniqueNames, List.map_take, List.map_take]
    exact uniqueNamesFrom_take hnames n

/-- A parameter of a document with a name. -/
def namedMember (name : Text) : Member := .raw (.object [("name", .text name)])

/-- Members of which one has no name and the others have names that get in each other's way. -/
def crowdedMembers : List Member :=
  [namedMember "a", namedMember "a", namedMember "a_1", .raw (.object []), namedMember "param3"]

/-- The second member gets the own name of the third, and the fourth that of the last. A name stays as it is if it is
only the suffix that tells it apart from another. -/
theorem uniqueNames_minimal_crowded :
    uniqueNames "param" crowdedMembers =
      .ok ([Text.ofString "a", "a_1", "a_1_2", "param3", "param3_4"].map .text) ∧
    IsCalled "param" ["a", "a_1"] 2 "a_1" "a_1_2" ∧
    uniqueNames "param" [namedMember "a_1", namedMember "a"] = .ok ([Text.ofString "a_1", "a"].map .text) := by
  have hcrowded : uniqueNames "param" crowdedMembers =
      .ok ([Text.ofString "a", "a_1", "a_1_2", "param3", "param3_4"].map .text) := by rfl
  have howns : List.Forall₂ (fun m own => HasName m.name own) crowdedMembers ["a", "a", "a_1", [], "param3"] :=
    .cons (.text _) (.cons (.text _) (.cons (.text _) (.cons .absent (.cons (.text _) .nil))))
  obtain ⟨names, hnames, _, _, hcalled, _⟩ := uniqueNames_minimal "param" howns
  have heq : names = [Text.ofString "a", "a_1", "a_1_2", "param3", "param3_4"] :=
    List.map_injective_iff.2 (fun _ _ => Key.text.inj) (Except.ok.inj (hnames.symm.trans hcrowded))
  have happart : List.Forall₂ (fun m own => HasName m.name own) [namedMember "a_1", namedMember "a"] ["a_1", "a"] :=
    .cons (.text _) (.cons (.text _) .nil)
  obtain ⟨kept, hkept, _, _, _, _, hsame⟩ := uniqueNames_minimal "param" happart
  rw [heq] at hcalled
  rw [hsame (by decide) (by decide)] at hkept
  exact ⟨hcrowded, hcalled 2 "a_1" "a_1_2" rfl rfl, hkept⟩

end ContractApi.Schema
