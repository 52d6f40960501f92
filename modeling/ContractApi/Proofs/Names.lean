import ContractApi.Proofs.Describable
import Mathlib.Data.List.Basic
/-!
# Names are told apart

A member whose name is taken gets its index behind the name until the name is free.

- Every suffix makes the name longer, so that one of the names taken less can be in its way. As many suffixes as there are
  names taken make any name free (`isTaken_freeKey`).
- So no two members of a list get the same name (`pairwise_uniqueNames`).
- Where the own names of all members are texts, so are the names that they get (`exists_uniqueNames`); whatever holds of
  those and is kept by a suffix holds of these (`forall_uniqueNames`).
-/

namespace ContractApi

/-! ## Equal keys -/

namespace Key

/-- How long a key is: other keys are shorter than every text. -/
def length : Key → Nat
  | .text t => t.length + 1
  | _ => 0

theorem length_canonical (k : Key) : k.canonical.length = k.length := by
  cases k with
  | float x => cases h : x.toInt? <;> simp [canonical, length, h]
  | _ => rfl

theorem same_iff {a b : Key} : a.same b = true ↔ a.canonical = b.canonical := decide_eq_true_iff

/-- Equal keys are equally long. -/
theorem length_eq_of_same {a b : Key} (h : a.same b = true) : a.length = b.length := by
  rw [← length_canonical a, ← length_canonical b, same_iff.1 h]

theorem same_comm (a b : Key) : a.same b = b.same a := by
  rw [Bool.eq_iff_iff, same_iff, same_iff]
  exact eq_comm

/-- Texts are equal as keys exactly if they are the same text. -/
theorem same_text {t u : Text} : (text t).same (.text u) = true ↔ t = u := by
  rw [same_iff]
  exact Key.text.injEq t u ▸ Iff.rfl

end Key

namespace Schema

open Abi

/-! ## Free names -/

theorem isTaken_iff {taken : List Key} {key : Key} : isTaken taken key = true ↔ ∃ t ∈ taken, key.same t = true :=
  List.any_eq_true

/-- A suffix makes a key longer. -/
theorem length_suffixed (key : Key) (index : Nat) : key.length < (suffixed key index).length := by
  cases key with
  | text t =>
    have hu : (Text.ofString "_").length = 1 := rfl
    simp only [suffixed, Key.display, Key.length, List.length_append, hu]
    omega
  | _ => exact Nat.succ_pos _

/-- The keys taken that are at least as long as a key. -/
def notShorter (taken : List Key) (key : Key) : List Key := taken.filter fun t => key.length ≤ t.length

/-- If a key is taken, fewer of those taken are as long as the key with a suffix. -/
theorem length_notShorter_suffixed {taken : List Key} {key : Key} (h : isTaken taken key = true) (index : Nat) :
    (notShorter taken (suffixed key index)).length < (notShorter taken key).length := by
  obtain ⟨t, ht, hsame⟩ := isTaken_iff.1 h
  have hlength := Key.length_eq_of_same hsame
  have hsuffixed := length_suffixed key index
  have hfilter : notShorter taken (suffixed key index) =
      (notShorter taken key).filter fun t => (suffixed key index).length ≤ t.length := by
    rw [notShorter, notShorter, List.filter_filter]
    refine List.filter_congr fun u _ => ?_
    rw [← Bool.decide_and, decide_eq_decide]
    omega
  -- the key that is equal to it is too short for the one with the suffix
  have hkept : t ∈ notShorter taken key := List.mem_filter.2 ⟨ht, decide_eq_true (Nat.le_of_eq hlength)⟩
  rw [hfilter, List.length_filter_lt_length_iff_exists]
  refine ⟨t, hkept, fun hle => ?_⟩
  have hle := of_decide_eq_true hle
  omega

theorem isTaken_freeKey_of_le {taken : List Key} {index : Nat} : ∀ {attempts : Nat} {key : Key},
    (notShorter taken key).length ≤ attempts → isTaken taken (freeKey taken index attempts key) = false
  | 0, key, h => by
    refine Bool.eq_false_iff.2 fun ht => ?_
    exact Nat.not_lt_of_le h (Nat.zero_lt_of_lt (length_notShorter_suffixed ht index))
  | attempts + 1, key, h => by
    rw [freeKey]
    split
    · rename_i ht
      have hfewer := length_notShorter_suffixed ht index
      exact isTaken_freeKey_of_le (by omega)
    · rename_i ht
      exact Bool.eq_false_iff.2 ht

/-- As many suffixes as there are keys taken make any key free. -/
theorem isTaken_freeKey (taken : List Key) (index : Nat) (key : Key) :
    isTaken taken (freeKey taken index taken.length key) = false :=
  isTaken_freeKey_of_le (List.length_filter_le _ _)

/-! ## Names for members -/

theorem not_taken_uniqueNamesFrom {default : Text} : ∀ {names : List Value} {index : Nat} {taken keys : List Key},
    uniqueNamesFrom default index taken names = .ok keys →
      keys.Pairwise (fun a b => a.same b = false) ∧ ∀ key ∈ keys, isTaken taken key = false
  | [], _, _, keys, h => by
    cases h
    exact ⟨.nil, fun _ h => absurd h List.not_mem_nil⟩
  | name :: names, index, taken, keys, h => by
    obtain ⟨own, _, h⟩ := except_bind_eq_ok.1 h
    obtain ⟨rest, hrest, h⟩ := except_bind_eq_ok.1 h
    cases h
    have hfree := isTaken_freeKey taken index own
    generalize freeKey taken index taken.length own = key at hfree hrest ⊢
    obtain ⟨hpairwise, hnot⟩ := not_taken_uniqueNamesFrom hrest
    -- none of the names that follow is that of this member or one that was taken before
    have hlater : ∀ k ∈ rest, k.same key = false ∧ isTaken taken k = false := by
      intro k hk
      have hk := hnot k hk
      rwa [isTaken, List.any_cons, Bool.or_eq_false_iff] at hk
    refine ⟨List.pairwise_cons.2 ⟨fun k hk => ?_, hpairwise⟩, List.forall_mem_cons.2 ⟨hfree, fun k hk => ?_⟩⟩
    · rw [Key.same_comm]
      exact (hlater k hk).1
    · exact (hlater k hk).2

/-- No two members get the same name. -/
theorem pairwise_uniqueNames {default : Text} {members : List Member} {keys : List Key}
    (h : uniqueNames default members = .ok keys) : keys.Pairwise fun a b => a.same b = false :=
  (not_taken_uniqueNamesFrom h).1

theorem nodup_uniqueNames {default : Text} {members : List Member} {names : List Text}
    (h : uniqueNames default members = .ok (names.map .text)) : names.Nodup :=
  (List.pairwise_map.1 (pairwise_uniqueNames h)).imp fun hsame heq => Bool.eq_false_iff.1 hsame (Key.same_text.2 heq)

theorem length_uniqueNames {default : Text} {members : List Member} {names : List Text}
    (h : uniqueNames default members = .ok (names.map .text)) : names.length = members.length := by
  have hlength := length_uniqueNamesFrom h
  rwa [List.length_map, List.length_map] at hlength

/-! ## Names that are texts -/

section Texts

variable {P : Text → Prop} (hs : ∀ t index, P t → P (t ++ "_" ++ Text.ofNat index))

include hs in
theorem freeKey_text (taken : List Key) (index : Nat) : ∀ (attempts : Nat) {t : Text}, P t →
    ∃ u, freeKey taken index attempts (.text t) = .text u ∧ P u
  | 0, t, h => ⟨t, rfl, h⟩
  | attempts + 1, t, h => by
    rw [freeKey]
    split
    · exact freeKey_text taken index attempts (hs t index h)
    · exact ⟨t, rfl, h⟩

/-- The own name of a member is a text if it is given as one; a text that is empty gives way to the default. -/
theorem ownName_of_isText {default : Text} {index : Nat} {name : Value} (h : ∃ t, name = .text t ∧ P t)
    (hd : P (default ++ Text.ofNat index)) : ∃ t, ownName default index name = .ok (.text t) ∧ P t := by
  obtain ⟨t, rfl, ht⟩ := h
  unfold ownName Value.orElse
  by_cases hn : (Value.text t).isTruthy = true
  · rw [if_pos hn]
    exact ⟨t, rfl, ht⟩
  · rw [if_neg hn]
    exact ⟨_, rfl, hd⟩

include hs in
theorem texts_uniqueNamesFrom {default : Text} (hd : ∀ index, P (default ++ Text.ofNat index)) :
    ∀ (names : List Value) (index : Nat) (taken : List Key), (∀ name ∈ names, ∃ t, name = .text t ∧ P t) →
      ∃ texts : List Text, uniqueNamesFrom default index taken names = .ok (texts.map .text) ∧ ∀ t ∈ texts, P t
  | [], _, _, _ => ⟨[], rfl, fun _ h => absurd h List.not_mem_nil⟩
  | name :: names, index, taken, h => by
    obtain ⟨hname, hnames⟩ := List.forall_mem_cons.1 h
    obtain ⟨own, hown, ho⟩ := ownName_of_isText hname (hd index)
    obtain ⟨t, ht, hPt⟩ := freeKey_text hs taken index taken.length ho
    obtain ⟨texts, htexts, hP⟩ := texts_uniqueNamesFrom hd names (index + 1) (.text t :: taken) hnames
    refine ⟨t :: texts, ?_, List.forall_mem_cons.2 ⟨hPt, hP⟩⟩
    simp only [uniqueNamesFrom, hown, ht, htexts, bind, Except.bind, pure, Except.pure, List.map_cons]

include hs in
/-- Where the names of all members are texts, they get texts for names, no two of which are the same. What holds of the
names that they have or would get without one holds of the names that they get, if suffixes keep it. -/
theorem forall_uniqueNames {default : Text} (hd : ∀ index, P (default ++ Text.ofNat index)) {members : List Member}
    (h : ∀ m ∈ members, ∃ t, m.name = .text t ∧ P t) : ∃ names : List Text,
      uniqueNames default members = .ok (names.map .text) ∧ names.Nodup ∧ names.length = members.length ∧
        ∀ name ∈ names, P name := by
  obtain ⟨names, hnames, hP⟩ := texts_uniqueNamesFrom hs hd (members.map Member.name) 0 [] (List.forall_mem_map.2 h)
  exact ⟨names, hnames, nodup_uniqueNames hnames, length_uniqueNames hnames, hP⟩

end Texts

/-- Where the names of all members are texts, they get texts for names, no two of which are the same. -/
theorem exists_uniqueNames (default : Text) {members : List Member} (h : ∀ m ∈ members, m.name.IsText) :
    ∃ names : List Text, uniqueNames default members = .ok (names.map .text) ∧ names.Nodup ∧
      names.length = members.length := by
  have h' : ∀ m ∈ members, ∃ t, m.name = .text t ∧ True := fun m hm => (h m hm).imp fun t ht => ⟨ht, trivial⟩
  obtain ⟨names, hnames, hnodup, hlength, _⟩ :=
    forall_uniqueNames (P := fun _ => True) (fun _ _ _ => trivial) (fun _ => trivial) h'
  exact ⟨names, hnames, hnodup, hlength⟩

end Schema

end ContractApi
