import ContractApi.Proofs.Gate
/-!
# Where a parameter list is broken

Validation follows the members of tuples and arrays. A chain of parameters, each of them among the members of the one
before, leads from a list to what is listed deep inside it (`LeadsTo`).

- A list is invalid exactly if a chain of at most 65 parameters leads to something broken: no list, a list too deep, or a
  list with a parameter that has no type (`validParametersWithin_eq_false_iff`).
- Lists that differ only in what no chain goes through, or in the order of parameters, are both valid or both invalid
  (`SameChains.validParametersWithin_eq`).
-/

namespace ContractApi.Abi

/-! ## Chains -/

/-- Whether a type is that of tuples or of an array. -/
def HasMemberType (type : Text) : Prop := type = "tuple" ∨ ∃ t : Text, type = t ++ "]"

/-- Whether a value is an object with a type that is a text and not empty. -/
def IsTyped (p : Value) : Prop :=
  ∃ entries type, p = .object entries ∧ Value.lookup? "type" entries = some (.text type) ∧ type ≠ []

/-- Whether a parameter is followed to its members: it is a tuple or an array, and has an entry for them. -/
def IsFollowed (p members : Value) : Prop :=
  ∃ entries type, p = .object entries ∧ Value.lookup? "type" entries = some (.text type) ∧ HasMemberType type ∧
    Value.lookup? "components" entries = some members

/-- Whether a chain of `n` parameters that are followed leads from a list to a value. -/
inductive LeadsTo : (n : Nat) → (start found : Value) → Prop
  | here (v : Value) : LeadsTo 0 v v
  | into {parameters : List Value} {p members found : Value} {n : Nat} (hp : p ∈ parameters)
      (hf : IsFollowed p members) (h : LeadsTo n members found) : LeadsTo (n + 1) (.list parameters) found

/-- Whether a value is broken in the place of a list behind `n` parameters, if there may be `levels` levels of lists. -/
inductive BrokenAt (levels : Nat) : (n : Nat) → (found : Value) → Prop
  | noList {n : Nat} {v : Value} (hn : v ≠ .null) (hl : ∀ parameters, v ≠ .list parameters) : BrokenAt levels n v
  | tooDeep {v : Value} (hn : v ≠ .null) : BrokenAt levels levels v
  | untyped {n : Nat} {parameters : List Value} {p : Value} (hn : n < levels) (hp : p ∈ parameters)
      (ht : ¬IsTyped p) : BrokenAt levels n (.list parameters)

theorem brokenAt_succ {levels n : Nat} {v : Value} : BrokenAt (levels + 1) (n + 1) v ↔ BrokenAt levels n v := by
  constructor
  · intro h
    cases h with
    | noList hn hl => exact .noList hn hl
    | tooDeep hn => exact .tooDeep hn
    | untyped hn hp ht => exact .untyped (Nat.lt_of_succ_lt_succ hn) hp ht
  · intro h
    cases h with
    | noList hn hl => exact .noList hn hl
    | tooDeep hn => exact .tooDeep hn
    | untyped hn hp ht => exact .untyped (Nat.succ_lt_succ hn) hp ht

/-- A list that is missing leads to nothing that is broken. -/
theorem not_broken_below_null (levels : Nat) :
    ¬∃ n ≤ levels, ∃ found, LeadsTo n .null found ∧ BrokenAt levels n found := by
  rintro ⟨n, _, found, hlead, hbroken⟩
  cases hlead
  cases hbroken with
  | noList hn _ | tooDeep hn => exact hn rfl

/-! ## One parameter -/

theorem hasMembers_iff {type : Text} : hasMembers type = true ↔ HasMemberType type := by
  rw [hasMembers, Bool.or_eq_true, decide_eq_true_iff, decide_eq_true_iff, List.getLast?_eq_some_iff]
  rfl

/-- Whether a value is a well-formed parameter with at most `levels` levels of members. -/
def validParameter (levels : Nat) : Value → Bool
  | .object entries =>
    match Value.field "type" entries with
    | .text type =>
      !type.isEmpty &&
        (if hasMembers type then
          match Value.lookup? "components" entries with
          | some components => validParametersWithin levels components
          | none => true
        else true)
    | _ => false
  | _ => false

theorem validParametersWithin_list (levels : Nat) (parameters : List Value) :
    validParametersWithin (levels + 1) (.list parameters) = parameters.all (validParameter levels) := by
  rw [validParametersWithin]
  refine congrArg parameters.all (funext fun p => ?_)
  cases p <;> rfl

/-- A parameter with a type is as well formed as its members, if it is followed to them. -/
theorem validParameter_of_type (levels : Nat) {entries : List (Key × Value)} {type : Text} (hne : type ≠ [])
    (ht : Value.lookup? "type" entries = some (.text type)) : validParameter levels (.object entries) = true ↔
      ∀ members, IsFollowed (.object entries) members → validParametersWithin levels members = true := by
  have hfield : Value.field "type" entries = .text type := by rw [Value.field, ht, Option.getD_some]
  rw [validParameter, hfield]
  dsimp only
  rw [List.isEmpty_eq_false_iff.2 hne]
  by_cases hm : hasMembers type = true
  · rw [if_pos hm]
    cases hc : Value.lookup? "components" entries with
    | none =>
      refine iff_of_true rfl ?_
      rintro members ⟨_, _, he, _, _, hmembers⟩
      cases he
      cases hc.symm.trans hmembers
    | some components =>
      constructor
      · rintro h members ⟨_, _, he, _, _, hmembers⟩
        cases he
        cases hc.symm.trans hmembers
        exact h
      · exact fun h => h components ⟨entries, type, rfl, ht, hasMembers_iff.1 hm, hc⟩
  · rw [if_neg hm]
    refine iff_of_true rfl ?_
    rintro members ⟨_, type', he, ht', hm', _⟩
    cases he
    cases ht.symm.trans ht'
    exact absurd (hasMembers_iff.2 hm') hm

theorem validParameter_of_untyped (levels : Nat) {p : Value} (h : ¬IsTyped p) : validParameter levels p = false := by
  cases p with
  | object entries =>
    rw [validParameter]
    cases hf : Value.field "type" entries with
    | text type =>
      cases type with
      | nil => rfl
      | cons c type => exact absurd ⟨entries, _, rfl, lookup?_of_field (by simp) hf, List.cons_ne_nil c type⟩ h
    | _ => rfl
  | _ => rfl

/-- A parameter is not well formed exactly if it has no type, or is followed to members that are not. -/
theorem validParameter_eq_false_iff (levels : Nat) (p : Value) : validParameter levels p = false ↔
    ¬IsTyped p ∨ ∃ members, IsFollowed p members ∧ validParametersWithin levels members = false := by
  by_cases ht : IsTyped p
  · obtain ⟨entries, type, rfl, hl, hne⟩ := id ht
    rw [← Bool.not_eq_true, validParameter_of_type levels hne hl]
    simp [ht]
  · exact iff_of_true (validParameter_of_untyped levels ht) (.inl ht)

/-! ## Lists -/

theorem validParametersWithin_null (levels : Nat) : validParametersWithin levels .null = true := by
  cases levels <;> rfl

theorem validParametersWithin_zero {v : Value} (hn : v ≠ .null) : validParametersWithin 0 v = false := by
  cases v with
  | null => exact absurd rfl hn
  | _ => rfl

theorem validParametersWithin_of_noList (levels : Nat) {v : Value} (hn : v ≠ .null)
    (hl : ∀ parameters, v ≠ .list parameters) : validParametersWithin (levels + 1) v = false := by
  cases v with
  | null => exact absurd rfl hn
  | list parameters => exact absurd rfl (hl parameters)
  | _ => rfl

/-- A list is invalid exactly if a chain leads to something broken. -/
theorem validParametersWithin_eq_false_iff (levels : Nat) (v : Value) : validParametersWithin levels v = false ↔
    ∃ n ≤ levels, ∃ found, LeadsTo n v found ∧ BrokenAt levels n found := by
  induction levels generalizing v with
  | zero =>
    by_cases hn : v = .null
    · subst hn
      exact iff_of_false (by rw [validParametersWithin_null]; exact Bool.noConfusion) (not_broken_below_null 0)
    · exact iff_of_true (validParametersWithin_zero hn) ⟨0, Nat.le_refl 0, v, .here v, .tooDeep hn⟩
  | succ levels ih =>
    by_cases hn : v = .null
    · subst hn
      exact iff_of_false (by rw [validParametersWithin_null]; exact Bool.noConfusion) (not_broken_below_null _)
    by_cases hl : ∀ parameters, v ≠ .list parameters
    · exact iff_of_true (validParametersWithin_of_noList levels hn hl) ⟨0, Nat.zero_le _, v, .here v, .noList hn hl⟩
    obtain ⟨parameters, rfl⟩ := not_forall_not.1 hl
    rw [validParametersWithin_list, List.all_eq_false]
    simp only [Bool.not_eq_true, validParameter_eq_false_iff, ih]
    constructor
    · rintro ⟨p, hp, ht | ⟨members, hf, n, hle, found, hlead, hbroken⟩⟩
      · exact ⟨0, Nat.zero_le _, _, .here _, .untyped (Nat.succ_pos levels) hp ht⟩
      · exact ⟨n + 1, Nat.succ_le_succ hle, found, .into hp hf hlead, brokenAt_succ.2 hbroken⟩
    · rintro ⟨n, hle, found, hlead, hbroken⟩
      cases hlead with
      | here =>
        cases hbroken with
        | noList _ hl => exact absurd rfl (hl parameters)
        | untyped _ hp ht => exact ⟨_, hp, .inl ht⟩
      | into hp hf hlead =>
        exact ⟨_, hp, .inr ⟨_, hf, _, Nat.le_of_succ_le_succ hle, found, hlead, brokenAt_succ.1 hbroken⟩⟩

/-! ## What does not matter -/

/-- Whether two values differ only in the order of parameters and in what no chain goes through: all but the type and the
members of a parameter that is followed, and all but the presence of a type in any other. -/
inductive SameChains : Value → Value → Prop
  | refl (v : Value) : SameChains v v
  | trans {u v w : Value} (h : SameChains u v) (h' : SameChains v w) : SameChains u w
  | reordered {ps qs : List Value} (h : ps.Perm qs) : SameChains (.list ps) (.list qs)
  | unfollowed {before after : List Value} {p p' : Value} (ht : IsTyped p) (ht' : IsTyped p')
      (hf : ∀ members, ¬IsFollowed p members) (hf' : ∀ members, ¬IsFollowed p' members) :
      SameChains (.list (before ++ p :: after)) (.list (before ++ p' :: after))
  | followed {before after : List Value} {p p' members members' : Value} (hf : IsFollowed p members)
      (hf' : IsFollowed p' members') (h : SameChains members members') :
      SameChains (.list (before ++ p :: after)) (.list (before ++ p' :: after))

theorem IsFollowed.unique {p members members' : Value} (h : IsFollowed p members) (h' : IsFollowed p members') :
    members = members' := by
  obtain ⟨entries, _, rfl, _, _, hm⟩ := h
  obtain ⟨_, _, he, _, _, hm'⟩ := h'
  cases he
  exact Option.some.inj (hm.symm.trans hm')

theorem IsFollowed.isTyped {p members : Value} (h : IsFollowed p members) : IsTyped p := by
  obtain ⟨entries, type, rfl, ht, hm, _⟩ := h
  refine ⟨entries, type, rfl, ht, ?_⟩
  rintro rfl
  rcases hm with h | ⟨t, h⟩
  · cases h
  · exact List.append_ne_nil_of_right_ne_nil t (by decide) h.symm

/-- A parameter that is not followed is well formed exactly if it has a type. -/
theorem validParameter_of_unfollowed (levels : Nat) {p : Value} (ht : IsTyped p)
    (hf : ∀ members, ¬IsFollowed p members) : validParameter levels p = true := by
  rw [← Bool.not_eq_false, validParameter_eq_false_iff]
  rintro (h | ⟨members, h, _⟩)
  · exact h ht
  · exact hf members h

/-- A parameter that is followed is as well formed as its members. -/
theorem validParameter_of_followed (levels : Nat) {p members : Value} (hf : IsFollowed p members) :
    validParameter levels p = validParametersWithin levels members := by
  rw [Bool.eq_iff_iff, ← Bool.not_eq_false, ← Bool.not_eq_false, validParameter_eq_false_iff, not_iff_not]
  constructor
  · rintro (h | ⟨members', hf', h⟩)
    · exact absurd hf.isTyped h
    · rwa [hf.unique hf']
  · exact fun h => .inr ⟨members, hf, h⟩

/-- A list in which one parameter is replaced by another that is as well formed. -/
theorem validParametersWithin_replace {levels : Nat} {p p' : Value} (before after : List Value)
    (h : ∀ levels', validParameter levels' p = validParameter levels' p') :
    validParametersWithin levels (.list (before ++ p :: after)) =
      validParametersWithin levels (.list (before ++ p' :: after)) := by
  cases levels with
  | zero => rfl
  | succ levels =>
    rw [validParametersWithin_list, validParametersWithin_list, List.all_append, List.all_append, List.all_cons,
      List.all_cons, h levels]

/-- What differs only in what is not followed and in the order of parameters is valid alike. -/
theorem SameChains.validParametersWithin_eq {v v' : Value} (h : SameChains v v') (levels : Nat) :
    validParametersWithin levels v = validParametersWithin levels v' := by
  induction h generalizing levels with
  | refl v => rfl
  | trans _ _ ih ih' => exact (ih levels).trans (ih' levels)
  | reordered hperm =>
    cases levels with
    | zero => rfl
    | succ levels =>
      rw [validParametersWithin_list, validParametersWithin_list]
      exact hperm.all_eq
  | unfollowed ht ht' hf hf' =>
    refine validParametersWithin_replace _ _ fun levels' => ?_
    rw [validParameter_of_unfollowed levels' ht hf, validParameter_of_unfollowed levels' ht' hf']
  | followed hf hf' _ ih =>
    refine validParametersWithin_replace _ _ fun levels' => ?_
    rw [validParameter_of_followed levels' hf, validParameter_of_followed levels' hf', ih levels']

/-- A parameter list is rejected exactly if a chain of at most 65 parameters, which are tuples or arrays with members,
leads from it to something broken: to what is neither missing nor a list, to anything behind 65 parameters, or to a list
with a parameter that has no type. Nothing else matters, and neither does the order of the parameters. -/
theorem validParameters_eq_false_iff (v : Value) :
    (validParameters v = false ↔
      ∃ n ≤ maxDepth + 1, ∃ found, LeadsTo n v found ∧ BrokenAt (maxDepth + 1) n found) ∧
    ∀ v', SameChains v v' → validParameters v' = validParameters v :=
  ⟨validParametersWithin_eq_false_iff (maxDepth + 1) v, fun _ h => (h.validParametersWithin_eq (maxDepth + 1)).symm⟩

/-- A list that is one level too deep is broken even if it is empty. -/
example : validParametersWithin 1 (.list [.object [("type", "tuple"), ("components", .list [])]]) = false := by decide

end ContractApi.Abi
